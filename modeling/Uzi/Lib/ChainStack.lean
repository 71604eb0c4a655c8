import Mathlib.Logic.Function.Basic
import Mathlib.Tactic.Common

/-!
# Stacks spilled into the cells they hold

A stack of cells kept in a record of bounded size: a count and the entries below it. When the record
is full, it is stored in the cell that is pushed, and starts again with this one cell; when the last
entry is popped, the record is loaded from the cell popped. The entry `nil` ends the stack.

`Chain C nil cell r L`: popping from `r` gives the cells `L`, top first.
-/

namespace ChainStack

/-- The record: the entries below `count`. -/
structure Rec (N : Type) where
  count : Nat
  entry : Nat → N

variable {N : Type}

/-- The stack that popping from a record gives. -/
inductive Chain (C : Nat) (nil : N) (cell : N → Rec N) : Rec N → List N → Prop
  | stop {r k} (count : r.count = k + 1) (bound : k < C) (last : r.entry k = nil) :
    Chain C nil cell r []
  | pop {r k L} (count : r.count = k + 2) (bound : k + 1 < C) (ne : r.entry (k + 1) ≠ nil)
      (rest : Chain C nil cell ⟨k + 1, r.entry⟩ L) : Chain C nil cell r (r.entry (k + 1) :: L)
  | refill {r L} (count : r.count = 1) (bound : 0 < C) (ne : r.entry 0 ≠ nil)
      (rest : Chain C nil cell (cell (r.entry 0)) L) : Chain C nil cell r (r.entry 0 :: L)

namespace Chain

variable {C : Nat} {nil : N} {cell cell' : N → Rec N} {r r' : Rec N} {x : N} {L : List N}

/-- The count of a record that is in order. -/
lemma count_pos (h : Chain C nil cell r L) : 0 < r.count ∧ r.count ≤ C := by
  cases h <;> omega

/-- No cell of the stack is `nil`. -/
lemma ne_nil (h : Chain C nil cell r L) : ∀ x ∈ L, x ≠ nil := by
  induction h with
  | stop => simp
  | pop _ _ ne _ ih => exact List.forall_mem_cons.mpr ⟨ne, ih⟩
  | refill _ _ ne _ ih => exact List.forall_mem_cons.mpr ⟨ne, ih⟩

/-- The top of an empty stack is `nil`. -/
lemma top_nil (h : Chain C nil cell r []) : r.entry (r.count - 1) = nil := by
  cases h with
  | stop count _ last =>
    rw [count]
    exact last

/-- The top of a stack. -/
lemma top_cons (h : Chain C nil cell r (x :: L)) : r.entry (r.count - 1) = x ∧ x ≠ nil := by
  cases h with
  | pop count _ ne _ =>
    rw [count]
    exact ⟨rfl, ne⟩
  | refill count _ ne _ =>
    rw [count]
    exact ⟨rfl, ne⟩

/-- The stack that is left when the record still has entries. -/
lemma pop_rest (h : Chain C nil cell r (x :: L)) (more : r.count - 1 ≠ 0) :
    Chain C nil cell ⟨r.count - 1, r.entry⟩ L := by
  cases h with
  | pop count _ _ rest =>
    rw [count]
    exact rest
  | refill count => omega

/-- The stack that is left when the record is loaded from the cell popped. -/
lemma refill_rest (h : Chain C nil cell r (x :: L)) (last : r.count - 1 = 0) :
    Chain C nil cell (cell x) L := by
  cases h with
  | pop count => omega
  | refill _ _ _ rest => exact rest

/-- A stack depends on the entries below the counts only. -/
lemma congr (h : Chain C nil cell r L) (count : r'.count = r.count)
    (entry : ∀ i < r.count, r'.entry i = r.entry i)
    (cells : ∀ x ∈ L, (cell' x).count = (cell x).count ∧
      ∀ i < C, (cell' x).entry i = (cell x).entry i) : Chain C nil cell' r' L := by
  induction h generalizing r' with
  | @stop r k hc hb hl =>
    refine .stop (count.trans hc) hb ?_
    rw [entry k (by omega), hl]
  | @pop r k L hc hb ne rest ih =>
    rw [← entry (k + 1) (by omega)] at ne ⊢
    refine .pop (count.trans hc) hb ne (ih rfl ?_ fun x hx => cells x (List.mem_cons_of_mem _ hx))
    exact fun i (hi : i < k + 1) => entry i (by omega)
  | @refill r L hc hb ne rest ih =>
    obtain ⟨cc, ce⟩ := cells (r.entry 0) (List.mem_cons_self ..)
    rw [← entry 0 (by omega)] at ne ⊢
    refine .refill (count.trans hc) hb ne ?_
    rw [entry 0 (by omega)]
    refine ih cc (fun i hi => ce i (Nat.lt_of_lt_of_le hi (count_pos rest).2)) fun x hx => ?_
    exact cells x (List.mem_cons_of_mem _ hx)

/-- The cells outside the stack do not matter. -/
lemma of_cells (h : Chain C nil cell r L) (cells : ∀ x ∈ L, cell' x = cell x) :
    Chain C nil cell' r L :=
  h.congr rfl (fun _ _ => rfl) fun x hx => by
    rw [cells x hx]
    exact ⟨rfl, fun _ _ => rfl⟩

/-- A cell is pushed while there is room in the record. -/
lemma push (h : Chain C nil cell r L) (ne : x ≠ nil) (room : r.count < C) :
    Chain C nil cell ⟨r.count + 1, Function.update r.entry r.count x⟩ (x :: L) := by
  obtain ⟨k, hk⟩ : ∃ k, r.count = k + 1 := ⟨r.count - 1, by have := h.count_pos; omega⟩
  have top : Function.update r.entry r.count x (k + 1) = x := by rw [hk, Function.update_self]
  have rest : Chain C nil cell ⟨k + 1, Function.update r.entry r.count x⟩ L := by
    refine h.congr hk.symm (fun i hi => ?_) fun x _ => ⟨rfl, fun _ _ => rfl⟩
    exact Function.update_of_ne (Nat.ne_of_lt hi) _ _
  have p : Chain C nil cell ⟨r.count + 1, Function.update r.entry r.count x⟩
      (Function.update r.entry r.count x (k + 1) :: L) :=
    .pop (by rw [hk]) (by omega) (fun e => ne (top.symm.trans e)) rest
  rwa [top] at p

/-- A cell is pushed on a full record, which is stored in it. -/
lemma spill (h : Chain C nil cell r L) (ne : x ≠ nil) (hC : 0 < C) (fresh : x ∉ L)
    (stored : (cell' x).count = r.count ∧ ∀ i < r.count, (cell' x).entry i = r.entry i)
    (others : ∀ y ≠ x, cell' y = cell y) (count : r'.count = 1) (entry : r'.entry 0 = x) :
    Chain C nil cell' r' (x :: L) := by
  have rest : Chain C nil cell' (cell' x) L := by
    refine (h.of_cells fun y hy => others y ?_).congr stored.1 stored.2 fun _ _ => ⟨rfl, fun _ _ => rfl⟩
    rintro rfl
    exact fresh hy
  have p : Chain C nil cell' r' (r'.entry 0 :: L) := .refill count hC (by rw [entry]; exact ne)
    (by rw [entry]; exact rest)
  rwa [entry] at p

end Chain

end ChainStack
