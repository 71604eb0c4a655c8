import Mathlib.Algebra.GroupWithZero.Nat
import Mathlib.Algebra.Order.BigOperators.Group.List
import Mathlib.Algebra.BigOperators.Group.List.Basic
import Mathlib.Algebra.Order.Group.Nat
import Mathlib.Data.List.Nodup
import Mathlib.Tactic.Common

/-!
# Descents

What is reached from a node when `next` is followed to a depth, in preorder and as often as it is reached, and the sum
of a weight over it. Of two descents, where one follows less and weighs less, the sums are equal for every weight only
if both follow the same everywhere.
-/

namespace Descent

variable {N ι : Type} {next next' : N → List N} {w w' : N → Nat} {depth : Nat} {n m : N}

/-- The nodes that are reached from `n` in less than `depth` steps. -/
def reached (next : N → List N) : (depth : Nat) → N → List N
  | 0, _ => []
  | depth + 1, n => n :: (next n).flatMap (reached next depth)

/-- The weight of the nodes that are reached. -/
def total (next : N → List N) (w : N → Nat) (depth : Nat) (n : N) : Nat := ((reached next depth n).map w).sum

/-- Nothing is reached without depth. -/
@[simp] lemma total_zero : total next w 0 n = 0 := rfl

/-- A node, and what is below it. -/
lemma total_succ : total next w (depth + 1) n = w n + ((next n).map (total next w depth)).sum := by
  have each : ∀ ns : List N, ((ns.flatMap (reached next depth)).map w).sum = (ns.map (total next w depth)).sum := by
    intro ns
    induction ns with
    | nil => rfl
    | cons n ns ih =>
      rw [List.flatMap_cons, List.map_append, List.sum_append, ih, List.map_cons, List.sum_cons]
      rfl
  rw [total, reached, List.map_cons, List.sum_cons, each]

/-- A node reaches itself. -/
lemma self_reached : n ∈ reached next (depth + 1) n := List.mem_cons_self

/-- What is reached from the next node. -/
lemma reached_next (step : m ∈ next n) {k : N} (h : k ∈ reached next depth m) : k ∈ reached next (depth + 1) n :=
  List.mem_cons_of_mem _ (List.mem_flatMap.mpr ⟨m, step, h⟩)

/-- A part of the descent that does not come twice to a node. -/
lemma nodup_next (h : (reached next (depth + 1) n).Nodup) (step : m ∈ next n) : (reached next depth m).Nodup :=
  (List.nodup_flatMap.mp (List.nodup_cons.mp h).2).1 m step

/-- A descent that does not come twice to a node does not come back. -/
lemma not_reached_self (h : (reached next (depth + 1) n).Nodup) (step : m ∈ next n) : n ∉ reached next depth m :=
  fun mem => (List.nodup_cons.mp h).1 (List.mem_flatMap.mpr ⟨m, step, mem⟩)

/-- A successor from which it does not come back is another node. -/
lemma ne_of_step (h : (reached next (depth + 1) n).Nodup) (step : m ∈ next n) (here : m ∈ reached next depth m) :
    m ≠ n := by
  rintro rfl
  exact not_reached_self h step here

/-- Where every node reached has the same weight and successors, the sums are equal. -/
lemma total_congr (same : ∀ m ∈ reached next' depth n, w m = w' m ∧ next m = next' m) :
    total next w depth n = total next' w' depth n := by
  induction depth generalizing n with
  | zero => rfl
  | succ depth ih =>
    have own := same n self_reached
    rw [total_succ, total_succ, own.1, own.2]
    refine congrArg (w' n + ·) (congrArg List.sum (List.map_congr_left fun m step => ih fun k mem => ?_))
    exact same k (reached_next step mem)

/-- Where less is followed and weighed, the sum is less. -/
lemma total_le (weight : ∀ m, w m ≤ w' m) (sub : ∀ m, (next m).Sublist (next' m)) :
    total next w depth n ≤ total next' w' depth n := by
  induction depth generalizing n with
  | zero => exact Nat.le_refl 0
  | succ depth ih =>
    rw [total_succ, total_succ]
    refine Nat.add_le_add (weight n) ?_
    calc ((next n).map (total next w depth)).sum
      _ ≤ ((next n).map (total next' w' depth)).sum := List.sum_le_sum fun m _ => ih
      _ ≤ ((next' n).map (total next' w' depth)).sum := ((sub n).map _).sum_le_sum fun _ _ => Nat.zero_le _

/-- Sums over one list are equal, term by term, when the terms are in order. -/
lemma eq_of_sum_eq {ns : List N} (le : ∀ m ∈ ns, w m ≤ w' m) (sums : (ns.map w).sum = (ns.map w').sum) :
    ∀ m ∈ ns, w m = w' m := by
  intro m mem
  by_contra ne
  exact absurd sums (List.sum_lt_sum _ _ le ⟨m, mem, lt_of_le_of_ne (le m mem) ne⟩).ne

/-- A family of weights whose sums do not tell the descents apart does not tell them apart at any node. -/
lemma weight_eq {f g : ι → N → Nat} (weight : ∀ i m, f i m ≤ g i m) (sub : ∀ m, (next m).Sublist (next' m))
    (follow : ∀ m ∈ reached next' depth n, (∀ i, f i m = g i m) → next m = next' m)
    (sums : ∀ i, total next (f i) depth n = total next' (g i) depth n) :
    ∀ m ∈ reached next' depth n, ∀ i, f i m = g i m := by
  induction depth generalizing n with
  | zero => exact fun m mem => absurd mem List.not_mem_nil
  | succ depth ih =>
    have below : ∀ i, ((next n).map (total next (f i) depth)).sum ≤ ((next' n).map (total next' (g i) depth)).sum := by
      intro i
      calc ((next n).map (total next (f i) depth)).sum
        _ ≤ ((next n).map (total next' (g i) depth)).sum := List.sum_le_sum fun m _ => total_le (weight i) sub
        _ ≤ ((next' n).map (total next' (g i) depth)).sum := ((sub n).map _).sum_le_sum fun _ _ => Nat.zero_le _
    have parts : ∀ i, f i n = g i n ∧
        ((next n).map (total next (f i) depth)).sum = ((next' n).map (total next' (g i) depth)).sum := by
      intro i
      have whole := sums i
      rw [total_succ, total_succ] at whole
      have own := weight i n
      have rest := below i
      omega
    have same := follow n self_reached fun i => (parts i).1
    intro m mem
    cases List.mem_cons.mp mem with
    | inl own =>
      subst own
      exact fun i => (parts i).1
    | inr later =>
      obtain ⟨k, step, mem⟩ := List.mem_flatMap.mp later
      refine ih (fun m mem => follow m (reached_next step mem)) (fun i => ?_) m mem
      have equal := (parts i).2
      rw [same] at equal
      exact eq_of_sum_eq (fun m _ => total_le (weight i) sub) equal k step

end Descent
