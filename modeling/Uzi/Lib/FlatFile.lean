import Mathlib.Algebra.GroupWithZero.Nat
import Mathlib.Data.List.Range
import Mathlib.Data.List.TakeDrop
import Mathlib.Logic.Function.Basic

/-!
# Flat files

What files are for: each is a row of cells with a size, and positions move along them while they are read and
written. `Files.Run` is what may be seen of a system of files: every read gives what is there. It follows that the
pieces in which a file is written and read do not matter, and that what happens to other files does not.
-/

namespace FlatFile

variable {ι κ β : Type}

/-! ## Cells -/

/-- The `n` cells from `p` on. -/
def slice (f : Nat → β) (p n : Nat) : List β := (List.range n).map fun k => f (p + k)

/-- The cells with `data` from `p` on. -/
def overwrite (f : Nat → β) (p : Nat) (data : List β) : Nat → β := fun q =>
  if p ≤ q then data[q - p]?.getD (f q) else f q

section Cells

variable {f g : Nat → β} {p m n q : Nat} {a b : List β}

/-- The length of a slice. -/
@[simp] lemma length_slice : (slice f p n).length = n := by
  rw [slice, List.length_map, List.length_range]

/-- An empty slice. -/
@[simp] lemma slice_zero : slice f p 0 = [] := rfl

/-- Nothing is overwritten. -/
@[simp] lemma overwrite_nil : overwrite f p [] = f := by
  funext q
  rw [overwrite]
  split <;> rfl

/-- An element of a slice. -/
lemma getElem?_slice : (slice f p n)[q]? = if q < n then some (f (p + q)) else none := by
  rw [slice, List.getElem?_map]
  split
  · next lt =>
    rw [List.getElem?_range lt]
    rfl
  · next ge =>
    rw [List.getElem?_eq_none (List.length_range.trans_le (Nat.le_of_not_lt ge))]
    rfl

/-- Two pieces, one behind the other. -/
lemma slice_add : slice f p (m + n) = slice f p m ++ slice f (p + m) n := by
  rw [slice, List.range_add, List.map_append, List.map_map]
  refine congrArg _ (List.map_congr_left fun k _ => ?_)
  rw [Function.comp, Nat.add_assoc]

/-- Slices with the same elements. -/
lemma slice_congr (h : ∀ k < n, f (p + k) = g (q + k)) : slice f p n = slice g q n :=
  List.map_congr_left fun k hk => h k (List.mem_range.mp hk)

/-- The cells that are written from a slice. -/
lemma overwrite_slice : overwrite f p (slice g m n) = fun q => if p ≤ q ∧ q < p + n then g (m + (q - p)) else f q := by
  funext q
  rw [overwrite, getElem?_slice]
  by_cases le : p ≤ q
  · rw [if_pos le]
    by_cases lt : q - p < n
    · rw [if_pos lt, if_pos ⟨le, by omega⟩]
      rfl
    · rw [if_neg lt, if_neg (by omega)]
      rfl
  · rw [if_neg le, if_neg (by omega)]

/-- Two pieces are written one behind the other. -/
lemma overwrite_append : overwrite (overwrite f p a) (p + a.length) b = overwrite f p (a ++ b) := by
  funext q
  rw [overwrite, overwrite, overwrite]
  by_cases le : p ≤ q
  · rw [if_pos le, if_pos le]
    by_cases first : q - p < a.length
    · rw [if_neg (by omega), List.getElem?_append_left first]
    · rw [if_pos (by omega), List.getElem?_append_right (by omega),
        List.getElem?_eq_none (Nat.le_of_not_lt first)]
      exact congrArg (fun k => b[k]?.getD (f q)) (by omega)
  · rw [if_neg (by omega), if_neg le, if_neg le]

/-- One element after the other. -/
lemma overwrite_cons {b : β} : overwrite (overwrite f p [b]) (p + 1) a = overwrite f p (b :: a) :=
  overwrite_append (a := [b])

/-- What has been written is there. -/
lemma slice_overwrite (le : n ≤ a.length) : slice (overwrite f p a) p n = a.take n := by
  refine List.ext_getElem? fun k => ?_
  rw [getElem?_slice, List.getElem?_take]
  split
  · next lt =>
    rw [overwrite, if_pos (Nat.le_add_right p k), Nat.add_sub_cancel_left,
      List.getElem?_eq_getElem (Nat.lt_of_lt_of_le lt le)]
    rfl
  · rfl

end Cells

/-! ## Files and what happens to them -/

/-- The cells of the files `ι`, their sizes, and the positions `κ`. -/
structure Files (ι κ β : Type) where
  bytes : ι → Nat → β
  size : ι → Nat
  pos : κ → Nat

/-- Something happens at a position: a read of at most `n` cells gives `data`, `data` are written, or the position is
moved. -/
inductive Action (ι κ β : Type)
  | read (j : κ) (i : ι) (n : Nat) (data : List β)
  | write (j : κ) (i : ι) (data : List β)
  | seek (j : κ) (p : Nat)

namespace Action

variable [DecidableEq κ]

/-- The position that it happens at. -/
def place : Action ι κ β → κ
  | read j .. => j
  | write j .. => j
  | seek j _ => j

/-- The file `i` is written. -/
def Writes (i : ι) : Action ι κ β → Prop
  | write _ i' _ => i' = i
  | _ => False

/-- What is read at `j`. -/
def got (j : κ) : Action ι κ β → List β
  | read j' _ _ data => if j' = j then data else []
  | _ => []

/-- How much is asked for at `j`. -/
def asked (j : κ) : Action ι κ β → Nat
  | read j' _ n _ => if j' = j then n else 0
  | _ => 0

/-- What is written at `j`. -/
def put (j : κ) : Action ι κ β → List β
  | write j' _ data => if j' = j then data else []
  | _ => []

end Action

namespace Files

variable [DecidableEq ι] [DecidableEq κ]

/-- The position `j` is `p`. -/
def moved (f : Files ι κ β) (j : κ) (p : Nat) : Files ι κ β := { f with pos := Function.update f.pos j p }

/-- The files after an action. -/
def after (f : Files ι κ β) : Action ι κ β → Files ι κ β
  | .read j _ _ data => f.moved j (f.pos j + data.length)
  | .write j i data =>
    { f.moved j (f.pos j + data.length) with
      bytes := Function.update f.bytes i (overwrite (f.bytes i) (f.pos j) data)
      size := Function.update f.size i (max (f.size i) (f.pos j + data.length)) }
  | .seek j p => f.moved j p

/-- A read gives what is there, up to the end of the file. -/
def Allows (f : Files ι κ β) : Action ι κ β → Prop
  | .read j i n data => data = slice (f.bytes i) (f.pos j) (min n (f.size i - f.pos j))
  | _ => True

/-- The actions that may be seen, in their order. -/
inductive Run (f : Files ι κ β) : List (Action ι κ β) → Files ι κ β → Prop
  | start : Run f [] f
  | next {es : List (Action ι κ β)} {f' : Files ι κ β} {e : Action ι κ β} (before : Run f es f') (gives : f'.Allows e) :
    Run f (es ++ [e]) (f'.after e)

variable {f f' f'' : Files ι κ β} {es es' : List (Action ι κ β)} {e : Action ι κ β} {i : ι} {j j' : κ} {p : Nat}

/-- The position of another action stays. -/
lemma pos_after (ne : e.place ≠ j) : (f.after e).pos j = f.pos j := by
  cases e with
  | read => exact Function.update_of_ne (Ne.symm ne) _ _
  | write => exact Function.update_of_ne (Ne.symm ne) _ _
  | seek => exact Function.update_of_ne (Ne.symm ne) _ _

/-- A file that is not written stays as it is. -/
lemma file_after (h : ¬ e.Writes i) : (f.after e).bytes i = f.bytes i ∧ (f.after e).size i = f.size i := by
  cases e with
  | read => exact ⟨rfl, rfl⟩
  | write j i' data =>
    have ne : i ≠ i' := fun e => h e.symm
    exact ⟨Function.update_of_ne ne _ _, Function.update_of_ne ne _ _⟩
  | seek => exact ⟨rfl, rfl⟩

/-- A file that is not written is as before. -/
lemma Run.file (run : f.Run es f') (h : ∀ e ∈ es, ¬ e.Writes i) : f'.bytes i = f.bytes i ∧ f'.size i = f.size i := by
  induction run with
  | start => exact ⟨rfl, rfl⟩
  | @next es f' e before gives ih =>
    obtain ⟨bytes, size⟩ := ih fun e he => h e (List.mem_append_left _ he)
    obtain ⟨bytes', size'⟩ := file_after (f := f') (h e (List.mem_append_right _ (List.mem_singleton_self e)))
    exact ⟨bytes'.trans bytes, size'.trans size⟩

/-- The reads at a position give the file piece by piece. -/
lemma Run.reads (run : f.Run es f') (unwritten : ∀ e ∈ es, ¬ e.Writes i)
    (reads : ∀ e ∈ es, e.place = j → ∃ n data, e = .read j i n data) :
    es.flatMap (Action.got j) = slice (f.bytes i) (f.pos j) (min (es.map (Action.asked j)).sum (f.size i - f.pos j)) ∧
      f'.pos j = f.pos j + min (es.map (Action.asked j)).sum (f.size i - f.pos j) := by
  induction run with
  | start =>
    rw [List.map_nil, List.sum_nil, Nat.zero_min]
    exact ⟨rfl, rfl⟩
  | @next es f' e before gives ih =>
    have inside : ∀ e' ∈ es, e' ∈ es ++ [e] := fun e' he => List.mem_append_left _ he
    have last : e ∈ es ++ [e] := List.mem_append_right _ (List.mem_singleton_self e)
    obtain ⟨got, pos⟩ := ih (fun e he => unwritten e (inside e he)) fun e he => reads e (inside e he)
    obtain ⟨bytes, size⟩ := before.file fun e he => unwritten e (inside e he)
    rw [List.flatMap_append, List.flatMap_singleton, List.map_append, List.map_singleton, List.sum_append,
      List.sum_singleton, got]
    by_cases here : e.place = j
    · obtain ⟨n, data, rfl⟩ := reads e last here
      have data_eq : data = slice (f'.bytes i) (f'.pos j) (min n (f'.size i - f'.pos j)) := gives
      have split : min ((es.map (Action.asked j)).sum + n) (f.size i - f.pos j) =
          min (es.map (Action.asked j)).sum (f.size i - f.pos j) + min n (f'.size i - f'.pos j) := by
        rw [size, pos]
        omega
      rw [Action.got, Action.asked, if_pos rfl, if_pos rfl, split, slice_add, ← pos, data_eq, bytes]
      refine ⟨rfl, (Function.update_self ..).trans ?_⟩
      rw [length_slice, pos, Nat.add_assoc]
    · have none : e.got j = [] ∧ e.asked j = 0 := by
        cases e with
        | read => exact ⟨if_neg here, if_neg here⟩
        | write => exact ⟨rfl, rfl⟩
        | seek => exact ⟨rfl, rfl⟩
      rw [none.1, none.2, List.append_nil, Nat.add_zero, pos_after here]
      exact ⟨rfl, pos⟩

/-- The writes at a position put one piece behind the other. -/
lemma Run.writes (run : f.Run es f') (alone : ∀ e ∈ es, e.Writes i → e.place = j)
    (writes : ∀ e ∈ es, e.place = j → ∃ data, e = .write j i data) (le : f.pos j ≤ f.size i) :
    f'.bytes i = overwrite (f.bytes i) (f.pos j) (es.flatMap (Action.put j)) ∧
      f'.pos j = f.pos j + (es.flatMap (Action.put j)).length ∧
      f'.size i = max (f.size i) (f.pos j + (es.flatMap (Action.put j)).length) := by
  induction run with
  | start => exact ⟨overwrite_nil.symm, rfl, (max_eq_left le).symm⟩
  | @next es f' e before gives ih =>
    have inside : ∀ e' ∈ es, e' ∈ es ++ [e] := fun e' he => List.mem_append_left _ he
    have last : e ∈ es ++ [e] := List.mem_append_right _ (List.mem_singleton_self e)
    obtain ⟨bytes, pos, size⟩ := ih (fun e he => alone e (inside e he)) fun e he => writes e (inside e he)
    rw [List.flatMap_append, List.flatMap_singleton, List.length_append]
    by_cases here : e.place = j
    · obtain ⟨data, rfl⟩ := writes e last here
      rw [Action.put, if_pos rfl, ← overwrite_append, ← bytes, ← pos]
      refine ⟨Function.update_self .., (Function.update_self ..).trans ?_, (Function.update_self ..).trans ?_⟩
      · rw [pos, Nat.add_assoc]
      · rw [size, pos]
        omega
    · have none : e.put j = [] := by
        cases e with
        | read => rfl
        | write => exact if_neg here
        | seek => rfl
      obtain ⟨bytes', size'⟩ := file_after (f := f') (mt (alone e last) here)
      rw [none, List.append_nil, List.length_nil, Nat.add_zero, pos_after here]
      exact ⟨bytes'.trans bytes, pos, size'.trans size⟩

/-- What has been written to the end of a file in some pieces is read in others. -/
lemma Run.written_read (writing : f.Run es f') (reading : f'.Run es' f'')
    (alone : ∀ e ∈ es, e.Writes i → e.place = j) (writes : ∀ e ∈ es, e.place = j → ∃ data, e = .write j i data)
    (unwritten : ∀ e ∈ es', ¬ e.Writes i) (reads : ∀ e ∈ es', e.place = j' → ∃ n data, e = .read j' i n data)
    (le : f.pos j ≤ f.size i) (covered : f.size i ≤ f.pos j + (es.flatMap (Action.put j)).length)
    (same : f'.pos j' = f.pos j) :
    es'.flatMap (Action.got j') = (es.flatMap (Action.put j)).take (es'.map (Action.asked j')).sum := by
  obtain ⟨bytes, -, size⟩ := writing.writes alone writes le
  obtain ⟨got, -⟩ := reading.reads unwritten reads
  have rest : f'.size i - f'.pos j' = (es.flatMap (Action.put j)).length := by
    rw [size, same, max_eq_right covered, Nat.add_sub_cancel_left]
  rw [got, rest, bytes, same, slice_overwrite (Nat.min_le_right _ _), List.take_eq_take_iff]
  omega

end Files

end FlatFile
