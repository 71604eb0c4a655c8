import Mathlib.Algebra.BigOperators.Group.Finset.Basic
import Mathlib.Algebra.BigOperators.Group.Finset.Piecewise
import Mathlib.Algebra.BigOperators.Group.Multiset.Defs
import Mathlib.Algebra.Order.BigOperators.Group.Finset
import Mathlib.Data.Fintype.BigOperators
import Mathlib.Tactic.Common

/-!
# Reference counts

A table of references `f`, and the number `refs f y` of those that refer to `y`.
-/

namespace RefCount

variable {J V : Type} [Fintype J] [DecidableEq J] [DecidableEq V] {f : J → V} {j : J} {x y : V}

/-- How many references are to `y`. -/
def refs (f : J → V) (y : V) : Nat := (Finset.univ.filter fun j => f j = y).card

omit [DecidableEq J] in
/-- The references, as a sum. -/
lemma refs_eq_sum : refs f y = ∑ j, if f j = y then 1 else 0 := Finset.card_filter _ _

/-- One reference is replaced by another. -/
lemma refs_update :
    refs (Function.update f j x) y + (if f j = y then 1 else 0) =
      refs f y + (if x = y then 1 else 0) := by
  have others : ∀ k ∈ Finset.univ.erase j,
      (if Function.update f j x k = y then 1 else 0) = if f k = y then 1 else 0 := by
    intro k hk
    rw [Function.update_of_ne (Finset.ne_of_mem_erase hk)]
  have split : ∀ g : J → V, refs g y = (if g j = y then 1 else 0) +
      ∑ k ∈ Finset.univ.erase j, if g k = y then 1 else 0 := by
    intro g
    rw [refs_eq_sum]
    exact (Finset.add_sum_erase _ _ (Finset.mem_univ j)).symm
  rw [split, split, Finset.sum_congr rfl others, Function.update_self]
  omega

omit [DecidableEq J] in
/-- There are not more references than entries. -/
lemma refs_le : refs f y ≤ Fintype.card J := Finset.card_filter_le _ _

omit [DecidableEq J] in
/-- An entry is a reference. -/
lemma refs_pos (h : f j = y) : 0 < refs f y :=
  Finset.card_pos.mpr ⟨j, Finset.mem_filter.mpr ⟨Finset.mem_univ j, h⟩⟩

omit [DecidableEq J] in
/-- No entry, no reference. -/
lemma refs_eq_zero (h : ∀ j, f j ≠ y) : refs f y = 0 :=
  Finset.card_eq_zero.mpr (Finset.filter_eq_empty_iff.mpr fun j _ => h j)

/-- The references as a count over a list of all references. -/
lemma refs_eq_countP {n : Nat} {f : Fin n → V} : refs f y = (List.finRange n).countP fun j => f j = y := by
  unfold refs
  rw [Fin.univ_def, List.countP_eq_length_filter]
  rfl

section Tally

variable [Fintype V]

/-- The multiset that has every `v` as often as `f` says. -/
def tally (f : V → Nat) : Multiset V := ∑ v, Multiset.replicate (f v) v

/-- A tally counts. -/
lemma count_tally {f : V → Nat} {v : V} : (tally f).count v = f v := by
  unfold tally
  rw [Multiset.count_sum', Finset.sum_eq_single v]
  · exact Multiset.count_replicate_self v _
  · intro w _ ne
    rw [Multiset.count_replicate, if_neg ne]
  · exact fun no => absurd (Finset.mem_univ v) no

/-- What is in a tally. -/
lemma mem_tally {f : V → Nat} {v : V} : v ∈ tally f ↔ f v ≠ 0 := by
  rw [← Multiset.count_ne_zero, count_tally]

end Tally

end RefCount
