import Mathlib.Data.BitVec
import Mathlib.Data.Nat.Cast.Defs

/-!
# Memory with wrapping addresses

A memory whose addresses are bit vectors of width `w`, so that the address behind the last one is the
first again. An address is looked at by its distance from a base: a block of the memory that is
shorter than the address space has at distance `i` what it is given there, and the addresses at
other distances keep what they have.

`Lies m p l` says that the list `l` is in the memory `m` from `p` on. It is stated for any addresses
that can be counted up, so that a buffer with its offsets is such a memory as well.
-/

namespace Memory

variable {w : Nat} {β : Type}

/-- The memory with the cells at the distances below `n` from `p` replaced. -/
def store (m : BitVec w → β) (p : BitVec w) (n : Nat) (f : Nat → β) : BitVec w → β := fun a =>
  if (a - p).toNat < n then f (a - p).toNat else m a

variable {m : BitVec w → β} {p q a : BitVec w} {n i j : Nat} {f : Nat → β}

/-- Every address has its distance from `q`. -/
lemma add_dist : q + BitVec.ofNat w (a - q).toNat = a := by
  rw [BitVec.ofNat_toNat, BitVec.setWidth_eq, BitVec.add_comm, BitVec.sub_add_cancel]

/-- The distance between two places of a block. -/
lemma dist_eq (le : j ≤ i) (hi : i < 2 ^ w) :
    (q + BitVec.ofNat w i - (q + BitVec.ofNat w j)).toNat = i - j := by
  have split : BitVec.ofNat w i = BitVec.ofNat w j + BitVec.ofNat w (i - j) := by
    rw [← BitVec.ofNat_add, Nat.add_sub_of_le le]
  rw [split, ← BitVec.add_assoc, BitVec.add_comm (q + _) (BitVec.ofNat w (i - j)), BitVec.add_sub_cancel,
    BitVec.toNat_ofNat, Nat.mod_eq_of_lt (Nat.lt_of_le_of_lt (Nat.sub_le i j) hi)]

/-- The distance to a place further back is around the end. -/
lemma dist_wraps (lt : i < j) (hj : j < 2 ^ w) :
    (q + BitVec.ofNat w i - (q + BitVec.ofNat w j)).toNat = 2 ^ w - (j - i) := by
  have forth : (q + BitVec.ofNat w j - (q + BitVec.ofNat w i)).toNat = j - i := dist_eq (Nat.le_of_lt lt) hj
  rw [← neg_sub, BitVec.toNat_neg, forth, Nat.mod_eq_of_lt (by omega)]

/-- What a block holds after a part of it is overwritten. -/
lemma store_add (fits : j + n ≤ 2 ^ w) (hi : i < 2 ^ w) :
    store m (q + BitVec.ofNat w j) n f (q + BitVec.ofNat w i) =
      if j ≤ i ∧ i < j + n then f (i - j) else m (q + BitVec.ofNat w i) := by
  unfold store
  cases Nat.lt_or_ge i j with
  | inl lt =>
    by_cases zero : n = 0
    · rw [if_neg (by omega), if_neg (by omega)]
    · rw [dist_wraps lt (by omega), if_neg (by omega), if_neg (by omega)]
  | inr le =>
    rw [dist_eq le hi]
    by_cases inside : i < j + n
    · rw [if_pos (by omega), if_pos ⟨le, inside⟩]
    · rw [if_neg (by omega), if_neg (by omega)]

/-! ## Lists in memory -/

section Lies

variable {α : Type} [AddMonoidWithOne α]

/-- The list is in the memory from `p` on. -/
def Lies (m : α → β) : α → List β → Prop
  | _, [] => True
  | p, b :: l => m p = b ∧ Lies m (p + 1) l

variable {m m' : α → β} {p : α} {b : β} {l l' : List β}

/-- One list in memory behind another. -/
lemma lies_append : Lies m p (l ++ l') ↔ Lies m p l ∧ Lies m (p + (l.length : α)) l' := by
  induction l generalizing p with
  | nil => rw [List.nil_append, List.length_nil, Nat.cast_zero, add_zero, Lies, true_and]
  | cons b l ih =>
    have next : p + 1 + (l.length : α) = p + ((b :: l).length : α) := by
      rw [List.length_cons, Nat.cast_succ, ← Nat.cast_one, add_assoc, ← Nat.cast_add, ← Nat.cast_add, Nat.add_comm]
    rw [List.cons_append, Lies, Lies, ih, and_assoc, next]

/-- The cells of a list one by one. -/
lemma lies_iff : Lies m p l ↔ ∀ i (h : i < l.length), m (p + (i : α)) = l[i] := by
  induction l generalizing p with
  | nil => exact ⟨fun _ i h => absurd h (Nat.not_lt_zero i), fun _ => trivial⟩
  | cons b l ih =>
    rw [Lies, ih]
    constructor
    · rintro ⟨first, rest⟩ i h
      cases i with
      | zero => rw [Nat.cast_zero, add_zero, List.getElem_cons_zero, first]
      | succ i =>
        rw [List.getElem_cons_succ, ← rest i (Nat.lt_of_succ_lt_succ h), Nat.cast_succ, ← Nat.cast_one, add_assoc,
          ← Nat.cast_add, ← Nat.cast_add, Nat.add_comm]
    · intro all
      refine ⟨?_, fun i h => ?_⟩
      · rw [← add_zero p, ← Nat.cast_zero]
        exact all 0 (Nat.succ_pos _)
      · rw [← List.getElem_cons_succ b l i (Nat.succ_lt_succ h), ← all (i + 1) (Nat.succ_lt_succ h), Nat.cast_succ,
          ← Nat.cast_one, add_assoc, ← Nat.cast_add, ← Nat.cast_add, Nat.add_comm]

/-- A list stays where the memory stays. -/
lemma Lies.congr (h : Lies m p l) (same : ∀ i < l.length, m' (p + (i : α)) = m (p + (i : α))) : Lies m' p l :=
  lies_iff.mpr fun i lt => (same i lt).trans (lies_iff.mp h i lt)

end Lies

section Store

variable {l : List β}

/-- What is stored is there. -/
lemma lies_store (h : Lies f 0 l) (len : l.length ≤ n) (fits : n ≤ 2 ^ w) : Lies (store m p n f) p l := by
  refine lies_iff.mpr fun i lt => ?_
  have inside : i < n := Nat.lt_of_lt_of_le lt len
  have dist : (p + BitVec.ofNat w i - p).toNat = i := by
    rw [BitVec.add_comm, BitVec.add_sub_cancel, BitVec.toNat_ofNat, Nat.mod_eq_of_lt (Nat.lt_of_lt_of_le inside fits)]
  have there : store m p n f (p + BitVec.ofNat w i) = f i := by
    unfold store
    rw [dist, if_pos inside]
  have value := lies_iff.mp h i lt
  rw [zero_add] at value
  exact there.trans value

/-- A list outside of what is overwritten. -/
lemma Lies.apart (h : Lies m (q + BitVec.ofNat w i) l) (apart : i + l.length ≤ j ∨ j + n ≤ i)
    (hi : i + l.length ≤ 2 ^ w) (hj : j + n ≤ 2 ^ w) :
    Lies (store m (q + BitVec.ofNat w j) n f) (q + BitVec.ofNat w i) l := by
  refine h.congr fun k lt => ?_
  have place : q + BitVec.ofNat w i + BitVec.ofNat w k = q + BitVec.ofNat w (i + k) := by
    rw [BitVec.ofNat_add, BitVec.add_assoc]
  show store m _ n f (q + BitVec.ofNat w i + BitVec.ofNat w k) = m (q + BitVec.ofNat w i + BitVec.ofNat w k)
  rw [place, store_add hj (by omega), if_neg (by omega)]

end Store

end Memory
