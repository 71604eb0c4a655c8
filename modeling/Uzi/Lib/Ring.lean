import Mathlib.Data.Nat.ModEq
import Mathlib.Tactic.Common

/-!
# Ring buffers

A store `get` of `M` cells is read round and round. `RingList M get q l` says that from position `q` on it
holds the list `l`.
-/

/-- The cells from `q` on hold the list `l`. -/
def RingList {α : Type} (M : Nat) (get : Nat → Option α) (q : Nat) (l : List α) : Prop :=
  ∀ i (h : i < l.length), get ((q + i) % M) = some l[i]

namespace RingList

variable {α : Type} {M q : Nat} {get get' : Nat → Option α} {l d : List α}

/-- An empty ring. -/
lemma nil : RingList M get q [] := fun _ h => absurd h (Nat.not_lt_zero _)

/-- Elements are taken off the front. -/
lemma drop (h : RingList M get q l) (k : Nat) : RingList M get ((q + k) % M) (l.drop k) := by
  intro i hi
  rw [List.length_drop] at hi
  rw [Nat.mod_add_mod, Nat.add_assoc, h (k + i) (by omega), List.getElem_drop]

/-- Two positions of a ring that is not overfull differ. -/
lemma pos_ne {i j : Nat} (hij : i < j) (hj : j < M) : (q + i) % M ≠ (q + j) % M := by
  intro e
  have same : i % M = j % M := Nat.ModEq.add_left_cancel' q e
  rw [Nat.mod_eq_of_lt hj, Nat.mod_eq_of_lt (Nat.lt_trans hij hj)] at same
  exact Nat.ne_of_lt hij same

/-- The cells of the list do not lose what they hold. -/
lemma mono (h : RingList M get q l)
    (keep : ∀ i < l.length, ∀ x, get ((q + i) % M) = some x → get' ((q + i) % M) = some x) :
    RingList M get' q l := fun i hi => keep i hi _ (h i hi)

/-- Elements are entered behind the list, while the other cells do not lose what they hold. -/
lemma write (h : RingList M get q l) (room : l.length + d.length ≤ M)
    (entered : ∀ j (hj : j < d.length), get' ((q + (l.length + j)) % M) = some d[j])
    (keep : ∀ p < M, ∀ x, (∀ j < d.length, p ≠ (q + (l.length + j)) % M) →
      get p = some x → get' p = some x) :
    RingList M get' q (l ++ d) := by
  intro i hi
  rw [List.length_append] at hi
  by_cases lt : i < l.length
  · rw [List.getElem_append_left lt]
    exact keep _ (Nat.mod_lt _ (by omega)) _ (fun j hj => pos_ne (by omega) (by omega)) (h i lt)
  · obtain ⟨j, rfl⟩ := Nat.exists_eq_add_of_le (Nat.not_lt.mp lt)
    rw [List.getElem_append_right (Nat.le_add_right ..), entered j (by omega)]
    simp only [Nat.add_sub_cancel_left]

/-- Elements are taken off the end. -/
lemma dropLast (h : RingList M get q l) : RingList M get q l.dropLast := by
  intro i hi
  rw [List.length_dropLast] at hi
  rw [List.getElem_dropLast]
  exact h i (by omega)

/-- The position in front of another. -/
lemma pred_mod {n : Nat} (pos : 0 < M) : n % M = if (n + 1) % M = 0 then M - 1 else (n + 1) % M - 1 := by
  have lt := Nat.mod_lt n pos
  have next : (n + 1) % M = (n % M + 1) % M := (Nat.mod_add_mod n M 1).symm
  rw [next]
  by_cases last : n % M + 1 = M
  · rw [last, Nat.mod_self, if_pos rfl]
    omega
  · have short : n % M + 1 < M := by omega
    rw [Nat.mod_eq_of_lt short, if_neg (Nat.succ_ne_zero _), Nat.add_sub_cancel]

end RingList
