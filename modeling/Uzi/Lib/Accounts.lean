import Mathlib.Algebra.BigOperators.Group.Finset.Basic
import Mathlib.Data.Fintype.Basic
import Mathlib.Tactic.Common

/-!
# Accounts

Everyone of a group has an account of what has been spent. One who leaves keeps the balance in the
account until another one takes it over. The sum of all balances is what has been spent since the start.
-/

namespace Accounts

variable {I M : Type}

/-- An account: none, one in use, or one that somebody has left. -/
inductive Account (M : Type)
  | closed
  | held (spent : M)
  | left (spent : M)

variable [AddCommMonoid M]

/-- What has been spent on an account. -/
def Account.balance : Account M → M
  | .closed => 0
  | .held a => a
  | .left a => a

/-- A step in which `d` is spent. -/
inductive Step (f g : I → Account M) : M → Prop
  | stay (same : ∀ i, g i = f i) : Step f g 0
  | spend {i : I} {a d : M} (before : f i = .held a) (after : g i = .held (a + d))
    (others : ∀ j, j ≠ i → g j = f j) : Step f g d
  | enter {i : I} (before : f i = .closed) (after : g i = .held 0) (others : ∀ j, j ≠ i → g j = f j) : Step f g 0
  | leave {i : I} {a : M} (before : f i = .held a) (after : g i = .left a) (others : ∀ j, j ≠ i → g j = f j) :
    Step f g 0
  | settle {i j : I} {a b : M} (ne : i ≠ j) (left : f i = .left a) (held : f j = .held b) (closed : g i = .closed)
    (after : g j = .held (b + a)) (others : ∀ k, k ≠ i → k ≠ j → g k = f k) : Step f g 0

/-- Steps in which `d` is spent. -/
inductive Run (f : I → Account M) : M → (I → Account M) → Prop
  | start : Run f 0 f
  | step {d d' : M} {g g' : I → Account M} (run : Run f d g) (next : Step g g' d') : Run f (d + d') g'

variable [Fintype I] [DecidableEq I] {f g : I → Account M} {i j : I} {d : M}

/-- What has been spent on all accounts. -/
def total (f : I → Account M) : M := ∑ i, (f i).balance

/-- One balance changes. -/
lemma total_update (others : ∀ j, j ≠ i → g j = f j) (after : (g i).balance = (f i).balance + d) :
    total g = total f + d := by
  have rest : ∑ j ∈ Finset.univ.erase i, (g j).balance = ∑ j ∈ Finset.univ.erase i, (f j).balance :=
    Finset.sum_congr rfl fun j hj => by rw [others j (Finset.ne_of_mem_erase hj)]
  unfold total
  rw [← Finset.sum_erase_add _ _ (Finset.mem_univ i), rest, after, ← add_assoc,
    Finset.sum_erase_add _ _ (Finset.mem_univ i)]

/-- Two balances change. -/
lemma total_settle (ne : i ≠ j) (others : ∀ k, k ≠ i → k ≠ j → g k = f k)
    (after : (g i).balance + (g j).balance = (f i).balance + (f j).balance) : total g = total f := by
  have split : ∀ h : I → Account M, total h =
      (h i).balance + (h j).balance + ∑ k ∈ (Finset.univ.erase i).erase j, (h k).balance := by
    intro h
    have mem : j ∈ Finset.univ.erase i := Finset.mem_erase.mpr ⟨ne.symm, Finset.mem_univ j⟩
    rw [add_assoc, Finset.add_sum_erase _ (fun k => (h k).balance) mem,
      Finset.add_sum_erase _ (fun k => (h k).balance) (Finset.mem_univ i)]
    rfl
  have rest : ∑ k ∈ (Finset.univ.erase i).erase j, (g k).balance =
      ∑ k ∈ (Finset.univ.erase i).erase j, (f k).balance := by
    refine Finset.sum_congr rfl fun k hk => ?_
    obtain ⟨hj, hk⟩ := Finset.mem_erase.mp hk
    rw [others k (Finset.ne_of_mem_erase hk) hj]
  rw [split g, split f, after, rest]

/-- A step changes the total by its amount. -/
lemma Step.total (h : Step f g d) : total g = total f + d := by
  cases h with
  | stay same => rw [add_zero, funext same]
  | spend before after others =>
    refine total_update others ?_
    rw [before, after]
    rfl
  | enter before after others =>
    refine total_update others ?_
    rw [before, after, add_zero]
    rfl
  | leave before after others =>
    refine total_update others ?_
    rw [before, after, add_zero]
    rfl
  | settle ne left held closed after others =>
    rw [add_zero]
    refine total_settle ne others ?_
    rw [left, held, closed, after]
    exact (zero_add _).trans (add_comm _ _)

/-- A run changes the total by its amounts. -/
theorem Run.total (h : Run f d g) : total g = total f + d := by
  induction h with
  | start => rw [add_zero]
  | step _ next ih => rw [next.total, ih, add_assoc]

end Accounts
