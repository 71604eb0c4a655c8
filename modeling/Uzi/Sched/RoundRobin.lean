import Mathlib.Data.List.Chain
import Uzi.Sched.TableRuns

/-!
# The round of `getproc`

`getproc` goes on from the slot that it returned last. A process that stays ready comes nearer with every
other process that is selected, so that none is selected twice before it.
-/

namespace Uzi
open Exec

/-- `getproc`, up to a number of rounds. -/
def getproc : Nat → K (Fin PTABSIZE)
  | 0 => throw .hang
  | rounds + 1 => do
    match ← getprocRound with
    | some newp => pure newp
    | none => getproc rounds

/-- The number of slots between `p` and `q`, upwards and round. -/
def ahead (p q : Fin PTABSIZE) : Nat := (q.val + PTABSIZE - p.val - 1) % PTABSIZE

/-- The slot is ready. -/
def Kernel.Ready (s : Kernel) (p : Fin PTABSIZE) : Prop := (s.ptab p).pStatus = .ready

/-- The first slot after `p` that is ready. -/
def Kernel.FirstReady (s : Kernel) (p r : Fin PTABSIZE) : Prop :=
  s.Ready r ∧ ∀ q, s.Ready q → ahead p r ≤ ahead p q

/-- A call of `getproc`: the kernel that it finds, the slot that it returns and the kernel that it leaves. -/
structure Selection where
  before : Kernel
  newp : Fin PTABSIZE
  after : Kernel

/-- The call returns, and no process is running when it is made. -/
def Selection.Made (x : Selection) : Prop :=
  x.before.Still ∧ ∃ rounds, getproc rounds x.before = .ok (x.newp, x.after)

/-- Calls one after the other. In between anything may change but the pointer of `getproc`. -/
structure Selections (xs : List Selection) : Prop where
  made : ∀ x ∈ xs, x.Made
  chain : xs.IsChain fun x y => y.before.pp = x.after.pp

section Distances

variable {p q r : Fin PTABSIZE}

/-- The distance is shorter than the table. -/
lemma ahead_lt : ahead p q < PTABSIZE := Nat.mod_lt _ (by decide)

/-- The distance gives the process. -/
lemma ahead_inj (h : ahead p q = ahead p r) : q = r := by
  have hp := p.isLt
  have hq := q.isLt
  have hr := r.isLt
  unfold ahead at h
  simp only [PTABSIZE] at *
  exact Fin.ext (by omega)

/-- The next process is at distance 0. -/
lemma ahead_next : ahead p (p + 1) = 0 := by
  have hp := p.isLt
  unfold ahead
  rw [Fin.val_add]
  have one : (1 : Fin PTABSIZE).val = 1 := rfl
  rw [one]
  simp only [PTABSIZE] at *
  omega

/-- One round of the loop. -/
lemma ahead_succ (ne : q ≠ p + 1) : ahead p q = ahead (p + 1) q + 1 := by
  have hp := p.isLt
  have hq := q.isLt
  have other : q.val ≠ (p + 1).val := fun e => ne (Fin.ext e)
  unfold ahead
  rw [Fin.val_add] at other ⊢
  have one : (1 : Fin PTABSIZE).val = 1 := rfl
  rw [one] at other ⊢
  simp only [PTABSIZE] at *
  omega

/-- Going on from a slot in front of `q`. -/
lemma ahead_go (lt : ahead p r < ahead p q) : ahead r q < ahead p q := by
  have hp := p.isLt
  have hq := q.isLt
  have hr := r.isLt
  unfold ahead at *
  simp only [PTABSIZE] at *
  omega

end Distances

section Calls

variable {s s' : Kernel} {p q r : Fin PTABSIZE}

/-- A call of `getproc` selects the first slot after its pointer that is ready, and sets the pointer to it; it
needs no more rounds than there are slots up to one that is ready. -/
lemma wp_getproc {n : Nat} (still : s.Still) :
    wp (getproc n) (fun r s' => s' = { s with pp := r } ∧ s.FirstReady s.pp r)
      (fun _ => ∀ q, s.Ready q → n ≤ ahead s.pp q) s := by
  induction n generalizing s with
  | zero => exact fun _ _ => Nat.zero_le _
  | succ n ih =>
    rw [getproc, wp_bind]
    unfold getprocRound
    rw [wp_bind, wp_modify, wp_bind, wp_get, wp_ite, if_neg (still _), wp_ite]
    split
    · next ready =>
      refine ⟨rfl, ready, fun q _ => ?_⟩
      rw [ahead_next]
      exact Nat.zero_le _
    · next busy =>
      have rest := ih (s := { s with pp := s.pp + 1 }) still
      have other : ∀ q, s.Ready q → ahead s.pp q = ahead (s.pp + 1) q + 1 := fun q ready =>
        ahead_succ fun e => busy (e ▸ ready)
      rw [wp_pure]
      show wp (getproc n) _ _ _
      refine wp_mono rest (fun r s' h => ?_) fun _ late q ready => ?_
      · obtain ⟨rfl, ready, first⟩ := h
        refine ⟨rfl, ready, fun q hq => ?_⟩
        rw [other r ready, other q hq]
        exact Nat.succ_le_succ (first q hq)
      · rw [other q ready]
        exact Nat.succ_le_succ (late q ready)

/-- A call returns if a slot is ready. -/
lemma getproc_returns (still : s.Still) (ready : s.Ready q) :
    ∃ r s', getproc PTABSIZE s = .ok (r, s') := by
  have call := wp_getproc (n := PTABSIZE) still
  unfold wp at call
  split at call
  · next r s' e => exact ⟨r, s', e⟩
  · exact absurd (call q ready) (Nat.not_le_of_lt ahead_lt)

/-- A selection that has been made. -/
lemma Selection.Made.first {x : Selection} (h : x.Made) :
    x.after = { x.before with pp := x.newp } ∧ x.before.FirstReady x.before.pp x.newp := by
  obtain ⟨still, rounds, e⟩ := h
  exact (wp_getproc still).ok e

/-- A process that is ready comes nearer when another one is selected. -/
lemma Selection.Made.nearer {x : Selection} (h : x.Made) (ready : x.before.Ready q) (ne : x.newp ≠ q) :
    ahead x.newp q < ahead x.before.pp q := by
  obtain ⟨-, -, first⟩ := h.first
  exact ahead_go (Nat.lt_of_le_of_ne (first q ready) fun e => ne (ahead_inj e))

end Calls

/-! ## Sequences of calls -/

section Sequences

variable {x : Selection} {xs : List Selection} {q : Fin PTABSIZE}

/-- The selections behind the first one. -/
lemma Selections.tail (h : Selections (x :: xs)) : Selections xs :=
  ⟨fun y hy => h.made y (List.mem_cons_of_mem x hy), h.chain.tail⟩

/-- The distances of the slots that are selected from one that stays ready. -/
lemma Selections.nearer (h : Selections (x :: xs)) (waits : ∀ y ∈ x :: xs, y.before.Ready q ∧ y.newp ≠ q) :
    (∀ y ∈ xs, ahead y.newp q < ahead x.newp q) ∧ (x :: xs).length ≤ ahead x.before.pp q := by
  induction xs generalizing x with
  | nil =>
    obtain ⟨ready, ne⟩ := waits x List.mem_cons_self
    have near := (h.made x List.mem_cons_self).nearer ready ne
    exact ⟨fun y hy => absurd hy List.not_mem_nil, Nat.succ_le_of_lt (Nat.zero_lt_of_lt near)⟩
  | cons y ys ih =>
    obtain ⟨ready, ne⟩ := waits x List.mem_cons_self
    have near := (h.made x List.mem_cons_self).nearer ready ne
    obtain ⟨ready', ne'⟩ := waits y (List.mem_cons_of_mem x List.mem_cons_self)
    have near' := (h.made y (List.mem_cons_of_mem x List.mem_cons_self)).nearer ready' ne'
    obtain ⟨later, len⟩ := ih h.tail fun z hz => waits z (List.mem_cons_of_mem x hz)
    -- the pointer has stayed where the last call put it
    have pp : y.before.pp = x.newp := by
      have same := (List.isChain_cons_cons.mp h.chain).1
      rw [same, (h.made x List.mem_cons_self).first.1]
    rw [pp] at near' len
    refine ⟨fun z hz => ?_, ?_⟩
    · obtain rfl | hz := List.mem_cons.mp hz
      · exact near'
      · exact Nat.lt_trans (later z hz) near'
    · rw [List.length_cons]
      omega

/-- No slot is selected twice while another one stays ready and is not selected. -/
lemma Selections.nodup (h : Selections xs) (waits : ∀ y ∈ xs, y.before.Ready q ∧ y.newp ≠ q) :
    (xs.map Selection.newp).Nodup := by
  induction xs with
  | nil => exact List.nodup_nil
  | cons x xs ih =>
    rw [List.map_cons, List.nodup_cons]
    refine ⟨fun again => ?_, ih h.tail fun y hy => waits y (List.mem_cons_of_mem x hy)⟩
    obtain ⟨y, hy, same⟩ := List.mem_map.mp again
    have lt := (h.nearer waits).1 y hy
    rw [same] at lt
    exact Nat.lt_irrefl _ lt

/-- Few selections come before the turn of a process. -/
lemma Selections.short (h : Selections xs) (waits : ∀ y ∈ xs, y.before.Ready q ∧ y.newp ≠ q) :
    xs.length ≤ PTABSIZE - 1 := by
  cases xs with
  | nil => exact Nat.zero_le _
  | cons x xs => exact Nat.le_trans (h.nearer waits).2 (Nat.le_sub_one_of_lt ahead_lt)

/-- In every sequence of calls each one selects the first slot after the one selected before it that is ready, a
stretch of them in which a slot stays ready and is not selected has no slot twice and is shorter than the table,
and a call returns whenever a slot is ready. -/
theorem getproc_fair (h : Selections xs) :
    xs.IsChain (fun x y => y.before.FirstReady x.newp y.newp) ∧
      (∀ stretch, stretch <:+: xs → ∀ q, (∀ y ∈ stretch, y.before.Ready q ∧ y.newp ≠ q) →
        (stretch.map Selection.newp).Nodup ∧ stretch.length ≤ PTABSIZE - 1) ∧
      ∀ s : Kernel, s.Still → ∀ q, s.Ready q → ∃ r s', getproc PTABSIZE s = .ok (r, s') := by
  refine ⟨?_, fun stretch part q waits => ?_, fun s still q ready => getproc_returns still ready⟩
  · induction xs with
    | nil => exact .nil
    | cons x xs ih =>
      cases xs with
      | nil => exact .singleton x
      | cons y ys =>
        refine List.isChain_cons_cons.mpr ⟨?_, ih h.tail⟩
        have same := (List.isChain_cons_cons.mp h.chain).1
        have first := (h.made y (List.mem_cons_of_mem x List.mem_cons_self)).first.2
        rw [same, (h.made x List.mem_cons_self).first.1] at first
        exact first
  · have sub : Selections stretch := ⟨fun y hy => h.made y (part.subset hy), h.chain.infix part⟩
    exact ⟨sub.nodup waits, sub.short waits⟩

/-- A kernel in which every process is ready, and the pointer of `getproc` is at `p`. -/
def Kernel.allReady (p : Fin PTABSIZE) : Kernel :=
  { Machine.booted.k with ptab := fun _ => { PTab.zero with pStatus := .ready }, pp := p }

/-- The first two calls when every process is ready. -/
def twoCalls : List Selection := [⟨.allReady 0, 1, .allReady 1⟩, ⟨.allReady 1, 2, .allReady 2⟩]

/-- The slots 1 and 2 are selected before 5 is, and each is the next one. -/
theorem getproc_fair_twoCalls : twoCalls.IsChain (fun x y => y.before.FirstReady x.newp y.newp) ∧
    (twoCalls.map Selection.newp).Nodup := by
  have made : ∀ p, (Kernel.allReady p).Still := fun p q => nofun
  have calls : Selections twoCalls :=
    ⟨List.forall_mem_cons.mpr ⟨⟨made 0, 1, rfl⟩, List.forall_mem_singleton.mpr ⟨made 1, 1, rfl⟩⟩,
      .cons_cons rfl (.singleton _)⟩
  have waits : ∀ y ∈ twoCalls, y.before.Ready 5 ∧ y.newp ≠ 5 :=
    List.forall_mem_cons.mpr ⟨⟨rfl, by decide⟩, List.forall_mem_singleton.mpr ⟨rfl, by decide⟩⟩
  obtain ⟨chain, stretches, -⟩ := getproc_fair calls
  exact ⟨chain, (stretches twoCalls (List.infix_refl _) 5 waits).1⟩

end Sequences

end Uzi
