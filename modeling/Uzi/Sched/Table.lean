import Uzi.Fs.Footprint
import Uzi.Lib.ParentTree
import Uzi.Sched.Machine

/-!
# The process table

The invariant of the process table (`Kernel.Table`), and what the single operations do to it. An entry
counts as alive when its slot is neither empty nor that of a zombie. Most operations leave every entry
`Alike`; the others are forks, exits and `_wait`.
-/

namespace Uzi
open Exec ParentTree

/-! ## Entries -/

/-- Neither an empty slot nor a zombie. -/
def PStatus.Alive (x : PStatus) : Prop := x ≠ .empty ∧ x ≠ .zombie

instance {x : PStatus} : Decidable x.Alive := by
  unfold PStatus.Alive
  infer_instance

/-- The entries are of the same process and agree on whether it is alive. A zombie may lose the time
stored over `p_wait`. -/
structure PTab.Alike (x y : PTab) : Prop where
  empty : y.pStatus = .empty ↔ x.pStatus = .empty
  zombie : y.pStatus = .zombie ↔ x.pStatus = .zombie
  pid : y.pPid = x.pPid
  parent : y.pPptr = x.pPptr
  swap : y.pSwap = x.pSwap
  time : x.pStatus = .zombie → y.pWait = x.pWait ∨ y.pWait = 0

namespace PTab.Alike

variable {x y z : PTab}

/-- The same entry. -/
lemma refl : PTab.Alike x x := ⟨.rfl, .rfl, rfl, rfl, rfl, fun _ => .inl rfl⟩

/-- Entries that are alike, twice. -/
lemma trans (h : PTab.Alike x y) (h' : PTab.Alike y z) : PTab.Alike x z where
  empty := h'.empty.trans h.empty
  zombie := h'.zombie.trans h.zombie
  pid := h'.pid.trans h.pid
  parent := h'.parent.trans h.parent
  swap := h'.swap.trans h.swap
  time dead := by
    cases h'.time (h.zombie.mpr dead) with
    | inl same => exact same ▸ h.time dead
    | inr zero => exact .inr zero

/-- Entries that are alike are alive together. -/
lemma alive (h : PTab.Alike x y) : y.pStatus.Alive ↔ x.pStatus.Alive :=
  and_congr (not_congr h.empty) (not_congr h.zombie)

/-- A live process gets another status of a live one. -/
lemma of_alive (hx : x.pStatus.Alive) (hy : y.pStatus.Alive) (pid : y.pPid = x.pPid)
    (parent : y.pPptr = x.pPptr) (swap : y.pSwap = x.pSwap) : PTab.Alike x y :=
  ⟨iff_of_false hy.1 hx.1, iff_of_false hy.2 hx.2, pid, parent, swap, fun dead => absurd dead hx.2⟩

end PTab.Alike

/-! ## The invariant -/

/-- The invariant of the process table. -/
structure Kernel.Table (s : Kernel) : Prop where
  pid_range : ∀ p, (s.ptab p).pStatus ≠ .empty → 1 ≤ (s.ptab p).pPid ∧ (s.ptab p).pPid ≤ 32001
  pid_inj : ∀ p q, (s.ptab p).pStatus ≠ .empty → (s.ptab q).pStatus ≠ .empty →
    (s.ptab p).pPid = (s.ptab q).pPid → p = q
  nextpid : s.nextpid ≤ 32001
  init : (s.ptab s.initproc).pStatus.Alive
  parent : ∀ p, (s.ptab p).pStatus ≠ .empty → ∃ q, (s.ptab p).pPptr = some q ∧
    (s.ptab q).pStatus.Alive ∧ Below (fun n => (s.ptab n).pPptr) s.initproc q
  swap : ∀ p, (s.ptab p).pStatus ≠ .empty → (s.ptab p).pSwap = swapBlk p
  image : ∀ p, (s.ptab p).pStatus.Alive → p ≠ s.udata.uPtab → (s.swap (swapBlk p)).uPtab = p

/-- No time stored in a zombie is the address of something that processes sleep on. -/
def Kernel.TimesApart (s : Kernel) : Prop :=
  ∀ p, (s.ptab p).pStatus = .zombie → ∀ e, e ≠ .none → (s.ptab p).pWait ≠ s.layout.addr e

/-- The entries are alike, and the rest of the scheduler's variables are the same. -/
structure Calm (s s' : Kernel) : Prop where
  alike : ∀ p, (s.ptab p).Alike (s'.ptab p)
  layout : s'.layout = s.layout
  initproc : s'.initproc = s.initproc
  nextpid : s'.nextpid = s.nextpid
  swap : s'.swap = s.swap
  uPtab : s'.udata.uPtab = s.udata.uPtab

variable {s s' : Kernel} {p : Fin PTABSIZE}

/-- The same state. -/
lemma Calm.refl : Calm s s := ⟨fun _ => .refl, rfl, rfl, rfl, rfl, rfl⟩

/-- Calm work, twice. -/
lemma Calm.trans {s'' : Kernel} (h : Calm s s') (h' : Calm s' s'') : Calm s s'' where
  alike p := (h.alike p).trans (h'.alike p)
  layout := h'.layout.trans h.layout
  initproc := h'.initproc.trans h.initproc
  nextpid := h'.nextpid.trans h.nextpid
  swap := h'.swap.trans h.swap
  uPtab := h'.uPtab.trans h.uPtab

/-- Calm work keeps the table. -/
lemma Kernel.Table.calm (t : s.Table) (h : Calm s s') : s'.Table where
  pid_range p ne := by
    rw [(h.alike p).pid]
    exact t.pid_range p fun e => ne ((h.alike p).empty.mpr e)
  pid_inj p q hp hq e := by
    rw [(h.alike p).pid, (h.alike q).pid] at e
    exact t.pid_inj p q (fun e => hp ((h.alike p).empty.mpr e)) (fun e => hq ((h.alike q).empty.mpr e)) e
  nextpid := h.nextpid ▸ t.nextpid
  init := by
    rw [h.initproc]
    exact (h.alike _).alive.mpr t.init
  parent p ne := by
    obtain ⟨q, parent, alive, below⟩ := t.parent p fun e => ne ((h.alike p).empty.mpr e)
    refine ⟨q, (h.alike p).parent.trans parent, (h.alike q).alive.mpr alive, ?_⟩
    rw [h.initproc]
    simp only [fun n => (h.alike n).parent]
    exact below
  swap p ne := by
    rw [(h.alike p).swap]
    exact t.swap p fun e => ne ((h.alike p).empty.mpr e)
  image p alive ne := by
    rw [h.swap]
    exact t.image p ((h.alike p).alive.mp alive) (h.uPtab ▸ ne)

/-- Calm work keeps the times apart. -/
lemma Kernel.TimesApart.calm (t : s.TimesApart) (h : Calm s s') : s'.TimesApart := by
  intro p dead e ne
  have dead := (h.alike p).zombie.mp dead
  rw [h.layout]
  cases (h.alike p).time dead with
  | inl same =>
    rw [same]
    exact t p dead e ne
  | inr zero =>
    rw [zero, ← s.layout.null]
    exact fun same => ne (s.layout.injective same).symm

/-! ## Single entries -/

/-- The kernel with another process table entry at `p`. -/
def Kernel.setProc (s : Kernel) (p : Fin PTABSIZE) (x : PTab) : Kernel :=
  { s with ptab := Function.update s.ptab p x }

/-- A change of an entry. -/
lemma wp_modifyPtab {f : PTab → PTab} {Q : PUnit → Kernel → Prop} {E : Panic → Prop} :
    wp (modifyPtab p f) Q E s ↔ Q ⟨⟩ (s.setProc p (f (s.ptab p))) := Iff.rfl

/-- A change of the own entry. -/
lemma wp_modifyOwn {f : PTab → PTab} {Q : PUnit → Kernel → Prop} {E : Panic → Prop} :
    wp (modifyOwn f) Q E s ↔ Q ⟨⟩ (s.setProc s.udata.uPtab (f (s.ptab s.udata.uPtab))) := Iff.rfl

/-- The entry that has been set. -/
@[simp] lemma Kernel.ptab_setProc {x : PTab} : (s.setProc p x).ptab p = x := Function.update_self ..

/-- The other entries. -/
lemma Kernel.ptab_setProc_of_ne {x : PTab} {q : Fin PTABSIZE} (h : q ≠ p) :
    (s.setProc p x).ptab q = s.ptab q := Function.update_of_ne h ..

/-- An entry that is alike is calm work. -/
lemma Calm.setProc {x : PTab} (h : (s.ptab p).Alike x) : Calm s (s.setProc p x) := by
  refine ⟨fun q => ?_, rfl, rfl, rfl, rfl, rfl⟩
  by_cases same : q = p
  · rw [same, Kernel.ptab_setProc]
    exact h
  · rw [Kernel.ptab_setProc_of_ne same]
    exact .refl

/-! ## Wakeups and signals -/

/-- The status says that a process is running in both entries or in none. -/
def SameRunning (s s' : Kernel) : Prop :=
  ∀ p, (s'.ptab p).pStatus = .running ↔ (s.ptab p).pStatus = .running

/-- A wakeup is calm work. -/
lemma calm_woken {event : Event} (t : s.TimesApart) (ne : event ≠ .none) :
    Calm s { s with ptab := s.woken event } ∧ SameRunning s { s with ptab := s.woken event } := by
  have wake : ∀ p, (s.ptab p).Alike (s.woken event p) ∧
      ((s.woken event p).pStatus = .running ↔ (s.ptab p).pStatus = .running) := by
    intro p
    unfold Kernel.woken
    split
    · next sleeps =>
      have alive : (s.ptab p).pStatus.Alive := by
        refine ⟨fun e => ?_, fun dead => t p dead event ne sleeps.2⟩
        rw [e] at sleeps
        exact absurd sleeps.1 (by decide)
      have still : (s.ptab p).pStatus ≠ .running := by
        intro e
        rw [e] at sleeps
        exact absurd sleeps.1 (by decide)
      exact ⟨.of_alive alive ⟨nofun, nofun⟩ rfl rfl rfl, iff_of_false nofun still⟩
    · exact ⟨.refl, .rfl⟩
  exact ⟨⟨fun p => (wake p).1, rfl, rfl, rfl, rfl, rfl⟩, fun p => (wake p).2⟩

/-- The table changes by wakeups and signals only. -/
def Calmly (s s' : Kernel) : Prop := s.TimesApart → Calm s s' ∧ SameRunning s s'

/-- The process table is the same. -/
lemma Calmly.of_ptab (ptab : s'.ptab = s.ptab) (layout : s'.layout = s.layout)
    (initproc : s'.initproc = s.initproc) (nextpid : s'.nextpid = s.nextpid) (swap : s'.swap = s.swap)
    (uPtab : s'.udata.uPtab = s.udata.uPtab) : Calmly s s' := fun _ =>
  ⟨⟨fun _ => ptab ▸ .refl, layout, initproc, nextpid, swap, uPtab⟩, fun _ => ptab ▸ .rfl⟩

instance : Filing Calmly where
  refl _ := .of_ptab rfl rfl rfl rfl rfl rfl
  trans _ _ _ h h' apart := by
    obtain ⟨calm, running⟩ := h apart
    obtain ⟨calm', running'⟩ := h' (apart.calm calm)
    exact ⟨calm.trans calm', fun p => (running' p).trans (running p)⟩
  bufs _ _ := .of_ptab rfl rfl rfl rfl rfl rfl
  fsTab _ _ _ _ := .of_ptab rfl rfl rfl rfl rfl rfl
  iTab _ _ := .of_ptab rfl rfl rfl rfl rfl rfl
  nexti _ _ := .of_ptab rfl rfl rfl rfl rfl rfl
  error _ _ := .of_ptab rfl rfl rfl rfl rfl rfl
  woken _ ino apart := calm_woken apart (nofun : Event.inode ino ≠ .none)
  ofTab _ _ := .of_ptab rfl rfl rfl rfl rfl rfl
  ofBss _ _ := .of_ptab rfl rfl rfl rfl rfl rfl
  files _ _ := .of_ptab rfl rfl rfl rfl rfl rfl

/-- One entry changes, and not whether its process is running. -/
lemma Calmly.setProc {x : PTab} (h : (s.ptab p).Alike x)
    (running : x.pStatus = .running ↔ (s.ptab p).pStatus = .running) : Calmly s (s.setProc p x) := by
  refine fun _ => ⟨.setProc h, fun q => ?_⟩
  by_cases same : q = p
  · rw [same, Kernel.ptab_setProc]
    exact running
  · rw [Kernel.ptab_setProc_of_ne same]

variable {E : Panic → Prop}

/-- `ssig` is calm work. -/
lemma within_ssig {sig : Nat} : Within Calmly E (ssig p sig) := by
  intro s
  unfold ssig
  rw [wp_bind, wp_get, wp_ite]
  split
  · exact refl_of Calmly s
  rw [wp_ite]
  split
  · exact refl_of Calmly s
  rw [wp_modifyPtab]
  refine Calmly.setProc ?_ ?_
  · split
    · next asleep =>
      have alive : (s.ptab p).pStatus.Alive := by
        rcases asleep with e | e | e
        · exact e ▸ ⟨nofun, nofun⟩
        · exact e ▸ ⟨nofun, nofun⟩
        · exact e ▸ ⟨nofun, nofun⟩
      exact .of_alive alive ⟨nofun, nofun⟩ rfl rfl rfl
    · exact ⟨.rfl, .rfl, rfl, rfl, rfl, fun _ => .inr rfl⟩
  · dsimp only
    split
    · next asleep =>
      refine iff_of_false nofun fun running => ?_
      rw [running] at asleep
      exact absurd asleep (by decide)
    · rfl

/-- `sendsig` is calm work. -/
lemma within_sendsig {proc : Option (Fin PTABSIZE)} {sig : Nat} :
    Within Calmly E (sendsig proc sig) := by
  cases proc with
  | some p => exact within_ssig
  | none => exact .each (fun p => .bind .get fun _ => .ite within_ssig .pure) _

/-- `wakeup` is calm work. -/
lemma within_wakeup {event : Event} (ne : event ≠ .none) : Within Calmly E (wakeup event) :=
  fun _ apart => calm_woken apart ne

/-! ## A process at work -/

/-- The current process is alive and no other one is running. -/
structure Kernel.Active (s : Kernel) : Prop where
  table : s.Table
  apart : s.TimesApart
  alive : (s.ptab s.udata.uPtab).pStatus.Alive
  only : ∀ p, (s.ptab p).pStatus = .running → p = s.udata.uPtab

/-- The current process is running. -/
def Kernel.Running (s : Kernel) : Prop := (s.ptab s.udata.uPtab).pStatus = .running

/-- No process is running. -/
def Kernel.Still (s : Kernel) : Prop := ∀ p, (s.ptab p).pStatus ≠ .running

/-- Calm work keeps the running process. -/
lemma Kernel.Active.calmly (a : s.Active) (h : Calmly s s') : s'.Active ∧ (s'.Running ↔ s.Running) := by
  obtain ⟨calm, running⟩ := h a.apart
  refine ⟨⟨a.table.calm calm, a.apart.calm calm, ?_, fun p hp => ?_⟩, ?_⟩
  · rw [calm.uPtab]
    exact (calm.alike _).alive.mpr a.alive
  · rw [calm.uPtab]
    exact a.only p ((running p).mp hp)
  · unfold Kernel.Running
    rw [calm.uPtab]
    exact running _

/-- The current process gets another status of a live one. -/
lemma Kernel.Active.turn {x : PTab} (a : s.Active) (alive : x.pStatus.Alive)
    (pid : x.pPid = (s.ptab s.udata.uPtab).pPid) (parent : x.pPptr = (s.ptab s.udata.uPtab).pPptr)
    (swap : x.pSwap = (s.ptab s.udata.uPtab).pSwap) :
    (s.setProc s.udata.uPtab x).Active ∧ ((s.setProc s.udata.uPtab x).Running ↔ x.pStatus = .running) := by
  have calm : Calm s (s.setProc s.udata.uPtab x) := .setProc (.of_alive a.alive alive pid parent swap)
  refine ⟨⟨a.table.calm calm, a.apart.calm calm, ?_, fun p hp => ?_⟩, ?_⟩
  · show ((s.setProc s.udata.uPtab x).ptab s.udata.uPtab).pStatus.Alive
    rw [Kernel.ptab_setProc]
    exact alive
  · show p = s.udata.uPtab
    by_contra ne
    rw [Kernel.ptab_setProc_of_ne ne] at hp
    exact ne (a.only p hp)
  · show ((s.setProc s.udata.uPtab x).ptab s.udata.uPtab).pStatus = .running ↔ _
    rw [Kernel.ptab_setProc]

/-- No process runs. -/
lemma Kernel.Active.still (a : s.Active) (h : ¬ s.Running) : s.Still := by
  intro p hp
  rw [a.only p hp] at hp
  exact h hp

end Uzi
