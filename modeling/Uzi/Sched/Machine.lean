import Uzi.Sched.Process

/-!
# The processor

The kernel together with what the processor does: it executes a process, or it is in the loop of
`getproc`, called by `swapout` or by a process that has exited. In between two of the operations of the
process table a process does other things, and while the processor is in `getproc` there are interrupts.
-/

namespace Uzi
open Exec

/-- What the processor does. -/
inductive Ctl
  | running
  | getproc (exited : Bool)
  deriving DecidableEq

/-- The kernel and what the processor does. -/
structure Machine where
  k : Kernel
  ctl : Ctl

/-- What the processor does at the end of a piece of kernel code. -/
def CallEnd.ctl {α : Type} : CallEnd α → Ctl
  | .returned _ => .running
  | .swapped => .getproc false
  | .exited => .getproc true

/-- An operation of the running process on the process table. A process that has been swapped out in
`_wait` goes on with `waitOn`, and no one wakes up the event 0 of `pause`. -/
inductive ProcOp
  | fork
  | exit (val val2 : Word)
  | wait (statloc : Nat)
  | waitOn (statloc : Nat)
  | sleep (event : Event)
  | wakeup (event : { e : Event // e ≠ .none })
  | signal (proc : Option (Fin PTABSIZE)) (sig : Nat)
  | unixEnd

/-- The code of an operation. -/
def ProcOp.run : ProcOp → K Ctl
  | .fork => do
    let _ ← dofork
    pure .running
  | .exit val val2 => do
    doexit val val2
    pure (.getproc true)
  | .wait statloc => return (← _wait statloc).ctl
  | .waitOn statloc => return (← waitRound statloc).ctl
  | .sleep event => return (← psleepSwap (α := PUnit) event).ctl
  | .wakeup event => do
    Uzi.wakeup event
    pure .running
  | .signal proc sig => do
    sendsig proc sig
    pure .running
  | .unixEnd => return (← Uzi.unixEnd).ctl

/-- What an interrupt does to the process table while the processor is in `getproc`. -/
inductive Interrupt
  | wakeup (event : { e : Event // e ≠ .none })
  | signal (proc : Option (Fin PTABSIZE)) (sig : Nat)

/-- The code of an interrupt. -/
def Interrupt.run : Interrupt → K PUnit
  | .wakeup event => Uzi.wakeup event
  | .signal proc sig => sendsig proc sig

/-- The code of a process other than the operations does not touch the scheduling. -/
structure Elsewhere (s s' : Kernel) : Prop where
  layout : s'.layout = s.layout
  initproc : s'.initproc = s.initproc
  nextpid : s'.nextpid = s.nextpid
  pp : s'.pp = s.pp
  swap : s'.swap = s.swap
  uPtab : s'.udata.uPtab = s.udata.uPtab
  status : ∀ p, (s'.ptab p).pStatus = (s.ptab p).pStatus
  pid : ∀ p, (s'.ptab p).pPid = (s.ptab p).pPid
  parent : ∀ p, (s'.ptab p).pPptr = (s.ptab p).pPptr
  swapBlk : ∀ p, (s'.ptab p).pSwap = (s.ptab p).pSwap
  wait : ∀ p, (s'.ptab p).pWait = (s.ptab p).pWait

/-- A step of the processor, in which a process makes the operations that `may` allows only. -/
inductive Machine.Step (may : ProcOp → Kernel → Ctl → Prop) : Machine → Machine → Prop
  | op {k k' : Kernel} {ctl : Ctl} (o : ProcOp) (returned : o.run k = .ok (ctl, k')) (allowed : may o k ctl) :
    Machine.Step may ⟨k, .running⟩ ⟨k', ctl⟩
  | other {k k' : Kernel} (elsewhere : Elsewhere k k') : Machine.Step may ⟨k, .running⟩ ⟨k', .running⟩
  | interrupt {k k' : Kernel} {exited : Bool} (i : Interrupt) (returned : i.run k = .ok (⟨⟩, k')) :
    Machine.Step may ⟨k, .getproc exited⟩ ⟨k', .getproc exited⟩
  | look {k k' : Kernel} {exited : Bool} (round : getprocRound k = .ok (none, k')) :
    Machine.Step may ⟨k, .getproc exited⟩ ⟨k', .getproc exited⟩
  | switch {k k' k'' : Kernel} {exited : Bool} {newp : Fin PTABSIZE}
    (round : getprocRound k = .ok (some newp, k')) (returned : switchTo exited newp k' = .ok (⟨⟩, k'')) :
    Machine.Step may ⟨k, .getproc exited⟩ ⟨k'', .running⟩

/-- A run from `m`, which leads through states that `ok` allows only. -/
inductive Machine.Run (may : ProcOp → Kernel → Ctl → Prop) (ok : Machine → Prop) (m : Machine) : Machine → Prop
  | start : Machine.Run may ok m m
  | step {m' m'' : Machine} (run : Machine.Run may ok m m') (next : Machine.Step may m' m'')
    (allowed : ok m'') : Machine.Run may ok m m''

/-- Every operation is allowed. -/
abbrev ProcOp.Any : ProcOp → Kernel → Ctl → Prop := fun _ _ _ => True

/-- `_wait` can store a status at `statloc` without leaving the memory of the process. -/
def Layout.TakesStatus (l : Layout) (statloc : Nat) : Prop := statloc = 0 ∨ l.InUser statloc 2

instance {l : Layout} {statloc : Nat} : Decidable (l.TakesStatus statloc) := inferInstanceAs (Decidable (_ ∨ _))

/-- A signal is being caught, or one is pending that the current process does not ignore. -/
def Kernel.Signalled (s : Kernel) : Prop :=
  s.udata.uCursig ≠ 0 ∨ ∃ j : Fin NSIGS, j.val ≠ 0 ∧ sigmask j &&& (s.ptab s.udata.uPtab).pPending ≠ 0 ∧
    s.udata.uSigvec j ≠ SIG_IGN

instance {s : Kernel} : Decidable s.Signalled := by
  unfold Kernel.Signalled
  infer_instance

/-- A round of `_wait` comes to a child that has exited. -/
def Kernel.Collects (s : Kernel) : Prop := s.zombieChild ≠ none ∧ ¬ s.Signalled

instance {s : Kernel} : Decidable s.Collects := inferInstanceAs (Decidable (_ ∧ _))

/-- Where `_wait` comes to a child that has exited, the status pointer is null or points into the memory of the
process, unless `_wait` has refused it. -/
def ProcOp.InUser : ProcOp → Kernel → Ctl → Prop
  | .wait statloc, s, _ => s.Collects → ¬ s.layout.udata < statloc → s.layout.TakesStatus statloc
  | .waitOn statloc, s, _ => s.Collects → s.layout.TakesStatus statloc
  | _, _, _ => True

instance {o : ProcOp} {s : Kernel} {ctl : Ctl} : Decidable (o.InUser s ctl) := by
  cases o <;> unfold ProcOp.InUser <;> infer_instance

/-- The state that `init2` leaves: there is one process, the first one. -/
structure Booted (m : Machine) : Prop where
  ctl : m.ctl = .running
  current : m.k.udata.uPtab = m.k.initproc
  nextpid : m.k.nextpid = 1
  init : m.k.ptab m.k.initproc =
    { PTab.zero with
      pStatus := .running
      pPid := 1
      pPptr := some m.k.initproc
      pSwap := swapBlk m.k.initproc }
  others : ∀ p, p ≠ m.k.initproc → (m.k.ptab p).pStatus = .empty

/-! ## Runs on given moves -/

/-- What drives the machine: an operation, an interrupt, or the loop of `getproc`. -/
inductive Move
  | op (o : ProcOp)
  | interrupt (i : Interrupt)
  | go

/-- The step of the machine that a move makes. -/
def Machine.move (m : Machine) : Move → Option Machine
  | .op o =>
    match m.ctl, o.run m.k with
    | .running, .ok (ctl, k) => some ⟨k, ctl⟩
    | _, _ => none
  | .interrupt i =>
    match m.ctl, i.run m.k with
    | .getproc exited, .ok (_, k) => some ⟨k, .getproc exited⟩
    | _, _ => none
  | .go =>
    match m.ctl, getprocRound m.k with
    | .getproc exited, .ok (none, k) => some ⟨k, .getproc exited⟩
    | .getproc exited, .ok (some newp, k) =>
      match switchTo exited newp k with
      | .ok (_, k) => some ⟨k, .running⟩
      | .error _ => none
    | _, _ => none

section Moves

variable {may : ProcOp → Kernel → Ctl → Prop} {ok : Machine → Bool}

/-- A move is no operation, or one that is allowed. -/
def Move.Allowed (may : ProcOp → Kernel → Ctl → Prop) (s : Kernel) (ctl : Ctl) : Move → Prop
  | .op o => may o s ctl
  | _ => True

instance [∀ o s ctl, Decidable (may o s ctl)] {s : Kernel} {ctl : Ctl} : {a : Move} → Decidable (a.Allowed may s ctl)
  | .op o => inferInstanceAs (Decidable (may o s ctl))
  | .interrupt _ => .isTrue trivial
  | .go => .isTrue trivial

/-- The machine after moves that `may` allows, which lead through states that pass `ok`. -/
def Machine.moves (may : ProcOp → Kernel → Ctl → Prop) [∀ o s ctl, Decidable (may o s ctl)] (ok : Machine → Bool) :
    List Move → Machine → Option Machine
  | [], m => some m
  | a :: as, m => (m.move a).bind fun m' =>
    if a.Allowed may m.k m'.ctl ∧ ok m' then Machine.moves may ok as m' else none

/-- A move is a step. -/
lemma Machine.move_step {m m' : Machine} {a : Move} (allowed : a.Allowed may m.k m'.ctl) (h : m.move a = some m') :
    Machine.Step may m m' := by
  obtain ⟨k, ctl⟩ := m
  cases a with
  | op o =>
    unfold Machine.move at h
    dsimp only at h
    split at h
    · next returned =>
      cases h
      exact .op o returned allowed
    · cases h
  | interrupt i =>
    unfold Machine.move at h
    dsimp only at h
    split at h
    · next returned =>
      cases h
      exact .interrupt i returned
    · cases h
  | go =>
    unfold Machine.move at h
    dsimp only at h
    split at h
    · next round =>
      cases h
      exact .look round
    · next round =>
      split at h
      · next returned =>
        cases h
        exact .switch round returned
      · cases h
    · cases h

/-- Moves are a run. -/
lemma Machine.moves_run [∀ o s ctl, Decidable (may o s ctl)] {good : Machine → Prop} {m₀ m m' : Machine}
    {as : List Move} (passes : ∀ m, ok m → good m) (run : Machine.Run may good m₀ m)
    (h : Machine.moves may ok as m = some m') : Machine.Run may good m₀ m' := by
  induction as generalizing m with
  | nil =>
    cases h
    exact run
  | cons a as ih =>
    obtain ⟨m₁, first, rest⟩ := Option.bind_eq_some_iff.mp h
    split at rest
    · next allowed => exact ih (run.step (Machine.move_step allowed.1 first) (passes _ allowed.2)) rest
    · cases rest

end Moves

end Uzi
