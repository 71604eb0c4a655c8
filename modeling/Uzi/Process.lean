import Uzi.Kernel

/-!
# Sleeping and waking

The part of `kernel/process.c` that the file system uses: `psleep`, `wakeup` and `ssig`. A process that
calls `psleep` is swapped out: what other processes do until it is swapped in again is not part of the
call here.
-/

namespace Uzi
open Exec

/-- Changes a process table entry. -/
def modifyPtab (p : Fin PTABSIZE) (f : PTab → PTab) : K PUnit :=
  modify fun s => { s with ptab := Function.update s.ptab p (f (s.ptab p)) }

/-- `psleep`, up to the call of `swapout`. -/
def psleep (event : Event) : K PUnit := do
  let s ← get
  let p := s.udata.uPtab
  if (s.ptab p).pStatus ≠ .running then throw .psleepVoodoo
  else
    let status : PStatus :=
      if event = .none then .pause
      else if event = .ptab p then .wait
      else .sleep
    modifyPtab p fun x => { x with pStatus := status, pWait := s.layout.addr event }

/-- Whether a status is greater than `P_RUNNING`. -/
def PStatus.isBehindRunning : PStatus → Bool
  | .empty | .running => false
  | _ => true

/-- The process table after a wakeup for `event`. -/
def Kernel.woken (s : Kernel) (event : Event) (p : Fin PTABSIZE) : PTab :=
  if (s.ptab p).pStatus.isBehindRunning ∧ (s.ptab p).pWait = s.layout.addr event then
    { s.ptab p with pStatus := .ready, pWait := 0 }
  else s.ptab p

/-- `wakeup`. -/
def wakeup (event : Event) : K PUnit := modify fun s => { s with ptab := s.woken event }

/-- The signal of a pipe without a reader. -/
def SIGPIPE : Nat := 13

/-- `sigmask`. -/
def sigmask (sig : Nat) : Word := 1 <<< sig

/-- `ssig`. -/
def ssig (proc : Fin PTABSIZE) (sig : Nat) : K PUnit := do
  let p := (← get).ptab proc
  if p.pStatus = .empty then pure ⟨⟩
  else if p.pIgnored &&& sigmask sig ≠ 0 then pure ⟨⟩
  else
    modifyPtab proc fun x =>
      { x with
        pStatus :=
          if x.pStatus = .pause ∨ x.pStatus = .wait ∨ x.pStatus = .sleep then .ready else x.pStatus
        pWait := 0
        pPending := x.pPending ||| sigmask sig }

end Uzi
