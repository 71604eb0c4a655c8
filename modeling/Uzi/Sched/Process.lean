import Uzi.Fs.Files

/-!
# Processes

`kernel/process.c` and the part of `kernel/scall2.c` that waits and exits. A process that calls `swapout`
does not return from it before it is swapped in again, and one that calls `doexit` never does: a piece of
code ends there, and says how (`CallEnd`). What `getproc` does next is `getprocRound` and `switchTo`.
-/

namespace Uzi
open Exec

/-- The signal has its default action. -/
def SIG_DFL : Word := 0
/-- The signal is ignored. -/
def SIG_IGN : Word := 1
/-- The ticks that a process runs on while others are ready. -/
def MAXTICKS : Int := 10

/-! ## Signals -/

/-- `sendsig`. -/
def sendsig (proc : Option (Fin PTABSIZE)) (sig : Nat) : K PUnit :=
  match proc with
  | some p => ssig p sig
  | none => each (List.finRange PTABSIZE) fun p => do
    if ((← get).ptab p).pStatus ≠ .empty then ssig p sig

/-! ## New processes -/

/-- Whether `pid` is the number of a process. -/
def Kernel.pidTaken (s : Kernel) (pid : Nat) : Prop :=
  ∃ pp, (s.ptab pp).pStatus ≠ .empty ∧ (s.ptab pp).pPid = pid

instance {s : Kernel} {pid : Nat} : Decidable (s.pidTaken pid) := by
  unfold Kernel.pidTaken
  infer_instance

/-- `if (nextpid++ > 32000) nextpid = 1`. -/
def nextPid (n : Nat) : Nat := if 32000 < n then 1 else n + 1

/-- The search of `ptab_alloc` for a number that is not taken, in `rounds` rounds. -/
def freshPid (s : Kernel) : (rounds n : Nat) → Option Nat
  | 0, _ => none
  | rounds + 1, n => if s.pidTaken (nextPid n) then freshPid s rounds (nextPid n) else some (nextPid n)

/-- `ptab_alloc`. -/
def ptabAlloc : K (Option (Fin PTABSIZE)) := do
  let s ← get
  match (List.finRange PTABSIZE).find? fun p => (s.ptab p).pStatus = .empty with
  | none => pure none
  | some p =>
    match freshPid s (PTABSIZE + 1) s.nextpid with
    | none => throw .hang
    | some pid => do
      modify fun s => { s with nextpid := pid }
      modifyPtab p fun _ => { PTab.zero with pPid := pid, pStatus := .forking }
      pure (some p)

/-- The block of the swap space where the image of a process starts. -/
def swapBlk (p : Fin PTABSIZE) : Word := BitVec.ofNat 16 (p * 65 + 1)

/-- `newproc`. A plain `char` is unsigned, so that `of_tab[*j].o_refs` grows for a closed descriptor too. -/
def newproc (p : Fin PTABSIZE) : K PUnit := do
  let s ← get
  let parent := s.udata.uPtab
  modifyPtab p fun x =>
    { x with
      pSwap := swapBlk p
      pStatus := .running
      pPptr := some parent
      pIgnored := (s.ptab parent).pIgnored
      pUid := (s.ptab parent).pUid }
  modifyUdata fun u =>
    { u with uPtab := p, uUtime := ⟨0, 0⟩, uStime := ⟨0, 0⟩, uCutime := ⟨0, 0⟩, uCstime := ⟨0, 0⟩ }
  modifyUdata fun u => { u with uTime := s.tod }
  iRef s.udata.uCwd
  modifyUdata fun u => { u with uCursig := 0, uError := .ok }
  each (List.finRange UFTSIZE) fun j => do oftRef ((← get).udata.uFiles j)

/-- `swrite`. -/
def swrite : K PUnit :=
  modify fun s =>
    { s with swap := Function.update s.swap (s.ptab s.udata.uPtab).pSwap s.udata }

/-- `dofork`. -/
def dofork : K Word := do
  match ← ptabAlloc with
  | none => do
    setError .eagain
    pure 0xffff
  | some p => do
    modifyPtab (← get).udata.uPtab fun x => { x with pStatus := .ready }
    swrite
    newproc p
    modify fun s => { s with runticks := 0 }
    modifyPtab p fun x => { x with pStatus := .running }
    pure 0

/-! ## The scheduler -/

/-- One round of the loop of `getproc`, which gives the process it selects. -/
def getprocRound : K (Option (Fin PTABSIZE)) := do
  modify fun s => { s with pp := s.pp + 1 }
  let s ← get
  let status := (s.ptab s.pp).pStatus
  if status = .running then throw .getprocExtraRunning
  else if status = .ready then pure (some s.pp)
  else pure none

/-- `swapin`. -/
def swapin (newp : Fin PTABSIZE) : K PUnit := do
  modify fun s => { s with udata := s.swap (s.ptab newp).pSwap }
  if newp ≠ (← get).udata.uPtab then throw .mangledSwapin
  else do
    modifyPtab newp fun x => { x with pStatus := .running }
    modify fun s => { s with runticks := 0 }

/-- What follows when `getproc` has selected `newp`: the rest of `swapout`, or of `doexit` for a process
that has exited. -/
def switchTo (exited : Bool) (newp : Fin PTABSIZE) : K PUnit := do
  let s ← get
  if exited then swapin newp
  else if newp = s.udata.uPtab then do
    modifyPtab newp fun x => { x with pStatus := .running }
    modify fun s => { s with runticks := 0 }
  else do
    swrite
    swapin newp

/-! ## Exits -/

/-- `addtick`. -/
def addtick (t1 t2 : Time) : Time :=
  let time := t1.tTime + t2.tTime
  let date := t1.tDate + t2.tDate
  if 600 ≤ time then ⟨time - 600, date + 1⟩ else ⟨time, date⟩

/-- The first loop of `doexit` closes the open descriptors. -/
def closeAll : K PUnit :=
  each (List.finRange UFTSIZE) fun j => do
    if ¬ (← get).udata.closed j then let _ ← doclose (fileWord j)

/-- The second loop of `doexit` makes `init` the parent of every child. -/
def Kernel.adopt (s : Kernel) (p : Fin PTABSIZE) : PTab :=
  if (s.ptab p).pStatus ≠ .empty ∧ (s.ptab p).pPptr = some s.udata.uPtab then
    { s.ptab p with pPptr := some s.initproc }
  else s.ptab p

/-- `doexit` stores the tick counts over the entry from `p_wait` on. -/
def PTab.stash (x : PTab) (utime stime : Time) : PTab :=
  { x with
    pWait := utime.tTime
    pPriority := utime.tDate
    pPending := stime.tTime
    pIgnored := stime.tDate }

/-- Changes the process table entry of the current process. -/
def modifyOwn (f : PTab → PTab) : K PUnit := do modifyPtab (← get).udata.uPtab f

/-- `doexit` adds up the tick counts. -/
def addTimes : K PUnit := do
  modifyUdata fun u => { u with uUtime := addtick u.uUtime u.uCutime }
  modifyUdata fun u => { u with uStime := addtick u.uStime u.uCstime }
  let u := (← get).udata
  modifyOwn fun x => x.stash u.uUtime u.uStime

/-- `doexit` wakes a waiting parent. -/
def wakeParent : K PUnit := do
  let s ← get
  if s.udata.uPtab ≠ s.initproc then
    wakeup ((s.ptab s.udata.uPtab).pPptr.elim .none .ptab)

/-- `doexit`, up to the call of `getproc`. -/
def doexit (val val2 : Word) : K PUnit := do
  closeAll
  modifyOwn fun x => { x with pExitval := val <<< 8 ||| (val2 &&& 0xff) }
  modify fun s => { s with ptab := s.adopt }
  iDeref (← get).udata.uCwd
  addTimes
  wakeParent
  modifyOwn fun x => { x with pStatus := .zombie }

/-! ## Signals of the current process -/

/-- C's `!x`. -/
def logicalNot (x : Word) : Word := if x = 0 then 1 else 0

/-- The loop of `chksigs`, which tells whether the process has exited. -/
def chksigsLoop : List (Fin NSIGS) → K Bool
  | [] => pure false
  | j :: js => do
    let s ← get
    if sigmask j &&& (s.ptab s.udata.uPtab).pPending = 0 then chksigsLoop js
    else if s.udata.uSigvec j = SIG_DFL then do
      doexit 0 (BitVec.ofNat 16 j)
      pure true
    else if s.udata.uSigvec j ≠ SIG_IGN then do
      modifyPtab s.udata.uPtab fun x => { x with pPending := x.pPending &&& logicalNot (sigmask j) }
      modifyUdata fun u => { u with uCursig := BitVec.ofNat 16 j }
      chksigsLoop js
    else chksigsLoop js

/-- `chksigs`, which tells whether the process has exited. -/
def chksigs : K Bool := do
  let s ← get
  if (s.ptab s.udata.uPtab).pPending = 0 then pure false
  else chksigsLoop ((List.finRange NSIGS).filter fun j => j.val ≠ 0)

/-! ## Sleeping -/

/-- How a piece of kernel code ends: it returns, the process waits in `swapout` for being swapped in and
then goes on, or the process has exited. -/
inductive CallEnd (α : Type)
  | returned (a : α)
  | swapped
  | exited

/-- `swapout`, up to the call of `getproc`. -/
def swapout {α : Type} : K (CallEnd α) := do
  if ← chksigs then pure .exited else pure .swapped

/-- `psleep` with the `swapout` that it calls. -/
def psleepSwap {α : Type} (event : Event) : K (CallEnd α) := do
  psleep event
  swapout

/-- The first child of the current process that has exited. -/
def Kernel.zombieChild (s : Kernel) : Option (Fin PTABSIZE) :=
  (List.finRange PTABSIZE).find? fun p =>
    (s.ptab p).pStatus = .zombie ∧ (s.ptab p).pPptr = some s.udata.uPtab

/-- A store to `udata.u_ptab`, which points to an entry of the process table. -/
def setUPtab (l : Layout) (a : Word) : K PUnit :=
  match l.ptabAt a with
  | some p => modifyUdata fun u => { u with uPtab := p }
  | none => throw .undefined

/-- `*statloc = val`, two bytes. The first field of `udata` is `u_ptab`. -/
def putStatus (l : Layout) (statloc : Nat) (val : Word) : K PUnit := do
  let bytes (i : Nat) : Byte := if i = 0 then val.setWidth 8 else (val >>> 8).setWidth 8
  if statloc + 1 < l.udata then modifyUdata fun u => { u with mem := putBytes u.mem statloc 2 bytes }
  else if statloc + 1 = l.udata then do
    let own := l.addr (.ptab (← get).udata.uPtab)
    modifyUdata fun u => { u with mem := putBytes u.mem statloc 1 bytes }
    setUPtab l (own &&& 0xff00 ||| val >>> 8)
  else if statloc = l.udata then setUPtab l val
  else throw .undefined

/-- `_wait` takes up a child that has exited. -/
def reap (l : Layout) (statloc : Nat) (p : Fin PTABSIZE) : K Word := do
  let x := (← get).ptab p
  if statloc ≠ 0 then putStatus l statloc x.pExitval
  modifyPtab p fun x => { x with pStatus := .empty }
  modifyUdata fun u => { u with uCutime := addtick u.uCutime ⟨x.pWait, x.pPriority⟩ }
  modifyUdata fun u => { u with uCstime := addtick u.uCstime ⟨x.pPending, x.pIgnored⟩ }
  pure (BitVec.ofNat 16 x.pPid)

/-- One round of the loop of `_wait`. A process that is swapped out in it goes on with another round. -/
def waitRound (statloc : Nat) : K (CallEnd Word) := do
  let l := (← get).layout
  if ← chksigs then pure .exited
  else if (← get).udata.uCursig ≠ 0 then do
    setError .eintr
    pure (.returned 0xffff)
  else
    match (← get).zombieChild with
    | some p => do
      let pid ← reap l statloc p
      pure (.returned pid)
    | none => psleepSwap (.ptab (← get).udata.uPtab)

/-- Whether the current process has a child. -/
def Kernel.hasChild (s : Kernel) : Prop :=
  ∃ p, (s.ptab p).pStatus ≠ .empty ∧ (s.ptab p).pPptr = some s.udata.uPtab ∧ p ≠ s.udata.uPtab

instance {s : Kernel} : Decidable s.hasChild := by
  unfold Kernel.hasChild
  infer_instance

/-- `_wait`. The test of `statloc` lets the address of `udata` itself pass. -/
def _wait (statloc : Nat) : K (CallEnd Word) := do
  let s ← get
  if s.layout.udata < statloc then do
    setError .efault
    pure (.returned 0xffff)
  else if ¬ s.hasChild then do
    setError .echild
    pure (.returned 0xffff)
  else waitRound statloc

/-- The end of `unix`: signals, and another process when the time is up. -/
def unixEnd : K (CallEnd PUnit) := do
  if ← chksigs then pure .exited
  else do
    let s ← get
    if MAXTICKS ≤ s.runticks.toInt then do
      modifyPtab s.udata.uPtab fun x => { x with pStatus := .ready }
      swapout
    else pure (.returned ⟨⟩)

end Uzi
