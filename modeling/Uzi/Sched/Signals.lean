import Uzi.Sched.Fork

/-!
# Signals and the clock

The system calls of `kernel/scall2.c` that deal with signals, the delivery of a caught one (`calltrap` of
`kernel/machdep.c`) and the clock interrupt. The processor is looked at more closely here than in
`Machine`, with interrupts wherever they are not disabled. `psleep` changes the status of the process, and the
`swapout` that it calls looks for signals after that (`Point.swapout`), and `doexit` stores the times of the
process and calls `wakeup`, which enables the interrupts, before it makes the process a zombie
(`Point.leaving`).
-/

namespace Uzi
open Exec

/-- The signal that kills. -/
def SIGKILL : Nat := 9
/-- The signal of the alarm clock. -/
def SIGALRM : Nat := 14

/-! ## System calls -/

/-- `_signal`. -/
def _signal (sig func : Word) : K Word := do
  let s ← get
  if h : sig.toInt < 1 ∨ sig = SIGKILL ∨ NSIGS ≤ sig.toNat then do
    setError .einval
    pure 0xffff
  else do
    let j : Fin NSIGS := ⟨sig.toNat, by omega⟩
    if func ≠ SIG_IGN ∧ func ≠ SIG_DFL ∧ (func.toNat < PROGBASE ∨ s.layout.udata ≤ func.toNat) then do
      setError .efault
      pure 0xffff
    else do
      modifyOwn fun x =>
        { x with
          pIgnored := if func = SIG_IGN then x.pIgnored ||| sigmask j else x.pIgnored &&& ~~~ sigmask j }
      let retval := (← get).udata.uSigvec j
      modifyUdata fun u => { u with uSigvec := Function.update u.uSigvec j func }
      pure retval

/-- `_kill`. -/
def _kill (pid sig : Word) : K Word := do
  let s ← get
  if sig.toInt ≤ 0 ∨ 15 < sig.toInt then do
    setError .einval
    pure 0xffff
  else
    match (List.finRange PTABSIZE).find? fun p => (s.ptab p).pPid = pid.toNat with
    | some p => do
      sendsig (some p) sig.toNat
      pure 0
    | none => do
      setError .einval
      pure 0xffff

/-- `_alarm`. -/
def _alarm (secs : Word) : K Word := do
  let s ← get
  modifyOwn fun x => { x with pAlarm := secs }
  pure (s.ptab s.udata.uPtab).pAlarm

/-- `calltrap`, up to the call of the handler. -/
def calltrap : K PUnit := do
  let u := (← get).udata
  if u.uCursig ≠ 0 then
    modifyUdata fun u =>
      { u with
        uCursig := 0
        uSigvec := fun j => if j = u.uCursig.toNat then SIG_DFL else u.uSigvec j }

/-! ## Signals and exits, one after the other -/

/-- The loop of `chksigs`, up to the `doexit` that it calls for a signal. -/
def chksigsFrontLoop : List (Fin NSIGS) → K (Option (Fin NSIGS))
  | [] => pure none
  | j :: js => do
    let s ← get
    if sigmask j &&& (s.ptab s.udata.uPtab).pPending = 0 then chksigsFrontLoop js
    else if s.udata.uSigvec j = SIG_DFL then pure (some j)
    else if s.udata.uSigvec j ≠ SIG_IGN then do
      modifyPtab s.udata.uPtab fun x => { x with pPending := x.pPending &&& logicalNot (sigmask j) }
      modifyUdata fun u => { u with uCursig := BitVec.ofNat 16 j }
      chksigsFrontLoop js
    else chksigsFrontLoop js

/-- `chksigs`, up to the `doexit` that it calls for a signal. -/
def chksigsFront : K (Option (Fin NSIGS)) := do
  let s ← get
  if (s.ptab s.udata.uPtab).pPending = 0 then pure none
  else chksigsFrontLoop ((List.finRange NSIGS).filter fun j => j.val ≠ 0)

/-- What `chksigs` does then. -/
def chksigsBack (r : Option (Fin NSIGS)) : K Bool :=
  match r with
  | some j => do
    doexit 0 (BitVec.ofNat 16 j)
    pure true
  | none => pure false

/-- `doexit`, up to the change of the status. -/
def leave (val val2 : Word) : K PUnit := do
  closeAll
  modifyOwn fun x => { x with pExitval := val <<< 8 ||| (val2 &&& 0xff) }
  modify fun s => { s with ptab := s.adopt }
  iDeref (← get).udata.uCwd
  addTimes
  wakeParent

/-- The end of `doexit`. -/
def die : K PUnit := modifyOwn fun x => { x with pStatus := .zombie }

/-- The loop of `chksigs` in two parts. -/
lemma chksigsLoop_eq {js : List (Fin NSIGS)} : chksigsLoop js = chksigsFrontLoop js >>= chksigsBack := by
  induction js with
  | nil => rfl
  | cons j js ih =>
    rw [chksigsLoop, chksigsFrontLoop, bind_assoc]
    congr
    funext s
    rw [ih]
    split
    · rfl
    split
    · rfl
    split
    · rw [bind_assoc]
      simp only [bind_assoc]
    · rfl

/-- `chksigs` in two parts. -/
lemma chksigs_eq : chksigs = chksigsFront >>= chksigsBack := by
  unfold chksigs chksigsFront
  rw [bind_assoc]
  congr
  funext s
  split
  · rfl
  · exact chksigsLoop_eq

/-- `doexit` in two parts. -/
lemma doexit_eq {val val2 : Word} : doexit val val2 = leave val val2 >>= fun _ => die := by
  unfold doexit leave die
  simp only [bind_assoc]

section Taken

variable {s : Kernel} {E : Panic → Prop}

/-- The signal is pending for the current process, which does not ignore it. -/
def Kernel.takes (s : Kernel) (j : Fin NSIGS) : Bool :=
  sigmask j &&& (s.ptab s.udata.uPtab).pPending ≠ 0 ∧ s.udata.uSigvec j ≠ SIG_IGN

/-- When `chksigs` takes a signal. -/
lemma Kernel.takes_iff {j : Fin NSIGS} : s.takes j = true ↔
    sigmask j &&& (s.ptab s.udata.uPtab).pPending ≠ 0 ∧ s.udata.uSigvec j ≠ SIG_IGN := by
  rw [takes, decide_eq_true_eq]

/-- The first signal that `chksigs` takes. -/
def Kernel.taken (s : Kernel) : Option (Fin NSIGS) :=
  ((List.finRange NSIGS).filter fun j => j.val ≠ 0).find? s.takes

/-- The kernel after `chksigs` has taken a caught signal. -/
def Kernel.caught (s : Kernel) (j : Fin NSIGS) : Kernel :=
  (s.setProc s.udata.uPtab { s.ptab s.udata.uPtab with pPending := 0 }).withUdata
    { s.udata with uCursig := BitVec.ofNat 16 j }

/-- The mask of a signal is not 0. -/
lemma logicalNot_sigmask (j : Fin NSIGS) : logicalNot (sigmask j) = 0 := by
  revert j
  decide

/-- Without a pending signal the loop does nothing. -/
lemma chksigsFrontLoop_none {js : List (Fin NSIGS)} (clear : (s.ptab s.udata.uPtab).pPending = 0) :
    chksigsFrontLoop js s = .ok (none, s) := by
  induction js with
  | nil => rfl
  | cons j js ih =>
    have skip : sigmask j &&& (s.ptab s.udata.uPtab).pPending = 0 := by
      rw [clear]
      exact BitVec.and_zero
    show (if _ then chksigsFrontLoop js else _ : K (Option (Fin NSIGS))) s = _
    rw [if_pos skip]
    exact ih

/-- The loop takes the first signal that is not ignored. -/
lemma wp_chksigsFrontLoop {js : List (Fin NSIGS)} {Q : Option (Fin NSIGS) → Kernel → Prop} {r : Option (Fin NSIGS)}
    (first : js.find? s.takes = r) (nothing : r = none → Q none s)
    (killed : ∀ j, r = some j → s.udata.uSigvec j = SIG_DFL → Q (some j) s)
    (caught : ∀ j, r = some j → s.udata.uSigvec j ≠ SIG_DFL → Q none (s.caught j)) :
    wp (chksigsFrontLoop js) Q E s := by
  induction js with
  | nil => exact nothing first.symm
  | cons j js ih =>
    rw [chksigsFrontLoop, wp_bind, wp_get, wp_ite]
    split
    · next clear =>
      have skip : ¬ s.takes j = true := fun takes => (Kernel.takes_iff.mp takes).1 clear
      exact ih (by rwa [List.find?_cons_of_neg skip] at first)
    · next pending =>
      rw [wp_ite]
      split
      · next dfl =>
        have takes : s.takes j = true := Kernel.takes_iff.mpr ⟨pending, dfl ▸ by decide⟩
        rw [List.find?_cons_of_pos takes] at first
        exact killed j first.symm dfl
      · next dfl =>
        rw [wp_ite]
        split
        · next ign =>
          have takes : s.takes j = true := Kernel.takes_iff.mpr ⟨pending, ign⟩
          rw [List.find?_cons_of_pos takes] at first
          rw [wp_bind, wp_modifyPtab, wp_bind, wp_modifyUdata, logicalNot_sigmask]
          have zero : (s.ptab s.udata.uPtab).pPending &&& 0 = 0 := BitVec.and_zero
          rw [zero]
          -- no signal is pending any more
          have done : chksigsFrontLoop js (s.caught j) = .ok (none, s.caught j) :=
            chksigsFrontLoop_none (congrArg PTab.pPending Kernel.ptab_setProc)
          show wp (chksigsFrontLoop js) Q E (s.caught j)
          rw [wp, done]
          exact caught j first.symm dfl
        · next ign =>
          have skip : ¬ s.takes j = true := fun takes => ign (Kernel.takes_iff.mp takes).2
          exact ih (by rwa [List.find?_cons_of_neg skip] at first)

/-- `chksigs` takes the first signal that is not ignored: the process exits with it or catches it. -/
lemma wp_chksigsFront {Q : Option (Fin NSIGS) → Kernel → Prop} (nothing : s.taken = none → Q none s)
    (killed : ∀ j, s.taken = some j → s.udata.uSigvec j = SIG_DFL → Q (some j) s)
    (caught : ∀ j, s.taken = some j → s.udata.uSigvec j ≠ SIG_DFL → Q none (s.caught j)) :
    wp chksigsFront Q E s := by
  unfold chksigsFront
  rw [wp_bind, wp_get, wp_ite]
  split
  · next zero =>
    refine nothing (List.find?_eq_none.mpr fun j _ takes => ?_)
    exact (Kernel.takes_iff.mp takes).1 (by rw [zero]; exact BitVec.and_zero)
  · exact wp_chksigsFrontLoop rfl nothing killed caught

end Taken

/-! ## The clock -/

/-- `incrtick`. -/
def incrtick (t : Time) : Time :=
  if t.tTime + 1 = 600 then ⟨0, t.tDate + 1⟩ else ⟨t.tTime + 1, t.tDate⟩

/-- The alarm clock of a process in `clk_int`. -/
def alarmClock (p : Fin PTABSIZE) : K PUnit := do
  if ((← get).ptab p).pAlarm ≠ 0 then do
    modifyPtab p fun x => { x with pAlarm := x.pAlarm - 1 }
    if ((← get).ptab p).pAlarm = 0 then sendsig (some p) SIGALRM

/-- `clk_int` once a tick, `insys` being `u_insys` and `second` the time of day where a second has
passed. -/
def clkInt (insys : Bool) (second : Option Time) : K PUnit := do
  let s ← get
  if (s.ptab s.udata.uPtab).pStatus = .running then
    modifyUdata fun u =>
      if insys then { u with uStime := incrtick u.uStime } else { u with uUtime := incrtick u.uUtime }
  match second with
  | none => pure ⟨⟩
  | some now => do
    modify fun s => { s with tod := now }
    each (List.finRange PTABSIZE) alarmClock

/-! ## Another process -/

/-- The kernel when `p` has been given the processor. -/
def Kernel.started (s : Kernel) (p : Fin PTABSIZE) : Kernel :=
  { s.setProc p { s.ptab p with pStatus := .running } with runticks := 0 }

section Switch

variable {s : Kernel} {p : Fin PTABSIZE} {E : Panic → Prop} {Q : PUnit → Kernel → Prop}

/-- The process is loaded from its image. -/
lemma wp_swapin (mangled : E .mangledSwapin)
    (load : (s.swap (s.ptab p).pSwap).uPtab = p → Q ⟨⟩ ((s.withUdata (s.swap (s.ptab p).pSwap)).started p)) :
    wp (swapin p) Q E s := by
  unfold swapin
  rw [wp_bind, wp_modify, wp_bind, wp_get, wp_ite]
  split
  · exact mangled
  · next own => exact load (not_not.mp own).symm

/-- What `swapin` leaves of a process that is started. -/
lemma wp_switchTo_started {exited : Bool} (mangled : E .mangledSwapin)
    (gone : exited = true → (s.swap (s.ptab p).pSwap).uPtab = p →
      Q ⟨⟩ ((s.withUdata (s.swap (s.ptab p).pSwap)).started p))
    (again : exited = false → s.udata.uPtab = p → Q ⟨⟩ (s.started p))
    (other : exited = false → (s.saved.swap (s.ptab p).pSwap).uPtab = p →
      Q ⟨⟩ ((s.saved.withUdata (s.saved.swap (s.ptab p).pSwap)).started p)) :
    wp (switchTo exited p) Q E s := by
  unfold switchTo
  rw [wp_bind, wp_get, wp_ite]
  split
  · next h => exact wp_swapin mangled (gone h)
  · next h =>
    have stays := Bool.eq_false_iff.mpr h
    rw [wp_ite]
    split
    · next own => exact again stays own.symm
    · rw [wp_bind, wp_swrite]
      exact wp_swapin mangled (other stays)

/-- The process that is found is ready. -/
lemma wp_getprocRound_found (extra : E .getprocExtraRunning) :
    wp getprocRound (fun r s' => s' = { s with pp := s.pp + 1 } ∧ ∀ p ∈ r, (s'.ptab p).pStatus = .ready) E s := by
  unfold getprocRound
  rw [wp_bind, wp_modify, wp_bind, wp_get, wp_ite]
  split
  · exact extra
  rw [wp_ite]
  split
  · next ready =>
    refine ⟨rfl, fun p found => ?_⟩
    cases Option.mem_some_iff.mp found
    exact ready
  · exact ⟨rfl, fun p found => absurd found (Option.not_mem_none p)⟩

end Switch

/-! ## The processor -/

/-- Where the processor is: in a process, in `swapout` in front of `chksigs`, in front of `doexit`, in `doexit`
in front of the change of the status, or in `getproc`. -/
inductive Point
  | running
  | swapout
  | doexit (val val2 : Word)
  | leaving
  | getproc (exited : Bool)
  deriving DecidableEq

/-- The kernel and where the processor is. -/
structure Cpu where
  k : Kernel
  pt : Point

/-- What a process does with the process table and with signals. `sleep` is `psleep` up to its call of
`swapout`, `yield` the end of `unix` after `chksigs`, `check` a `chksigs` outside of `swapout`, `exit` the call of
`doexit`, and `bury` the search of `_wait` for a child that has exited. No one wakes up the event 0 of `pause`. -/
inductive Act
  | sleep (event : Event)
  | yield
  | check
  | fork
  | exit (val val2 : Word)
  | bury (statloc : Nat)
  | wakeup (event : { e : Event // e ≠ .none })
  | kill (pid sig : Word)
  | sendsig (proc : Option (Fin PTABSIZE)) (sig : Nat)
  | signal (sig func : Word)
  | alarm (secs : Word)
  | trap

/-- The code of what a process does. -/
def Act.run : Act → K Point
  | .sleep event => do
    psleep event
    pure .swapout
  | .yield => do
    let s ← get
    if MAXTICKS ≤ s.runticks.toInt then do
      modifyOwn fun x => { x with pStatus := .ready }
      pure .swapout
    else pure .running
  | .check => return (← chksigsFront).elim .running fun j => .doexit 0 (BitVec.ofNat 16 j)
  | .fork => do
    let _ ← dofork
    pure .running
  | .exit val val2 => pure (.doexit val val2)
  | .bury statloc => do
    match (← get).zombieChild with
    | some p => do
      let _ ← reap (← get).layout statloc p
      pure .running
    | none => pure .running
  | .wakeup event => do
    Uzi.wakeup event
    pure .running
  | .kill pid sig => do
    let _ ← _kill pid sig
    pure .running
  | .sendsig proc sig => do
    Uzi.sendsig proc sig
    pure .running
  | .signal sig func => do
    let _ ← _signal sig func
    pure .running
  | .alarm secs => do
    let _ ← _alarm secs
    pure .running
  | .trap => do
    calltrap
    pure .running

/-- What an interrupt does. -/
inductive Irq
  | clock (insys : Bool) (second : Option Time)
  | wakeup (event : { e : Event // e ≠ .none })
  | sendsig (proc : Option (Fin PTABSIZE)) (sig : Nat)

/-- The code of an interrupt. -/
def Irq.run : Irq → K PUnit
  | .clock insys second => clkInt insys second
  | .wakeup event => Uzi.wakeup event
  | .sendsig proc sig => Uzi.sendsig proc sig

/-- The other code of a process leaves the process table alone, but for the user of a process, and the times. -/
structure Aside (s s' : Kernel) : Prop where
  ptab : ∀ p, ∃ uid, s'.ptab p = { s.ptab p with pUid := uid }
  layout : s'.layout = s.layout
  initproc : s'.initproc = s.initproc
  swap : s'.swap = s.swap
  uPtab : s'.udata.uPtab = s.udata.uPtab
  utime : s'.udata.uUtime = s.udata.uUtime
  stime : s'.udata.uStime = s.udata.uStime
  cutime : s'.udata.uCutime = s.udata.uCutime
  cstime : s'.udata.uCstime = s.udata.uCstime

/-- What happens next. -/
inductive Turn
  | act (a : Act)
  | other
  | irq (i : Irq)
  | chksigs
  | leave
  | die
  | look
  | switch

/-- Where a child that has exited is taken up, the status pointer is null or points into the memory of the process. -/
def Cpu.InUser (m : Cpu) : Turn → Prop
  | .act (.bury statloc) => m.k.zombieChild ≠ none → m.k.layout.TakesStatus statloc
  | _ => True

instance {m : Cpu} {v : Turn} : Decidable (m.InUser v) := by
  unfold Cpu.InUser
  split <;> infer_instance

/-- The interrupts are enabled: `doexit` calls no `wakeup` for the first process. -/
def Cpu.Open (m : Cpu) : Prop := m.pt = .leaving → m.k.udata.uPtab ≠ m.k.initproc

instance {m : Cpu} : Decidable m.Open := by
  unfold Cpu.Open
  infer_instance

/-- Where `swapout` goes on after `chksigs`. -/
def Point.checked (r : Option (Fin NSIGS)) : Point := r.elim (.getproc false) fun j => .doexit 0 (BitVec.ofNat 16 j)

/-- A step of the processor. -/
inductive Cpu.Step : Cpu → Turn → Cpu → Prop
  | act {k k' : Kernel} {pt : Point} {a : Act} (ret : a.run k = .ok (pt, k')) :
    Cpu.Step ⟨k, .running⟩ (.act a) ⟨k', pt⟩
  | other {k k' : Kernel} (aside : Aside k k') : Cpu.Step ⟨k, .running⟩ .other ⟨k', .running⟩
  | irq {k k' : Kernel} {pt : Point} {i : Irq} (enabled : Cpu.Open ⟨k, pt⟩) (ret : i.run k = .ok (⟨⟩, k')) :
    Cpu.Step ⟨k, pt⟩ (.irq i) ⟨k', pt⟩
  | chksigs {k k' : Kernel} {r : Option (Fin NSIGS)} (ret : chksigsFront k = .ok (r, k')) :
    Cpu.Step ⟨k, .swapout⟩ .chksigs ⟨k', .checked r⟩
  | leave {k k' : Kernel} {val val2 : Word} (ret : leave val val2 k = .ok (⟨⟩, k')) :
    Cpu.Step ⟨k, .doexit val val2⟩ .leave ⟨k', .leaving⟩
  | die {k k' : Kernel} (ret : die k = .ok (⟨⟩, k')) : Cpu.Step ⟨k, .leaving⟩ .die ⟨k', .getproc true⟩
  | look {k k' : Kernel} {exited : Bool} (round : getprocRound k = .ok (none, k')) :
    Cpu.Step ⟨k, .getproc exited⟩ .look ⟨k', .getproc exited⟩
  | switch {k k' k'' : Kernel} {exited : Bool} {newp : Fin PTABSIZE}
    (round : getprocRound k = .ok (some newp, k')) (ret : switchTo exited newp k' = .ok (⟨⟩, k'')) :
    Cpu.Step ⟨k, .getproc exited⟩ .switch ⟨k'', .running⟩

/-- The data of a process, which are in the swap space unless it is the current one. -/
def Kernel.data (s : Kernel) (p : Fin PTABSIZE) : UData :=
  if p = s.udata.uPtab then s.udata else s.swap (s.ptab p).pSwap

/-- The state that `init2` leaves. -/
def Cpu.Booted (m : Cpu) : Prop := m.pt = .running ∧ Uzi.Booted ⟨m.k, .running⟩

/-- A run of steps that `ok` allows. -/
inductive Cpu.Run (ok : Cpu → Turn → Prop) (m₀ : Cpu) : Cpu → Prop
  | start : Cpu.Run ok m₀ m₀
  | step {m m' : Cpu} {v : Turn} (run : Cpu.Run ok m₀ m) (may : ok m v) (next : m.Step v m') : Cpu.Run ok m₀ m'

/-! ## Runs that are given by their turns -/

/-- The step that the processor makes in this turn. -/
def Cpu.turn (m : Cpu) : Turn → Option Cpu
  | .act a =>
    match m.pt, a.run m.k with
    | .running, .ok (pt, k) => some ⟨k, pt⟩
    | _, _ => none
  | .other => none
  | .irq i =>
    if m.Open then
      match i.run m.k with
      | .ok (_, k) => some ⟨k, m.pt⟩
      | .error _ => none
    else none
  | .chksigs =>
    match m.pt, chksigsFront m.k with
    | .swapout, .ok (r, k) => some ⟨k, .checked r⟩
    | _, _ => none
  | .leave =>
    match m.pt with
    | .doexit val val2 =>
      match Uzi.leave val val2 m.k with
      | .ok (_, k) => some ⟨k, .leaving⟩
      | .error _ => none
    | _ => none
  | .die =>
    match m.pt, Uzi.die m.k with
    | .leaving, .ok (_, k) => some ⟨k, .getproc true⟩
    | _, _ => none
  | .look =>
    match m.pt, getprocRound m.k with
    | .getproc exited, .ok (none, k) => some ⟨k, .getproc exited⟩
    | _, _ => none
  | .switch =>
    match m.pt, getprocRound m.k with
    | .getproc exited, .ok (some newp, k) =>
      match switchTo exited newp k with
      | .ok (_, k) => some ⟨k, .running⟩
      | .error _ => none
    | _, _ => none

/-- The run with these turns, where `ok` allows every one of them. -/
def Cpu.turns (ok : Cpu → Turn → Prop) [∀ m v, Decidable (ok m v)] : List Turn → Cpu → Option Cpu
  | [], m => some m
  | v :: vs, m => if ok m v then (m.turn v).bind (Cpu.turns ok vs) else none

/-- A turn is a step. -/
lemma Cpu.turn_step {m m' : Cpu} {v : Turn} (h : m.turn v = some m') : m.Step v m' := by
  obtain ⟨k, pt⟩ := m
  cases v with
  | act a =>
    unfold Cpu.turn at h
    dsimp only at h
    split at h
    · next ret =>
      cases h
      exact .act ret
    · cases h
  | other => cases h
  | irq i =>
    unfold Cpu.turn at h
    dsimp only at h
    split at h
    · next enabled =>
      split at h
      · next ret =>
        cases h
        exact .irq enabled ret
      · cases h
    · cases h
  | chksigs =>
    unfold Cpu.turn at h
    dsimp only at h
    split at h
    · next ret =>
      cases h
      exact .chksigs ret
    · cases h
  | leave =>
    unfold Cpu.turn at h
    dsimp only at h
    split at h
    · split at h
      · next ret =>
        cases h
        exact .leave ret
      · cases h
    · cases h
  | die =>
    unfold Cpu.turn at h
    dsimp only at h
    split at h
    · next ret =>
      cases h
      exact .die ret
    · cases h
  | look =>
    unfold Cpu.turn at h
    dsimp only at h
    split at h
    · next round =>
      cases h
      exact .look round
    · cases h
  | switch =>
    unfold Cpu.turn at h
    dsimp only at h
    split at h
    · next round =>
      split at h
      · next ret =>
        cases h
        exact .switch round ret
      · cases h
    · cases h

/-- Turns that are taken are a run. -/
lemma Cpu.turns_run {ok : Cpu → Turn → Prop} [∀ m v, Decidable (ok m v)] {m₀ m m' : Cpu} {vs : List Turn}
    (run : Cpu.Run ok m₀ m) (h : Cpu.turns ok vs m = some m') : Cpu.Run ok m₀ m' := by
  induction vs generalizing m with
  | nil =>
    cases h
    exact run
  | cons v vs ih =>
    unfold Cpu.turns at h
    split at h
    · next may =>
      obtain ⟨m₁, first, rest⟩ := Option.bind_eq_some_iff.mp h
      exact ih (.step run may (turn_step first)) rest
    · cases h

end Uzi
