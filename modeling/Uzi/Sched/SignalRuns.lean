import Uzi.Sched.Signals
import Uzi.Sched.TableRuns

/-!
# Signals and sleeping processes

`psleep` changes the status of a process before its `swapout` looks for signals. A caught signal that was
sent before that, while the process was running, is taken off `p_pending` there, and the process sleeps on. In
runs in which that does not happen no process sleeps with a signal that `chksigs` has taken for it.
-/

namespace Uzi
open Exec

variable {s s' : Kernel} {p q : Fin PTABSIZE} {E : Panic → Prop}

/-- A process with this status waits for a wakeup or a signal. -/
def PStatus.Asleep (x : PStatus) : Prop := x = .pause ∨ x = .sleep ∨ x = .wait

instance {x : PStatus} : Decidable x.Asleep := by
  unfold PStatus.Asleep
  infer_instance

/-! ## What leaves sleeping processes alone -/

/-- The entry is not filled or emptied, and its process does not fall asleep, start or stop running. -/
structure PTab.Dozes (x y : PTab) : Prop where
  swap : y.pSwap = x.pSwap
  empty : y.pStatus = .empty ↔ x.pStatus = .empty
  running : y.pStatus = .running ↔ x.pStatus = .running
  asleep : y.pStatus.Asleep → x.pStatus.Asleep

namespace PTab.Dozes

variable {x y z : PTab}

/-- An entry dozes when its status and its place in the swap space stay. -/
lemma of_status (swap : y.pSwap = x.pSwap) (status : y.pStatus = x.pStatus) : PTab.Dozes x y :=
  ⟨swap, by rw [status], by rw [status], by rw [status]; exact id⟩

/-- An entry that does not change dozes. -/
lemma refl : PTab.Dozes x x := .of_status rfl rfl

/-- An entry dozes through two changes. -/
lemma trans (h : PTab.Dozes x y) (h' : PTab.Dozes y z) : PTab.Dozes x z :=
  ⟨h'.swap.trans h.swap, h'.empty.trans h.empty, h'.running.trans h.running, fun e => h.asleep (h'.asleep e)⟩

/-- A process that was not running becomes ready. -/
lemma of_ready (swap : y.pSwap = x.pSwap) (ready : y.pStatus = .ready) (behind : x.pStatus.isBehindRunning = true) :
    PTab.Dozes x y := by
  refine ⟨swap, iff_of_false (ready ▸ nofun) fun e => ?_, iff_of_false (ready ▸ nofun) fun e => ?_, fun e => ?_⟩
  · exact absurd (e ▸ behind) (by decide)
  · exact absurd (e ▸ behind) (by decide)
  · exact absurd (ready ▸ e) (by decide)

end PTab.Dozes

/-- The entries doze, and the images of the processes are the same. -/
structure Dozing (s s' : Kernel) : Prop where
  swap : s'.swap = s.swap
  uPtab : s'.udata.uPtab = s.udata.uPtab
  cursig : s.udata.uCursig = 0 → s'.udata.uCursig = 0
  entry : ∀ p, (s.ptab p).Dozes (s'.ptab p)

namespace Dozing

/-- Nothing dozes on but what the process table, the swap space and the current process are. -/
lemma of_ptab (ptab : s'.ptab = s.ptab) (swap : s'.swap = s.swap) (uPtab : s'.udata.uPtab = s.udata.uPtab)
    (cursig : s.udata.uCursig = 0 → s'.udata.uCursig = 0) : Dozing s s' :=
  ⟨swap, uPtab, cursig, fun _ => ptab ▸ .refl⟩

/-- Two changes through which everything dozes. -/
lemma trans {s'' : Kernel} (h : Dozing s s') (h' : Dozing s' s'') : Dozing s s'' where
  swap := h'.swap.trans h.swap
  uPtab := h'.uPtab.trans h.uPtab
  cursig e := h'.cursig (h.cursig e)
  entry p := (h.entry p).trans (h'.entry p)

/-- One entry dozes. -/
lemma setProc {x : PTab} (h : (s.ptab p).Dozes x) : Dozing s (s.setProc p x) := by
  refine ⟨rfl, rfl, id, fun q => ?_⟩
  by_cases same : q = p
  · rw [same, Kernel.ptab_setProc]
    exact h
  · rw [Kernel.ptab_setProc_of_ne same]
    exact .refl

/-- The data of the process change, and no signal is taken. -/
lemma withUdata {u : UData} (uPtab : u.uPtab = s.udata.uPtab) (cursig : s.udata.uCursig = 0 → u.uCursig = 0) :
    Dozing s (s.withUdata u) := .of_ptab rfl rfl uPtab cursig

/-- A wakeup makes sleeping processes ready. -/
lemma woken {event : Event} : Dozing s { s with ptab := s.woken event } := by
  refine ⟨rfl, rfl, id, fun p => ?_⟩
  show (s.ptab p).Dozes (s.woken event p)
  unfold Kernel.woken
  split
  · next sleeps => exact .of_ready rfl rfl sleeps.1
  · exact .refl

end Dozing

instance : Forking Dozing where
  refl _ := .of_ptab rfl rfl rfl id
  trans _ _ _ := .trans
  bufs _ _ := .of_ptab rfl rfl rfl id
  fsTab _ _ _ _ := .of_ptab rfl rfl rfl id
  iTab _ _ := .of_ptab rfl rfl rfl id
  nexti _ _ := .of_ptab rfl rfl rfl id
  error _ _ := .of_ptab rfl rfl rfl id
  woken _ _ := .woken
  ofTab _ _ := .of_ptab rfl rfl rfl id
  ofBss _ _ := .of_ptab rfl rfl rfl id
  files _ _ := .of_ptab rfl rfl rfl id
  time _ _ := .withUdata rfl id
  reset _ := .withUdata rfl fun _ => rfl

namespace Dozing

/-- A signal is posted. -/
lemma ssig {sig : Nat} : Within Dozing E (ssig p sig) := by
  intro s
  unfold Uzi.ssig
  rw [wp_bind, wp_get, wp_ite]
  split
  · exact refl_of Dozing s
  rw [wp_ite]
  split
  · exact refl_of Dozing s
  rw [wp_modifyPtab]
  refine .setProc ?_
  split
  · next asleep =>
    refine .of_ready rfl rfl ?_
    rcases asleep with e | e | e
    · exact e ▸ rfl
    · exact e ▸ rfl
    · exact e ▸ rfl
  · exact .of_status rfl rfl

/-- `sendsig` puts nobody to sleep. -/
lemma sendsig {proc : Option (Fin PTABSIZE)} {sig : Nat} : Within Dozing E (sendsig proc sig) := by
  cases proc with
  | some p => exact ssig
  | none => exact .each (fun p => .bind .get fun _ => .ite ssig .pure) _

/-- `wakeup` puts nobody to sleep. -/
lemma wakeup {event : Event} : Within Dozing E (wakeup event) := fun _ => woken

/-- The alarm clock goes off. -/
lemma alarmClock : Within Dozing E (alarmClock p) := by
  have tick : Within Dozing E (modifyPtab p fun x => { x with pAlarm := x.pAlarm - 1 }) :=
    fun _ => .setProc (.of_status rfl rfl)
  unfold Uzi.alarmClock
  exact .bind .get fun _ => .ite (.bind tick fun _ => .bind .get fun _ => .ite sendsig .pure) .pure

/-- A tick is counted. -/
lemma tick {insys : Bool} : Within Dozing E (modifyUdata fun u =>
    if insys then { u with uStime := incrtick u.uStime } else { u with uUtime := incrtick u.uUtime }) := by
  intro s
  cases insys with
  | true => exact .withUdata rfl id
  | false => exact .withUdata rfl id

/-- An interrupt of the clock puts nobody to sleep. -/
lemma clkInt {insys : Bool} {second : Option Time} : Within Dozing E (clkInt insys second) := by
  unfold Uzi.clkInt
  refine .bind .get fun _ => .when tick fun _ => ?_
  cases second with
  | none => exact .pure
  | some now => exact .bind (.modify fun _ => .of_ptab rfl rfl rfl id) fun _ => .each (fun _ => alarmClock) _

/-- An interrupt puts nobody to sleep. -/
lemma irq {i : Irq} : Within Dozing E i.run := by
  cases i with
  | clock insys second => exact clkInt
  | wakeup event => exact wakeup
  | sendsig proc sig => exact sendsig

/-- The process changes its own entry, but for its status. -/
lemma modifyOwn {f : PTab → PTab} (swap : ∀ x, (f x).pSwap = x.pSwap) (status : ∀ x, (f x).pStatus = x.pStatus) :
    Within Dozing E (modifyOwn f) := fun _ => .setProc (.of_status (swap _) (status _))

/-! ## System calls -/

/-- `_kill` puts nobody to sleep. -/
lemma kill [Stopping E] {pid sig : Word} : Within Dozing E (_kill pid sig) := by
  unfold _kill
  refine .bind .get fun s => .ite (.bind Quiet.setError fun _ => .pure) ?_
  split
  · exact .bind sendsig fun _ => .pure
  · exact .bind Quiet.setError fun _ => .pure

/-- `_signal` puts nobody to sleep. -/
lemma signal [Stopping E] {sig func : Word} : Within Dozing E (_signal sig func) := by
  have error : ∀ {e : Errno}, Within Dozing E (do setError e; pure (0xffff : Word)) := .bind Quiet.setError fun _ => .pure
  unfold _signal
  refine .bind .get fun s => ?_
  split
  · exact error
  · refine .ite error (.bind (modifyOwn (fun _ => rfl) fun _ => rfl) fun _ => .bind .get fun _ => ?_)
    exact .bind (fun _ => .withUdata rfl id) fun _ => .pure

/-- `_alarm` puts nobody to sleep. -/
lemma alarm {secs : Word} : Within Dozing E (_alarm secs) :=
  .bind .get fun _ => .bind (modifyOwn (fun _ => rfl) fun _ => rfl) fun _ => .pure

/-- A handler is called. -/
lemma calltrap : Within Dozing E calltrap :=
  .bind .get fun _ => .ite (fun _ => .withUdata rfl fun _ => rfl) .pure

/-! ## Exits -/

/-- The children of a process get another parent. -/
lemma adopt : Dozing s { s with ptab := s.adopt } :=
  ⟨rfl, rfl, id, fun _ => .of_status adopt_swap adopt_status⟩

/-- The times are added up. -/
lemma addTimes : Within Dozing E addTimes := by
  refine .bind (fun _ => .withUdata rfl id) fun _ => .bind (fun _ => .withUdata rfl id) fun _ => ?_
  exact .bind .get fun _ => modifyOwn (fun _ => rfl) fun _ => rfl

/-- The parent is woken up. -/
lemma wakeParent : Within Dozing E wakeParent := .bind .get fun _ => .ite wakeup .pure

end Dozing

/-- `doexit` before its end puts nobody to sleep. -/
lemma within_leave [Stopping E] {val val2 : Word} : Within Dozing E (leave val val2) := by
  refine within_closeAll.bind fun _ => .bind (Dozing.modifyOwn (fun _ => rfl) fun _ => rfl) fun _ => ?_
  refine .bind (.modify fun _ => Dozing.adopt) fun _ => .bind .get fun _ => Quiet.iDeref.bind fun _ => ?_
  exact Dozing.addTimes.bind fun _ => Dozing.wakeParent

/-! ## The invariant -/

/-- The images of the sleeping processes have no signal that has been taken. -/
structure Kernel.Rested (s : Kernel) : Prop where
  swap : ∀ p, (s.ptab p).pStatus ≠ .empty → (s.ptab p).pSwap = swapBlk p
  used : (s.ptab s.udata.uPtab).pStatus ≠ .empty
  images : ∀ p, p ≠ s.udata.uPtab → (s.ptab p).pStatus.Asleep → (s.swap (swapBlk p)).uCursig = 0

/-- What holds of the current process, depending on where the processor is. -/
def Cpu.Own (m : Cpu) : Prop :=
  match m.pt with
  | .running => m.k.Running
  | .swapout | .doexit _ _ | .leaving => True
  | .getproc exited => (m.k.ptab m.k.udata.uPtab).pStatus.Asleep → exited = false ∧ m.k.udata.uCursig = 0

/-- Where the processor is, and all sleeping processes, no signal has been taken. -/
structure Cpu.Rested (m : Cpu) : Prop where
  kernel : m.k.Rested
  own : m.Own

/-- A process that sleeps has a slot. -/
lemma PStatus.Asleep.ne_empty {x : PStatus} (h : x.Asleep) : x ≠ .empty := by
  rintro rfl
  exact absurd h (by decide)

/-- A process that sleeps is not ready. -/
lemma PStatus.Asleep.ne_ready {x : PStatus} (h : x.Asleep) : x ≠ .ready := by
  rintro rfl
  exact absurd h (by decide)

/-- A process that sleeps has not exited. -/
lemma PStatus.Asleep.ne_zombie {x : PStatus} (h : x.Asleep) : x ≠ .zombie := by
  rintro rfl
  exact absurd h (by decide)

namespace Kernel.Rested

/-- What dozes leaves the sleeping processes as they were. -/
lemma dozing (r : s.Rested) (h : Dozing s s') : s'.Rested where
  swap p ne := by
    rw [(h.entry p).swap]
    exact r.swap p fun e => ne ((h.entry p).empty.mpr e)
  used := by
    rw [h.uPtab]
    exact fun e => r.used ((h.entry _).empty.mp e)
  images p ne asleep := by
    rw [h.uPtab] at ne
    rw [h.swap]
    exact r.images p ne ((h.entry p).asleep asleep)

/-- The entry of the current process changes. -/
lemma turn {x : PTab} (r : s.Rested) (swap : x.pSwap = (s.ptab s.udata.uPtab).pSwap) (used : x.pStatus ≠ .empty) :
    (s.setProc s.udata.uPtab x).Rested := by
  refine ⟨fun p ne => ?_, ?_, fun p ne asleep => ?_⟩
  · by_cases same : p = s.udata.uPtab
    · rw [same, Kernel.ptab_setProc, swap]
      exact r.swap _ r.used
    · rw [Kernel.ptab_setProc_of_ne same] at ne ⊢
      exact r.swap p ne
  · show ((s.setProc s.udata.uPtab x).ptab s.udata.uPtab).pStatus ≠ .empty
    rw [Kernel.ptab_setProc]
    exact used
  · have other : p ≠ s.udata.uPtab := ne
    rw [Kernel.ptab_setProc_of_ne other] at asleep
    exact r.images p other asleep

/-- The data of the current process change. -/
lemma withUdata {u : UData} (r : s.Rested) (uPtab : u.uPtab = s.udata.uPtab) : (s.withUdata u).Rested := by
  refine ⟨r.swap, ?_, fun p ne => ?_⟩
  · show (s.ptab u.uPtab).pStatus ≠ .empty
    rw [uPtab]
    exact r.used
  · exact r.images p (uPtab ▸ ne : p ≠ s.udata.uPtab)

/-- A signal that is caught is taken by a process that runs. -/
lemma caught {j : Fin NSIGS} (r : s.Rested) : (s.caught j).Rested :=
  (r.turn (x := { s.ptab s.udata.uPtab with pPending := 0 }) rfl r.used).withUdata rfl

/-- An entry is emptied that is not the one of the current process. -/
lemma bury (r : s.Rested) (ne : p ≠ s.udata.uPtab) :
    (s.setProc p { s.ptab p with pStatus := .empty }).Rested := by
  refine ⟨fun q used => ?_, ?_, fun q other asleep => ?_⟩
  · by_cases same : q = p
    · rw [same, Kernel.ptab_setProc] at used
      exact absurd rfl used
    · rw [Kernel.ptab_setProc_of_ne same] at used ⊢
      exact r.swap q used
  · show ((s.setProc p _).ptab s.udata.uPtab).pStatus ≠ .empty
    rw [Kernel.ptab_setProc_of_ne ne.symm]
    exact r.used
  · by_cases same : q = p
    · rw [same, Kernel.ptab_setProc] at asleep
      exact absurd rfl asleep.ne_empty
    · rw [Kernel.ptab_setProc_of_ne same] at asleep
      exact r.images q other asleep

/-- A fork leaves the sleeping processes as they were. -/
lemma forked {pid : Nat} (r : s.Rested) (free : s.Free p pid) (f : s.Forked s' p pid) : s'.Rested := by
  have apart : s.udata.uPtab ≠ p := fun e => r.used (e ▸ free.empty)
  refine ⟨fun q used => ?_, ?_, fun q ne asleep => ?_⟩
  · by_cases child : q = p
    · rw [child, f.child.swap]
    · by_cases parent : q = s.udata.uPtab
      · rw [parent, f.parent]
        exact r.swap _ r.used
      · rw [f.others q child parent] at used ⊢
        exact r.swap q used
  · rw [f.uPtab, f.child.status]
    exact nofun
  · rw [f.uPtab] at ne
    by_cases parent : q = s.udata.uPtab
    · rw [parent, f.parent] at asleep
      exact absurd rfl asleep.ne_ready
    · rw [f.others q ne parent] at asleep
      rw [f.swap, Function.update_of_ne fun e => parent (swapBlk_inj e)]
      exact r.images q parent asleep

/-- The current process leaves its image in the swap space. -/
lemma saved (r : s.Rested) (own : (s.ptab s.udata.uPtab).pStatus.Asleep → s.udata.uCursig = 0) :
    s.saved.Rested ∧ ∀ p, (s.ptab p).pStatus.Asleep → (s.saved.swap (swapBlk p)).uCursig = 0 := by
  have images : ∀ p, (s.ptab p).pStatus.Asleep → (s.saved.swap (swapBlk p)).uCursig = 0 := by
    intro p asleep
    show (Function.update s.swap (s.ptab s.udata.uPtab).pSwap s.udata (swapBlk p)).uCursig = 0
    rw [r.swap _ r.used]
    by_cases same : p = s.udata.uPtab
    · subst same
      rw [Function.update_self]
      exact own asleep
    · rw [Function.update_of_ne fun e => same (swapBlk_inj e)]
      exact r.images p same asleep
  exact ⟨⟨r.swap, r.used, fun p _ => images p⟩, images⟩

end Kernel.Rested

/-! ## Steps -/

/-- The current process runs on. -/
lemma Kernel.Running.dozing (running : s.Running) (h : Dozing s s') : s'.Running := by
  unfold Kernel.Running
  rw [h.uPtab]
  exact (h.entry _).running.mpr running

/-- The processor is where it was. -/
lemma Cpu.Rested.dozing {m : Cpu} (r : m.Rested) (h : Dozing m.k s') : Cpu.Rested ⟨s', m.pt⟩ := by
  refine ⟨r.kernel.dozing h, ?_⟩
  have own := r.own
  obtain ⟨k, pt⟩ := m
  cases pt with
  | running => exact Kernel.Running.dozing own h
  | swapout => trivial
  | doexit val val2 => trivial
  | leaving => trivial
  | getproc exited =>
    intro asleep
    rw [h.uPtab] at asleep
    obtain ⟨still, none⟩ := own ((h.entry _).asleep asleep)
    exact ⟨still, h.cursig none⟩

/-- The current process has not begun to sleep, or nothing is pending and no signal has been taken before, or
it does not catch the signal that `chksigs` will take. -/
def Kernel.Heard (s : Kernel) : Prop :=
  (s.ptab s.udata.uPtab).pStatus.Asleep →
    (s.taken = none → s.udata.uCursig = 0) ∧ ∀ j ∈ s.taken, s.udata.uSigvec j = SIG_DFL

instance : Decidable s.Heard := by
  unfold Kernel.Heard
  infer_instance

/-- In a run, no process takes a caught signal in `swapout` when it is about to sleep, and `_wait` stores into the
memory of the process. -/
def Cpu.Heard (m : Cpu) : Turn → Prop
  | .chksigs => m.k.Heard
  | v => m.InUser v

instance {m : Cpu} {v : Turn} : Decidable (m.Heard v) := by
  cases v <;> unfold Cpu.Heard <;> infer_instance

/-- `chksigs` takes a signal only where the process runs. -/
lemma Kernel.Rested.wp_chksigsFront (r : s.Rested) (heard : s.Heard) :
    wp chksigsFront (fun r s' => Cpu.Rested ⟨s', .checked r⟩) E s := by
  refine Uzi.wp_chksigsFront (fun none => ?_) (fun j _ _ => ⟨r, trivial⟩) fun j taken catches => ?_
  · exact ⟨r, fun asleep => ⟨rfl, (heard asleep).1 none⟩⟩
  · refine ⟨r.caught, fun asleep => ?_⟩
    have asleep : ((s.setProc s.udata.uPtab _).ptab s.udata.uPtab).pStatus.Asleep := asleep
    rw [Kernel.ptab_setProc] at asleep
    exact absurd ((heard asleep).2 j taken) catches

/-- A process that is ready runs, and the one before it is not asleep or has left its image. -/
lemma Kernel.Rested.started {u : UData} (r : s.Rested)
    (images : ∀ p, (s.ptab p).pStatus.Asleep → (s.swap (swapBlk p)).uCursig = 0)
    (ready : (s.ptab p).pStatus = .ready) (own : u.uPtab = p) : Cpu.Rested ⟨(s.withUdata u).started p, .running⟩ := by
  have same : ((s.withUdata u).started p).ptab p = { s.ptab p with pStatus := .running } := Kernel.ptab_setProc
  have other : ∀ q, q ≠ p → ((s.withUdata u).started p).ptab q = s.ptab q := fun q => Kernel.ptab_setProc_of_ne
  refine ⟨⟨fun q used => ?_, ?_, fun q ne asleep => ?_⟩, ?_⟩
  · by_cases e : q = p
    · rw [e, same]
      exact r.swap p (ready ▸ nofun)
    · rw [other q e] at used ⊢
      exact r.swap q used
  · show (((s.withUdata u).started p).ptab u.uPtab).pStatus ≠ .empty
    rw [own, same]
    exact nofun
  · have e : q ≠ p := fun e => ne (e.trans own.symm)
    rw [other q e] at asleep
    exact images q asleep
  · show (((s.withUdata u).started p).ptab u.uPtab).pStatus = .running
    rw [own, same]

/-- A switch leaves the old process asleep without a signal. -/
lemma Kernel.Rested.switched (r : s.Rested) (own : (s.ptab s.udata.uPtab).pStatus.Asleep → s.udata.uCursig = 0)
    (ready : (s.ptab p).pStatus = .ready) (same : (s.saved.swap (s.ptab p).pSwap).uPtab = p) :
    Cpu.Rested ⟨(s.saved.withUdata (s.saved.swap (s.ptab p).pSwap)).started p, .running⟩ :=
  (r.saved own).1.started (r.saved own).2 ready same

/-- `swapin` does. -/
lemma Kernel.Rested.wp_switchTo {exited : Bool} (r : s.Rested) (own : Cpu.Own ⟨s, .getproc exited⟩)
    (ready : (s.ptab p).pStatus = .ready) :
    wp (switchTo exited p) (fun _ s' => Cpu.Rested ⟨s', .running⟩) (fun _ => True) s := by
  have none : (s.ptab s.udata.uPtab).pStatus.Asleep → s.udata.uCursig = 0 := fun asleep => (own asleep).2
  have images : ∀ {q}, q ≠ s.udata.uPtab → (s.ptab q).pStatus.Asleep → (s.swap (swapBlk q)).uCursig = 0 :=
    fun {q} => r.images q
  refine wp_switchTo_started trivial (fun gone same => ?_) (fun _ same => ?_) fun _ same => ?_
  · refine r.started (fun q asleep => images (fun e => ?_) asleep) ready same
    -- the process that has exited is not asleep, and needs no image
    exact absurd ((own (e ▸ asleep)).1.symm.trans gone) nofun
  · refine r.started (u := s.udata) (fun q asleep => images (fun e => ?_) asleep) ready same
    rw [e, same] at asleep
    exact asleep.ne_ready ready
  · exact r.switched none ready same

/-- An act of a running process. -/
lemma Act.wp_rested (a : Act) (user : Cpu.InUser ⟨s, .running⟩ (.act a)) (r : s.Rested) (running : s.Running) :
    wp a.run (fun pt s' => Cpu.Rested ⟨s', pt⟩) (fun _ => True) s := by
  have doze : ∀ {α : Type} {c : K α}, Within Dozing (fun _ => True) c →
      wp (do let _ ← c; pure Point.running) (fun pt s' => Cpu.Rested ⟨s', pt⟩) (fun _ => True) s := by
    intro α c h
    rw [wp_bind]
    exact wp_post (h s) fun _ s' h => Cpu.Rested.dozing (m := ⟨s, .running⟩) ⟨r, running⟩ h
  cases a with
  | sleep event =>
    unfold Act.run psleep
    rw [wp_bind, wp_bind, wp_get, wp_ite]
    split
    · trivial
    · rw [wp_modifyPtab]
      refine ⟨r.turn rfl ?_, trivial⟩
      dsimp only
      split
      · exact nofun
      split
      · exact nofun
      · exact nofun
  | yield =>
    rw [Act.run, wp_bind, wp_get, wp_ite]
    split
    · rw [wp_bind, wp_modifyOwn]
      exact ⟨r.turn rfl nofun, trivial⟩
    · exact ⟨r, running⟩
  | check =>
    rw [Act.run, wp_bind]
    refine Uzi.wp_chksigsFront (fun _ => ⟨r, running⟩) (fun j _ _ => ⟨r, trivial⟩) fun j _ _ => ⟨r.caught, ?_⟩
    show ((s.setProc s.udata.uPtab _).ptab s.udata.uPtab).pStatus = .running
    rw [Kernel.ptab_setProc]
    exact running
  | fork =>
    rw [Act.run, wp_bind]
    refine wp_post (wp_dofork_forked (R := Dozing) (r.swap _ r.used) r.used) fun _ s' outcome => ?_
    cases outcome with
    | inl dozing => exact Cpu.Rested.dozing (m := ⟨s, .running⟩) ⟨r, running⟩ dozing
    | inr forked =>
      obtain ⟨p, pid, s₁, s₂, free, forked, -, dozing, rfl⟩ := forked
      have own : s₂.udata.uPtab = p := dozing.uPtab.trans forked.uPtab
      subst own
      have r₂ := (r.forked free forked).dozing dozing
      refine ⟨(r₂.turn (x := { s₂.ptab s₂.udata.uPtab with pStatus := .running }) rfl nofun).dozing
        (.of_ptab rfl rfl rfl id), ?_⟩
      show ((Kernel.setProc _ s₂.udata.uPtab _).ptab s₂.udata.uPtab).pStatus = .running
      rw [Kernel.ptab_setProc]
  | exit val val2 => exact ⟨r, trivial⟩
  | bury statloc =>
    rw [Act.run, wp_bind, wp_get]
    cases found : s.zombieChild with
    | none => exact ⟨r, running⟩
    | some p =>
      have ne : p ≠ s.udata.uPtab := by
        rintro rfl
        exact absurd ((zombieChild_dead found).symm.trans running) nofun
      have pointer : s.layout.TakesStatus statloc := user (found ▸ Option.some_ne_none p)
      rw [wp_bind, wp_get, wp_bind]
      refine wp_post (wp_reap pointer) fun _ s' h => ?_
      obtain ⟨u, own, rfl⟩ := h
      refine ⟨(r.bury ne).withUdata own, ?_⟩
      show ((s.setProc p _).ptab u.uPtab).pStatus = .running
      rw [own, Kernel.ptab_setProc_of_ne ne.symm]
      exact running
  | wakeup event => exact doze Dozing.wakeup
  | kill pid sig => exact doze Dozing.kill
  | sendsig proc sig => exact doze Dozing.sendsig
  | signal sig func => exact doze Dozing.signal
  | alarm secs => exact doze Dozing.alarm
  | trap => exact doze Dozing.calltrap

/-- Other work leaves the sleeping processes as they were. -/
lemma Aside.rested (aside : Aside s s') (r : s.Rested) : s'.Rested := by
  have doze : Dozing s (s'.withUdata s.udata) := by
    refine ⟨aside.swap, rfl, id, fun p => ?_⟩
    obtain ⟨uid, same⟩ := aside.ptab p
    exact PTab.Dozes.of_status (y := s'.ptab p) (by rw [same]) (by rw [same])
  exact (r.dozing doze).withUdata (u := s'.udata) aside.uPtab

/-- Other work leaves the process running. -/
lemma Aside.running (aside : Aside s s') (running : s.Running) : s'.Running := by
  obtain ⟨uid, same⟩ := aside.ptab s.udata.uPtab
  unfold Kernel.Running
  rw [aside.uPtab, same]
  exact running

/-- A turn. -/
lemma Cpu.Step.rested {m m' : Cpu} {v : Turn} (step : m.Step v m') (r : m.Rested) (heard : m.Heard v) :
    m'.Rested := by
  cases step with
  | act ret => exact (Act.wp_rested _ heard r.kernel r.own).ok ret
  | other aside => exact ⟨aside.rested r.kernel, aside.running r.own⟩
  | irq enabled ret => exact r.dozing ((Dozing.irq (E := fun _ => True)).ok ret)
  | chksigs ret => exact (r.kernel.wp_chksigsFront (E := fun _ => True) heard).ok ret
  | leave ret => exact ⟨r.kernel.dozing ((within_leave (E := fun _ => True)).ok ret), trivial⟩
  | die ret =>
    cases ret
    refine ⟨r.kernel.turn rfl nofun, fun asleep => ?_⟩
    have asleep : ((Kernel.setProc _ _ _).ptab _).pStatus.Asleep := asleep
    rw [Kernel.ptab_setProc] at asleep
    exact absurd rfl asleep.ne_zombie
  | look round =>
    have found := (wp_getprocRound_found (E := fun _ => True) trivial).ok round
    rw [found.1]
    exact r.dozing (.of_ptab rfl rfl rfl id)
  | @switch k _ _ exited newp round ret =>
    obtain ⟨rfl, ready⟩ := (wp_getprocRound_found (E := fun _ => True) trivial).ok round
    have passed : Cpu.Rested ⟨{ k with pp := k.pp + 1 }, .getproc exited⟩ := r.dozing (.of_ptab rfl rfl rfl id)
    exact (passed.kernel.wp_switchTo passed.own (ready _ rfl)).ok ret

/-- After `init2` nobody sleeps. -/
lemma Cpu.Booted.rested {m : Cpu} (boot : m.Booted) : m.Rested := by
  obtain ⟨k, pt⟩ := m
  obtain ⟨rfl, boot⟩ := boot
  have running : k.Running := by
    unfold Kernel.Running
    rw [boot.current, boot.init]
  have only : ∀ p, p ≠ k.initproc → (k.ptab p).pStatus = .empty := boot.others
  refine ⟨⟨fun p used => ?_, running ▸ nofun, fun p ne asleep => ?_⟩, running⟩
  · by_cases first : p = k.initproc
    · rw [first, boot.init]
    · exact absurd (only p first) used
  · exact absurd (only p fun e => ne (e.trans boot.current.symm)) asleep.ne_empty

/-- A run. -/
lemma Cpu.Run.rested {m₀ m : Cpu} (run : Cpu.Run Cpu.Heard m₀ m) (boot : m₀.Booted) : m.Rested := by
  induction run with
  | start => exact boot.rested
  | step _ may next ih => exact next.rested ih may

/-! ## Processes that sleep with a signal -/

/-- No process is left asleep that `swapout` has taken a signal of. -/
def Cpu.NoneLeft (m : Cpu) : Prop :=
  ∀ p, (m.k.ptab p).pStatus.Asleep → (p = m.k.udata.uPtab → ∃ exited, m.pt = .getproc exited) → (m.k.data p).uCursig = 0

/-- What is asked of a state. -/
lemma Cpu.Rested.noneLeft {m : Cpu} (r : m.Rested) : m.NoneLeft := by
  intro p asleep past
  unfold Kernel.data
  split
  · next own =>
    subst own
    have left := r.own
    obtain ⟨exited, at_getproc⟩ := past rfl
    unfold Cpu.Own at left
    rw [at_getproc] at left
    exact (left asleep).2
  · next other =>
    rw [r.kernel.swap p asleep.ne_empty]
    exact r.kernel.images p other asleep

/-- In every run in which no process that has begun to sleep catches a signal in `swapout`, no process is
left asleep with a signal that has been taken. -/
theorem noneLeft_run {m₀ m : Cpu} (boot : m₀.Booted) (run : Cpu.Run Cpu.Heard m₀ m) : m.NoneLeft :=
  (run.rested boot).noneLeft

/-- The state after `init2`, with the processor in the first process. -/
def Cpu.booted : Cpu := ⟨Machine.booted.k, .running⟩

/-- `init2` has been run. -/
lemma Cpu.booted_booted : Cpu.booted.Booted := ⟨rfl, Uzi.booted_booted⟩

/-- The first process ignores a signal that is pending and forks. Its child is killed when it pauses, and then the first
process pauses. -/
def Turn.heeded : List Turn :=
  [.act (.kill 1 2), .act (.signal 2 SIG_IGN), .act .fork, .act (.kill 2 9), .act (.sleep .none), .chksigs, .leave,
    .die] ++ List.replicate 19 .look ++ [.switch, .act (.sleep .none), .chksigs]

set_option maxRecDepth 4000 in
/-- The turns of that run, played. -/
lemma heeded_paused : ((Cpu.turns Cpu.Heard Turn.heeded Cpu.booted).map fun m =>
    decide (m.pt = .getproc false ∧ (m.k.ptab 0).pStatus = .pause ∧ (m.k.ptab 0).pPending = sigmask 2 ∧
      (m.k.ptab 1).pStatus = .zombie ∧ (m.k.ptab 1).pExitval = 9)) = some true := by
  decide +kernel

/-- The first process is left asleep with a signal that it ignores, and the child has died of its signal. -/
theorem noneLeft_run_heeded : ∃ m, Cpu.Run Cpu.Heard Cpu.booted m ∧ m.pt = .getproc false ∧
    (m.k.ptab 0).pStatus = .pause ∧ (m.k.ptab 0).pPending = sigmask 2 ∧ (m.k.ptab 1).pExitval = 9 ∧ m.NoneLeft := by
  obtain ⟨m, turned, done⟩ := Option.map_eq_some_iff.mp heeded_paused
  obtain ⟨left, paused, pending, -, exitval⟩ := of_decide_eq_true done
  have run := Cpu.turns_run .start turned
  exact ⟨m, run, left, paused, pending, exitval, noneLeft_run Cpu.booted_booted run⟩

/-- A process catches the signal of the alarm clock, which goes off in `_pause` before the process sleeps. -/
def Turn.pause : List Turn :=
  [.act (.signal 14 0x6000), .act (.alarm 1), .irq (.clock true (some ⟨10, 0⟩)), .act (.sleep .none), .chksigs]

/-- The turns up to the sleep, played. -/
lemma pause_left : ((Cpu.turns (fun _ _ => True) Turn.pause Cpu.booted).map fun m =>
    decide (m.pt = .getproc false ∧ (m.k.ptab 0).pStatus = .pause ∧ (m.k.data 0).uCursig = 14)) = some true := by
  decide +kernel

/-- The first process is left in `_pause` with the signal of the alarm clock. -/
theorem not_noneLeft : ∃ m, Cpu.Run (fun _ _ => True) Cpu.booted m ∧ ¬ m.NoneLeft := by
  obtain ⟨m, turned, done⟩ := Option.map_eq_some_iff.mp pause_left
  obtain ⟨left, paused, cursig⟩ := of_decide_eq_true done
  refine ⟨m, Cpu.turns_run .start turned, fun none => ?_⟩
  have zero := none 0 (.inl paused) fun _ => ⟨_, left⟩
  rw [cursig] at zero
  exact absurd zero (by decide)

end Uzi
