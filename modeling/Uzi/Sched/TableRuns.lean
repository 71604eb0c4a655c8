import Uzi.Sched.Fork

/-!
# Runs of the processor

Every operation on the process table keeps its invariant (`ProcOp.wp_run`), and so does what `getproc`
does until it has found another process. The runs are those in which the first process does not exit, no
time stored in a zombie is an address that processes sleep on, and `_wait` stores an exit value only into the
memory of the process.
-/

namespace Uzi
open Exec ParentTree

variable {s s' : Kernel} {p q : Fin PTABSIZE} {E : Panic → Prop}

/-- What holds when the processor has come to `ctl`. -/
def Kernel.At (s : Kernel) : Ctl → Prop
  | .running => s.Active ∧ s.Running
  | .getproc false => s.Active ∧ s.Still
  | .getproc true => s.Exited

/-- The first process has exited, or the kernel is as it should be. -/
def Kernel.Ended (s : Kernel) (ctl : Ctl) : Prop := s.InitExited ∨ s.At ctl

/-! ## Sleeping -/

/-- `psleep` keeps the table, and the process no longer runs. -/
lemma Kernel.Active.wp_psleep {event : Event} (a : s.Active) (running : s.Running) :
    wp (psleep event) (fun _ s' => s'.Active ∧ ¬ s'.Running) E s := by
  unfold psleep
  have running : (s.ptab s.udata.uPtab).pStatus = .running := running
  rw [wp_bind, wp_get, wp_ite, if_neg (fun ne => ne running), wp_modifyPtab]
  generalize hstatus : (if event = .none then PStatus.pause
    else if event = .ptab s.udata.uPtab then .wait else .sleep) = status
  have asleep : status.Alive ∧ status ≠ .running := by
    rw [← hstatus]
    split
    · exact ⟨⟨nofun, nofun⟩, nofun⟩
    split
    · exact ⟨⟨nofun, nofun⟩, nofun⟩
    · exact ⟨⟨nofun, nofun⟩, nofun⟩
  obtain ⟨a', running'⟩ := a.turn (x := { s.ptab s.udata.uPtab with pStatus := status, pWait := s.layout.addr event })
    asleep.1 rfl rfl rfl
  exact ⟨a', fun r => asleep.2 (running'.mp r)⟩

variable [Stopping E]

/-- `swapout` comes to the switch. -/
lemma wp_swapout {α : Type} (a : s.Active) (still : ¬ s.Running) :
    wp (swapout (α := α)) (fun r s' => s'.Ended r.ctl) E s := by
  unfold swapout
  rw [wp_bind]
  refine wp_post (wp_chksigs a) fun exited s' checked => ?_
  cases exited with
  | true => exact checked.imp id id
  | false =>
    obtain ⟨a', running⟩ := checked
    exact .inr ⟨a', a'.still fun r => still (running.mp r)⟩

/-- The switch in `psleep` comes to the switch. -/
lemma wp_psleepSwap {α : Type} {event : Event} (a : s.Active) (running : s.Running) :
    wp (psleepSwap (α := α) event) (fun r s' => s'.Ended r.ctl) E s := by
  unfold psleepSwap
  rw [wp_bind]
  exact wp_post (a.wp_psleep running) fun _ s' ⟨a', still⟩ => wp_swapout a' still

/-! ## Waiting -/

omit [Stopping E] in
/-- `_wait` empties the slot of a child that has exited. -/
lemma Kernel.Active.bury (a : s.Active) (dead : (s.ptab p).pStatus = .zombie) :
    (s.setProc p { s.ptab p with pStatus := .empty }).Active ∧
      ((s.setProc p { s.ptab p with pStatus := .empty }).Running ↔ s.Running) := by
  have t := a.table
  have living : ∀ q, (s.ptab q).pStatus.Alive → q ≠ p := fun q alive e => alive.2 (e ▸ dead)
  have left : ∀ q, ((s.setProc p { s.ptab p with pStatus := .empty }).ptab q).pStatus ≠ .empty →
      q ≠ p := by
    intro q hq e
    rw [e, Kernel.ptab_setProc] at hq
    exact hq rfl
  generalize hs : s.setProc p _ = s' at left ⊢
  have same : ∀ q, q ≠ p → s'.ptab q = s.ptab q := fun q ne => hs ▸ Kernel.ptab_setProc_of_ne ne
  have parents : ∀ q, (s'.ptab q).pPptr = (s.ptab q).pPptr := by
    intro q
    by_cases ne : q = p
    · rw [ne, ← hs, Kernel.ptab_setProc]
    · rw [same q ne]
  have own : s'.udata.uPtab = s.udata.uPtab := hs ▸ rfl
  have initproc : s'.initproc = s.initproc := hs ▸ rfl
  refine ⟨⟨⟨?_, ?_, hs ▸ t.nextpid, ?_, ?_, ?_, ?_⟩, ?_, ?_, ?_⟩, ?_⟩
  · intro q hq
    have entry := same q (left q hq)
    rw [entry] at hq ⊢
    exact t.pid_range q hq
  · intro q r hq hr e
    have entry := same q (left q hq)
    have entry' := same r (left r hr)
    rw [entry] at hq e
    rw [entry'] at hr e
    exact t.pid_inj q r hq hr e
  · rw [initproc, same _ (living _ t.init)]
    exact t.init
  · intro q hq
    rw [parents, initproc]
    simp only [parents]
    obtain ⟨r, parent, alive, below⟩ := t.parent q (same q (left q hq) ▸ hq)
    exact ⟨r, parent, (same r (living r alive)).symm ▸ alive, below⟩
  · intro q hq
    have entry := same q (left q hq)
    rw [entry] at hq ⊢
    exact t.swap q hq
  · intro q alive ne
    rw [same q (left q alive.1)] at alive
    exact hs ▸ t.image q alive (own ▸ ne)
  · intro q zombie e ne
    have hq : q ≠ p := left q fun empty => absurd (empty.symm.trans zombie) nofun
    rw [same q hq] at zombie ⊢
    exact hs ▸ a.apart q zombie e ne
  · rw [own, same _ (living _ a.alive)]
    exact a.alive
  · intro q running
    have hq : q ≠ p := left q fun empty => absurd (empty.symm.trans running) nofun
    rw [same q hq] at running
    exact own ▸ a.only q running
  · unfold Kernel.Running
    rw [own, same _ (living _ a.alive)]

omit [Stopping E] in
/-- A status is stored in the memory of the process. -/
lemma wp_putStatus {l : Layout} {statloc : Nat} {val : Word} {Q : PUnit → Kernel → Prop} (user : l.InUser statloc 2) :
    wp (putStatus l statloc val) Q E s ↔ Q ⟨⟩ (s.withUdata { s.udata with
      mem := putBytes s.udata.mem statloc 2 fun i => if i = 0 then val.setWidth 8 else (val >>> 8).setWidth 8 }) := by
  have inside : statloc + 1 < l.udata := user.2
  rw [putStatus, if_pos inside, wp_modifyUdata]

omit [Stopping E] in
/-- `_wait` takes up a child: its slot is empty, and the rest is data of the current process, but neither who
it is nor its files. -/
lemma wp_reap_files {l : Layout} {statloc : Nat} (user : l.TakesStatus statloc) :
    wp (reap l statloc p) (fun _ s' => ∃ u : UData, (u.uPtab = s.udata.uPtab ∧ u.uFiles = s.udata.uFiles) ∧
      s' = (s.setProc p { s.ptab p with pStatus := .empty }).withUdata u) E s := by
  unfold reap
  rw [wp_bind, wp_get, wp_ite]
  split
  · next stored =>
    rw [wp_bind, wp_putStatus (user.resolve_left stored), wp_bind, wp_modifyPtab, wp_bind, wp_modifyUdata, wp_bind,
      wp_modifyUdata]
    refine ⟨_, ⟨?_, ?_⟩, rfl⟩
    · rfl
    · rfl
  · rw [wp_bind, wp_modifyPtab, wp_bind, wp_modifyUdata, wp_bind, wp_modifyUdata]
    refine ⟨_, ⟨?_, ?_⟩, rfl⟩
    · rfl
    · rfl

omit [Stopping E] in
/-- The child is reaped, and its status goes to the process. -/
lemma wp_reap {l : Layout} {statloc : Nat} (user : l.TakesStatus statloc) :
    wp (reap l statloc p) (fun _ s' => ∃ u : UData, u.uPtab = s.udata.uPtab ∧
      s' = (s.setProc p { s.ptab p with pStatus := .empty }).withUdata u) E s :=
  wp_post (wp_reap_files user) fun _ _ ⟨u, same, h⟩ => ⟨u, same.1, h⟩

omit [Stopping E] in
/-- The search of `_wait` looks at the table only. -/
lemma zombieChild_congr (own : s'.udata.uPtab = s.udata.uPtab) (status : ∀ p, (s'.ptab p).pStatus = (s.ptab p).pStatus)
    (parent : ∀ p, (s'.ptab p).pPptr = (s.ptab p).pPptr) : s'.zombieChild = s.zombieChild := by
  unfold Kernel.zombieChild
  simp only [own, status, parent]

omit [Stopping E] in
/-- Where `chksigs` returns with no signal to catch, it has found none, and the children are as before. -/
lemma wp_chksigsLoop_idle {js : List (Fin NSIGS)} (numbers : ∀ j ∈ js, j.val ≠ 0) :
    wp (chksigsLoop js) (fun exited s' => exited = false → s'.zombieChild = s.zombieChild ∧ (s'.udata.uCursig = 0 →
      s.udata.uCursig = 0 ∧ ∀ j ∈ js, sigmask j &&& (s.ptab s.udata.uPtab).pPending ≠ 0 →
        s.udata.uSigvec j = SIG_IGN)) (fun _ => True) s := by
  induction js generalizing s with
  | nil => exact fun _ => ⟨rfl, fun idle => ⟨idle, fun _ mem => absurd mem List.not_mem_nil⟩⟩
  | cons j js ih =>
    obtain ⟨number, numbers⟩ := List.forall_mem_cons.mp numbers
    rw [chksigsLoop, wp_bind, wp_get, wp_ite]
    split
    · next clear =>
      refine wp_post (ih numbers) fun _ s' h returned => ⟨(h returned).1, fun idle => ?_⟩
      obtain ⟨before, rest⟩ := (h returned).2 idle
      exact ⟨before, List.forall_mem_cons.mpr ⟨fun set => absurd clear set, rest⟩⟩
    rw [wp_ite]
    split
    · rw [wp_bind]
      exact wp_post wp_true fun _ _ _ returned => absurd returned.symm Bool.false_ne_true
    rw [wp_ite]
    split
    · rw [wp_bind, wp_modifyPtab, wp_bind, wp_modifyUdata]
      refine wp_post (ih numbers) fun _ s' h returned => ?_
      obtain ⟨child, none⟩ := h returned
      refine ⟨child.trans (zombieChild_congr rfl (fun p => ?_) fun p => ?_), fun idle => ?_⟩
      · show (Function.update s.ptab s.udata.uPtab _ p).pStatus = _
        by_cases own : p = s.udata.uPtab
        · rw [own, Function.update_self]
        · rw [Function.update_of_ne own]
      · show (Function.update s.ptab s.udata.uPtab _ p).pPptr = _
        by_cases own : p = s.udata.uPtab
        · rw [own, Function.update_self]
        · rw [Function.update_of_ne own]
      · have caught : BitVec.ofNat 16 j.val = 0 := (none idle).1
        have lt := j.isLt
        simp only [NSIGS] at lt
        bv_omega
    · next ignored =>
      refine wp_post (ih numbers) fun _ s' h returned => ⟨(h returned).1, fun idle => ?_⟩
      obtain ⟨before, rest⟩ := (h returned).2 idle
      exact ⟨before, List.forall_mem_cons.mpr ⟨fun _ => not_not.mp ignored, rest⟩⟩

omit [Stopping E] in
/-- The status pointer where `_wait` has found a child that has exited. -/
lemma Kernel.Collects.user {s₁ : Kernel} {statloc : Nat} (user : s.Collects → s.layout.TakesStatus statloc)
    (returned : chksigs s = .ok (false, s₁)) (idle : ¬ s₁.udata.uCursig ≠ 0) (child : s₁.zombieChild = some p) :
    s.layout.TakesStatus statloc := by
  have idle : s₁.udata.uCursig = 0 := not_not.mp idle
  have numbers : ∀ j ∈ (List.finRange NSIGS).filter fun j => j.val ≠ 0, j.val ≠ 0 := by
    intro j hj
    exact of_decide_eq_true (List.mem_filter.mp hj).2
  have key : wp chksigs (fun exited s' => exited = false → s'.zombieChild = s.zombieChild ∧ (s'.udata.uCursig = 0 →
      s.udata.uCursig = 0 ∧ ∀ j ∈ (List.finRange NSIGS).filter fun j => j.val ≠ 0,
        sigmask j &&& (s.ptab s.udata.uPtab).pPending ≠ 0 → s.udata.uSigvec j = SIG_IGN)) (fun _ => True) s := by
    unfold chksigs
    rw [wp_bind, wp_get, wp_ite]
    split
    · next none =>
      refine fun _ => ⟨rfl, fun idle => ⟨idle, fun j _ set => absurd ?_ set⟩⟩
      rw [none]
      exact BitVec.and_zero
    · exact wp_chksigsLoop_idle numbers
  obtain ⟨same, quiet⟩ := key.ok returned rfl
  obtain ⟨before, ignored⟩ := quiet idle
  refine user ⟨fun none => ?_, ?_⟩
  · rw [same, none] at child
    cases child
  rintro (caught | ⟨j, number, set, heard⟩)
  · exact caught before
  · exact heard (ignored j (List.mem_filter.mpr ⟨List.mem_finRange j, decide_eq_true number⟩) set)

/-- The search of `_wait` finds a zombie. -/
lemma zombieChild_dead (h : s.zombieChild = some p) : (s.ptab p).pStatus = .zombie := by
  have found := List.find?_some h
  rw [decide_eq_true_eq] at found
  exact found.1

/-- Whatever `statloc` is, no panic of the scheduler happens where a child is taken up. -/
lemma wp_reap_stops {l : Layout} {statloc : Nat} : wp (reap l statloc p) (fun _ _ => True) E s := by
  have stops : ∀ a {s : Kernel}, wp (setUPtab l a) (fun _ _ => True) E s := by
    intro a s
    unfold setUPtab
    split
    · rw [wp_modifyUdata]
      trivial
    · exact Stopping.stop rfl
  have stores : ∀ val {s : Kernel}, wp (putStatus l statloc val) (fun _ _ => True) E s := by
    intro val s
    unfold putStatus
    rw [wp_ite]
    split
    · rw [wp_modifyUdata]
      trivial
    rw [wp_ite]
    split
    · rw [wp_bind, wp_get, wp_bind, wp_modifyUdata]
      exact stops _
    rw [wp_ite]
    split
    · exact stops _
    · exact Stopping.stop rfl
  have rest : ∀ {s : Kernel} (x : PTab), wp (do
      modifyPtab p fun x => { x with pStatus := .empty }
      modifyUdata fun u => { u with uCutime := addtick u.uCutime ⟨x.pWait, x.pPriority⟩ }
      modifyUdata fun u => { u with uCstime := addtick u.uCstime ⟨x.pPending, x.pIgnored⟩ }
      pure (BitVec.ofNat 16 x.pPid)) (fun _ _ => True) E s := by
    intro s x
    rw [wp_bind, wp_modifyPtab, wp_bind, wp_modifyUdata, wp_bind, wp_modifyUdata]
    trivial
  unfold reap
  rw [wp_bind, wp_get, wp_ite]
  split
  · rw [wp_bind]
    exact wp_post (stores _) fun _ _ _ => rest _
  · exact rest _

/-- A round of `_wait` keeps the table. -/
lemma wp_waitRound {statloc : Nat} (a : s.Active) (running : s.Running) : wp (waitRound statloc)
    (fun r s' => (s.Collects → s.layout.TakesStatus statloc) → s'.Ended r.ctl) E s := by
  unfold waitRound
  rw [wp_bind, wp_get, wp_bind]
  refine wp_post (wp_chksigs a).run fun exited s₁ ⟨checked, returned⟩ => ?_
  cases exited with
  | true => exact fun _ => checked
  | false =>
    obtain ⟨a₁, running₁⟩ := checked
    have running₁ := running₁.mpr running
    rw [if_neg nofun, wp_bind, wp_get, wp_ite]
    split
    · rw [wp_bind]
      have calmly : Within Calmly E (setError .eintr) := Quiet.setError
      exact wp_post (calmly s₁) fun _ s₂ h _ => .inr ⟨(a₁.calmly h).1, (a₁.calmly h).2.mpr running₁⟩
    · next idle =>
      rw [wp_bind, wp_get]
      cases child : s₁.zombieChild with
      | none =>
        dsimp only
        rw [wp_bind, wp_get]
        exact wp_post (wp_psleepSwap a₁ running₁) fun _ _ h _ => h
      | some p =>
        dsimp only
        rw [wp_bind]
        by_cases user : s.Collects → s.layout.TakesStatus statloc
        · refine wp_post (wp_reap (Kernel.Collects.user user returned idle child)) fun _ s₂ ⟨u, same, h⟩ _ => .inr ?_
          subst h
          obtain ⟨a₂, running₂⟩ := a₁.bury (zombieChild_dead child)
          obtain ⟨a₃, running₃⟩ := a₂.calmly (.withUdata same)
          exact ⟨a₃, running₃.mpr (running₂.mpr running₁)⟩
        · exact wp_post wp_reap_stops fun _ _ _ h => absurd h user

/-- `_wait` keeps the table. -/
lemma wp_wait {statloc : Nat} (a : s.Active) (running : s.Running) : wp (_wait statloc)
    (fun r s' => (s.Collects → ¬ s.layout.udata < statloc → s.layout.TakesStatus statloc) → s'.Ended r.ctl) E s := by
  have failed : ∀ {P : Prop} e, wp (do setError e; pure (CallEnd.returned 0xffff))
      (fun r s' => P → s'.Ended r.ctl) E s := by
    intro P e
    have calmly : Within Calmly E (setError e) := Quiet.setError
    rw [wp_bind]
    exact wp_post (calmly s) fun _ s₂ h _ => .inr ⟨(a.calmly h).1, (a.calmly h).2.mpr running⟩
  unfold _wait
  rw [wp_bind, wp_get, wp_ite]
  split
  · exact failed .efault
  next passed =>
  rw [wp_ite]
  split
  · exact failed .echild
  · exact wp_post (wp_waitRound a running) fun _ _ h user => h fun collects => user collects passed

/-- The end of `unix` keeps the table. -/
lemma wp_unixEnd (a : s.Active) (running : s.Running) :
    wp unixEnd (fun r s' => s'.Ended r.ctl) E s := by
  unfold unixEnd
  rw [wp_bind]
  refine wp_post (wp_chksigs a) fun exited s₁ checked => ?_
  cases exited with
  | true => exact checked
  | false =>
    obtain ⟨a₁, running₁⟩ := checked
    rw [if_neg nofun, wp_bind, wp_get, wp_ite]
    split
    · rw [wp_bind, wp_modifyPtab]
      obtain ⟨a₂, running₂⟩ := a₁.turn (x := { s₁.ptab s₁.udata.uPtab with pStatus := .ready })
        ⟨nofun, nofun⟩ rfl rfl rfl
      exact wp_swapout a₂ fun r => absurd (running₂.mp r) nofun
    · exact .inr ⟨a₁, running₁.mpr running⟩

/-! ## Operations -/

/-- An operation of a running process. It does not stop with a panic of the scheduler. -/
lemma ProcOp.wp_run (o : ProcOp) (a : s.Active) (running : s.Running) :
    wp o.run (fun ctl s' => o.InUser s ctl → s'.Ended ctl) E s := by
  have quiet : ∀ {c : K PUnit}, Within Calmly E c →
      wp (do c; pure Ctl.running) (fun ctl s' => o.InUser s ctl → s'.Ended ctl) E s := by
    intro c h
    rw [wp_bind]
    exact wp_post (h s) fun _ s' h _ => .inr ⟨(a.calmly h).1, (a.calmly h).2.mpr running⟩
  cases o with
  | fork =>
    show wp (do let _ ← dofork; pure Ctl.running) _ E s
    rw [wp_bind]
    exact wp_post (wp_dofork a running) fun _ _ h _ => .inr h
  | exit val val2 =>
    show wp (do doexit val val2; pure (Ctl.getproc true)) _ E s
    rw [wp_bind]
    exact wp_post (wp_doexit a) fun _ _ h _ => h
  | wait statloc =>
    show wp (do return (← _wait statloc).ctl) _ E s
    rw [wp_bind]
    exact wp_post (wp_wait a running) fun _ _ => id
  | waitOn statloc =>
    show wp (do return (← waitRound statloc).ctl) _ E s
    rw [wp_bind]
    exact wp_post (wp_waitRound a running) fun _ _ => id
  | sleep event =>
    show wp (do return (← psleepSwap (α := PUnit) event).ctl) _ E s
    rw [wp_bind]
    exact wp_post (wp_psleepSwap a running) fun _ _ h _ => h
  | wakeup event => exact quiet (within_wakeup event.2)
  | signal proc sig => exact quiet within_sendsig
  | unixEnd =>
    show wp (do return (← Uzi.unixEnd).ctl) _ E s
    rw [wp_bind]
    exact wp_post (wp_unixEnd a running) fun _ _ h _ => h

omit [Stopping E] in
/-- An interrupt keeps the table. -/
lemma Interrupt.within_run (i : Interrupt) : Within Calmly E i.run := by
  cases i with
  | wakeup event => exact within_wakeup event.2
  | signal proc sig => exact within_sendsig

/-! ## `getproc` -/

omit [Stopping E]

/-- `getproc` only moves its pointer. -/
lemma Kernel.Still.wp_getprocRound (still : s.Still) :
    wp getprocRound
      (fun r s' => s' = { s with pp := s.pp + 1 } ∧ ∀ newp ∈ r, (s.ptab newp).pStatus = .ready) E s := by
  unfold getprocRound
  rw [wp_bind, wp_modify, wp_bind, wp_get, wp_ite, if_neg (still _), wp_ite]
  split
  · next ready =>
    refine ⟨rfl, fun newp h => ?_⟩
    cases h
    exact ready
  · exact ⟨rfl, nofun⟩

/-- The current process goes on. -/
lemma Kernel.Active.wp_resume (a : s.Active) :
    wp (do
      modifyPtab s.udata.uPtab fun x => { x with pStatus := .running }
      modify fun s => { s with runticks := 0 }) (fun _ s' => s'.Active ∧ s'.Running) E s := by
  rw [wp_bind, wp_modifyPtab, wp_modify]
  obtain ⟨a₁, running₁⟩ := a.turn (x := { s.ptab s.udata.uPtab with pStatus := .running })
    ⟨nofun, nofun⟩ rfl rfl rfl
  generalize s.setProc _ _ = s₁ at a₁ running₁ ⊢
  have tick : Calmly s₁ { s₁ with runticks := 0 } := .of_ptab rfl rfl rfl rfl rfl rfl
  exact ⟨(a₁.calmly tick).1, (a₁.calmly tick).2.mpr (running₁.mpr rfl)⟩

/-- Nothing runs, and there is an image of every process. -/
structure Kernel.Parked (s : Kernel) : Prop where
  table : s.Table
  apart : s.TimesApart
  still : s.Still
  images : ∀ p, (s.ptab p).pStatus.Alive → (s.swap (swapBlk p)).uPtab = p

/-- A process that is swapped in runs. -/
lemma Kernel.Parked.wp_swapin (h : s.Parked) (ready : (s.ptab p).pStatus = .ready) :
    wp (swapin p) (fun _ s' => s'.Active ∧ s'.Running) (fun _ => False) s := by
  have alive : (s.ptab p).pStatus.Alive := ready ▸ ⟨nofun, nofun⟩
  have own : (s.swap (s.ptab p).pSwap).uPtab = p := h.table.swap p alive.1 ▸ h.images p alive
  have t := h.table
  unfold swapin
  rw [wp_bind, wp_modify, wp_bind, wp_get]
  have loaded : ({ s with udata := s.swap (s.ptab p).pSwap } : Kernel).Active :=
    ⟨⟨t.pid_range, t.pid_inj, t.nextpid, t.init, t.parent, t.swap, fun q hq _ => h.images q hq⟩, h.apart,
      own.symm ▸ alive, fun q hq => absurd hq (h.still q)⟩
  have own : ({ s with udata := s.swap (s.ptab p).pSwap } : Kernel).udata.uPtab = p := own
  generalize ({ s with udata := s.swap (s.ptab p).pSwap } : Kernel) = s₁ at loaded own ⊢
  subst own
  rw [wp_ite, if_neg (fun ne => ne rfl)]
  exact loaded.wp_resume

/-- The process that has been saved is parked. -/
lemma Kernel.Active.parked (a : s.Active) (still : s.Still) : s.saved.Parked := by
  have t := a.table
  have images : ∀ p, (s.ptab p).pStatus.Alive → (s.saved.swap (swapBlk p)).uPtab = p := by
    intro p alive
    show (Function.update s.swap (s.ptab s.udata.uPtab).pSwap s.udata (swapBlk p)).uPtab = p
    rw [t.swap _ a.alive.1]
    by_cases current : p = s.udata.uPtab
    · rw [current, Function.update_self]
    · rw [Function.update_of_ne fun e => current (swapBlk_inj e)]
      exact t.image p alive current
  exact ⟨⟨t.pid_range, t.pid_inj, t.nextpid, t.init, t.parent, t.swap, fun p alive _ => images p alive⟩,
    a.apart, still, images⟩

/-- The selected process runs. -/
lemma Kernel.At.wp_switchTo {exited : Bool} (h : s.At (.getproc exited)) (apart : s.TimesApart)
    (ready : (s.ptab p).pStatus = .ready) :
    wp (switchTo exited p) (fun _ s' => s'.Active ∧ s'.Running) (fun _ => False) s := by
  unfold switchTo
  rw [wp_bind, wp_get]
  cases exited with
  | true =>
    have parked : s.Parked := by
      refine ⟨h.table, apart, h.still, fun q alive => h.table.image q alive fun e => ?_⟩
      exact alive.2 (e ▸ h.zombie)
    exact parked.wp_swapin ready
  | false =>
    obtain ⟨a, still⟩ := h
    rw [if_neg nofun, wp_ite]
    split
    · next own =>
      subst own
      exact a.wp_resume
    · rw [wp_bind, wp_swrite]
      exact (a.parked still).wp_swapin ready

/-! ## Steps and runs -/

/-- The first process has not exited, and the times stored in zombies are no addresses that processes
sleep on. -/
structure Machine.Allowed (m : Machine) : Prop where
  init : ¬ m.k.InitExited
  apart : m.k.TimesApart

/-- The invariant of the machine. -/
structure Machine.Sound (m : Machine) : Prop where
  holds : m.k.At m.ctl
  apart : m.k.TimesApart

/-- Calm work keeps the place in `getproc`. -/
lemma Kernel.At.calmly {exited : Bool} (h : s.At (.getproc exited)) (apart : s.TimesApart)
    (calmly : Calmly s s') : s'.At (.getproc exited) := by
  obtain ⟨calm, running⟩ := calmly apart
  have still : s.Still → s'.Still := fun still p hp => still p ((running p).mp hp)
  cases exited with
  | true =>
    refine ⟨h.table.calm calm, still h.still, ?_⟩
    rw [calm.uPtab]
    exact (calm.alike _).zombie.mpr h.zombie
  | false => exact ⟨(h.1.calmly calmly).1, still h.2⟩

/-- In `getproc` no process runs. -/
lemma Kernel.At.still {exited : Bool} (h : s.At (.getproc exited)) : s.Still := by
  cases exited with
  | true => exact Kernel.Exited.still h
  | false => exact h.2

/-- What happens elsewhere keeps the table. -/
lemma Elsewhere.active (h : Elsewhere s s') (a : s.Active) : s'.Active ∧ (s'.Running ↔ s.Running) := by
  refine a.calmly fun _ => ⟨⟨fun p => ?_, h.layout, h.initproc, h.nextpid, h.swap, h.uPtab⟩, fun p => ?_⟩
  · exact ⟨by rw [h.status], by rw [h.status], h.pid p, h.parent p, h.swapBlk p, fun _ => .inl (h.wait p)⟩
  · rw [h.status]

/-- A step leads from a sound machine to a sound one. -/
lemma Machine.Step.sound {m m' : Machine} (step : Machine.Step ProcOp.InUser m m') (h : m.Sound) (allowed : m'.Allowed) :
    m'.Sound := by
  have ended : m'.k.Ended m'.ctl := by
    cases step with
    | op o returned user => exact (o.wp_run (E := fun _ => True) h.holds.1 h.holds.2).ok returned user
    | other elsewhere =>
      obtain ⟨a, running⟩ := elsewhere.active h.holds.1
      exact .inr ⟨a, running.mpr h.holds.2⟩
    | interrupt i returned =>
      have within : Within Calmly (fun _ => True) i.run := i.within_run
      exact .inr (h.holds.calmly h.apart (within.ok returned))
    | look round =>
      obtain ⟨rfl, -⟩ := (h.holds.still.wp_getprocRound (E := fun _ => True)).ok round
      exact .inr (h.holds.calmly h.apart (.of_ptab rfl rfl rfl rfl rfl rfl))
    | @switch k k' k'' exited newp round returned =>
      obtain ⟨rfl, ready⟩ := (h.holds.still.wp_getprocRound (E := fun _ => True)).ok round
      have h' : ({ k with pp := k.pp + 1 } : Kernel).At (.getproc exited) :=
        h.holds.calmly h.apart (.of_ptab rfl rfl rfl rfl rfl rfl)
      exact .inr ((h'.wp_switchTo h.apart (ready _ rfl)).ok returned)
  exact ⟨ended.resolve_left allowed.init, allowed.apart⟩

/-- After the boot the table is sound. -/
lemma Booted.sound {m : Machine} (boot : Booted m) : m.Sound := by
  obtain ⟨k, ctl⟩ := m
  have init := boot.init
  have only : ∀ p, (k.ptab p).pStatus ≠ .empty → p = k.initproc := by
    intro p hp
    by_contra ne
    exact hp (boot.others p ne)
  have alive : (k.ptab k.initproc).pStatus.Alive := init ▸ ⟨nofun, nofun⟩
  have table : k.Table := by
    refine ⟨?_, ?_, boot.nextpid ▸ by decide, alive, ?_, ?_, ?_⟩
    · intro p hp
      rw [only p hp, init]
      exact ⟨Nat.le_refl 1, (by decide : 1 ≤ 32001)⟩
    · intro p q hp hq _
      exact (only p hp).trans (only q hq).symm
    · intro p hp
      rw [only p hp]
      exact ⟨k.initproc, congrArg PTab.pPptr init, alive, .root⟩
    · intro p hp
      rw [only p hp, init]
    · intro p hp ne
      exact absurd ((only p hp.1).trans boot.current.symm) ne
  have apart : k.TimesApart := by
    intro p dead
    have e := only p fun e => absurd (e.symm.trans dead) nofun
    rw [e, init] at dead
    exact absurd dead nofun
  refine ⟨?_, apart⟩
  have ctl : ctl = .running := boot.ctl
  have current : k.udata.uPtab = k.initproc := boot.current
  have running : k.Running := by
    show (k.ptab k.udata.uPtab).pStatus = .running
    rw [current, init]
  subst ctl
  refine ⟨⟨table, apart, current ▸ alive, fun p hp => ?_⟩, running⟩
  rw [current]
  exact only p fun e => absurd (e.symm.trans hp) nofun

/-- In every run the table is sound. -/
lemma Machine.Run.sound {m₀ m : Machine} (boot : Booted m₀)
    (run : Machine.Run ProcOp.InUser Machine.Allowed m₀ m) : m.Sound := by
  induction run with
  | start => exact boot.sound
  | step _ next allowed ih => exact next.sound ih allowed

/-- What the other parts of the kernel rely on: process numbers are different and in range, and from
every process the parents, which are alive, lead to the first one. -/
structure Kernel.Family (s : Kernel) : Prop where
  pid_range : ∀ p, (s.ptab p).pStatus ≠ .empty → 1 ≤ (s.ptab p).pPid ∧ (s.ptab p).pPid ≤ 32001
  pid_inj : ∀ p q, (s.ptab p).pStatus ≠ .empty → (s.ptab q).pStatus ≠ .empty →
    (s.ptab p).pPid = (s.ptab q).pPid → p = q
  parent : ∀ p, (s.ptab p).pStatus ≠ .empty → ∃ q, (s.ptab p).pPptr = some q ∧
    (s.ptab q).pStatus.Alive ∧ Below (fun n => (s.ptab n).pPptr) s.initproc q

/-- The process table is in order: exactly the current process is running, or none while the processor is in
`getproc`; the panics of `psleep` and `getproc` do not happen; and the table is a family of processes. -/
structure Machine.Orderly (m : Machine) : Prop where
  running : m.ctl = .running → ∀ p, (m.k.ptab p).pStatus = .running ↔ p = m.k.udata.uPtab
  still : ∀ exited, m.ctl = .getproc exited → ∀ p, (m.k.ptab p).pStatus ≠ .running
  noVoodoo : m.ctl = .running → ∀ (o : ProcOp) (e : Panic), o.run m.k = .error e →
    e ≠ .psleepVoodoo ∧ e ≠ .getprocExtraRunning
  noExtra : ∀ exited, m.ctl = .getproc exited → ∀ e, getprocRound m.k ≠ .error e
  family : m.k.Family

/-- In every run after booting in which `_wait` stores into the memory of the process the process table is in order. -/
theorem processTable_run {m₀ m : Machine} (boot : Booted m₀)
    (run : Machine.Run ProcOp.InUser Machine.Allowed m₀ m) : m.Orderly := by
  have sound := run.sound boot
  obtain ⟨k, ctl⟩ := m
  cases ctl with
  | running =>
    obtain ⟨a, running⟩ := sound.holds
    have t := a.table
    refine ⟨fun _ p => ⟨a.only p, fun e => e ▸ running⟩, nofun, fun _ o e stopped => ?_, nofun,
      ⟨t.pid_range, t.pid_inj, t.parent⟩⟩
    have quiet := (o.wp_run (E := fun e => e.isQuiet = true) a running).error stopped
    constructor
    · rintro rfl
      cases quiet
    · rintro rfl
      cases quiet
  | getproc exited =>
    have still := sound.holds.still
    have t : k.Table := by
      cases exited with
      | true => exact Kernel.Exited.table sound.holds
      | false => exact sound.holds.1.table
    refine ⟨nofun, fun _ _ => still, nofun, fun _ _ e stopped => ?_, ⟨t.pid_range, t.pid_inj, t.parent⟩⟩
    exact (still.wp_getprocRound (E := fun _ => False)).error stopped

/-- The machine when the first process has been set up, in the root directory. -/
def Machine.booted : Machine :=
  let s := Kernel.zeroed fun _ _ => Block.zero
  ⟨{ s with
    iTab := fun _ =>
      { s.iTab 0 with cMagic := CMAGIC, cRefs := 1, cNode := { (s.iTab 0).cNode with iMode := F_DIR, iNlink := 2 } }
    nextpid := 1
    udata := { s.udata with uPtab := s.initproc, uFiles := fun _ => 0xff }
    ptab := Function.update (fun _ => PTab.zero) s.initproc
      { PTab.zero with
        pStatus := .running
        pPid := 1
        pPptr := some s.initproc
        pSwap := swapBlk s.initproc } }, .running⟩

/-- The boot that is tried out. -/
lemma booted_booted : Booted Machine.booted where
  ctl := rfl
  current := rfl
  nextpid := rfl
  init := rfl
  others p ne := by
    have same : Machine.booted.k.ptab p = PTab.zero := by
      show Function.update (fun _ => PTab.zero) Machine.booted.k.initproc _ p = _
      exact Function.update_of_ne ne _ _
    rw [same]
    rfl

/-- The first process has not exited, and no zombie has used a tick. -/
def Machine.fresh (m : Machine) : Bool :=
  (m.k.ptab m.k.initproc).pStatus ≠ .zombie ∧ ∀ p, (m.k.ptab p).pStatus = .zombie → (m.k.ptab p).pWait = 0

/-- A process that is fresh is allowed to run. -/
lemma Machine.fresh_allowed (m : Machine) (h : m.fresh) : m.Allowed := by
  obtain ⟨init, zero⟩ := of_decide_eq_true h
  refine ⟨init, fun p dead e ne same => ne (m.k.layout.injective ?_)⟩
  rw [← same, zero p dead, m.k.layout.null]

/-- The first process forks, the child forks, and the grandchild exits with 12. -/
def Move.family : List Move := [.op .fork, .op .fork, .op (.exit 12 0), .go]

/-- The child waits with a pointer into its memory. -/
lemma family_waits : ((Machine.moves ProcOp.InUser Machine.fresh (Move.family ++ [.op (.wait 0x6000)])
    Machine.booted).map fun m => decide (m.ctl = .running ∧ m.k.udata.uPtab = 1)) = some true := by decide +kernel

/-- The child takes up the grandchild. -/
theorem processTable_run_family : ∃ m, Machine.Run ProcOp.InUser Machine.Allowed Machine.booted m ∧
    m.k.udata.uPtab = 1 ∧ m.Orderly := by
  obtain ⟨m, moved, h⟩ := Option.map_eq_some_iff.mp family_waits
  have run := Machine.moves_run Machine.fresh_allowed .start moved
  exact ⟨m, run, (of_decide_eq_true h).2, processTable_run booted_booted run⟩

/-- The child waits with a pointer to udata. -/
lemma family_strays : ((Machine.moves ProcOp.Any Machine.fresh
    (Move.family ++ [.op (.wait Machine.booted.k.layout.udata)]) Machine.booted).map fun m =>
      decide (m.ctl = .running ∧ m.k.udata.uPtab = 0 ∧ (m.k.ptab 0).pStatus = .ready)) = some true := by decide +kernel

/-- The child has the status stored at the address of `udata`: then `u_ptab` points to the first process. -/
theorem not_processTable_run :
    ¬ ∀ m₀ m, Booted m₀ → Machine.Run ProcOp.Any Machine.Allowed m₀ m → m.Orderly := by
  intro orderly
  obtain ⟨m, moved, h⟩ := Option.map_eq_some_iff.mp family_strays
  obtain ⟨ctl, own, ready⟩ := of_decide_eq_true h
  have running := (orderly _ m booted_booted (Machine.moves_run Machine.fresh_allowed .start moved)).running ctl 0
  rw [ready, own] at running
  exact absurd (running.mpr rfl) nofun

end Uzi
