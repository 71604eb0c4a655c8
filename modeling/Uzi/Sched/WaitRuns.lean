import Uzi.Sched.Wait

/-!
# Runs in which no waiting parent misses an exit

`doexit` keeps the invariant of waiting parents unless the first process waits and gets a child that has
exited (`Kernel.ExitClean`). The runs are those in which that does not happen; in the run at the end it
does.
-/

namespace Uzi
open Exec

variable {s s' : Kernel} {p q : Fin PTABSIZE}

/-! ## `doexit` -/

/-- `doexit` stores the times over `p_wait`. -/
lemma Kernel.Leaving.setProc {x : PTab} (l : s.Leaving) (status : x.pStatus = (s.ptab s.udata.uPtab).pStatus)
    (parent : x.pPptr = (s.ptab s.udata.uPtab).pPptr) : (s.setProc s.udata.uPtab x).Leaving := by
  have statuses : ∀ p, ((s.setProc s.udata.uPtab x).ptab p).pStatus = (s.ptab p).pStatus := by
    intro p
    by_cases same : p = s.udata.uPtab
    · rw [same, Kernel.ptab_setProc, status]
    · rw [Kernel.ptab_setProc_of_ne same]
  have parents : ∀ p, ((s.setProc s.udata.uPtab x).ptab p).pPptr = (s.ptab p).pPptr := by
    intro p
    by_cases same : p = s.udata.uPtab
    · rw [same, Kernel.ptab_setProc, parent]
    · rw [Kernel.ptab_setProc_of_ne same]
  refine ⟨fun p z ne wait zombie child => ?_, fun p ne wait => ?_, ?_, ?_⟩
  · rw [statuses] at wait zombie
    rw [parents] at child ⊢
    exact l.missed p z ne wait zombie child
  · rw [statuses] at wait
    have ne : p ≠ s.udata.uPtab := ne
    rw [Kernel.ptab_setProc_of_ne ne]
    exact l.sleeps p ne wait
  · exact (parents _).trans l.parent
  · show ((s.setProc s.udata.uPtab x).ptab s.initproc).pStatus ≠ .empty
    rw [statuses]
    exact l.init

/-- `addTimes` keeps the process on its way out. -/
lemma Kernel.Leaving.wp_addTimes (l : s.Leaving) :
    wp addTimes (fun _ s' => s'.Leaving) (fun _ => True) s := by
  have times : Within Settling (fun _ => True) (modifyUdata fun u => { u with uUtime := addtick u.uUtime u.uCutime }) :=
    Settling.modifyUdata fun _ => rfl
  have times' : Within Settling (fun _ => True) (modifyUdata fun u => { u with uStime := addtick u.uStime u.uCstime }) :=
    Settling.modifyUdata fun _ => rfl
  unfold addTimes
  rw [wp_bind]
  refine wp_post (times s) fun _ s₁ h₁ => ?_
  rw [wp_bind]
  refine wp_post (times' s₁) fun _ s₂ h₂ => ?_
  rw [wp_bind, wp_get, wp_modifyOwn]
  exact ((l.settling h₁).settling h₂).setProc rfl rfl

/-- The parent of the current process does not wait, unless it is the process itself. -/
def Kernel.ParentUp (s : Kernel) : Prop :=
  ∀ p, p ≠ s.udata.uPtab → (s.ptab s.udata.uPtab).pPptr = some p → (s.ptab p).pStatus ≠ .wait

/-- `wakeParent` wakes the parent. -/
lemma Kernel.Leaving.wp_wakeParent (l : s.Leaving) :
    wp wakeParent (fun _ s' => s'.Leaving ∧ s'.ParentUp) (fun _ => True) s := by
  unfold wakeParent
  rw [wp_bind, wp_get, wp_ite]
  split
  · generalize event_eq : (s.ptab s.udata.uPtab).pPptr.elim Event.none Event.ptab = event
    have woken : Settling s { s with ptab := s.woken event } := Settling.woken
    refine ⟨l.settling woken, fun p ne parent wait => ?_⟩
    have parent := (woken.parent s.udata.uPtab).symm.trans parent
    rw [parent] at event_eq
    have asleep : (s.ptab p).pStatus = .wait := woken.of_status (x := .wait) (by decide) wait
    have wait : (s.woken event p).pStatus = .wait := wait
    unfold Kernel.woken at wait
    rw [if_pos ⟨asleep ▸ rfl, event_eq ▸ l.sleeps p ne asleep⟩] at wait
    cases wait
  · next first =>
    refine ⟨l, fun p ne parent => ?_⟩
    have first := not_not.mp first
    rw [first, l.parent] at parent
    exact absurd (Option.some.inj parent).symm (first ▸ ne)

/-- The process is gone, and its parent is up. -/
lemma Kernel.Leaving.die {x : PTab} (l : s.Leaving) (up : s.ParentUp) (zombie : x.pStatus = .zombie)
    (parent : x.pPptr = (s.ptab s.udata.uPtab).pPptr) : (s.setProc s.udata.uPtab x).Waits := by
  have other : ∀ p, ((s.setProc s.udata.uPtab x).ptab p).pStatus = .wait → p ≠ s.udata.uPtab := by
    intro p wait same
    rw [same, Kernel.ptab_setProc, zombie] at wait
    exact absurd wait nofun
  refine ⟨fun p z wait dead child => ?_, fun p wait => ?_, ?_, ?_⟩
  · have ne := other p wait
    rw [Kernel.ptab_setProc_of_ne ne] at wait
    by_cases own : z = s.udata.uPtab
    · rw [own, Kernel.ptab_setProc, parent] at child
      exact up p ne child wait
    · rw [Kernel.ptab_setProc_of_ne own] at dead child
      exact up p ne (l.missed p z ne wait dead child) wait
  · have ne := other p wait
    rw [Kernel.ptab_setProc_of_ne ne] at wait ⊢
    exact l.sleeps p ne wait
  · show ((s.setProc s.udata.uPtab x).ptab s.initproc).pPptr = some s.initproc
    by_cases own : s.initproc = s.udata.uPtab
    · rw [own, Kernel.ptab_setProc, parent, ← own]
      exact l.parent
    · rw [Kernel.ptab_setProc_of_ne own]
      exact l.parent
  · show ((s.setProc s.udata.uPtab x).ptab s.initproc).pStatus ≠ .empty
    by_cases own : s.initproc = s.udata.uPtab
    · rw [own, Kernel.ptab_setProc, zombie]
      exact nofun
    · rw [Kernel.ptab_setProc_of_ne own]
      exact l.init

/-- `doexit` keeps what is waited for. -/
lemma Kernel.Waits.wp_doexit {val val2 : Word} (w : s.Waits) (clean : s.ExitClean) :
    wp (doexit val val2) (fun _ s' => s'.Waits) (fun _ => True) s := by
  unfold doexit
  rw [wp_bind]
  refine wp_post (within_closeAll (R := Settling) s) fun _ s₁ h₁ => ?_
  rw [wp_bind, wp_modifyOwn, wp_bind, wp_modify]
  have h₂ := trans_of Settling h₁ (Settling.setProc (p := s₁.udata.uPtab)
    (x := { s₁.ptab s₁.udata.uPtab with pExitval := val <<< 8 ||| val2 &&& 0xff }) (.inl rfl) rfl fun _ => rfl)
  have l := (w.fewer h₂.fewer).adopt (clean.settling h₂)
  generalize (s₁.setProc _ _) = s₂ at l ⊢
  generalize ({ s₂ with ptab := s₂.adopt } : Kernel) = s₃ at l ⊢
  rw [wp_bind, wp_get, wp_bind]
  refine wp_post (Quiet.iDeref (R := Settling) s₃) fun _ s₄ h₄ => ?_
  rw [wp_bind]
  refine wp_post (l.settling h₄).wp_addTimes fun _ s₅ l₅ => ?_
  rw [wp_bind]
  refine wp_post l₅.wp_wakeParent fun _ s₆ ⟨l₆, up⟩ => ?_
  rw [wp_modifyOwn]
  exact l₆.die up rfl rfl

/-! ## `chksigs` and `swapout` -/

/-- What `chksigs` does, depending on whether the process has exited in it. -/
def Kernel.Sorted (s : Kernel) (exited : Bool) (s' : Kernel) : Prop :=
  if exited then s.ExitClean → s'.Waits else Settling s s'

/-- The loop over the signals sorts out the process. -/
lemma Kernel.Waits.wp_chksigsLoop {js : List (Fin NSIGS)} (w : s.Waits) :
    wp (chksigsLoop js) s.Sorted (fun _ => True) s := by
  induction js generalizing s with
  | nil => exact refl_of Settling s
  | cons j js ih =>
    rw [chksigsLoop, wp_bind, wp_get, wp_ite]
    split
    · exact ih w
    rw [wp_ite]
    split
    · rw [wp_bind]
      by_cases clean : s.ExitClean
      · exact wp_post (w.wp_doexit clean) fun _ _ w' _ => w'
      · exact wp_post wp_true fun _ _ _ clean' => absurd clean' clean
    rw [wp_ite]
    split
    · rw [wp_bind, wp_modifyPtab, wp_bind, wp_modifyUdata]
      have h : Settling s (s.setProc s.udata.uPtab { s.ptab s.udata.uPtab with
          pPending := (s.ptab s.udata.uPtab).pPending &&& logicalNot (sigmask j) }) :=
        .setProc (.inl rfl) rfl fun _ => rfl
      have h := trans_of Settling h (.withUdata (u := { s.udata with uCursig := BitVec.ofNat 16 j }) rfl)
      refine wp_post (ih (w.fewer h.fewer)) fun exited s' sorted => ?_
      cases exited with
      | true => exact fun clean => sorted (clean.settling h)
      | false => exact trans_of Settling h sorted
    · exact ih w

/-- `chksigs` sorts out the process. -/
lemma Kernel.Waits.wp_chksigs (w : s.Waits) : wp chksigs s.Sorted (fun _ => True) s := by
  unfold chksigs
  rw [wp_bind, wp_get, wp_ite]
  split
  · exact refl_of Settling s
  · exact w.wp_chksigsLoop

/-- What an operation leaves behind that comes to `ctl`, provided that it does not exit where the first
process would miss a child. -/
def Kernel.Kept (s : Kernel) (ctl : Ctl) (s' : Kernel) : Prop :=
  (ctl = .getproc true → s.ExitClean) → s'.Waits ∧ (ctl = .running → s'.Running)

/-- More steps after the first ones. -/
lemma Kernel.Kept.after {s'' : Kernel} {ctl : Ctl} (clean : s.ExitClean → s'.ExitClean) (h : s'.Kept ctl s'') :
    s.Kept ctl s'' := fun c => h fun exited => clean (c exited)

/-- What settles keeps the process running. -/
lemma Kernel.Waits.kept (w : s.Waits) (running : s.Running) (h : Settling s s') : s.Kept .running s' :=
  fun _ => ⟨w.fewer h.fewer, fun _ => h.running running⟩

/-- `swapout` keeps what is waited for. -/
lemma Kernel.Waits.wp_swapout {α : Type} (w : s.Waits) :
    wp (swapout (α := α)) (fun r s' => s.Kept r.ctl s') (fun _ => True) s := by
  unfold swapout
  rw [wp_bind]
  refine wp_post w.wp_chksigs fun exited s' sorted => ?_
  cases exited with
  | true => exact fun clean => ⟨sorted (clean rfl), nofun⟩
  | false => exact fun _ => ⟨w.fewer (Settling.fewer sorted), nofun⟩

/-- The current process, which is no zombie, changes its status. -/
lemma Kernel.ExitClean.turn {x : PTab} (c : s.ExitClean) (alive : x.pStatus ≠ .zombie)
    (parent : x.pPptr = (s.ptab s.udata.uPtab).pPptr) : (s.setProc s.udata.uPtab x).ExitClean := by
  intro first child wait z zombie
  have first : s.udata.uPtab ≠ s.initproc := first
  have child : ((s.setProc s.udata.uPtab x).ptab s.udata.uPtab).pPptr ≠ some s.initproc := child
  have wait : ((s.setProc s.udata.uPtab x).ptab s.initproc).pStatus = .wait := wait
  rw [Kernel.ptab_setProc, parent] at child
  rw [Kernel.ptab_setProc_of_ne first.symm] at wait
  by_cases own : z = s.udata.uPtab
  · rw [own, Kernel.ptab_setProc] at zombie
    exact absurd zombie alive
  · rw [Kernel.ptab_setProc_of_ne own] at zombie ⊢
    exact c first child wait z zombie

/-! ## `psleep` and `_wait` -/

/-- The current process has no child that has exited. -/
def Kernel.NoneDead (s : Kernel) : Prop :=
  ∀ z, (s.ptab z).pStatus = .zombie → (s.ptab z).pPptr ≠ some s.udata.uPtab

/-- The switch in `psleep` keeps what is waited for. -/
lemma Kernel.Waits.wp_psleepSwap {α : Type} {event : Event} (w : s.Waits)
    (dead : event = .ptab s.udata.uPtab → s.NoneDead) :
    wp (psleepSwap (α := α) event) (fun r s' => s.Kept r.ctl s') (fun _ => True) s := by
  unfold psleepSwap psleep
  rw [wp_bind, wp_bind, wp_get, wp_ite]
  split
  · trivial
  rw [wp_modifyPtab]
  generalize hstatus : (if event = .none then PStatus.pause
    else if event = .ptab s.udata.uPtab then .wait else .sleep) = status
  have asleep : status ≠ .zombie ∧ status ≠ .empty := by
    rw [← hstatus]
    split
    · exact ⟨nofun, nofun⟩
    split
    · exact ⟨nofun, nofun⟩
    · exact ⟨nofun, nofun⟩
  have waits : status = .wait → event = .ptab s.udata.uPtab := by
    rw [← hstatus]
    split
    · exact nofun
    split
    · next own => exact fun _ => own
    · exact nofun
  generalize hx : ({ s.ptab s.udata.uPtab with pStatus := status, pWait := s.layout.addr event } : PTab) = x
  have same : x.pStatus = status ∧ x.pPptr = (s.ptab s.udata.uPtab).pPptr ∧
    x.pWait = s.layout.addr event := hx ▸ ⟨rfl, rfl, rfl⟩
  have w' : (s.setProc s.udata.uPtab x).Waits := by
    refine ⟨fun p z wait zombie => ?_, fun p wait => ?_, ?_, ?_⟩
    · have other : z ≠ s.udata.uPtab := by
        intro own
        rw [own, Kernel.ptab_setProc, same.1] at zombie
        exact asleep.1 zombie
      rw [Kernel.ptab_setProc_of_ne other] at zombie ⊢
      by_cases own : p = s.udata.uPtab
      · rw [own, Kernel.ptab_setProc, same.1] at wait
        exact own ▸ dead (waits wait) z zombie
      · rw [Kernel.ptab_setProc_of_ne own] at wait
        exact w.missed p z wait zombie
    · by_cases own : p = s.udata.uPtab
      · rw [own, Kernel.ptab_setProc] at wait ⊢
        rw [same.2.2, waits (same.1.symm.trans wait)]
        rfl
      · rw [Kernel.ptab_setProc_of_ne own] at wait ⊢
        exact w.sleeps p wait
    · show ((s.setProc s.udata.uPtab x).ptab s.initproc).pPptr = some s.initproc
      by_cases own : s.initproc = s.udata.uPtab
      · rw [own, Kernel.ptab_setProc, same.2.1, ← own]
        exact w.parent
      · rw [Kernel.ptab_setProc_of_ne own]
        exact w.parent
    · show ((s.setProc s.udata.uPtab x).ptab s.initproc).pStatus ≠ .empty
      by_cases own : s.initproc = s.udata.uPtab
      · rw [own, Kernel.ptab_setProc, same.1]
        exact asleep.2
      · rw [Kernel.ptab_setProc_of_ne own]
        exact w.init
  exact wp_post w'.wp_swapout fun _ _ => .after fun c => c.turn (same.1 ▸ asleep.1) same.2.1

/-- The search of `_wait` has found no zombie. -/
lemma zombieChild_none (h : s.zombieChild = none) : s.NoneDead := by
  intro z zombie child
  have none := List.find?_eq_none.mp h z (List.mem_finRange z)
  exact none (decide_eq_true ⟨zombie, child⟩)

/-- The search of `_wait` has found a child. -/
lemma zombieChild_child (h : s.zombieChild = some p) : (s.ptab p).pPptr = some s.udata.uPtab := by
  have found := List.find?_some h
  rw [decide_eq_true_eq] at found
  exact found.2

/-- A child that has exited is neither the first process nor the current one. -/
lemma Kernel.Waits.zombieChild_ne (w : s.Waits) (running : s.Running) (h : s.zombieChild = some p) :
    p ≠ s.initproc ∧ p ≠ s.udata.uPtab := by
  have dead := zombieChild_dead h
  have other : p ≠ s.udata.uPtab := by
    intro own
    rw [own] at dead
    exact absurd (dead.symm.trans running) nofun
  refine ⟨fun first => other ?_, other⟩
  have child := zombieChild_child h
  rw [first, w.parent] at child
  exact first.trans (Option.some.inj child)

/-- A round of `_wait` keeps what is waited for. -/
lemma Kernel.Waits.wp_waitRound {statloc : Nat} (w : s.Waits) (running : s.Running)
    (user : s.Collects → s.layout.TakesStatus statloc) :
    wp (waitRound statloc) (fun r s' => s.Kept r.ctl s') (fun _ => True) s := by
  unfold waitRound
  rw [wp_bind, wp_get, wp_bind]
  refine wp_post w.wp_chksigs.run fun exited s₁ ⟨sorted, returned⟩ => ?_
  cases exited with
  | true => exact fun clean => ⟨sorted (clean rfl), nofun⟩
  | false =>
    have h : Settling s s₁ := sorted
    have w₁ := w.fewer h.fewer
    have running₁ := h.running running
    have earlier : ∀ {ctl : Ctl} {s' : Kernel}, s₁.Kept ctl s' → s.Kept ctl s' := .after fun c => c.settling h
    rw [if_neg nofun, wp_bind, wp_get, wp_ite]
    split
    · rw [wp_bind]
      have error : Within Settling (fun _ => True) (setError .eintr) := Quiet.setError
      exact wp_post (error s₁) fun _ _ h => earlier (w₁.kept running₁ h)
    · next idle =>
      rw [wp_bind, wp_get]
      cases child : s₁.zombieChild with
      | none =>
        dsimp only
        rw [wp_bind, wp_get]
        exact wp_post (w₁.wp_psleepSwap fun _ => zombieChild_none child) fun _ _ => earlier
      | some p =>
        dsimp only
        rw [wp_bind]
        obtain ⟨first, other⟩ := w₁.zombieChild_ne running₁ child
        have pointer := Kernel.Collects.user user returned idle child
        refine wp_post (wp_reap pointer) fun _ s₂ ⟨u, same, h⟩ => earlier fun _ => ?_
        subst h
        have fewer : Fewer s₁ (s₁.setProc p { s₁.ptab p with pStatus := .empty }) :=
          .setProc nofun nofun fun e => absurd e first
        refine ⟨w₁.fewer (fewer.trans (.of_ptab rfl rfl rfl)), fun _ => ?_⟩
        show ((s₁.setProc p _).ptab u.uPtab).pStatus = .running
        rw [same, Kernel.ptab_setProc_of_ne other.symm]
        exact running₁

/-- `_wait` keeps what is waited for. -/
lemma Kernel.Waits.wp_wait {statloc : Nat} (w : s.Waits) (running : s.Running)
    (user : s.Collects → ¬ s.layout.udata < statloc → s.layout.TakesStatus statloc) :
    wp (_wait statloc) (fun r s' => s.Kept r.ctl s') (fun _ => True) s := by
  have failed : ∀ e, wp (do setError e; pure (CallEnd.returned 0xffff)) (fun r s' => s.Kept r.ctl s')
      (fun _ => True) s := by
    intro e
    have error : Within Settling (fun _ => True) (setError e) := Quiet.setError
    rw [wp_bind]
    exact wp_post (error s) fun _ _ h => w.kept running h
  unfold _wait
  rw [wp_bind, wp_get, wp_ite]
  split
  · exact failed .efault
  next passed =>
  rw [wp_ite]
  split
  · exact failed .echild
  · exact w.wp_waitRound running fun collects => user collects passed

/-! ## The other operations -/

/-- The state is saved. -/
lemma Fewer.saved : Fewer s s.saved := .of_ptab rfl rfl rfl

/-- A process becomes ready. -/
lemma Fewer.ready : Fewer s (s.setProc p { s.ptab p with pStatus := .ready }) :=
  .setProc nofun nofun fun _ => ⟨rfl, nofun⟩

/-- A process runs. -/
lemma Fewer.run : Fewer s (s.setProc p { s.ptab p with pStatus := .running }) :=
  .setProc nofun nofun fun _ => ⟨rfl, nofun⟩

/-- A process enters the table. -/
lemma Fewer.enter {x : PTab} (empty : (s.ptab p).pStatus = .empty) (init : (s.ptab s.initproc).pStatus ≠ .empty)
    (wait : x.pStatus ≠ .wait) (zombie : x.pStatus ≠ .zombie) : Fewer s (s.setProc p x) :=
  .setProc wait zombie fun first => absurd empty (first ▸ init)

instance : Forking Settling where
  time _ _ := .withUdata rfl
  reset _ := .withUdata rfl

/-- `dofork` keeps what is waited for. -/
lemma Kernel.Waits.wp_dofork (w : s.Waits) (running : s.Running) :
    wp dofork (fun _ s' => s'.Waits ∧ s'.Running) (fun _ => True) s := by
  unfold dofork
  rw [wp_bind]
  refine wp_post wp_ptabAlloc fun r s₁ h => ?_
  cases r with
  | none =>
    cases h
    rw [wp_bind]
    have error : Within Settling (fun _ => True) (setError .eagain) := Quiet.setError
    exact wp_post (error s) fun _ _ h => ⟨w.fewer h.fewer, h.running running⟩
  | some p =>
    obtain ⟨pid, free, rfl⟩ := h
    have nextpid : Fewer s { s with nextpid := pid } := .of_ptab rfl rfl rfl
    have w₁ : (s.forking p pid).Waits := (w.fewer nextpid).fewer (.enter free.empty w.init nofun nofun)
    have first : p ≠ (s.forking p pid).initproc := fun e => w.init (e ▸ free.empty)
    generalize s.forking p pid = s₁ at w₁ first ⊢
    dsimp only
    rw [wp_bind, wp_get, wp_bind, wp_modifyPtab, wp_bind, wp_swrite, wp_bind]
    have w₂ := (w₁.fewer (Fewer.ready (p := s₁.udata.uPtab))).fewer Fewer.saved
    have first : p ≠ (s₁.setProc s₁.udata.uPtab { s₁.ptab s₁.udata.uPtab with pStatus := .ready }).saved.initproc :=
      first
    generalize (s₁.setProc _ _).saved = s₂ at w₂ first ⊢
    unfold newproc
    rw [wp_bind, wp_get, wp_bind, wp_modifyPtab, wp_bind, wp_modifyUdata]
    generalize hx : ({ s₂.ptab p with
      pSwap := swapBlk p
      pStatus := .running
      pPptr := some s₂.udata.uPtab
      pIgnored := (s₂.ptab s₂.udata.uPtab).pIgnored
      pUid := (s₂.ptab s₂.udata.uPtab).pUid } : PTab) = x
    have child : Fewer s₂ (s₂.setProc p x) :=
      .setProc (hx ▸ nofun) (hx ▸ nofun) fun e => absurd e first
    generalize hu : ({ (s₂.setProc p x).udata with
      uPtab := p, uUtime := ⟨0, 0⟩, uStime := ⟨0, 0⟩, uCutime := ⟨0, 0⟩, uCstime := ⟨0, 0⟩ } : UData) = u
    have w₃ : ((s₂.setProc p x).withUdata u).Waits := (w₂.fewer child).fewer (.of_ptab rfl rfl rfl)
    have own : ((s₂.setProc p x).withUdata u).udata.uPtab = p := hu ▸ rfl
    generalize (s₂.setProc p x).withUdata u = s₃ at w₃ own ⊢
    refine wp_post (within_newproc (R := Settling) s₃) fun _ s₄ h => ?_
    rw [wp_bind, wp_modify, wp_bind, wp_modifyPtab]
    have w₄ := w₃.fewer h.fewer
    have tick : Fewer s₄ { s₄ with runticks := 0 } := .of_ptab rfl rfl rfl
    refine ⟨(w₄.fewer tick).fewer Fewer.run, ?_⟩
    show ((Kernel.setProc _ p _).ptab s₄.udata.uPtab).pStatus = .running
    rw [h.uPtab, own, Kernel.ptab_setProc]

/-- The end of `unix` keeps what is waited for. -/
lemma Kernel.Waits.wp_unixEnd (w : s.Waits) (running : s.Running) :
    wp unixEnd (fun r s' => s.Kept r.ctl s') (fun _ => True) s := by
  unfold unixEnd
  rw [wp_bind]
  refine wp_post w.wp_chksigs fun exited s₁ sorted => ?_
  cases exited with
  | true => exact fun clean => ⟨sorted (clean rfl), nofun⟩
  | false =>
    have h : Settling s s₁ := sorted
    have w₁ := w.fewer h.fewer
    rw [if_neg nofun, wp_bind, wp_get, wp_ite]
    split
    · rw [wp_bind, wp_modifyPtab]
      exact wp_post (w₁.fewer (Fewer.ready (p := s₁.udata.uPtab))).wp_swapout fun _ _ =>
        .after fun c => (c.settling h).turn nofun rfl
    · exact w.kept running h

namespace ProcOp

/-- The kernel sleeps on a process table entry in `_wait` only. -/
def Usual : ProcOp → Prop
  | .sleep event => ∀ p, event ≠ .ptab p
  | _ => True

instance {o : ProcOp} : Decidable o.Usual :=
  o.casesOn (.isTrue trivial) (fun _ _ => .isTrue trivial) (fun _ => .isTrue trivial) (fun _ => .isTrue trivial)
    (fun event => Nat.decidableForallFin fun p => event ≠ .ptab p)
    (fun _ => .isTrue trivial) (fun _ _ => .isTrue trivial) (.isTrue trivial)

/-- The operation is usual, with a status pointer into the memory of the process. -/
def Proper (o : ProcOp) (s : Kernel) (ctl : Ctl) : Prop := o.Usual ∧ o.InUser s ctl

instance {o : ProcOp} {s : Kernel} {ctl : Ctl} : Decidable (o.Proper s ctl) := inferInstanceAs (Decidable (_ ∧ _))

/-- Where the operation is proper, and does not exit where the first process would miss a child. -/
def Clean (o : ProcOp) (s : Kernel) (ctl : Ctl) : Prop := o.Proper s ctl ∧ (ctl = .getproc true → s.ExitClean)

/-- Each operation keeps what is waited for. -/
lemma wp_kept (o : ProcOp) (usual : o.Usual) {ctl : Ctl} (user : o.InUser s ctl) (w : s.Waits) (running : s.Running) :
    wp o.run (fun ctl s' => s.Kept ctl s') (fun _ => True) s := by
  have quiet : ∀ {c : K PUnit}, Within Settling (fun _ => True) c →
      wp (do c; pure Ctl.running) (fun ctl s' => s.Kept ctl s') (fun _ => True) s := by
    intro c h
    rw [wp_bind]
    exact wp_post (h s) fun _ s' h => w.kept running h
  cases o with
  | fork =>
    show wp (do let _ ← dofork; pure Ctl.running) _ _ s
    rw [wp_bind]
    exact wp_post (w.wp_dofork running) fun _ _ ⟨w', running'⟩ _ => ⟨w', fun _ => running'⟩
  | exit val val2 =>
    show wp (do doexit val val2; pure (Ctl.getproc true)) _ _ s
    rw [wp_bind]
    by_cases clean : s.ExitClean
    · exact wp_post (w.wp_doexit clean) fun _ _ w' _ => ⟨w', nofun⟩
    · exact wp_post wp_true fun _ _ _ clean' => absurd (clean' rfl) clean
  | wait statloc =>
    show wp (do return (← _wait statloc).ctl) _ _ s
    rw [wp_bind]
    exact wp_post (w.wp_wait running user) fun _ _ => id
  | waitOn statloc =>
    show wp (do return (← waitRound statloc).ctl) _ _ s
    rw [wp_bind]
    exact wp_post (w.wp_waitRound running user) fun _ _ => id
  | sleep event =>
    show wp (do return (← psleepSwap (α := PUnit) event).ctl) _ _ s
    rw [wp_bind]
    exact wp_post (w.wp_psleepSwap fun e => absurd e (usual _)) fun _ _ => id
  | wakeup event => exact quiet Settling.wakeup
  | signal proc sig => exact quiet Settling.sendsig
  | unixEnd =>
    show wp (do return (← Uzi.unixEnd).ctl) _ _ s
    rw [wp_bind]
    exact wp_post (w.wp_unixEnd running) fun _ _ => id

end ProcOp

/-! ## Another process -/

/-- `swapin` keeps what is waited for. -/
lemma Kernel.Waits.wp_swapin (w : s.Waits) :
    wp (swapin p) (fun _ s' => s'.Waits ∧ s'.Running) (fun _ => True) s := by
  unfold swapin
  rw [wp_bind, wp_modify, wp_bind, wp_get, wp_ite]
  split
  · trivial
  · next own =>
    have own := not_not.mp own
    have load : Fewer s { s with udata := s.swap (s.ptab p).pSwap } := .of_ptab rfl rfl rfl
    have w₁ := w.fewer load
    generalize ({ s with udata := s.swap (s.ptab p).pSwap } : Kernel) = s₁ at own w₁ ⊢
    subst own
    rw [wp_bind, wp_modifyPtab, wp_modify]
    refine ⟨w₁.fewer (Fewer.run.trans (.of_ptab rfl rfl rfl)), ?_⟩
    show ((s₁.setProc s₁.udata.uPtab _).ptab s₁.udata.uPtab).pStatus = .running
    rw [Kernel.ptab_setProc]

/-- The switch keeps what is waited for. -/
lemma Kernel.Waits.wp_switchTo {exited : Bool} (w : s.Waits) :
    wp (switchTo exited p) (fun _ s' => s'.Waits ∧ s'.Running) (fun _ => True) s := by
  unfold switchTo
  rw [wp_bind, wp_get, wp_ite]
  split
  · exact w.wp_swapin
  rw [wp_ite]
  split
  · next own =>
    subst own
    rw [wp_bind, wp_modifyPtab, wp_modify]
    refine ⟨w.fewer (Fewer.run.trans (.of_ptab rfl rfl rfl)), ?_⟩
    show ((s.setProc s.udata.uPtab _).ptab s.udata.uPtab).pStatus = .running
    rw [Kernel.ptab_setProc]
  · rw [wp_bind, wp_swrite]
    exact (w.fewer Fewer.saved).wp_swapin

/-- A round of `getproc` marks processes as ready only. -/
lemma wp_getprocRound : wp getprocRound (fun _ s' => Fewer s s') (fun _ => True) s := by
  unfold getprocRound
  rw [wp_bind, wp_modify, wp_bind, wp_get, wp_ite]
  have pp : Fewer s { s with pp := s.pp + 1 } := .of_ptab rfl rfl rfl
  split
  · trivial
  rw [wp_ite]
  split
  · exact pp
  · exact pp

/-! ## Runs -/

/-- No parent misses an exit, and the current process is running. -/
structure Machine.Waits (m : Machine) : Prop where
  kernel : m.k.Waits
  running : m.ctl = .running → m.k.Running

/-- What happens elsewhere settles. -/
lemma Elsewhere.settling (h : Elsewhere s s') : Settling s s' :=
  ⟨h.layout, h.initproc, h.uPtab, h.parent, fun p => .inl (h.status p), fun p _ => h.wait p⟩

/-- A step keeps what is waited for. -/
lemma Machine.Step.waits {m m' : Machine} (step : Machine.Step ProcOp.Clean m m') (w : m.Waits) : m'.Waits := by
  cases step with
  | op o returned allowed =>
    have kept := o.wp_kept allowed.1.1 allowed.1.2 w.kernel (w.running rfl)
    obtain ⟨w', running⟩ := kept.ok returned allowed.2
    exact ⟨w', running⟩
  | other elsewhere =>
    exact ⟨w.kernel.fewer elsewhere.settling.fewer, fun _ => elsewhere.settling.running (w.running rfl)⟩
  | interrupt i returned =>
    have within : Within Settling (fun _ => True) i.run := by
      cases i with
      | wakeup event => exact Settling.wakeup
      | signal proc sig => exact Settling.sendsig
    exact ⟨w.kernel.fewer (within.ok returned).fewer, nofun⟩
  | look round => exact ⟨w.kernel.fewer (wp_getprocRound.ok round), nofun⟩
  | switch round returned =>
    obtain ⟨w', running⟩ := (w.kernel.fewer (wp_getprocRound.ok round)).wp_switchTo.ok returned
    exact ⟨w', fun _ => running⟩

/-- After the boot nobody waits. -/
lemma Booted.waits {m : Machine} (boot : Booted m) : m.Waits := by
  have only : ∀ p x, (m.k.ptab p).pStatus = x → x ≠ .empty → x = .running := by
    intro p x hx ne
    by_cases first : p = m.k.initproc
    · rw [first, boot.init] at hx
      exact hx.symm
    · exact absurd (hx.symm.trans (boot.others p first)) ne
  refine ⟨⟨fun p _ wait => ?_, fun p wait => ?_, ?_, ?_⟩, fun _ => ?_⟩
  · exact absurd (only p _ wait nofun) nofun
  · exact absurd (only p _ wait nofun) nofun
  · rw [boot.init]
  · rw [boot.init]
    exact nofun
  · show (m.k.ptab m.k.udata.uPtab).pStatus = .running
    rw [boot.current, boot.init]

/-- In every run in which no process exits that has a child that has exited and is not a child of the
first process, while the first process waits, no process ever waits while it has such a child. -/
theorem noneMissed_run {m₀ m : Machine} (boot : Booted m₀)
    (run : Machine.Run ProcOp.Clean (fun _ => True) m₀ m) : m.k.NoneMissed := by
  suffices w : m.Waits from w.kernel.missed
  induction run with
  | start => exact boot.waits
  | step _ next _ ih => exact next.waits ih

/-- The first process forks and exits. -/
lemma booted_fork_exit : wp ProcOp.fork.run
    (fun ctl k => ctl = .running ∧ (k.ptab k.udata.uPtab).pPptr = some k.initproc ∧
      wp (ProcOp.exit 0 0).run (fun ctl k' => ctl = .getproc true ∧ (k'.ptab 1).pStatus = .zombie)
        (fun _ => False) k)
    (fun _ => False) Machine.booted.k := by decide +kernel

/-- The first process forks, and its child exits. -/
theorem noneMissed_run_exit : ∃ m, Machine.Run ProcOp.Clean (fun _ => True) Machine.booted m ∧
    (m.k.ptab 1).pStatus = .zombie ∧ m.k.NoneMissed := by
  obtain ⟨_, k, forked, rfl, child, exits⟩ := booted_fork_exit.returns
  obtain ⟨_, k', exited, rfl, zombie⟩ := exits.returns
  have run : Machine.Run ProcOp.Clean (fun _ => True) Machine.booted ⟨k', .getproc true⟩ :=
    .step (.step .start (.op .fork forked ⟨⟨trivial, trivial⟩, nofun⟩) trivial)
      (.op (.exit 0 0) exited ⟨⟨trivial, trivial⟩, fun _ _ other => absurd child other⟩) trivial
  exact ⟨_, run, zombie, noneMissed_run booted_booted run⟩

/-! ## A run in which the first process misses an exit -/

/-- There are four processes, each the parent of the next one. The last one exits, the two in the middle
pause, the first one waits, and the third one is woken up and exits. -/
def Move.orphan : List Move :=
  [.op .fork, .op .fork, .op .fork, .op (.exit 0 0), .go, .op (.sleep .none), .go, .op (.sleep .none)] ++
    List.replicate 18 .go ++
    [.op (.wait 0), .interrupt (.signal (some 2) 1), .go, .go, .op (.exit 0 0)]

set_option maxRecDepth 4000 in
/-- A child is orphaned: what it waits for is missed. -/
lemma orphan_missed : ((Machine.moves ProcOp.Proper (fun _ => true) Move.orphan Machine.booted).map fun m =>
    decide ((m.k.ptab 0).pStatus = .wait ∧ (m.k.ptab 3).pStatus = .zombie ∧
      (m.k.ptab 3).pPptr = some 0)) = some true := by decide +kernel

/-- The first process waits while it has a child that has exited. -/
theorem not_noneMissed : ∃ m, Machine.Run ProcOp.Proper (fun _ => True) Machine.booted m ∧
    ¬ m.k.NoneMissed := by
  obtain ⟨m, moved, missed⟩ := Option.map_eq_some_iff.mp orphan_missed
  obtain ⟨wait, zombie, child⟩ := of_decide_eq_true missed
  exact ⟨m, Machine.moves_run (fun _ _ => trivial) .start moved, fun none => none 0 3 wait zombie child⟩

end Uzi
