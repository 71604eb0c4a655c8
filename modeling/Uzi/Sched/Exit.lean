import Uzi.Sched.Table

/-!
# Exits

`doexit` gives the children to the first process and makes the current one a zombie, which keeps the
invariant unless the current process is the first one. `chksigs` calls it for a signal that nothing
catches.
-/

namespace Uzi
open Exec ParentTree

variable {s s' : Kernel} {p : Fin PTABSIZE} {E : Panic → Prop} [Stopping E]

/-- The first process has exited. -/
def Kernel.InitExited (s : Kernel) : Prop := (s.ptab s.initproc).pStatus = .zombie

/-- A process has exited and nothing runs. -/
structure Kernel.Exited (s : Kernel) : Prop where
  table : s.Table
  still : s.Still
  zombie : (s.ptab s.udata.uPtab).pStatus = .zombie

/-- No process but the first one is a parent of others while it exits. -/
def Kernel.Childless (s : Kernel) : Prop :=
  ∀ p, (s.ptab p).pStatus ≠ .empty → (s.ptab p).pPptr = some s.udata.uPtab →
    s.udata.uPtab = s.initproc

/-- Calm work gives no child. -/
lemma Kernel.Childless.calm (h : s.Childless) (calm : Calm s s') : s'.Childless := by
  intro p ne parent
  rw [calm.uPtab] at parent ⊢
  rw [calm.initproc]
  rw [(calm.alike p).parent] at parent
  exact h p (fun e => ne ((calm.alike p).empty.mpr e)) parent

/-- An adopted entry has its status. -/
lemma adopt_status : (s.adopt p).pStatus = (s.ptab p).pStatus := by
  unfold Kernel.adopt
  split <;> rfl

/-- An adopted entry has its pid. -/
lemma adopt_pid : (s.adopt p).pPid = (s.ptab p).pPid := by
  unfold Kernel.adopt
  split <;> rfl

/-- An adopted entry has its place in the swap area. -/
lemma adopt_swap : (s.adopt p).pSwap = (s.ptab p).pSwap := by
  unfold Kernel.adopt
  split <;> rfl

/-- An adopted entry has its event. -/
lemma adopt_wait : (s.adopt p).pWait = (s.ptab p).pWait := by
  unfold Kernel.adopt
  split <;> rfl

/-- An adopted entry has its parent, or the first process. -/
lemma adopt_parent : (s.adopt p).pPptr = (s.ptab p).pPptr ∨ (s.adopt p).pPptr = some s.initproc := by
  unfold Kernel.adopt
  split
  · exact .inr rfl
  · exact .inl rfl

/-- The children of the current process get another parent. -/
lemma Kernel.Active.adopt (a : s.Active) :
    ({ s with ptab := s.adopt } : Kernel).Active ∧ ({ s with ptab := s.adopt } : Kernel).Childless := by
  have t := a.table
  refine ⟨⟨⟨?_, ?_, t.nextpid, ?_, ?_, ?_, ?_⟩, ?_, ?_, ?_⟩, ?_⟩
  · intro p ne
    simp only [adopt_status, adopt_pid] at ne ⊢
    exact t.pid_range p ne
  · intro p q hp hq e
    simp only [adopt_status, adopt_pid] at hp hq e
    exact t.pid_inj p q hp hq e
  · simp only [adopt_status]
    exact t.init
  · intro p ne
    simp only [adopt_status] at ne ⊢
    have below : ∀ q, Below (fun n => (s.ptab n).pPptr) s.initproc q →
        Below (fun n => (s.adopt n).pPptr) s.initproc q := fun q =>
      Below.adopt fun n => adopt_parent
    obtain ⟨q, parent, alive, hq⟩ := t.parent p ne
    cases adopt_parent (s := s) (p := p) with
    | inl same => exact ⟨q, same.trans parent, alive, below q hq⟩
    | inr adopted => exact ⟨s.initproc, adopted, t.init, .root⟩
  · intro p ne
    simp only [adopt_status, adopt_swap] at ne ⊢
    exact t.swap p ne
  · intro p alive ne
    simp only [adopt_status] at alive
    exact t.image p alive ne
  · intro p dead e ne
    simp only [adopt_status, adopt_wait] at dead ⊢
    exact a.apart p dead e ne
  · simp only [adopt_status]
    exact a.alive
  · intro p hp
    simp only [adopt_status] at hp
    exact a.only p hp
  · intro p ne parent
    have same : (s.adopt p).pPptr = some s.udata.uPtab := parent
    simp only [adopt_status] at ne
    unfold Kernel.adopt at same
    split at same
    · exact (Option.some.inj same).symm
    · next other => exact absurd ⟨ne, same⟩ other

/-- The current process becomes a zombie. -/
lemma Kernel.Active.die {x : PTab} (a : s.Active) (childless : s.Childless)
    (ne_init : s.udata.uPtab ≠ s.initproc) (zombie : x.pStatus = .zombie)
    (pid : x.pPid = (s.ptab s.udata.uPtab).pPid) (parent : x.pPptr = (s.ptab s.udata.uPtab).pPptr)
    (swap : x.pSwap = (s.ptab s.udata.uPtab).pSwap) : (s.setProc s.udata.uPtab x).Exited := by
  have t := a.table
  have now : ∀ p, ((s.setProc s.udata.uPtab x).ptab p).pStatus ≠ .empty →
      (s.ptab p).pStatus ≠ .empty := by
    intro p hp
    by_cases same : p = s.udata.uPtab
    · exact same ▸ a.alive.1
    · rwa [Kernel.ptab_setProc_of_ne same] at hp
  have pids : ∀ p, ((s.setProc s.udata.uPtab x).ptab p).pPid = (s.ptab p).pPid := by
    intro p
    by_cases same : p = s.udata.uPtab
    · rw [same, Kernel.ptab_setProc, pid]
    · rw [Kernel.ptab_setProc_of_ne same]
  have parents : ∀ p, ((s.setProc s.udata.uPtab x).ptab p).pPptr = (s.ptab p).pPptr := by
    intro p
    by_cases same : p = s.udata.uPtab
    · rw [same, Kernel.ptab_setProc, parent]
    · rw [Kernel.ptab_setProc_of_ne same]
  refine ⟨⟨?_, ?_, t.nextpid, ?_, ?_, ?_, ?_⟩, ?_, ?_⟩
  · intro p hp
    rw [pids]
    exact t.pid_range p (now p hp)
  · intro p q hp hq e
    rw [pids, pids] at e
    exact t.pid_inj p q (now p hp) (now q hq) e
  · show ((s.setProc s.udata.uPtab x).ptab s.initproc).pStatus.Alive
    rw [Kernel.ptab_setProc_of_ne ne_init.symm]
    exact t.init
  · intro p hp
    obtain ⟨q, hq, alive, below⟩ := t.parent p (now p hp)
    have other : q ≠ s.udata.uPtab := fun e => ne_init (childless p (now p hp) (e ▸ hq))
    refine ⟨q, (parents p).trans hq, ?_, ?_⟩
    · rw [Kernel.ptab_setProc_of_ne other]
      exact alive
    · simp only [parents]
      exact below
  · intro p hp
    by_cases same : p = s.udata.uPtab
    · rw [same, Kernel.ptab_setProc, swap]
      exact t.swap _ a.alive.1
    · rw [Kernel.ptab_setProc_of_ne same]
      exact t.swap p (now p hp)
  · intro p alive ne
    have ne : p ≠ s.udata.uPtab := ne
    rw [Kernel.ptab_setProc_of_ne ne] at alive
    exact t.image p alive ne
  · intro p hp
    by_cases same : p = s.udata.uPtab
    · rw [same, Kernel.ptab_setProc, zombie] at hp
      exact absurd hp nofun
    · rw [Kernel.ptab_setProc_of_ne same] at hp
      exact same (a.only p hp)
  · exact Kernel.ptab_setProc ▸ zombie

/-! ## `doexit` -/

/-- The descriptors are closed. -/
lemma within_closeAll {R : Kernel → Kernel → Prop} [Filing R] : Within R E closeAll :=
  .each (fun _ => .bind .get fun _ => .ite (Filing.doclose.bind fun _ => .pure) .pure) _

/-- A change of udata is calm work. -/
lemma Calmly.withUdata {u : UData} (h : u.uPtab = s.udata.uPtab) : Calmly s (s.withUdata u) :=
  .of_ptab rfl rfl rfl rfl rfl h

/-- A live process changes something that does not matter here. -/
lemma Kernel.Active.setProc {x : PTab} (a : s.Active) (status : x.pStatus = (s.ptab s.udata.uPtab).pStatus)
    (pid : x.pPid = (s.ptab s.udata.uPtab).pPid) (parent : x.pPptr = (s.ptab s.udata.uPtab).pPptr)
    (swap : x.pSwap = (s.ptab s.udata.uPtab).pSwap) : Calmly s (s.setProc s.udata.uPtab x) := by
  have alive : x.pStatus.Alive := status ▸ a.alive
  exact .setProc (.of_alive a.alive alive pid parent swap) (by rw [status])

/-- Calm work keeps the own entry. -/
lemma Kernel.Active.uPtab (a : s.Active) (h : Calmly s s') : s'.udata.uPtab = s.udata.uPtab :=
  (h a.apart).1.uPtab

omit [Stopping E] in
/-- A change of udata is calm work. -/
lemma within_modifyUdata {f : UData → UData} (h : ∀ u, (f u).uPtab = u.uPtab) :
    Within Calmly E (modifyUdata f) := .modify fun _ => .withUdata (h _)

omit [Stopping E] in
/-- `addTimes` is calm work. -/
lemma wp_addTimes (a : s.Active) : wp addTimes (fun _ s' => Calmly s s') E s := by
  unfold addTimes
  rw [wp_bind]
  refine wp_post (within_modifyUdata (f := fun u => { u with uUtime := addtick u.uUtime u.uCutime })
    (fun _ => rfl) s) fun _ s₁ calmly₁ => ?_
  rw [wp_bind]
  refine wp_post (within_modifyUdata (f := fun u => { u with uStime := addtick u.uStime u.uCstime })
    (fun _ => rfl) s₁) fun _ s₂ calmly₂ => ?_
  have calmly := trans_of Calmly calmly₁ calmly₂
  rw [wp_bind, wp_get, wp_modifyOwn]
  exact trans_of Calmly calmly ((a.calmly calmly).1.setProc
    (x := (s₂.ptab s₂.udata.uPtab).stash s₂.udata.uUtime s₂.udata.uStime) rfl rfl rfl rfl)

omit [Stopping E] in
/-- `wakeParent` is calm work. -/
lemma wp_wakeParent (a : s.Active) : wp wakeParent (fun _ s' => Calmly s s') E s := by
  obtain ⟨q, parent, -, -⟩ := a.table.parent _ a.alive.1
  unfold wakeParent
  rw [wp_bind, wp_get, parent, wp_ite]
  split
  · exact fun apart => calm_woken apart (nofun : Event.ptab q ≠ .none)
  · exact refl_of Calmly s

/-- `doexit` ends the process. -/
lemma wp_doexit {val val2 : Word} (a : s.Active) :
    wp (doexit val val2) (fun _ s' => s'.InitExited ∨ s'.Exited) E s := by
  unfold doexit
  rw [wp_bind]
  refine wp_post (within_closeAll (R := Calmly) s) fun _ s₁ calmly₁ => ?_
  have a₁ := (a.calmly calmly₁).1
  rw [wp_bind, wp_modifyOwn, wp_bind, wp_modify]
  -- the children go to the first process
  have calmly₂ := a₁.setProc (x := { s₁.ptab s₁.udata.uPtab with pExitval := val <<< 8 ||| val2 &&& 0xff })
    rfl rfl rfl rfl
  obtain ⟨a₃, childless₃⟩ := (a₁.calmly calmly₂).1.adopt
  generalize (s₁.setProc _ _) = s₂ at a₃ childless₃ ⊢
  generalize ({ s₂ with ptab := s₂.adopt } : Kernel) = s₃ at a₃ childless₃ ⊢
  -- from here on nothing changes but statuses of other processes and the times of this one
  rw [wp_bind, wp_get, wp_bind]
  refine wp_post (Quiet.iDeref (R := Calmly) s₃) fun _ s₄ calmly₄ => ?_
  have a₄ := (a₃.calmly calmly₄).1
  have childless₄ := childless₃.calm (calmly₄ a₃.apart).1
  rw [wp_bind]
  refine wp_post (wp_addTimes a₄) fun _ s₅ calmly₅ => ?_
  have a₅ := (a₄.calmly calmly₅).1
  have childless₅ := childless₄.calm (calmly₅ a₄.apart).1
  rw [wp_bind]
  refine wp_post (wp_wakeParent a₅) fun _ s₆ calmly₆ => ?_
  have a₆ := (a₅.calmly calmly₆).1
  have childless₆ := childless₅.calm (calmly₆ a₅.apart).1
  rw [wp_modifyOwn]
  by_cases init : s₆.udata.uPtab = s₆.initproc
  · refine .inl ?_
    show ((s₆.setProc s₆.udata.uPtab _).ptab s₆.initproc).pStatus = .zombie
    rw [init, Kernel.ptab_setProc]
  · exact .inr (a₆.die childless₆ init rfl rfl rfl rfl)

/-! ## `chksigs` -/

/-- What `chksigs` does, depending on whether the process has exited in it. -/
def Kernel.Checked (s : Kernel) (exited : Bool) (s' : Kernel) : Prop :=
  if exited then s'.InitExited ∨ s'.Exited else s'.Active ∧ (s'.Running ↔ s.Running)

/-- The loop over the signals goes on, or ends the process. -/
lemma wp_chksigsLoop {js : List (Fin NSIGS)} (a : s.Active) :
    wp (chksigsLoop js) s.Checked E s := by
  induction js generalizing s with
  | nil => exact ⟨a, .rfl⟩
  | cons j js ih =>
    rw [chksigsLoop, wp_bind, wp_get, wp_ite]
    split
    · exact ih a
    rw [wp_ite]
    split
    · rw [wp_bind]
      exact wp_post (wp_doexit a) fun _ _ => id
    rw [wp_ite]
    split
    · rw [wp_bind, wp_modifyPtab, wp_bind, wp_modifyUdata]
      have calmly := a.setProc (x := { s.ptab s.udata.uPtab with
        pPending := (s.ptab s.udata.uPtab).pPending &&& logicalNot (sigmask j) }) rfl rfl rfl rfl
      have calmly' := trans_of Calmly calmly (.withUdata (u := { s.udata with uCursig := BitVec.ofNat 16 j }) rfl)
      obtain ⟨a', running⟩ := a.calmly calmly'
      refine wp_post (ih a') fun exited s' checked => ?_
      cases exited with
      | true => exact checked
      | false => exact ⟨checked.1, checked.2.trans running⟩
    · exact ih a

/-- `chksigs` goes on, or ends the process. -/
lemma wp_chksigs (a : s.Active) : wp chksigs s.Checked E s := by
  unfold chksigs
  rw [wp_bind, wp_get, wp_ite]
  split
  · exact ⟨a, .rfl⟩
  · exact wp_chksigsLoop a

end Uzi
