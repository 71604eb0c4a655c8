import Uzi.Sched.TableRuns

/-!
# Processes that sleep on an inode

What the code of one process does to the others that sleep on an inode: no one else falls asleep, and
the mode, the size and the references of an inode on which someone still sleeps are what they were
(`Kept`). Every function that changes one of them wakes the sleepers up first or right afterwards.
-/

namespace Uzi
open Exec

variable {s s' : Kernel} {p q : Fin PTABSIZE} {ino : Inoptr} {E : Panic → Prop}

/-- Whether a process sleeps on an inode. -/
def Kernel.SleepsOn (s : Kernel) (ino : Inoptr) (p : Fin PTABSIZE) : Prop :=
  (s.ptab p).pStatus = .sleep ∧ (s.ptab p).pWait = s.layout.addr (.inode ino)

/-- No other process falls asleep, and the images in the swap space stay. -/
structure Resting (s s' : Kernel) : Prop where
  layout : s'.layout = s.layout
  target : s'.target = s.target
  swap : s'.swap = s.swap
  uPtab : s'.udata.uPtab = s.udata.uPtab
  image : ∀ p, (s'.ptab p).pSwap = (s.ptab p).pSwap
  used : ∀ p, (s'.ptab p).pStatus ≠ .empty → (s.ptab p).pStatus ≠ .empty
  asleep : ∀ p, p ≠ s.udata.uPtab → (s'.ptab p).pStatus = .sleep →
    (s.ptab p).pStatus = .sleep ∧ (s'.ptab p).pWait = (s.ptab p).pWait
  running : s.Running → s'.Running

namespace Resting

/-- A process that sleeps has been sleeping. -/
lemma sleepsOn (h : Resting s s') (other : p ≠ s.udata.uPtab) (sleeps : s'.SleepsOn ino p) :
    s.SleepsOn ino p := by
  obtain ⟨asleep, same⟩ := h.asleep p other sleeps.1
  exact ⟨asleep, by rw [← same, sleeps.2, h.layout]⟩

/-- The process table is the same. -/
lemma of_ptab (ptab : s'.ptab = s.ptab) (layout : s'.layout = s.layout) (target : s'.target = s.target)
    (swap : s'.swap = s.swap) (uPtab : s'.udata.uPtab = s.udata.uPtab) : Resting s s' := by
  refine ⟨layout, target, swap, uPtab, ?_, ?_, ?_, ?_⟩
  · exact fun p => by rw [ptab]
  · exact fun p h => ptab ▸ h
  · exact fun p _ h => ⟨ptab ▸ h, by rw [ptab]⟩
  · intro running
    show (s'.ptab s'.udata.uPtab).pStatus = .running
    rw [uPtab, ptab]
    exact running

/-- One entry changes. -/
lemma setProc {x : PTab} (image : x.pSwap = (s.ptab p).pSwap)
    (used : x.pStatus ≠ .empty → (s.ptab p).pStatus ≠ .empty)
    (asleep : p ≠ s.udata.uPtab → x.pStatus = .sleep →
      (s.ptab p).pStatus = .sleep ∧ x.pWait = (s.ptab p).pWait)
    (running : (s.ptab p).pStatus = .running → x.pStatus = .running) : Resting s (s.setProc p x) := by
  refine ⟨rfl, rfl, rfl, rfl, fun q => ?_, fun q => ?_, fun q => ?_, fun h => ?_⟩
  · by_cases same : q = p
    · rwa [same, Kernel.ptab_setProc]
    · rw [Kernel.ptab_setProc_of_ne same]
  · by_cases same : q = p
    · rwa [same, Kernel.ptab_setProc]
    · rw [Kernel.ptab_setProc_of_ne same]
      exact id
  · by_cases same : q = p
    · rwa [same, Kernel.ptab_setProc]
    · rw [Kernel.ptab_setProc_of_ne same]
      exact fun _ h => ⟨h, rfl⟩
  · show ((s.setProc p x).ptab s.udata.uPtab).pStatus = .running
    by_cases same : s.udata.uPtab = p
    · rw [same, Kernel.ptab_setProc]
      exact running (same ▸ h)
    · rw [Kernel.ptab_setProc_of_ne same]
      exact h

/-- A wakeup puts nobody to sleep. -/
lemma woken {event : Event} : Resting s { s with ptab := s.woken event } := by
  have entry : ∀ p, s.woken event p = s.ptab p ∨ (s.ptab p).pStatus.isBehindRunning ∧
      s.woken event p = { s.ptab p with pStatus := .ready, pWait := 0 } := by
    intro p
    unfold Kernel.woken
    split
    · next sleeps => exact .inr ⟨sleeps.1, rfl⟩
    · exact .inl rfl
  refine ⟨rfl, rfl, rfl, rfl, fun p => ?_, fun p => ?_, fun p _ => ?_, fun running => ?_⟩
  · show (s.woken event p).pSwap = _
    cases entry p with
    | inl same => rw [same]
    | inr ready => rw [ready.2]
  · show (s.woken event p).pStatus ≠ .empty → _
    cases entry p with
    | inl same => exact fun h => same ▸ h
    | inr ready =>
      intro _ empty
      rw [empty] at ready
      exact absurd ready.1 nofun
  · show (s.woken event p).pStatus = .sleep → _
    cases entry p with
    | inl same => exact fun h => ⟨same ▸ h, congrArg PTab.pWait same⟩
    | inr ready =>
      rw [ready.2]
      exact nofun
  · have running : (s.ptab s.udata.uPtab).pStatus = .running := running
    show (s.woken event s.udata.uPtab).pStatus = .running
    cases entry s.udata.uPtab with
    | inl same => rwa [same]
    | inr ready =>
      rw [running] at ready
      exact absurd ready.1 nofun

end Resting

instance : IsPreorder Kernel Resting where
  refl _ := .of_ptab rfl rfl rfl rfl rfl
  trans s s' s'' h h' := by
    refine ⟨h'.layout.trans h.layout, h'.target.trans h.target, h'.swap.trans h.swap,
      h'.uPtab.trans h.uPtab, fun p => (h'.image p).trans (h.image p), fun p e => h.used p (h'.used p e),
      fun p other e => ?_, fun running => h'.running (h.running running)⟩
    obtain ⟨asleep', same'⟩ := h'.asleep p (h.uPtab ▸ other) e
    obtain ⟨asleep, same⟩ := h.asleep p other asleep'
    exact ⟨asleep, same'.trans same⟩

instance : Quiet Resting where
  bufs _ _ := .of_ptab rfl rfl rfl rfl rfl
  fsTab _ _ _ _ := .of_ptab rfl rfl rfl rfl rfl
  iTab _ _ := .of_ptab rfl rfl rfl rfl rfl
  nexti _ _ := .of_ptab rfl rfl rfl rfl rfl
  error _ _ := .of_ptab rfl rfl rfl rfl rfl
  woken _ _ := .woken

/-! ## Inodes on which someone sleeps -/

/-- The inodes on which other processes sleep are pipes. -/
def Kernel.Guarded (s : Kernel) : Prop :=
  ∀ ino p, p ≠ s.udata.uPtab → s.SleepsOn ino p → (s.iTab ino).getmode = F_PIPE

/-- No other process sleeps on the inode. -/
def Kernel.Awake (s : Kernel) (ino : Inoptr) : Prop := ∀ p, p ≠ s.udata.uPtab → ¬ s.SleepsOn ino p

/-- An inode on which another process sleeps is used as it was before. -/
structure Kept (s s' : Kernel) : Prop extends Resting s s' where
  use : ∀ ino p, p ≠ s.udata.uPtab → s'.SleepsOn ino p → (s.iTab ino).SameUse (s'.iTab ino)

/-- The same use. -/
lemma Cinode.SameUse.refl {c : Cinode} : c.SameUse c := ⟨rfl, rfl, rfl⟩

/-- The same use, twice. -/
lemma Cinode.SameUse.trans {c c' c'' : Cinode} (h : c.SameUse c') (h' : c'.SameUse c'') : c.SameUse c'' :=
  ⟨h'.refs.trans h.refs, h'.mode.trans h.mode, h'.size.trans h.size⟩

/-- The same use has the same mode. -/
lemma Cinode.SameUse.getmode {c c' : Cinode} (h : c.SameUse c') : c'.getmode = c.getmode := by
  unfold Cinode.getmode
  rw [h.mode]

namespace Kept

/-- No inode that matters changes. -/
lemma of_use (h : Resting s s') (use : ∀ ino, s.Awake ino ∨ s'.Awake ino ∨ (s.iTab ino).SameUse (s'.iTab ino)) :
    Kept s s' := by
  refine ⟨h, fun ino p other sleeps => ?_⟩
  rcases use ino with awake | awake | same
  · exact absurd (h.sleepsOn other sleeps) (awake p other)
  · exact absurd sleeps (awake p (h.uPtab.symm ▸ other))
  · exact same

/-- The in-core inodes are the same. -/
lemma of_iTab (h : Resting s s') (iTab : s'.iTab = s.iTab) : Kept s s' :=
  .of_use h fun _ => .inr (.inr (iTab ▸ .refl))

/-- One call after the other. -/
lemma trans {s'' : Kernel} (h : Kept s s') (h' : Kept s' s'') : Kept s s'' := by
  refine ⟨trans_of Resting h.toResting h'.toResting, fun ino p other sleeps => ?_⟩
  have other' : p ≠ s'.udata.uPtab := h.uPtab.symm ▸ other
  exact (h.use ino p other (h'.sleepsOn other' sleeps)).trans (h'.use ino p other' sleeps)

/-- What is guarded stays guarded. -/
lemma guarded (h : Kept s s') (g : s.Guarded) : s'.Guarded := by
  intro ino p other sleeps
  rw [h.uPtab] at other
  rw [(h.use ino p other sleeps).getmode]
  exact g ino p other (h.sleepsOn other sleeps)

end Kept

/-- Where others sleep on pipes only, the inodes on which they sleep are used as before. -/
def Keeping (s s' : Kernel) : Prop := s.Guarded → Kept s s'

/-- The in-core inodes are the same. -/
lemma Keeping.of_iTab (h : Resting s s') (iTab : s'.iTab = s.iTab) : Keeping s s' := fun _ => .of_iTab h iTab

/-- After a wakeup the processes are awake. -/
lemma awake_woken : Kernel.Awake { s with ptab := s.woken (.inode ino) } ino := by
  intro p _ ⟨asleep, on⟩
  have asleep : (s.woken (.inode ino) p).pStatus = .sleep := asleep
  have on : (s.woken (.inode ino) p).pWait = s.layout.addr (.inode ino) := on
  unfold Kernel.woken at asleep on
  split at asleep
  · exact absurd asleep nofun
  · next awake =>
    rw [if_neg awake] at on
    exact awake ⟨asleep ▸ rfl, on⟩

/-- Who is awake stays awake. -/
lemma Resting.awake (h : Resting s s') (awake : s.Awake ino) : s'.Awake ino := by
  intro p other sleeps
  rw [h.uPtab] at other
  exact awake p other (h.sleepsOn other sleeps)

instance : Mapping Keeping where
  refl _ _ := .of_iTab (refl_of Resting _) rfl
  trans _ _ _ h h' g := (h g).trans (h' ((h g).guarded g))
  bufs _ _ := .of_iTab (.of_ptab rfl rfl rfl rfl rfl) rfl
  fsTab _ _ _ _ := .of_iTab (.of_ptab rfl rfl rfl rfl rfl) rfl
  error _ _ := .of_iTab (.of_ptab rfl rfl rfl rfl rfl) rfl
  file s ino c same _ := by
    refine .of_use (.of_ptab rfl rfl rfl rfl rfl) fun i => .inr (.inr ?_)
    by_cases h : i = ino
    · rw [h, Kernel.iTab_setInode]
      exact same
    · rw [Kernel.iTab_setInode_of_ne h]
      exact .refl

instance : Moving Keeping where
  transfer _ _ _ _ _ _ := .of_iTab (.of_ptab rfl rfl rfl rfl rfl) rfl
  resize s ino c _ _ := by
    have sized : Resting s (s.setInode ino c) := .of_ptab rfl rfl rfl rfl rfl
    have rest : Resting s { s.setInode ino c with ptab := s.woken (.inode ino) } := trans_of Resting sized .woken
    refine .of_use rest fun i => ?_
    by_cases h : i = ino
    · subst h
      exact .inr (.inl (awake_woken (s := s.setInode i c)))
    · refine .inr (.inr ?_)
      show (s.iTab i).SameUse ((s.setInode ino c).iTab i)
      rw [Kernel.iTab_setInode_of_ne h]
      exact .refl

instance : Describing Keeping where
  ofTab _ _ := .of_iTab (.of_ptab rfl rfl rfl rfl rfl) rfl
  ofBss _ _ := .of_iTab (.of_ptab rfl rfl rfl rfl rfl) rfl
  files _ _ := .of_iTab (.of_ptab rfl rfl rfl rfl rfl) rfl

/-! ## Dereferences -/

/-- Only one inode is used in another way. -/
structure OnlyInode (ino : Inoptr) (s s' : Kernel) : Prop extends Resting s s' where
  others : ∀ i, i ≠ ino → (s.iTab i).SameUse (s'.iTab i)

/-- The in-core inodes are the same. -/
lemma OnlyInode.of_iTab (h : Resting s s') (iTab : s'.iTab = s.iTab) : OnlyInode ino s s' :=
  ⟨h, fun _ _ => iTab ▸ .refl⟩

instance : Holding ino (OnlyInode ino) where
  refl _ := .of_iTab (refl_of Resting _) rfl
  trans _ _ _ h h' :=
    ⟨trans_of Resting h.toResting h'.toResting, fun i ne => (h.others i ne).trans (h'.others i ne)⟩
  bufs _ _ := .of_iTab (.of_ptab rfl rfl rfl rfl rfl) rfl
  fsTab _ _ _ _ := .of_iTab (.of_ptab rfl rfl rfl rfl rfl) rfl
  error _ _ := .of_iTab (.of_ptab rfl rfl rfl rfl rfl) rfl
  file s i c same := by
    refine ⟨.of_ptab rfl rfl rfl rfl rfl, fun j _ => ?_⟩
    by_cases h : j = i
    · rw [h, Kernel.iTab_setInode]
      exact same
    · rw [Kernel.iTab_setInode_of_ne h]
      exact .refl
  inode s c := by
    refine ⟨.of_ptab rfl rfl rfl rfl rfl, fun i ne => ?_⟩
    rw [Kernel.iTab_setInode_of_ne ne]
    exact .refl
  woken _ := .of_iTab .woken rfl

/-- The inode is one on which no one else sleeps, in the end. -/
lemma OnlyInode.kept (h : OnlyInode ino s s') (awake : s'.Awake ino) : Kept s s' := by
  refine .of_use h.toResting fun i => ?_
  by_cases same : i = ino
  · exact .inr (.inl (same ▸ awake))
  · exact .inr (.inr (h.others i same))

/-- `i_deref` keeps what is guarded. -/
lemma within_iDeref : Within Keeping (fun _ => True) (iDeref ino) := by
  intro s
  by_cases pipe : (s.iTab ino).getmode = F_PIPE
  · -- the sleepers are woken up before the reference goes
    unfold iDeref
    rw [wp_bind]
    have check : Within Eq (fun _ => True) (magic ino) := .bind .get fun _ => .ite (.throw trivial) .pure
    refine wp_post (check s) fun _ s' same => ?_
    subst same
    rw [wp_bind, wp_get, wp_ite]
    split
    · trivial
    rw [wp_bind, wp_get, if_pos pipe, wp_bind, Uzi.wakeup, wp_modify]
    have woken : OnlyInode ino s { s with ptab := s.woken (.inode ino) } := Holding.woken s
    have awake : Kernel.Awake { s with ptab := s.woken (.inode ino) } ino := awake_woken
    generalize ({ s with ptab := s.woken (.inode ino) } : Kernel) = s₁ at woken awake ⊢
    refine wp_post (Q := fun _ s' => OnlyInode ino s₁ s') ?_ fun _ s' h _ =>
      (trans_of (OnlyInode ino) woken h).kept (h.awake awake)
    refine Quiet.modifyInode.bind (fun _ => .bind .get fun _ => .when Quiet.fTrunc fun _ => .bind .get fun _ => .ite ?_ .pure) s₁
    exact .ite (Quiet.modifyInode.bind fun _ => Quiet.iFree.bind fun _ => Quiet.wrInode) Quiet.wrInode
  · have awake : s.Guarded → s.Awake ino := fun g p other sleeps => pipe (g ino p other sleeps)
    exact wp_post (Quiet.iDeref (R := OnlyInode ino) s) fun _ s' h g => h.kept (h.awake (awake g))

/-- `doclose` keeps what is guarded. -/
lemma Keeping.doclose {uindex : Word} : Within Keeping (fun _ => True) (doclose uindex) :=
  Describing.doclose fun _ => within_iDeref

/-- The descriptors are closed one after the other. -/
lemma Keeping.closeAll : Within Keeping (fun _ => True) closeAll :=
  .each (fun _ => .bind .get fun _ => .ite (Keeping.doclose.bind fun _ => .pure) .pure) _

/-! ## Exits -/

/-- A change of udata. -/
lemma Keeping.modifyUdata {f : UData → UData} (h : ∀ u, (f u).uPtab = u.uPtab) :
    Within Keeping E (modifyUdata f) :=
  .modify fun _ => .of_iTab (.of_ptab rfl rfl rfl rfl (h _)) rfl

/-- A change of the own entry of the process table. -/
lemma Keeping.modifyOwn {f : PTab → PTab} (status : ∀ x, (f x).pStatus = x.pStatus)
    (image : ∀ x, (f x).pSwap = x.pSwap) : Within Keeping E (modifyOwn f) := by
  refine fun s => .of_iTab ?_ rfl
  refine Resting.setProc (image _) ?_ (fun other => absurd rfl other) ?_
  · rw [status]
    exact id
  · rw [status]
    exact id

/-- `wakeup` keeps what is guarded. -/
lemma Keeping.wakeup {event : Event} : Within Keeping E (wakeup event) := fun _ => .of_iTab .woken rfl

/-- The children of a process are given to another one. -/
lemma Keeping.adopt : Keeping s { s with ptab := s.adopt } := by
  refine .of_iTab ⟨rfl, rfl, rfl, rfl, fun p => adopt_swap, fun p => ?_, fun p _ => ?_, ?_⟩ rfl
  · simp only [adopt_status]
    exact id
  · simp only [adopt_status, adopt_wait]
    exact fun h => ⟨h, trivial⟩
  · intro running
    show (s.adopt s.udata.uPtab).pStatus = .running
    rw [adopt_status]
    exact running

/-- The process is gone, and the sleepers were kept until then. -/
lemma wp_doexit_keeping {val val2 : Word} :
    wp (doexit val val2) (fun _ s' => ∃ s₁, Keeping s s₁ ∧
      s' = s₁.setProc s₁.udata.uPtab { s₁.ptab s₁.udata.uPtab with pStatus := .zombie })
      (fun _ => True) s := by
  have last : ∀ s₁, Keeping s s₁ → wp (modifyOwn fun x => { x with pStatus := .zombie })
      (fun _ s' => ∃ s₁, Keeping s s₁ ∧
        s' = s₁.setProc s₁.udata.uPtab { s₁.ptab s₁.udata.uPtab with pStatus := .zombie })
      (fun _ => True) s₁ := fun s₁ h => ⟨s₁, h, rfl⟩
  have times : Within Keeping (fun _ => True) addTimes := by
    refine .bind (Keeping.modifyUdata fun _ => rfl) fun _ => .bind (Keeping.modifyUdata fun _ => rfl) fun _ => ?_
    exact .bind .get fun _ => Keeping.modifyOwn (fun _ => rfl) fun _ => rfl
  have wake : Within Keeping (fun _ => True) wakeParent := .bind .get fun _ => .ite Keeping.wakeup .pure
  have status : Within Keeping (fun _ => True)
      (modifyOwn fun x => { x with pExitval := val <<< 8 ||| (val2 &&& 0xff) }) :=
    Keeping.modifyOwn (fun _ => rfl) fun _ => rfl
  unfold doexit
  rw [wp_bind]
  refine wp_post (Keeping.closeAll s) fun _ s₁ h₁ => ?_
  rw [wp_bind]
  refine wp_post (status s₁) fun _ s₂ h₂ => ?_
  rw [wp_bind, wp_modify]
  have h₃ := trans_of Keeping (trans_of Keeping h₁ h₂) (Keeping.adopt (s := s₂))
  generalize ({ s₂ with ptab := s₂.adopt } : Kernel) = s₃ at h₃ ⊢
  rw [wp_bind, wp_get, wp_bind]
  refine wp_post (within_iDeref s₃) fun _ s₄ h₄ => ?_
  rw [wp_bind]
  refine wp_post (times s₄) fun _ s₅ h₅ => ?_
  rw [wp_bind]
  refine wp_post (wake s₅) fun _ s₆ h₆ => ?_
  exact last s₆ (trans_of Keeping h₃ (trans_of Keeping h₄ (trans_of Keeping h₅ h₆)))

/-! ## Transfers -/

/-- The kernel when the current process has gone to sleep on an inode. -/
def Kernel.slept (s : Kernel) (ino : Inoptr) : Kernel :=
  s.setProc s.udata.uPtab
    { s.ptab s.udata.uPtab with pStatus := .sleep, pWait := s.layout.addr (.inode ino) }

/-- `psleep` on an inode. -/
lemma wp_psleep_inode : wp (psleep (.inode ino)) (fun _ s' => s' = s.slept ino) (fun _ => True) s := by
  unfold psleep
  rw [wp_bind, wp_get, wp_ite]
  split
  · trivial
  · exact rfl

/-- What a transfer has done: it has kept the sleepers, or it has gone to sleep at a pipe because
`blocked` holds. -/
def TransferKept (blocked : Prop) (s : Kernel) (ino : Inoptr) : Progress → Kernel → Prop
  | .returned, s' => Keeping s s'
  | .asleep, s' => s' = s.slept ino ∧ (s.iTab ino).getmode = F_PIPE ∧ (s.iTab ino).cRefs ≠ 1 ∧ blocked

/-- A transfer that returns. -/
lemma TransferKept.returned {blocked : Prop} {α : Type} {c : K α} (h : Within Keeping (fun _ => True) c) :
    wp (do let _ ← c; pure Progress.returned) (TransferKept blocked s ino) (fun _ => True) s :=
  wp_bind.mpr (wp_post (h s) fun _ _ h => h)

/-- A transfer that returns a count. -/
lemma TransferKept.counted {blocked : Prop} {n : Word} {c : K PUnit} (h : Within Keeping (fun _ => True) c) :
    wp (do modifyUdata fun u => { u with uCount := n }; c; pure Progress.returned)
      (TransferKept blocked s ino) (fun _ => True) s := by
  have count : Within Keeping (fun _ => True) (modifyUdata fun u => { u with uCount := n }) :=
    Keeping.modifyUdata fun _ => rfl
  rw [wp_bind]
  refine wp_post (count s) fun _ s₁ h₁ => ?_
  rw [wp_bind]
  exact wp_post (h s₁) fun _ s₂ h₂ => trans_of Keeping h₁ h₂

/-- A transfer that goes to sleep on the inode. -/
lemma TransferKept.asleep {blocked : Prop} (pipe : (s.iTab ino).getmode = F_PIPE)
    (ends : (s.iTab ino).cRefs ≠ 1) (h : blocked) :
    wp (do psleep (.inode ino); pure Progress.asleep) (TransferKept blocked s ino) (fun _ => True) s :=
  wp_bind.mpr (wp_post wp_psleep_inode fun _ _ same => ⟨same, pipe, ends, h⟩)

/-- `readi` goes to sleep at an empty pipe that has another end. -/
lemma wp_readi_keeping :
    wp (readi ino) (TransferKept (psize s.target (s.iTab ino).cNode.iSize = 0) s ino) (fun _ => True) s := by
  unfold readi
  rw [wp_bind, wp_get, wp_ite]
  split
  · exact TransferKept.counted Moving.readLoop
  rw [wp_ite]
  split
  · next pipe =>
    dsimp only
    rw [wp_ite]
    split
    · next empty => exact TransferKept.asleep pipe empty.2 empty.1
    · exact TransferKept.counted Moving.readLoop
  rw [wp_ite]
  split
  · exact TransferKept.returned Moving.readLoop
  rw [wp_ite]
  split
  · exact TransferKept.returned Moving.cdevTransfer
  · exact TransferKept.returned Quiet.setError

/-- `ssig` keeps what is guarded. -/
lemma Keeping.ssig {sig : Nat} : Within Keeping E (ssig p sig) := by
  intro s
  unfold Uzi.ssig
  rw [wp_bind, wp_get, wp_ite]
  split
  · exact refl_of Keeping s
  rw [wp_ite]
  split
  · exact refl_of Keeping s
  rw [wp_modifyPtab]
  have used : (s.ptab p).pStatus ≠ .empty := by assumption
  refine .of_iTab (Resting.setProc rfl (fun _ => used) ?_ ?_) rfl
  · dsimp only
    split
    · exact fun _ => nofun
    · next awake => exact fun _ sleep => absurd (.inr (.inr sleep)) awake
  · dsimp only
    split
    · next asleep =>
      intro running
      rw [running] at asleep
      exact absurd asleep (by decide)
    · exact id

/-- A pipe is full when the bytes of a writer do not fit. -/
lemma pipeFull_lt {t : Target} {count : Word} {size : Off} (h : pipeFull t count (psize t size) = true) :
    16 * 512 - psize t size < count.toNat := by
  cases t with
  | nes =>
    have full := of_decide_eq_true h
    have low := BitVec.le_toInt (512 * size.oBlkno + size.oOffset)
    have e : psize .nes size = (512 * size.oBlkno + size.oOffset).toInt := rfl
    rw [BitVec.toNat_ofInt] at full
    rw [e] at full ⊢
    omega
  | fsutil => exact of_decide_eq_true h

/-- The end of a write that is not to a pipe, where no one sleeps. -/
lemma TransferKept.grown {blocked : Prop} {c : K PUnit} (h : Within Keeping (fun _ => True) c)
    (mode : (s.iTab ino).getmode ≠ F_PIPE) :
    wp (do c; growSize ino; pure Progress.returned) (TransferKept blocked s ino) (fun _ => True) s := by
  have grow : Within (OnlyInode ino) (fun _ => True) (growSize ino) := Writing.growSize
  rw [wp_bind]
  refine wp_post (h s) fun _ s₁ h₁ => ?_
  rw [wp_bind]
  refine wp_post (grow s₁) fun _ s₂ h₂ g => ?_
  have awake : s.Awake ino := fun p other sleeps => mode (g ino p other sleeps)
  exact (h₁ g).trans (h₂.kept (h₂.awake ((h₁ g).awake awake)))

/-- `writei` goes to sleep at a pipe that has another end and no room for the bytes. -/
lemma wp_writei_keeping :
    wp (writei ino)
      (TransferKept (16 * 512 - psize s.target (s.iTab ino).cNode.iSize < s.udata.uCount.toNat) s ino)
      (fun _ => True) s := by
  have failed : Within Keeping (fun _ => True) (modifyUdata fun u => { u with uCount := 0xffff, uError := .epipe }) :=
    Keeping.modifyUdata fun _ => rfl
  unfold writei
  rw [wp_bind, wp_get, wp_ite]
  split
  · next dev => exact TransferKept.grown Moving.writeLoop (dev ▸ by decide)
  rw [wp_ite]
  split
  · next file =>
    refine TransferKept.grown Moving.writeLoop ?_
    cases file with
    | inl dir => exact dir ▸ by decide
    | inr reg => exact reg ▸ by decide
  rw [wp_ite]
  split
  · next pipe =>
    rw [wp_ite]
    split
    · next full =>
      rw [wp_ite]
      split
      · rw [wp_bind]
        refine wp_post (failed s) fun _ s₁ h₁ => ?_
        rw [wp_bind]
        exact wp_post (Keeping.ssig s₁) fun _ s₂ h₂ => trans_of Keeping h₁ h₂
      · next ends => exact TransferKept.asleep pipe ends (pipeFull_lt full)
    · exact TransferKept.returned Moving.writeLoop
  rw [wp_ite]
  split
  · exact TransferKept.returned Moving.cdevTransfer
  · exact TransferKept.returned Quiet.setError

end Uzi
