import Uzi.Sched.TableRuns

/-!
# Parents that wait

No process waits while it has a child that has exited (`Kernel.Waits`). Wakeups and signals only take
processes out of `P_WAIT` (`Settling`), `_wait` looks for such a child before it sleeps, and `doexit`
wakes the parent. What `doexit` misses are the children of the process that exits: they become children
of the first process, which nobody wakes unless it is the parent.
-/

namespace Uzi
open Exec

variable {s s' : Kernel} {p q : Fin PTABSIZE} {E : Panic → Prop}

/-! ## The invariant -/

/-- No process waits while it has a child that has exited. -/
def Kernel.NoneMissed (s : Kernel) : Prop :=
  ∀ p z, (s.ptab p).pStatus = .wait → (s.ptab z).pStatus = .zombie → (s.ptab z).pPptr ≠ some p

/-- The invariant: no exit is missed, processes wait on their own entries, and the first process is its own parent. -/
structure Kernel.Waits (s : Kernel) : Prop where
  missed : s.NoneMissed
  sleeps : ∀ p, (s.ptab p).pStatus = .wait → (s.ptab p).pWait = s.layout.addr (.ptab p)
  parent : (s.ptab s.initproc).pPptr = some s.initproc
  init : (s.ptab s.initproc).pStatus ≠ .empty

/-- There are fewer processes that wait and fewer that have exited. -/
structure Fewer (s s' : Kernel) : Prop where
  layout : s'.layout = s.layout
  initproc : s'.initproc = s.initproc
  wait : ∀ p, (s'.ptab p).pStatus = .wait →
    (s.ptab p).pStatus = .wait ∧ (s'.ptab p).pWait = (s.ptab p).pWait
  zombie : ∀ p, (s'.ptab p).pStatus = .zombie →
    (s.ptab p).pStatus = .zombie ∧ (s'.ptab p).pPptr = (s.ptab p).pPptr
  parent : (s'.ptab s.initproc).pPptr = (s.ptab s.initproc).pPptr
  init : (s.ptab s.initproc).pStatus ≠ .empty → (s'.ptab s.initproc).pStatus ≠ .empty

/-- The same state. -/
lemma Fewer.refl : Fewer s s := ⟨rfl, rfl, fun _ h => ⟨h, rfl⟩, fun _ h => ⟨h, rfl⟩, rfl, id⟩

/-- Fewer processes wait, twice. -/
lemma Fewer.trans {s'' : Kernel} (h : Fewer s s') (h' : Fewer s' s'') : Fewer s s'' where
  layout := h'.layout.trans h.layout
  initproc := h'.initproc.trans h.initproc
  wait p w := by
    obtain ⟨w', same'⟩ := h'.wait p w
    obtain ⟨w'', same⟩ := h.wait p w'
    exact ⟨w'', same'.trans same⟩
  zombie p z := by
    obtain ⟨z', same'⟩ := h'.zombie p z
    obtain ⟨z'', same⟩ := h.zombie p z'
    exact ⟨z'', same'.trans same⟩
  parent := by
    have e := h'.parent
    rw [h.initproc] at e
    exact e.trans h.parent
  init live := by
    have keep := h'.init
    rw [h.initproc] at keep
    exact keep (h.init live)

/-- Who is waited for, with fewer that wait. -/
lemma Kernel.Waits.fewer (w : s.Waits) (h : Fewer s s') : s'.Waits where
  missed p z wait zombie := by
    obtain ⟨zombie, same⟩ := h.zombie z zombie
    exact same ▸ w.missed p z (h.wait p wait).1 zombie
  sleeps p wait := by
    obtain ⟨wait, same⟩ := h.wait p wait
    rw [same, h.layout]
    exact w.sleeps p wait
  parent := by
    rw [h.initproc, h.parent]
    exact w.parent
  init := by
    rw [h.initproc]
    exact h.init w.init

/-- The process table is the same. -/
lemma Fewer.of_ptab (ptab : s'.ptab = s.ptab) (layout : s'.layout = s.layout)
    (initproc : s'.initproc = s.initproc) : Fewer s s' := by
  refine ⟨layout, initproc, ?_, ?_, ?_, ?_⟩
  · exact fun p h => ⟨ptab ▸ h, by rw [ptab]⟩
  · exact fun p h => ⟨ptab ▸ h, by rw [ptab]⟩
  · rw [ptab]
  · rw [ptab]
    exact id

/-- A process gets a status other than these two. -/
lemma Fewer.setProc {x : PTab} (wait : x.pStatus ≠ .wait) (zombie : x.pStatus ≠ .zombie)
    (init : p = s.initproc → x.pPptr = (s.ptab p).pPptr ∧ x.pStatus ≠ .empty) :
    Fewer s (s.setProc p x) := by
  have other : ∀ q, q ≠ p → (s.setProc p x).ptab q = s.ptab q := fun q => Kernel.ptab_setProc_of_ne
  refine ⟨rfl, rfl, fun q h => ?_, fun q h => ?_, ?_, fun live => ?_⟩
  · by_cases same : q = p
    · rw [same, Kernel.ptab_setProc] at h
      exact absurd h wait
    · rw [other q same] at h ⊢
      exact ⟨h, rfl⟩
  · by_cases same : q = p
    · rw [same, Kernel.ptab_setProc] at h
      exact absurd h zombie
    · rw [other q same] at h ⊢
      exact ⟨h, rfl⟩
  · by_cases same : s.initproc = p
    · rw [same, Kernel.ptab_setProc]
      exact (init same.symm).1
    · rw [other _ same]
  · by_cases same : s.initproc = p
    · rw [same, Kernel.ptab_setProc]
      exact (init same.symm).2
    · rwa [other _ same]

/-! ## Wakeups and signals -/

/-- Wakeups and signals make processes ready, and change nothing else. -/
structure Settling (s s' : Kernel) : Prop where
  layout : s'.layout = s.layout
  initproc : s'.initproc = s.initproc
  uPtab : s'.udata.uPtab = s.udata.uPtab
  parent : ∀ p, (s'.ptab p).pPptr = (s.ptab p).pPptr
  status : ∀ p, (s'.ptab p).pStatus = (s.ptab p).pStatus ∨
    (s.ptab p).pStatus.isBehindRunning ∧ (s'.ptab p).pStatus = .ready
  wait : ∀ p, (s'.ptab p).pStatus = .wait → (s'.ptab p).pWait = (s.ptab p).pWait

namespace Settling

/-- A status that is not ready has been there. -/
lemma of_status (h : Settling s s') {x : PStatus} (ne : x ≠ .ready) (e : (s'.ptab p).pStatus = x) :
    (s.ptab p).pStatus = x := by
  cases h.status p with
  | inl same => exact same.symm.trans e
  | inr ready => exact absurd (e.symm.trans ready.2) ne

/-- A status that is not behind running stays. -/
lemma to_status (h : Settling s s') {x : PStatus} (front : x.isBehindRunning = false)
    (e : (s.ptab p).pStatus = x) : (s'.ptab p).pStatus = x := by
  cases h.status p with
  | inl same => exact same.trans e
  | inr ready =>
    rw [e, front] at ready
    exact absurd ready.1 nofun

/-- The process goes on running. -/
lemma running (h : Settling s s') (running : s.Running) : s'.Running := by
  unfold Kernel.Running
  rw [h.uPtab]
  exact h.to_status rfl running

/-- What settles leaves fewer that wait. -/
lemma fewer (h : Settling s s') : Fewer s s' where
  layout := h.layout
  initproc := h.initproc
  wait p e := ⟨h.of_status nofun e, h.wait p e⟩
  zombie p e := ⟨h.of_status nofun e, h.parent p⟩
  parent := h.parent _
  init live e := live (h.of_status nofun e)

/-- The process table is the same. -/
lemma of_ptab (ptab : s'.ptab = s.ptab) (layout : s'.layout = s.layout)
    (initproc : s'.initproc = s.initproc) (uPtab : s'.udata.uPtab = s.udata.uPtab) : Settling s s' :=
  ⟨layout, initproc, uPtab, fun _ => by rw [ptab], fun _ => .inl (by rw [ptab]), fun _ _ => by rw [ptab]⟩

/-- A wakeup settles. -/
lemma woken {event : Event} : Settling s { s with ptab := s.woken event } := by
  refine ⟨rfl, rfl, rfl, fun p => ?_, fun p => ?_, fun p => ?_⟩
  · show (s.woken event p).pPptr = _
    unfold Kernel.woken
    split <;> rfl
  · show (s.woken event p).pStatus = _ ∨ _ ∧ (s.woken event p).pStatus = _
    unfold Kernel.woken
    split
    · next sleeps => exact .inr ⟨sleeps.1, rfl⟩
    · exact .inl rfl
  · show (s.woken event p).pStatus = .wait → (s.woken event p).pWait = _
    unfold Kernel.woken
    split
    · exact nofun
    · exact fun _ => rfl

end Settling

instance : Filing Settling where
  refl _ := .of_ptab rfl rfl rfl rfl
  trans s s' s'' h h' := by
    refine ⟨h'.layout.trans h.layout, h'.initproc.trans h.initproc, h'.uPtab.trans h.uPtab,
      fun p => (h'.parent p).trans (h.parent p), fun p => ?_, fun p e => ?_⟩
    · cases h'.status p with
      | inl same => exact same ▸ h.status p
      | inr ready =>
        cases h.status p with
        | inl same => exact .inr ⟨same ▸ ready.1, ready.2⟩
        | inr ready' => exact .inr ⟨ready'.1, ready.2⟩
    · exact (h'.wait p e).trans (h.wait p (h'.of_status nofun e))
  bufs _ _ := .of_ptab rfl rfl rfl rfl
  fsTab _ _ _ _ := .of_ptab rfl rfl rfl rfl
  iTab _ _ := .of_ptab rfl rfl rfl rfl
  nexti _ _ := .of_ptab rfl rfl rfl rfl
  error _ _ := .of_ptab rfl rfl rfl rfl
  woken _ _ := Settling.woken
  ofTab _ _ := .of_ptab rfl rfl rfl rfl
  ofBss _ _ := .of_ptab rfl rfl rfl rfl
  files _ _ := .of_ptab rfl rfl rfl rfl

namespace Settling

/-- A change of udata settles. -/
lemma withUdata {u : UData} (h : u.uPtab = s.udata.uPtab) : Settling s (s.withUdata u) :=
  .of_ptab rfl rfl rfl h

/-- The status stays as it is, or the process becomes ready, and the parent stays. -/
lemma setProc {x : PTab}
    (status : x.pStatus = (s.ptab p).pStatus ∨ (s.ptab p).pStatus.isBehindRunning ∧ x.pStatus = .ready)
    (parent : x.pPptr = (s.ptab p).pPptr) (wait : x.pStatus = .wait → x.pWait = (s.ptab p).pWait) :
    Settling s (s.setProc p x) := by
  refine ⟨rfl, rfl, rfl, fun q => ?_, fun q => ?_, fun q => ?_⟩ <;> by_cases same : q = p
  · rwa [same, Kernel.ptab_setProc]
  · rw [Kernel.ptab_setProc_of_ne same]
  · rwa [same, Kernel.ptab_setProc]
  · rw [Kernel.ptab_setProc_of_ne same]
    exact .inl rfl
  · rwa [same, Kernel.ptab_setProc]
  · rw [Kernel.ptab_setProc_of_ne same]
    exact fun _ => rfl

/-- `ssig` settles. -/
lemma ssig {sig : Nat} : Within Settling E (ssig p sig) := by
  intro s
  unfold Uzi.ssig
  rw [wp_bind, wp_get, wp_ite]
  split
  · exact refl_of Settling s
  rw [wp_ite]
  split
  · exact refl_of Settling s
  rw [wp_modifyPtab]
  refine Settling.setProc ?_ rfl ?_
  · dsimp only
    split
    · next asleep =>
      refine .inr ⟨?_, rfl⟩
      rcases asleep with e | e | e
      · exact e ▸ rfl
      · exact e ▸ rfl
      · exact e ▸ rfl
    · exact .inl rfl
  · dsimp only
    split
    · exact nofun
    · next awake => exact fun wait => absurd (.inr (.inl wait)) awake

/-- `sendsig` settles. -/
lemma sendsig {proc : Option (Fin PTABSIZE)} {sig : Nat} : Within Settling E (sendsig proc sig) := by
  cases proc with
  | some p => exact ssig
  | none => exact .each (fun p => .bind .get fun _ => .ite ssig .pure) _

/-- `wakeup` settles. -/
lemma wakeup {event : Event} : Within Settling E (wakeup event) := fun _ => woken

/-- A change of udata settles. -/
lemma modifyUdata {f : UData → UData} (h : ∀ u, (f u).uPtab = u.uPtab) : Within Settling E (modifyUdata f) :=
  .modify fun _ => .withUdata (h _)

/-- Something else changes in the entry of the current process. -/
lemma modifyOwn {f : PTab → PTab} (status : ∀ x, (f x).pStatus = x.pStatus)
    (parent : ∀ x, (f x).pPptr = x.pPptr) (wait : ∀ x, (f x).pWait = x.pWait) :
    Within Settling E (modifyOwn f) := fun _ => .setProc (.inl (status _)) (parent _) fun _ => wait _

end Settling

/-! ## Exits -/

/-- The process is the first one, or a child of it, or it has no child that has exited while the first
process waits. -/
def Kernel.ExitClean (s : Kernel) : Prop :=
  s.udata.uPtab ≠ s.initproc → (s.ptab s.udata.uPtab).pPptr ≠ some s.initproc →
    (s.ptab s.initproc).pStatus = .wait →
    ∀ z, (s.ptab z).pStatus = .zombie → (s.ptab z).pPptr ≠ some s.udata.uPtab

/-- The condition on exits stays. -/
lemma Kernel.ExitClean.settling (c : s.ExitClean) (h : Settling s s') : s'.ExitClean := by
  intro first child wait z zombie
  rw [h.uPtab, h.initproc] at first
  rw [h.parent, h.uPtab, h.initproc] at child
  rw [h.initproc] at wait
  rw [h.parent, h.uPtab]
  exact c first child (h.of_status nofun wait) z (h.of_status nofun zombie)

/-- The current process has given away its children: only its parent may miss one. -/
structure Kernel.Leaving (s : Kernel) : Prop where
  missed : ∀ p z, p ≠ s.udata.uPtab → (s.ptab p).pStatus = .wait → (s.ptab z).pStatus = .zombie →
    (s.ptab z).pPptr = some p → (s.ptab s.udata.uPtab).pPptr = some p
  sleeps : ∀ p, p ≠ s.udata.uPtab → (s.ptab p).pStatus = .wait →
    (s.ptab p).pWait = s.layout.addr (.ptab p)
  parent : (s.ptab s.initproc).pPptr = some s.initproc
  init : (s.ptab s.initproc).pStatus ≠ .empty

/-- The process stays on its way out. -/
lemma Kernel.Leaving.settling (l : s.Leaving) (h : Settling s s') : s'.Leaving where
  missed p z ne wait zombie child := by
    rw [h.uPtab] at ne
    rw [h.parent] at child
    rw [h.parent, h.uPtab]
    exact l.missed p z ne (h.of_status nofun wait) (h.of_status nofun zombie) child
  sleeps p ne wait := by
    rw [h.uPtab] at ne
    rw [h.wait p wait, h.layout]
    exact l.sleeps p ne (h.of_status nofun wait)
  parent := by
    rw [h.initproc, h.parent]
    exact l.parent
  init := by
    rw [h.initproc]
    exact h.fewer.init l.init

/-- The children of the current process go to the first one. -/
lemma Kernel.Waits.adopt (w : s.Waits) (clean : s.ExitClean) :
    ({ s with ptab := s.adopt } : Kernel).Leaving := by
  refine ⟨fun p z ne wait zombie child => ?_, fun p ne wait => ?_, ?_, ?_⟩
  · have ne : p ≠ s.udata.uPtab := ne
    have child : (s.adopt z).pPptr = some p := child
    simp only [adopt_status] at wait zombie
    unfold Kernel.adopt at child
    split at child
    · next own =>
      -- an adopted child, so that the first process is the one that waits
      cases child
      have parent : (s.ptab s.udata.uPtab).pPptr = some s.initproc := by
        by_contra other
        exact clean ne.symm other wait z zombie own.2
      show (s.adopt s.udata.uPtab).pPptr = some s.initproc
      cases adopt_parent (s := s) (p := s.udata.uPtab) with
      | inl same => exact same.trans parent
      | inr adopted => exact adopted
    · exact absurd child (w.missed p z wait zombie)
  · simp only [adopt_status, adopt_wait] at wait ⊢
    exact w.sleeps p wait
  · show (s.adopt s.initproc).pPptr = some s.initproc
    cases adopt_parent (s := s) (p := s.initproc) with
    | inl same => exact same.trans w.parent
    | inr adopted => exact adopted
  · simp only [adopt_status]
    exact w.init

end Uzi
