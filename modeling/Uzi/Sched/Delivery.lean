import Uzi.Sched.Signals
import Uzi.Sched.Wait

/-!
# The delivery of signals

Which signals `chksigs` leaves pending, and which process `_kill` sends a signal to.
-/

namespace Uzi
open Exec

/-! ## Pending signals -/

section Pending

variable {s s' : Kernel} {j k : Fin NSIGS}

/-- Signal `j` is pending for the current process. -/
def Kernel.pends (s : Kernel) (j : Fin NSIGS) : Prop := j.val ≠ 0 ∧ sigmask j &&& (s.ptab s.udata.uPtab).pPending ≠ 0

/-- Every pending signal is still pending, but for a caught one that `u_cursig` has been set to, and a signal in
`u_cursig` is still there. -/
structure Kernel.SignalsKept (s s' : Kernel) : Prop where
  pending : ∃ r : Option (Fin NSIGS), (∀ j, s.pends j → s'.pends j ∨ r = some j) ∧
    ∀ j, r = some j → s'.udata.uCursig = BitVec.ofNat 16 j ∧ s.udata.uSigvec j ≠ SIG_DFL ∧ s.udata.uSigvec j ≠ SIG_IGN
  cursig : s.udata.uCursig ≠ 0 → s'.udata.uCursig = s.udata.uCursig

/-- `chksigs` exits, or loses no signal. -/
def Kernel.LosesNone (s : Kernel) : Prop :=
  wp chksigs (fun exited s' => exited = false → s.SignalsKept s') (fun _ => True) s

/-- The signal that is taken is the only one that pends, and does not replace another one in `u_cursig`. -/
def Kernel.Alone (s : Kernel) (j : Fin NSIGS) : Prop :=
  (∀ k, s.pends k → k = j) ∧ (s.udata.uCursig = 0 ∨ s.udata.uCursig = BitVec.ofNat 16 j)

/-- No signal is lost when nothing happens. -/
lemma Kernel.SignalsKept.refl : s.SignalsKept s := ⟨⟨none, fun _ pends => .inl pends, nofun⟩, fun _ => rfl⟩

/-- A signal that is caught takes the others off with it. -/
lemma not_pends_caught : ¬ (s.caught j).pends k := by
  intro pends
  have clear : ((s.caught j).ptab (s.caught j).udata.uPtab).pPending = 0 := congrArg PTab.pPending Kernel.ptab_setProc
  exact pends.2 (by rw [clear]; exact BitVec.and_zero)

/-- The signal that `chksigs` takes. -/
lemma Kernel.taken_spec (h : s.taken = some j) : j.val ≠ 0 ∧ s.takes j = true := by
  have mem := List.mem_filter.mp (List.mem_of_find?_eq_some h)
  exact ⟨of_decide_eq_true mem.2, List.find?_some h⟩

/-- Small numbers are different words. -/
lemma ofNat_inj (h : BitVec.ofNat 16 j = BitVec.ofNat 16 k) : j = k := by
  have nat := congrArg BitVec.toNat h
  have lt := j.isLt
  have lt' := k.isLt
  rw [BitVec.toNat_ofNat, BitVec.toNat_ofNat] at nat
  unfold NSIGS at lt lt'
  exact Fin.ext (by omega)

/-- Catching a signal keeps the others exactly if it was alone. -/
lemma kept_caught_iff (taken : s.taken = some j) (dfl : s.udata.uSigvec j ≠ SIG_DFL) :
    s.SignalsKept (s.caught j) ↔ s.Alone j := by
  obtain ⟨_, takes⟩ := Kernel.taken_spec taken
  have cursig : (s.caught j).udata.uCursig = BitVec.ofNat 16 j := rfl
  constructor
  · intro kept
    obtain ⟨r, lost, recorded⟩ := kept.pending
    refine ⟨fun k pends => ?_, ?_⟩
    · have r_eq := (lost k pends).resolve_left not_pends_caught
      exact ofNat_inj ((recorded k r_eq).1.symm.trans cursig)
    · by_cases zero : s.udata.uCursig = 0
      · exact .inl zero
      · exact .inr ((kept.cursig zero).symm.trans cursig)
  · intro ⟨only, same⟩
    refine ⟨⟨some j, fun k pends => .inr (congrArg some (only k pends).symm), fun k e => ?_⟩, fun ne => ?_⟩
    · cases e
      exact ⟨cursig, dfl, (Kernel.takes_iff.mp takes).2⟩
    · exact cursig.trans (same.resolve_left ne).symm

/-- What `chksigs` does with a caught signal. -/
lemma chksigs_caught (taken : s.taken = some j) (dfl : s.udata.uSigvec j ≠ SIG_DFL) :
    chksigs s = .ok (false, s.caught j) := by
  have front : wp chksigsFront (fun r s' => r = none ∧ s' = s.caught j) (fun _ => False) s := by
    refine wp_chksigsFront (fun none => ?_) (fun k some eq => ?_) fun k some _ => ?_
    · exact absurd (taken.symm.trans none) nofun
    · cases taken.symm.trans some
      exact absurd eq dfl
    · cases taken.symm.trans some
      exact ⟨rfl, rfl⟩
  obtain ⟨r, s', ran, rfl, rfl⟩ := front.returns
  rw [chksigs_eq]
  show (chksigsFront s).bind _ = _
  rw [ran]
  rfl

/-- `chksigs` loses no signal if and only if it takes none that is caught, or the one that it takes pends alone. -/
theorem chksigs_losesNone : s.LosesNone ↔
    ∀ j, s.taken = some j → s.udata.uSigvec j ≠ SIG_DFL → s.Alone j := by
  constructor
  · intro keeps j taken dfl
    exact (kept_caught_iff taken dfl).mp (keeps.ok (chksigs_caught taken dfl) rfl)
  · intro alone
    unfold Kernel.LosesNone
    rw [chksigs_eq, wp_bind]
    refine wp_chksigsFront (fun _ => fun _ => .refl) (fun j _ _ => ?_) fun j taken dfl => fun _ => ?_
    · exact wp_post (wp_bind.mpr (wp_post wp_true fun _ _ _ => wp_pure.mpr nofun)) fun _ _ => id
    · exact (kept_caught_iff taken dfl).mpr (alone j taken dfl)

/-- A process that catches the signals 1 and 2, both of which pend. -/
def twoPending : Kernel :=
  let s := Machine.booted.k
  { s with
    udata := { s.udata with uSigvec := fun _ => 0x6000 }
    ptab := fun p => { s.ptab p with pPending := 6 } }

/-- `chksigs` of two pending signals loses one. -/
theorem not_chksigs_losesNone : ¬ ∀ s : Kernel, s.LosesNone := by
  intro all
  have taken : twoPending.taken = some ⟨1, by decide⟩ := by decide
  have dfl : twoPending.udata.uSigvec ⟨1, by decide⟩ ≠ SIG_DFL := by decide
  have kept := (all twoPending).ok (chksigs_caught taken dfl) rfl
  have alone := ((kept_caught_iff taken dfl).mp kept).1 ⟨2, by decide⟩ ⟨by decide, by decide⟩
  exact absurd alone (by decide)

end Pending

/-! ## Process numbers of empty slots -/

section Numbers

variable {s s' : Kernel} {p q : Fin PTABSIZE} {E : Panic → Prop}

/-- No slot in front of a process has its number, though an empty one keeps that of its last process; and
every process has its own place in the swap space. -/
structure Kernel.Numbered (s : Kernel) : Prop where
  first : ∀ p q, (s.ptab p).pStatus ≠ .empty → q < p → (s.ptab q).pPid ≠ (s.ptab p).pPid
  swap : ∀ p, (s.ptab p).pStatus ≠ .empty → (s.ptab p).pSwap = swapBlk p

/-- Numbers and places stay, no slot is filled or emptied, and a running process goes on. -/
structure Steady (s s' : Kernel) : Prop where
  pid : ∀ p, (s'.ptab p).pPid = (s.ptab p).pPid
  swap : ∀ p, (s'.ptab p).pSwap = (s.ptab p).pSwap
  status : ∀ p, (s'.ptab p).pStatus = (s.ptab p).pStatus ∨
    (s.ptab p).pStatus.isBehindRunning ∧ (s'.ptab p).pStatus = .ready
  uPtab : s'.udata.uPtab = s.udata.uPtab

/-- Numbers and places that stay are in order. -/
lemma Kernel.Numbered.keep (n : s.Numbered) (pid : ∀ p, (s'.ptab p).pPid = (s.ptab p).pPid)
    (swap : ∀ p, (s'.ptab p).pSwap = (s.ptab p).pSwap)
    (used : ∀ p, (s'.ptab p).pStatus ≠ .empty → (s.ptab p).pStatus ≠ .empty) : s'.Numbered where
  first p q ne lt := by
    rw [pid, pid]
    exact n.first p q (used p ne) lt
  swap p ne := by
    rw [swap]
    exact n.swap p (used p ne)

/-- One entry changes, but neither its number nor its place. -/
lemma Kernel.Numbered.setProc {x : PTab} (n : s.Numbered) (pid : x.pPid = (s.ptab p).pPid)
    (swap : x.pSwap = (s.ptab p).pSwap) (used : x.pStatus = .empty ∨ (s.ptab p).pStatus ≠ .empty) :
    (s.setProc p x).Numbered := by
  refine n.keep (fun q => ?_) (fun q => ?_) fun q ne => ?_ <;> by_cases same : q = p
  · rw [same, Kernel.ptab_setProc, pid]
  · rw [Kernel.ptab_setProc_of_ne same]
  · rw [same, Kernel.ptab_setProc, swap]
  · rw [Kernel.ptab_setProc_of_ne same]
  · rw [same, Kernel.ptab_setProc] at ne
    exact same ▸ used.resolve_left ne
  · rwa [Kernel.ptab_setProc_of_ne same] at ne

namespace Steady

/-- No slot is filled or emptied. -/
lemma used (h : Steady s s') (p : Fin PTABSIZE) :
    (s'.ptab p).pStatus = .empty ↔ (s.ptab p).pStatus = .empty := by
  obtain same | ⟨behind, ready⟩ := h.status p
  · rw [same]
  · refine iff_of_false (fun e => absurd (e.symm.trans ready) nofun) fun e => ?_
    rw [e] at behind
    cases behind

/-- Numbers that stay are in order. -/
lemma numbered (h : Steady s s') (n : s.Numbered) : s'.Numbered :=
  n.keep h.pid h.swap fun p => mt (h.used p).mpr

/-- The current process keeps its slot. -/
lemma own (h : Steady s s') (own : (s.ptab s.udata.uPtab).pStatus ≠ .empty) :
    (s'.ptab s'.udata.uPtab).pStatus ≠ .empty := by
  rw [h.uPtab]
  exact mt (h.used _).mp own

/-- The current process runs on. -/
lemma running (h : Steady s s') (running : s.Running) : s'.Running := by
  unfold Kernel.Running at running ⊢
  rw [h.uPtab]
  obtain same | ⟨behind, _⟩ := h.status s.udata.uPtab
  · exact same.trans running
  · rw [running] at behind
    cases behind

/-- Nothing but the process table counts. -/
lemma of_ptab (ptab : s'.ptab = s.ptab) (uPtab : s'.udata.uPtab = s.udata.uPtab) : Steady s s' :=
  ⟨fun _ => by rw [ptab], fun _ => by rw [ptab], fun _ => .inl (by rw [ptab]), uPtab⟩

/-- What makes processes ready and leaves numbers and places alone. -/
lemma of_settling (h : Settling s s') (pid : ∀ p, (s'.ptab p).pPid = (s.ptab p).pPid)
    (swap : ∀ p, (s'.ptab p).pSwap = (s.ptab p).pSwap) : Steady s s' := ⟨pid, swap, h.status, h.uPtab⟩

end Steady

/-- A wakeup changes no number. -/
lemma Steady.woken {event : Event} : Steady s { s with ptab := s.woken event } := by
  refine .of_settling .woken (fun p => ?_) fun p => ?_
  · show (s.woken event p).pPid = _
    unfold Kernel.woken
    split <;> rfl
  · show (s.woken event p).pSwap = _
    unfold Kernel.woken
    split <;> rfl

instance : Forking Steady where
  refl _ := .of_ptab rfl rfl
  trans s s' s'' h h' := by
    refine ⟨fun p => (h'.pid p).trans (h.pid p), fun p => (h'.swap p).trans (h.swap p), fun p => ?_,
      h'.uPtab.trans h.uPtab⟩
    obtain same | ready := h'.status p
    · exact same ▸ h.status p
    · obtain same | ready' := h.status p
      · exact .inr ⟨same ▸ ready.1, ready.2⟩
      · exact .inr ⟨ready'.1, ready.2⟩
  bufs _ _ := .of_ptab rfl rfl
  fsTab _ _ _ _ := .of_ptab rfl rfl
  iTab _ _ := .of_ptab rfl rfl
  nexti _ _ := .of_ptab rfl rfl
  error _ _ := .of_ptab rfl rfl
  woken _ _ := .woken
  ofTab _ _ := .of_ptab rfl rfl
  ofBss _ _ := .of_ptab rfl rfl
  files _ _ := .of_ptab rfl rfl
  time _ _ := .of_ptab rfl rfl
  reset _ := .of_ptab rfl rfl

namespace Steady

/-- Something else changes in an entry. -/
lemma setProc {x : PTab} (pid : x.pPid = (s.ptab p).pPid) (swap : x.pSwap = (s.ptab p).pSwap)
    (status : x.pStatus = (s.ptab p).pStatus ∨ (s.ptab p).pStatus.isBehindRunning ∧ x.pStatus = .ready) :
    Steady s (s.setProc p x) := by
  refine ⟨fun q => ?_, fun q => ?_, fun q => ?_, rfl⟩ <;> by_cases same : q = p
  · rw [same, Kernel.ptab_setProc, pid]
  · rw [Kernel.ptab_setProc_of_ne same]
  · rw [same, Kernel.ptab_setProc, swap]
  · rw [Kernel.ptab_setProc_of_ne same]
  · rw [same, Kernel.ptab_setProc]
    exact status
  · rw [Kernel.ptab_setProc_of_ne same]
    exact .inl rfl

/-- A signal changes no number. -/
lemma ssig {sig : Nat} : Within Steady E (ssig p sig) := by
  intro s
  unfold Uzi.ssig
  rw [wp_bind, wp_get, wp_ite]
  split
  · exact refl_of Steady s
  rw [wp_ite]
  split
  · exact refl_of Steady s
  rw [wp_modifyPtab]
  refine setProc rfl rfl ?_
  dsimp only
  split
  · next asleep =>
    refine .inr ⟨?_, rfl⟩
    obtain e | e | e := asleep <;> exact e ▸ rfl
  · exact .inl rfl

/-- `sendsig` changes no number. -/
lemma sendsig {proc : Option (Fin PTABSIZE)} {sig : Nat} : Within Steady E (sendsig proc sig) := by
  cases proc with
  | some p => exact ssig
  | none => exact .each (fun p => .bind .get fun _ => .ite ssig .pure) _

/-- `wakeup` changes no number. -/
lemma wakeup {event : Event} : Within Steady E (wakeup event) := fun _ => woken

/-- The data of the process are in no slot. -/
lemma modifyUdata {f : UData → UData} (h : ∀ u, (f u).uPtab = u.uPtab) : Within Steady E (modifyUdata f) :=
  .modify fun _ => .of_ptab rfl (h _)

/-- The process changes its own entry, but for number and place. -/
lemma modifyOwn {f : PTab → PTab} (pid : ∀ x, (f x).pPid = x.pPid) (swap : ∀ x, (f x).pSwap = x.pSwap)
    (status : ∀ x, (f x).pStatus = x.pStatus) : Within Steady E (modifyOwn f) :=
  fun _ => .setProc (pid _) (swap _) (.inl (status _))

/-- `doexit`, up to the change of the status. -/
lemma leave [Stopping E] {val val2 : Word} : Within Steady E (leave val val2) := by
  have adopt : ∀ s : Kernel, Steady s { s with ptab := s.adopt } := fun s =>
    ⟨fun _ => adopt_pid, fun _ => adopt_swap, fun _ => .inl adopt_status, rfl⟩
  have times : Within Steady E addTimes := by
    unfold addTimes
    refine .bind (modifyUdata fun _ => rfl) fun _ => .bind (modifyUdata fun _ => rfl) fun _ => .bind .get fun _ => ?_
    exact modifyOwn (fun _ => rfl) (fun _ => rfl) fun _ => rfl
  have parent : Within Steady E wakeParent := .bind .get fun _ => .ite wakeup .pure
  unfold Uzi.leave
  refine within_closeAll.bind fun _ => .bind (modifyOwn (fun _ => rfl) (fun _ => rfl) fun _ => rfl) fun _ => ?_
  exact .bind (.modify adopt) fun _ => .bind .get fun _ => Quiet.iDeref.bind fun _ => times.bind fun _ => parent

/-- `chksigs`, up to the `doexit` that it calls. -/
lemma chksigsFront : Within Steady E chksigsFront := by
  intro s
  refine wp_chksigsFront (fun _ => refl_of Steady s) (fun _ _ _ => refl_of Steady s) fun j _ _ => ?_
  have clear : Steady s (s.setProc s.udata.uPtab { s.ptab s.udata.uPtab with pPending := 0 }) :=
    setProc rfl rfl (.inl rfl)
  have caught : Steady (s.setProc s.udata.uPtab { s.ptab s.udata.uPtab with pPending := 0 }) (s.caught j) :=
    .of_ptab rfl rfl
  exact trans_of Steady clear caught

end Steady

/-! ## Operations -/

/-- The numbers are in order, and the current process has a slot. -/
def Kernel.Placed (s : Kernel) : Prop := s.Numbered ∧ (s.ptab s.udata.uPtab).pStatus ≠ .empty

/-- What changes no number leaves the current process its slot. -/
lemma Kernel.Placed.steady (h : s.Placed) (st : Steady s s') : s'.Placed := ⟨st.numbered h.1, st.own h.2⟩

/-- The current process gets another status. -/
lemma Kernel.Placed.turn {x : PTab} (h : s.Placed) (pid : x.pPid = (s.ptab s.udata.uPtab).pPid)
    (swap : x.pSwap = (s.ptab s.udata.uPtab).pSwap) (used : x.pStatus ≠ .empty) :
    (s.setProc s.udata.uPtab x).Placed := by
  refine ⟨h.1.setProc pid swap (.inr h.2), ?_⟩
  show ((s.setProc s.udata.uPtab x).ptab s.udata.uPtab).pStatus ≠ .empty
  rwa [Kernel.ptab_setProc]

variable [Stopping E]

/-- A process that exits keeps its slot and its number. -/
lemma numbered_doexit {val val2 : Word} (h : s.Placed) : wp (doexit val val2) (fun _ s' => s'.Placed) E s := by
  rw [doexit_eq, wp_bind]
  refine wp_post (Steady.leave s) fun _ s₁ st => ?_
  exact (h.steady st).turn rfl rfl nofun

/-- `chksigs` keeps the numbers in order. -/
lemma numbered_chksigs (h : s.Placed) :
    wp chksigs (fun exited s' => s'.Placed ∧ (exited = false → Steady s s')) E s := by
  rw [chksigs_eq, wp_bind]
  refine wp_post (Steady.chksigsFront s) fun r s₁ st => ?_
  cases r with
  | none => exact ⟨h.steady st, fun _ => st⟩
  | some j =>
    show wp (do doexit 0 (BitVec.ofNat 16 j); pure true) _ E s₁
    rw [wp_bind]
    exact wp_post (numbered_doexit (h.steady st)) fun _ s₂ h₂ => ⟨h₂, nofun⟩

/-- What an operation of a running process leaves. -/
def Kernel.PlacedAt (s : Kernel) (ctl : Ctl) : Prop := s.Placed ∧ (ctl = .running → s.Running)

/-- A running process has a slot. -/
lemma Kernel.Placed.of_running (n : s.Numbered) (running : s.Running) : s.Placed :=
  ⟨n, fun e => absurd (e.symm.trans running) nofun⟩

/-- `swapout` keeps the numbers in order. -/
lemma numbered_swapout {α : Type} (h : s.Placed) : wp (swapout (α := α)) (fun r s' => s'.PlacedAt r.ctl) E s := by
  unfold swapout
  rw [wp_bind]
  refine wp_post (numbered_chksigs h) fun exited s' checked => ?_
  cases exited with
  | true => exact ⟨checked.1, nofun⟩
  | false => exact ⟨checked.1, nofun⟩

/-- So does the end of `psleep`. -/
lemma numbered_psleepSwap {α : Type} {event : Event} (n : s.Numbered) (running : s.Running) :
    wp (psleepSwap (α := α) event) (fun r s' => s'.PlacedAt r.ctl) E s := by
  have placed := Kernel.Placed.of_running n running
  have running : (s.ptab s.udata.uPtab).pStatus = .running := running
  unfold psleepSwap psleep
  rw [wp_bind, wp_bind, wp_get, wp_ite, if_neg (fun ne => ne running), wp_modifyPtab]
  refine numbered_swapout (placed.turn rfl rfl ?_)
  dsimp only
  split
  · exact nofun
  · split <;> exact nofun

/-- A fork takes the first empty slot and a number that no process has, so that the child's number is in no
slot in front of it. -/
lemma Kernel.Forked.numbered {pid : Nat} (f : s.Forked s' p pid) (free : s.Free p pid) (h : s.Placed) :
    s'.Numbered := by
  have others : ∀ q, q ≠ p → (s'.ptab q).pPid = (s.ptab q).pPid ∧ (s'.ptab q).pSwap = (s.ptab q).pSwap ∧
      ((s'.ptab q).pStatus ≠ .empty → (s.ptab q).pStatus ≠ .empty) := by
    intro q ne
    by_cases own : q = s.udata.uPtab
    · rw [own, f.parent]
      exact ⟨rfl, rfl, fun _ => h.2⟩
    · rw [f.others q ne own]
      exact ⟨rfl, rfl, id⟩
  refine ⟨fun r q used lt => ?_, fun r used => ?_⟩
  · by_cases child : r = p
    · rw [child] at lt ⊢
      rw [(others q (Fin.ne_of_lt lt)).1, f.child.pid]
      exact fun taken => free.fresh ⟨q, free.lowest q lt, taken⟩
    · obtain ⟨pid, -, before⟩ := others r child
      rw [pid]
      by_cases front : q = p
      · rw [front, f.child.pid]
        exact fun taken => free.fresh ⟨r, before used, taken.symm⟩
      · rw [(others q front).1]
        exact h.1.first r q (before used) lt
  · by_cases child : r = p
    · rw [child]
      exact f.child.swap
    · obtain ⟨-, swap, before⟩ := others r child
      rw [swap]
      exact h.1.swap r (before used)

/-- A fork takes a number that no slot has. -/
lemma numbered_dofork (n : s.Numbered) (running : s.Running) :
    wp dofork (fun _ s' => s'.Numbered ∧ s'.Running) E s := by
  have placed := Kernel.Placed.of_running n running
  refine wp_post (wp_dofork_forked (R := Steady) (n.swap _ placed.2) placed.2) fun _ s' outcome => ?_
  obtain st | ⟨p, pid, s₁, s₂, free, forked, -, st, rfl⟩ := outcome
  · exact ⟨st.numbered n, st.running running⟩
  · have own : s₁.udata.uPtab = p := forked.uPtab
    have running₁ : s₁.Running := by
      unfold Kernel.Running
      rw [own]
      exact forked.child.status
    have tick : Steady s₂ { s₂ with runticks := 0 } := .of_ptab rfl rfl
    have placed₂ : ({ s₂ with runticks := 0 } : Kernel).Placed :=
      (Kernel.Placed.of_running (forked.numbered free placed) running₁).steady (trans_of Steady st tick)
    have own₂ : p = s₂.udata.uPtab := own.symm.trans st.uPtab.symm
    subst own₂
    refine ⟨(placed₂.turn (x := { s₂.ptab _ with pStatus := .running }) rfl rfl nofun).1, ?_⟩
    show ((Kernel.setProc _ _ _).ptab s₂.udata.uPtab).pStatus = .running
    rw [Kernel.ptab_setProc]

/-- A round of `_wait` empties a slot, which keeps its number. -/
lemma numbered_waitRound {statloc : Nat} (n : s.Numbered) (running : s.Running)
    (user : s.Collects → s.layout.TakesStatus statloc) :
    wp (waitRound statloc) (fun r s' => s'.PlacedAt r.ctl) E s := by
  have placed := Kernel.Placed.of_running n running
  unfold waitRound
  rw [wp_bind, wp_get, wp_bind]
  refine wp_post (numbered_chksigs placed).run fun exited s₁ ⟨checked, returned⟩ => ?_
  cases exited with
  | true => exact ⟨checked.1, nofun⟩
  | false =>
    obtain ⟨placed₁, st⟩ := checked
    have running₁ := (st rfl).running running
    rw [if_neg nofun, wp_bind, wp_get, wp_ite]
    split
    · rw [wp_bind]
      have error : Within Steady E (setError .eintr) := Quiet.setError
      exact wp_post (error s₁) fun _ s₂ st => ⟨placed₁.steady st, fun _ => st.running running₁⟩
    · next idle =>
      rw [wp_bind, wp_get]
      cases child : s₁.zombieChild with
      | none =>
        dsimp only
        rw [wp_bind, wp_get]
        exact numbered_psleepSwap placed₁.1 running₁
      | some p =>
        dsimp only
        rw [wp_bind]
        refine wp_post (wp_reap (Kernel.Collects.user user returned idle child)) fun _ s₂ ⟨u, same, h⟩ => ?_
        subst h
        have dead := zombieChild_dead child
        have own : s₁.udata.uPtab ≠ p := fun e => absurd ((e ▸ dead).symm.trans running₁) nofun
        have buried := placed₁.1.setProc (p := p) (x := { s₁.ptab p with pStatus := .empty }) rfl rfl (.inl rfl)
        have runs : ((s₁.setProc p { s₁.ptab p with pStatus := .empty }).withUdata u).Running := by
          show ((s₁.setProc p _).ptab u.uPtab).pStatus = .running
          rw [same, Kernel.ptab_setProc_of_ne own]
          exact running₁
        exact ⟨.of_running (buried.keep (fun _ => rfl) (fun _ => rfl) fun _ => id) runs, fun _ => runs⟩

/-- `_wait` keeps the numbers in order. -/
lemma numbered_wait {statloc : Nat} (n : s.Numbered) (running : s.Running)
    (user : s.Collects → ¬ s.layout.udata < statloc → s.layout.TakesStatus statloc) :
    wp (_wait statloc) (fun r s' => s'.PlacedAt r.ctl) E s := by
  have failed : ∀ e, wp (do setError e; pure (CallEnd.returned 0xffff)) (fun r s' => s'.PlacedAt r.ctl) E s := by
    intro e
    have error : Within Steady E (setError e) := Quiet.setError
    rw [wp_bind]
    exact wp_post (error s) fun _ s₂ st => ⟨(Kernel.Placed.of_running n running).steady st, fun _ => st.running running⟩
  unfold _wait
  rw [wp_bind, wp_get, wp_ite]
  split
  · exact failed .efault
  next passed =>
  rw [wp_ite]
  split
  · exact failed .echild
  · exact numbered_waitRound n running fun collects => user collects passed

/-- So does the end of a system call. -/
lemma numbered_unixEnd (n : s.Numbered) (running : s.Running) :
    wp unixEnd (fun r s' => s'.PlacedAt r.ctl) E s := by
  have placed := Kernel.Placed.of_running n running
  unfold unixEnd
  rw [wp_bind]
  refine wp_post (numbered_chksigs placed) fun exited s₁ checked => ?_
  cases exited with
  | true => exact ⟨checked.1, nofun⟩
  | false =>
    obtain ⟨placed₁, st⟩ := checked
    rw [if_neg nofun, wp_bind, wp_get, wp_ite]
    split
    · rw [wp_bind, wp_modifyPtab]
      exact numbered_swapout (placed₁.turn rfl rfl nofun)
    · exact ⟨placed₁, fun _ => (st rfl).running running⟩

/-- So does every operation. -/
lemma numbered_op (o : ProcOp) {ctl : Ctl} (user : o.InUser s ctl) (n : s.Numbered) (running : s.Running) :
    wp o.run (fun ctl s' => s'.PlacedAt ctl) E s := by
  have placed := Kernel.Placed.of_running n running
  have steady : ∀ {c : K PUnit}, Within Steady E c → wp (do c; pure Ctl.running) (fun ctl s' => s'.PlacedAt ctl) E s := by
    intro c h
    rw [wp_bind]
    exact wp_post (h s) fun _ s' st => ⟨placed.steady st, fun _ => st.running running⟩
  cases o with
  | fork =>
    show wp (do let _ ← dofork; pure Ctl.running) _ E s
    rw [wp_bind]
    exact wp_post (numbered_dofork n running) fun _ _ h => ⟨.of_running h.1 h.2, fun _ => h.2⟩
  | exit val val2 =>
    show wp (do doexit val val2; pure (Ctl.getproc true)) _ E s
    rw [wp_bind]
    exact wp_post (numbered_doexit placed) fun _ _ h => ⟨h, nofun⟩
  | wait statloc =>
    show wp (do return (← _wait statloc).ctl) _ E s
    rw [wp_bind]
    exact wp_post (numbered_wait n running user) fun _ _ => id
  | waitOn statloc =>
    show wp (do return (← waitRound statloc).ctl) _ E s
    rw [wp_bind]
    exact wp_post (numbered_waitRound n running user) fun _ _ => id
  | sleep event =>
    show wp (do return (← psleepSwap (α := PUnit) event).ctl) _ E s
    rw [wp_bind]
    exact wp_post (numbered_psleepSwap n running) fun _ _ => id
  | wakeup event => exact steady Steady.wakeup
  | signal proc sig => exact steady Steady.sendsig
  | unixEnd =>
    show wp (do return (← Uzi.unixEnd).ctl) _ E s
    rw [wp_bind]
    exact wp_post (numbered_unixEnd n running) fun _ _ => id

/-! ## Runs -/

omit [Stopping E] in
/-- The process that is switched to gets the processor. -/
lemma numbered_started (n : s.Numbered) (used : (s.ptab p).pStatus ≠ .empty) (own : s.udata.uPtab = p) :
    (s.started p).Numbered ∧ (s.started p).Running := by
  refine ⟨(n.setProc (x := { s.ptab p with pStatus := .running }) rfl rfl (.inr used)).keep (fun _ => rfl)
    (fun _ => rfl) fun _ => id, ?_⟩
  show ((s.setProc p _).ptab s.udata.uPtab).pStatus = .running
  rw [own, Kernel.ptab_setProc]

/-- What holds of the machine: the numbers are in order, and the current process runs unless the processor is in
`getproc`. -/
def Machine.Numbered (m : Machine) : Prop := m.k.Numbered ∧ (m.ctl = .running → m.k.Running)

omit [Stopping E] in
/-- So does every step of the machine. -/
lemma Machine.Step.numbered {m m' : Machine} (step : Machine.Step ProcOp.InUser m m') (h : m.Numbered) : m'.Numbered := by
  cases step with
  | op o returned user =>
    obtain ⟨placed, running⟩ := (numbered_op (E := fun _ => True) o user h.1 (h.2 rfl)).ok returned
    exact ⟨placed.1, running⟩
  | other elsewhere =>
    have st : Steady _ _ :=
      ⟨elsewhere.pid, elsewhere.swapBlk, fun p => .inl (elsewhere.status p), elsewhere.uPtab⟩
    exact ⟨st.numbered h.1, fun _ => st.running (h.2 rfl)⟩
  | interrupt i returned =>
    have within : Within Steady (fun _ => True) i.run := by
      cases i with
      | wakeup event => exact Steady.wakeup
      | signal proc sig => exact Steady.sendsig
    exact ⟨(within.ok returned).numbered h.1, nofun⟩
  | look round =>
    obtain ⟨rfl, -⟩ := (wp_getprocRound_found (E := fun _ => True) trivial).ok round
    exact ⟨h.1.keep (fun _ => rfl) (fun _ => rfl) fun _ => id, nofun⟩
  | @switch k k' k'' exited newp round returned =>
    obtain ⟨rfl, ready⟩ := (wp_getprocRound_found (E := fun _ => True) trivial).ok round
    have n : ({ k with pp := k.pp + 1 } : Kernel).Numbered := h.1.keep (fun _ => rfl) (fun _ => rfl) fun _ => id
    have used : (k.ptab newp).pStatus ≠ .empty := fun e => absurd (e.symm.trans (ready newp rfl)) nofun
    have load : ∀ (s : Kernel) (u : UData), s.Numbered → s.ptab = k.ptab → u.uPtab = newp →
        ((s.withUdata u).started newp).Numbered ∧ ((s.withUdata u).started newp).Running := by
      intro s u n same own
      refine numbered_started (n.keep (fun _ => rfl) (fun _ => rfl) fun _ => id) ?_ own
      show (s.ptab newp).pStatus ≠ .empty
      rwa [same]
    have switched : wp (switchTo exited newp) (fun _ s' => s'.Numbered ∧ s'.Running) (fun _ => True)
        { k with pp := k.pp + 1 } := by
      refine wp_switchTo_started trivial (fun _ own => load _ _ n rfl own) (fun _ own => numbered_started n used own)
        fun _ own => load _ _ (n.keep (fun _ => rfl) (fun _ => rfl) fun _ => id) rfl own
    obtain ⟨n', running⟩ := switched.ok returned
    exact ⟨n', fun _ => running⟩

omit [Stopping E] in
/-- `init2` gives the first slot to the first process. -/
lemma Booted.numbered {m : Machine} (boot : Booted m) (first : m.k.initproc = 0) : m.Numbered := by
  have only : ∀ p, (m.k.ptab p).pStatus ≠ .empty → p = m.k.initproc := by
    intro p used
    by_contra ne
    exact used (boot.others p ne)
  refine ⟨⟨fun p q used lt => ?_, fun p used => ?_⟩, fun _ => ?_⟩
  · rw [only p used, first] at lt
    exact absurd lt (Nat.not_lt_zero q.val)
  · rw [only p used, boot.init]
  · unfold Kernel.Running
    rw [boot.current, boot.init]

omit [Stopping E] in
/-- So does every run. -/
lemma Machine.Run.numbered {ok : Machine → Prop} {m₀ m : Machine} (boot : Booted m₀) (first : m₀.k.initproc = 0)
    (run : Machine.Run ProcOp.InUser ok m₀ m) : m.Numbered := by
  induction run with
  | start => exact boot.numbered first
  | step _ next _ ih => exact next.numbered ih

/-! ## `_kill` -/

/-- The slot `p` has been sent the signal and nothing else in the table has changed. -/
structure Kernel.Posted (s s' : Kernel) (p : Fin PTABSIZE) (sig : Nat) : Prop where
  others : ∀ q, q ≠ p → s'.ptab q = s.ptab q
  ignored : (s.ptab p).pIgnored &&& sigmask sig ≠ 0 → s' = s
  pending : (s.ptab p).pIgnored &&& sigmask sig = 0 →
    (s'.ptab p).pPending = (s.ptab p).pPending ||| sigmask sig

omit [Stopping E] in
/-- `ssig` posts the signal where the process is. -/
lemma wp_ssig_posted {sig : Nat} (used : (s.ptab p).pStatus ≠ .empty) :
    wp (ssig p sig) (fun _ s' => s.Posted s' p sig) E s := by
  unfold ssig
  rw [wp_bind, wp_get, wp_ite, if_neg used, wp_ite]
  split
  · next ignores => exact ⟨fun _ _ => rfl, fun _ => rfl, fun heeds => absurd heeds ignores⟩
  · next heeds =>
    rw [wp_modifyPtab]
    refine ⟨fun q ne => Kernel.ptab_setProc_of_ne ne, fun ignores => absurd ignores heeds, fun _ => ?_⟩
    rw [Kernel.ptab_setProc]

omit [Stopping E] in
/-- `_kill` in a table whose numbers are in order. -/
lemma Kernel.Numbered.wp_kill {pid sig : Word} (n : s.Numbered) (used : (s.ptab p).pStatus ≠ .empty)
    (own : (s.ptab p).pPid = pid.toNat) (low : 1 ≤ sig.toInt) (high : sig.toInt ≤ 15) :
    ((List.finRange PTABSIZE).find? fun q => (s.ptab q).pPid = pid.toNat) = some p ∧
      wp (_kill pid sig) (fun r s' => r = 0 ∧ s.Posted s' p sig.toNat) E s := by
  have found : ((List.finRange PTABSIZE).find? fun q => (s.ptab q).pPid = pid.toNat) = some p := by
    refine find?_finRange.mpr ⟨decide_eq_true own, fun q lt => decide_eq_false ?_⟩
    rw [← own]
    exact n.first p q used lt
  refine ⟨found, ?_⟩
  unfold _kill
  rw [wp_bind, wp_get, wp_ite, if_neg (by omega), found]
  dsimp only
  rw [wp_bind]
  exact wp_post (wp_ssig_posted used) fun _ s' posted => ⟨rfl, posted⟩

omit [Stopping E] in
/-- In every state that forks, exits, waits with status pointers into the memory of the process, and the rest of the
processor's steps lead to, the first slot with the number of a process is that of the process, and `_kill` posts a
signal there and nowhere else. -/
theorem kill_reaches {m₀ m : Machine} (boot : Booted m₀) (first : m₀.k.initproc = 0)
    (run : Machine.Run ProcOp.InUser (fun _ => True) m₀ m) (used : (m.k.ptab p).pStatus ≠ .empty) {pid sig : Word}
    (own : (m.k.ptab p).pPid = pid.toNat) (low : 1 ≤ sig.toInt) (high : sig.toInt ≤ 15) :
    ((List.finRange PTABSIZE).find? fun q => (m.k.ptab q).pPid = pid.toNat) = some p ∧
      wp (_kill pid sig) (fun r s' => r = 0 ∧ m.k.Posted s' p sig.toNat) (fun _ => False) m.k :=
  (run.numbered boot first).1.wp_kill used own low high

/-- A child of the first process exits and is taken up when there is another one, which pauses. -/
def Move.siblings : List Move :=
  [.op .fork, .op (.exit 0 0)] ++ List.replicate 20 .go ++ [.op .fork, .op (.sleep .none)] ++
    List.replicate 20 .go ++ [.op (.wait PROGBASE)]

set_option maxRecDepth 8000 in
/-- The run, played: slot 1 is empty and has number 2. -/
lemma siblings_left : ((Machine.moves ProcOp.InUser (fun _ => true) Move.siblings Machine.booted).map fun m =>
    decide ((m.k.ptab 1).pStatus = .empty ∧ (m.k.ptab 1).pPid = 2 ∧ (m.k.ptab 2).pStatus = .pause ∧
      (m.k.ptab 2).pPid = 3)) = some true := by decide +kernel

/-- The slot of the first child is empty and has its number still, and a signal reaches the other child. -/
theorem kill_reaches_siblings : ∃ m, Machine.Run ProcOp.InUser (fun _ => True) Machine.booted m ∧
    (m.k.ptab 1).pStatus = .empty ∧ (m.k.ptab 1).pPid = 2 ∧
      wp (_kill 3 9) (fun r s' => r = 0 ∧ m.k.Posted s' 2 9) (fun _ => False) m.k := by
  obtain ⟨m, moved, h⟩ := Option.map_eq_some_iff.mp siblings_left
  obtain ⟨empty, left, pause, own⟩ := of_decide_eq_true h
  have run := Machine.moves_run (fun _ _ => trivial) .start moved
  have used : (m.k.ptab 2).pStatus ≠ .empty := pause ▸ nofun
  have own : (m.k.ptab 2).pPid = (3 : Word).toNat := own
  exact ⟨m, run, empty, left, (kill_reaches booted_booted rfl run used own (by decide) (by decide)).2⟩

end Numbers

end Uzi
