import Uzi.Sched.Sleepers

/-!
# No lost wakeups on pipes

Processes that read, write and close files, on the machine of `Machine.Step`. A process that sleeps in a
transfer has a request pending, which it takes up again when it is resumed. Whoever sleeps on the inode
of a pipe, sleeps for a reason that still holds (`Kernel.Waiting`).
-/

namespace Uzi
open Exec

variable {s s' : Kernel} {p q : Fin PTABSIZE} {ino : Inoptr} {E : Panic → Prop}

/-! ## Requests -/

/-- A transfer that has been set up: the descriptor, its inode, and whether it is a write. -/
structure Request where
  d : Word
  ino : Inoptr
  write : Bool
  deriving DecidableEq

namespace Request

/-- The set-up of a transfer, for `_read` and `_write`. -/
def setup (d : Word) (buf : Nat) (nbytes : Word) (write : Bool) : K (Option Inoptr) :=
  rwsetup d buf nbytes (!write)

/-- The transfer from the call of `readi` or `writei` on. -/
def run (r : Request) : K (Option Word) := if r.write then writeTo r.d r.ino else readFrom r.d r.ino

/-- A process with this request and `count` as its `u_count` has a reason to sleep: the other end of the
pipe is open, and there is nothing to read or no room for what it writes. -/
def Blocked (r : Request) (s : Kernel) (count : Word) : Prop :=
  (s.iTab r.ino).cRefs ≠ 1 ∧
    if r.write then 16 * 512 - psize s.target (s.iTab r.ino).cNode.iSize < count.toNat
    else psize s.target (s.iTab r.ino).cNode.iSize = 0

end Request

/-- `u_count` of a process, which is in the swap space for all but the current one. -/
def Kernel.countOf (s : Kernel) (p : Fin PTABSIZE) : Word :=
  if p = s.udata.uPtab then s.udata.uCount else (s.swap (s.ptab p).pSwap).uCount

variable {pending : Fin PTABSIZE → Option Request}

/-- Process `p` sleeps on no inode, or on that of a pipe for a reason that holds. -/
def Kernel.WaitsFor (s : Kernel) (pending : Fin PTABSIZE → Option Request) (p : Fin PTABSIZE) : Prop :=
  ∀ ino, s.SleepsOn ino p → (s.iTab ino).getmode = F_PIPE ∧
    ∃ r, pending p = some r ∧ r.ino = ino ∧ r.Blocked s (s.countOf p)

/-- Whoever sleeps on an inode has a reason, and every image is in its place. -/
structure Kernel.Waiting (s : Kernel) (pending : Fin PTABSIZE → Option Request) : Prop where
  waits : ∀ p, s.WaitsFor pending p
  images : ∀ p, (s.ptab p).pStatus ≠ .empty → (s.ptab p).pSwap = swapBlk p
  own : (s.ptab s.udata.uPtab).pSwap = swapBlk s.udata.uPtab

/-- A request is blocked by what the inode is used for. -/
lemma Request.Blocked.sameUse {r : Request} {count : Word} (h : r.Blocked s count)
    (same : (s.iTab r.ino).SameUse (s'.iTab r.ino)) (target : s'.target = s.target) :
    r.Blocked s' count := by
  unfold Request.Blocked
  rw [same.refs, same.size, target]
  exact h

/-- Processes that wait for a pipe are guarded. -/
lemma Kernel.Waiting.guarded (w : s.Waiting pending) : s.Guarded := fun ino p _ sleeps =>
  (w.waits p ino sleeps).1

/-- The other processes go on waiting when the sleepers are kept. -/
lemma Kernel.Waiting.others (w : s.Waiting pending) (h : Kept s s') (other : p ≠ s.udata.uPtab) :
    s'.WaitsFor pending p := by
  intro ino sleeps
  have same := h.use ino p other sleeps
  obtain ⟨pipe, r, request, on, blocked⟩ := w.waits p ino (h.sleepsOn other sleeps)
  subst on
  have count : s'.countOf p = s.countOf p := by
    unfold Kernel.countOf
    rw [if_neg other, h.uPtab, if_neg other, h.swap, h.image]
  refine ⟨same.getmode.trans pipe, r, request, rfl, ?_⟩
  rw [count]
  exact blocked.sameUse same h.target

/-- The images stay where they are. -/
lemma Resting.images (h : Resting s s') (images : ∀ p, (s.ptab p).pStatus ≠ .empty → (s.ptab p).pSwap = swapBlk p) :
    ∀ p, (s'.ptab p).pStatus ≠ .empty → (s'.ptab p).pSwap = swapBlk p :=
  fun p used => (h.image p).trans (images p (h.used p used))

/-- The image of the current process stays where it is. -/
lemma Resting.own (h : Resting s s') (own : (s.ptab s.udata.uPtab).pSwap = swapBlk s.udata.uPtab) :
    (s'.ptab s'.udata.uPtab).pSwap = swapBlk s'.udata.uPtab := by
  rw [h.image, h.uPtab]
  exact own

/-- A running process waits for nothing. -/
lemma Kernel.Running.waitsFor (running : s.Running) : s.WaitsFor pending s.udata.uPtab := by
  intro ino sleeps
  exact absurd (running.symm.trans sleeps.1) nofun

/-- The waiting processes wait on when the current one keeps to itself. -/
lemma Kernel.Waiting.keeping (w : s.Waiting pending) (running : s.Running) (h : Keeping s s') :
    s'.Waiting pending ∧ s'.Running := by
  have kept := h w.guarded
  have running' := kept.running running
  refine ⟨⟨fun p => ?_, kept.images w.images, kept.own w.own⟩, running'⟩
  by_cases own : p = s.udata.uPtab
  · rw [own, ← kept.uPtab]
    exact running'.waitsFor
  · exact w.others kept own

/-- The current process changes its entry, and sleeps on no inode then. -/
lemma Kernel.WaitsFor.turn {x : PTab} (h : s.WaitsFor pending p) (other : p ≠ s.udata.uPtab) :
    (s.setProc s.udata.uPtab x).WaitsFor pending p := by
  intro ino sleeps
  have entry := Kernel.ptab_setProc_of_ne (s := s) (x := x) other
  have sleeps : s.SleepsOn ino p := by
    unfold Kernel.SleepsOn at sleeps
    rw [entry] at sleeps
    exact sleeps
  obtain ⟨pipe, r, request, on, blocked⟩ := h ino sleeps
  have count : (s.setProc s.udata.uPtab x).countOf p = s.countOf p := by
    show (if p = s.udata.uPtab then _ else (s.swap ((s.setProc s.udata.uPtab x).ptab p).pSwap).uCount) = _
    rw [entry]
    rfl
  refine ⟨pipe, r, request, on, ?_⟩
  rw [count]
  exact blocked

/-- The images stay when an entry changes. -/
lemma Kernel.images_turn {x : PTab} (images : ∀ p, (s.ptab p).pStatus ≠ .empty → (s.ptab p).pSwap = swapBlk p)
    (swap : x.pSwap = swapBlk q) :
    ∀ p, ((s.setProc q x).ptab p).pStatus ≠ .empty → ((s.setProc q x).ptab p).pSwap = swapBlk p := by
  intro p used
  by_cases own : p = q
  · rw [own, Kernel.ptab_setProc, swap]
  · rw [Kernel.ptab_setProc_of_ne own] at used ⊢
    exact images p used

/-- The current process stops running without going to sleep on an inode. -/
lemma Kernel.Waiting.turn {x : PTab} (w : s.Waiting pending)
    (swap : x.pSwap = (s.ptab s.udata.uPtab).pSwap)
    (awake : ∀ ino, x.pStatus = .sleep → x.pWait ≠ s.layout.addr (.inode ino)) :
    (s.setProc s.udata.uPtab x).Waiting pending := by
  refine ⟨fun p => ?_, Kernel.images_turn w.images (swap.trans w.own), ?_⟩
  · by_cases own : p = s.udata.uPtab
    · intro ino ⟨sleep, on⟩
      rw [own, Kernel.ptab_setProc] at sleep on
      exact absurd on (awake ino sleep)
    · exact (w.waits p).turn own
  · show ((s.setProc s.udata.uPtab x).ptab s.udata.uPtab).pSwap = _
    rw [Kernel.ptab_setProc, swap]
    exact w.own

/-! ## Signals and exits -/

/-- Signals and wakeups change neither inodes nor `u_count`, and put no one to sleep. -/
structure Signalling (s s' : Kernel) : Prop extends Resting s s' where
  iTab : s'.iTab = s.iTab
  count : s'.udata.uCount = s.udata.uCount
  own : (s'.ptab s.udata.uPtab).pStatus = .sleep → (s.ptab s.udata.uPtab).pStatus = .sleep ∧
    (s'.ptab s.udata.uPtab).pWait = (s.ptab s.udata.uPtab).pWait

instance : IsPreorder Kernel Signalling where
  refl _ := ⟨refl_of Resting _, rfl, rfl, fun h => ⟨h, rfl⟩⟩
  trans s s' s'' h h' := by
    refine ⟨trans_of Resting h.toResting h'.toResting, h'.iTab.trans h.iTab, h'.count.trans h.count,
      fun sleep => ?_⟩
    rw [← h.uPtab] at sleep ⊢
    obtain ⟨sleep', same'⟩ := h'.own sleep
    rw [h.uPtab] at sleep' same' ⊢
    obtain ⟨sleep'', same⟩ := h.own sleep'
    exact ⟨sleep'', same'.trans same⟩

/-- The waiting processes wait on when signals are sent. -/
lemma Kernel.Waiting.signalling (w : s.Waiting pending) (h : Signalling s s') : s'.Waiting pending := by
  have kept : Kept s s' := .of_iTab h.toResting h.iTab
  refine ⟨fun p => ?_, kept.images w.images, kept.own w.own⟩
  by_cases own : p = s.udata.uPtab
  · intro ino sleeps
    rw [own] at sleeps ⊢
    obtain ⟨sleep, same⟩ := h.own sleeps.1
    have sleeps : s.SleepsOn ino s.udata.uPtab := ⟨sleep, by rw [← same, sleeps.2, h.layout]⟩
    obtain ⟨pipe, r, request, on, blocked⟩ := w.waits _ ino sleeps
    have count : s'.countOf s.udata.uPtab = s.countOf s.udata.uPtab := by
      unfold Kernel.countOf
      rw [if_pos rfl, if_pos h.uPtab.symm, h.count]
    refine ⟨by rw [h.iTab]; exact pipe, r, request, on, ?_⟩
    rw [count]
    exact blocked.sameUse (h.iTab ▸ .refl) h.target
  · exact w.others kept own

/-- An entry whose process may have been woken up. -/
lemma Signalling.setProc {x : PTab} (used : x.pStatus ≠ .empty → (s.ptab p).pStatus ≠ .empty)
    (swap : x.pSwap = (s.ptab p).pSwap)
    (sleep : x.pStatus = .sleep → (s.ptab p).pStatus = .sleep ∧ x.pWait = (s.ptab p).pWait)
    (running : (s.ptab p).pStatus = .running → x.pStatus = .running) : Signalling s (s.setProc p x) := by
  refine ⟨.setProc swap used (fun _ => sleep) running, rfl, rfl, ?_⟩
  by_cases own : s.udata.uPtab = p
  · rwa [own, Kernel.ptab_setProc]
  · rw [Kernel.ptab_setProc_of_ne own]
    exact fun h => ⟨h, rfl⟩

namespace Signalling

/-- A signal wakes nobody without a reason. -/
lemma ssig {sig : Nat} : Within Signalling E (ssig p sig) := by
  intro s
  unfold Uzi.ssig
  rw [wp_bind, wp_get, wp_ite]
  split
  · exact refl_of Signalling s
  rw [wp_ite]
  split
  · exact refl_of Signalling s
  rw [wp_modifyPtab]
  have used : (s.ptab p).pStatus ≠ .empty := by assumption
  refine .setProc (fun _ => used) rfl ?_ ?_
  · dsimp only
    split
    · exact nofun
    · next awake => exact fun sleep => absurd (.inr (.inr sleep)) awake
  · dsimp only
    split
    · next asleep =>
      intro running
      rw [running] at asleep
      exact absurd asleep (by decide)
    · exact id

/-- `sendsig` wakes nobody without a reason. -/
lemma sendsig {proc : Option (Fin PTABSIZE)} {sig : Nat} : Within Signalling E (sendsig proc sig) := by
  cases proc with
  | some p => exact ssig
  | none => exact .each (fun p => .bind .get fun _ => .ite ssig .pure) _

/-- A wakeup makes processes ready. -/
lemma woken {event : Event} : Signalling s { s with ptab := s.woken event } := by
  refine ⟨.woken, rfl, rfl, fun sleep => ?_⟩
  have sleep : (s.woken event s.udata.uPtab).pStatus = .sleep := sleep
  show _ ∧ (s.woken event s.udata.uPtab).pWait = _
  unfold Kernel.woken at sleep ⊢
  split at sleep
  · exact absurd sleep nofun
  · next awake =>
    rw [if_neg awake]
    exact ⟨sleep, rfl⟩

/-- An interrupt wakes nobody without a reason. -/
lemma interrupt {i : Interrupt} : Within Signalling E i.run := by
  cases i with
  | wakeup event => exact fun _ => woken
  | signal proc sig => exact sendsig

end Signalling

/-- The processes wait for a reason, and the current one, which has exited, does not sleep. -/
structure Kernel.Left (s : Kernel) (pending : Fin PTABSIZE → Option Request) : Prop extends
    s.Waiting pending where
  awake : (s.ptab s.udata.uPtab).pStatus ≠ .sleep

/-- `doexit` leaves the others waiting. -/
lemma Kernel.Waiting.wp_doexit {val val2 : Word} (w : s.Waiting pending) :
    wp (doexit val val2) (fun _ s' => s'.Left pending) (fun _ => True) s := by
  refine wp_post wp_doexit_keeping fun _ s' ⟨s₁, keeping, same⟩ => ?_
  subst same
  have kept := keeping w.guarded
  have own₁ := kept.own w.own
  have gone : ((s₁.setProc s₁.udata.uPtab { s₁.ptab s₁.udata.uPtab with pStatus := .zombie }).ptab
      s₁.udata.uPtab).pStatus ≠ .sleep := by
    rw [Kernel.ptab_setProc]
    exact nofun
  refine ⟨⟨fun p => ?_, Kernel.images_turn (kept.images w.images) own₁, ?_⟩, gone⟩
  · by_cases own : p = s₁.udata.uPtab
    · intro ino ⟨sleep, _⟩
      rw [own, Kernel.ptab_setProc] at sleep
      exact absurd sleep nofun
    · exact (w.others kept (kept.uPtab ▸ own)).turn own
  · show ((s₁.setProc s₁.udata.uPtab _).ptab s₁.udata.uPtab).pSwap = _
    rw [Kernel.ptab_setProc]
    exact own₁

/-- A round of `chksigs` leaves the others waiting. -/
lemma Kernel.Waiting.wp_chksigsLoop {js : List (Fin NSIGS)} (w : s.Waiting pending) :
    wp (chksigsLoop js) (fun exited s' => if exited then s'.Left pending else Signalling s s')
      (fun _ => True) s := by
  induction js generalizing s with
  | nil => exact refl_of Signalling s
  | cons j js ih =>
    rw [chksigsLoop, wp_bind, wp_get, wp_ite]
    split
    · exact ih w
    rw [wp_ite]
    split
    · rw [wp_bind]
      exact wp_post w.wp_doexit fun _ _ => id
    rw [wp_ite]
    split
    · rw [wp_bind, wp_modifyPtab, wp_bind, wp_modifyUdata]
      have h₁ : Signalling s (s.setProc s.udata.uPtab { s.ptab s.udata.uPtab with
          pPending := (s.ptab s.udata.uPtab).pPending &&& logicalNot (sigmask j) }) :=
        .setProc id rfl (fun h => ⟨h, rfl⟩) id
      generalize s.setProc _ _ = s₁ at h₁ ⊢
      have h₂ : Signalling s₁ (s₁.withUdata { s₁.udata with uCursig := BitVec.ofNat 16 j }) :=
        ⟨.of_ptab rfl rfl rfl rfl rfl, rfl, rfl, fun h => ⟨h, rfl⟩⟩
      have h := trans_of Signalling h₁ h₂
      generalize s₁.withUdata _ = s₂ at h ⊢
      refine wp_post (ih (w.signalling h)) fun exited s' post => ?_
      cases exited with
      | true => exact post
      | false => exact trans_of Signalling h post
    · exact ih w

/-- `chksigs` leaves the others waiting. -/
lemma Kernel.Waiting.wp_chksigs (w : s.Waiting pending) :
    wp chksigs (fun exited s' => if exited then s'.Left pending else Signalling s s') (fun _ => True) s := by
  unfold chksigs
  rw [wp_bind, wp_get, wp_ite]
  split
  · exact refl_of Signalling s
  · exact w.wp_chksigsLoop

/-- What an operation leaves behind that comes to `ctl`. -/
def Kernel.Rests (pending : Fin PTABSIZE → Option Request) (s' : Kernel) : Ctl → Prop
  | .running => s'.Waiting pending ∧ s'.Running
  | .getproc false => s'.Waiting pending
  | .getproc true => s'.Left pending

/-- `swapout` leaves the others waiting. -/
lemma Kernel.Waiting.wp_swapout {α : Type} (w : s.Waiting pending) :
    wp (swapout (α := α)) (fun r s' => s'.Rests pending r.ctl) (fun _ => True) s := by
  unfold swapout
  rw [wp_bind]
  refine wp_post w.wp_chksigs fun exited s' post => ?_
  cases exited with
  | true => exact post
  | false => exact w.signalling post

/-! ## Operations -/

/-- `psleep` on something that is no inode. -/
lemma Kernel.Waiting.wp_psleepSwap {α : Type} {event : Event} (w : s.Waiting pending)
    (other : ∀ ino, event ≠ .inode ino) :
    wp (psleepSwap (α := α) event) (fun r s' => s'.Rests pending r.ctl) (fun _ => True) s := by
  unfold psleepSwap psleep
  rw [wp_bind, wp_bind, wp_get, wp_ite]
  split
  · trivial
  rw [wp_modifyPtab]
  refine Kernel.Waiting.wp_swapout (w.turn ?_ fun ino _ on => ?_)
  · rfl
  · exact other ino (s.layout.injective on)

/-- A round of `_wait` leaves the others waiting. -/
lemma Kernel.Waiting.wp_waitRound {statloc : Nat} (w : s.Waiting pending) (running : s.Running)
    (user : s.Collects → s.layout.TakesStatus statloc) :
    wp (waitRound statloc) (fun r s' => s'.Rests pending r.ctl) (fun _ => True) s := by
  unfold waitRound
  rw [wp_bind, wp_get, wp_bind]
  refine wp_post w.wp_chksigs.run fun exited s₁ ⟨post, returned⟩ => ?_
  cases exited with
  | true => exact post
  | false =>
    have h : Signalling s s₁ := post
    have w₁ := w.signalling h
    have running₁ := h.running running
    rw [if_neg nofun, wp_bind, wp_get, wp_ite]
    split
    · rw [wp_bind]
      have error : Within Keeping (fun _ => True) (setError .eintr) := Quiet.setError
      exact wp_post (error s₁) fun _ _ h => w₁.keeping running₁ h
    · next idle =>
      rw [wp_bind, wp_get]
      cases child : s₁.zombieChild with
      | none =>
        dsimp only
        rw [wp_bind, wp_get]
        exact w₁.wp_psleepSwap fun _ => nofun
      | some p =>
        dsimp only
        rw [wp_bind]
        refine wp_post (wp_reap (Kernel.Collects.user user returned idle child)) fun _ s₂ ⟨u, same, h⟩ => ?_
        subst h
        have dead := zombieChild_dead child
        have buried : Resting s₁ (s₁.setProc p { s₁.ptab p with pStatus := .empty }) := by
          refine .setProc rfl (fun h => absurd rfl h) (fun _ => nofun) fun running => ?_
          exact absurd (dead.symm.trans running) nofun
        have data : Resting (s₁.setProc p { s₁.ptab p with pStatus := .empty })
            ((s₁.setProc p { s₁.ptab p with pStatus := .empty }).withUdata u) := .of_ptab rfl rfl rfl rfl same
        exact w₁.keeping running₁ (.of_iTab (trans_of Resting buried data) rfl)

/-- `_wait` leaves the others waiting. -/
lemma Kernel.Waiting.wp_wait {statloc : Nat} (w : s.Waiting pending) (running : s.Running)
    (user : s.Collects → ¬ s.layout.udata < statloc → s.layout.TakesStatus statloc) :
    wp (_wait statloc) (fun r s' => s'.Rests pending r.ctl) (fun _ => True) s := by
  have failed : ∀ e, wp (do setError e; pure (CallEnd.returned 0xffff)) (fun r s' => s'.Rests pending r.ctl)
      (fun _ => True) s := by
    intro e
    have error : Within Keeping (fun _ => True) (setError e) := Quiet.setError
    rw [wp_bind]
    exact wp_post (error s) fun _ _ h => w.keeping running h
  unfold _wait
  rw [wp_bind, wp_get, wp_ite]
  split
  · exact failed .efault
  next passed =>
  rw [wp_ite]
  split
  · exact failed .echild
  · exact w.wp_waitRound running fun collects => user collects passed

/-- The end of a system call leaves the others waiting. -/
lemma Kernel.Waiting.wp_unixEnd (w : s.Waiting pending) (running : s.Running) :
    wp unixEnd (fun r s' => s'.Rests pending r.ctl) (fun _ => True) s := by
  unfold unixEnd
  rw [wp_bind]
  refine wp_post w.wp_chksigs fun exited s₁ post => ?_
  cases exited with
  | true => exact post
  | false =>
    have h : Signalling s s₁ := post
    have w₁ := w.signalling h
    rw [if_neg nofun, wp_bind, wp_get, wp_ite]
    split
    · rw [wp_bind, wp_modifyPtab]
      exact (w₁.turn (x := { s₁.ptab s₁.udata.uPtab with pStatus := .ready }) rfl fun _ => nofun).wp_swapout
    · exact ⟨w₁, h.running running⟩

/-- The operation is not a fork, and does not sleep on an inode outside of a transfer. -/
def ProcOp.Aside : ProcOp → Prop
  | .fork => False
  | .sleep event => ∀ ino, event ≠ .inode ino
  | _ => True

/-- An operation that is not on a pipe leaves the others waiting. -/
lemma ProcOp.wp_rests (o : ProcOp) (aside : o.Aside) {ctl : Ctl} (user : o.InUser s ctl) (w : s.Waiting pending)
    (running : s.Running) :
    wp o.run (fun ctl s' => s'.Rests pending ctl) (fun _ => True) s := by
  have quiet : ∀ {c : K PUnit}, Within Signalling (fun _ => True) c →
      wp (do c; pure Ctl.running) (fun ctl s' => s'.Rests pending ctl) (fun _ => True) s := by
    intro c h
    rw [wp_bind]
    exact wp_post (h s) fun _ s' h => ⟨w.signalling h, h.running running⟩
  cases o with
  | fork => exact aside.elim
  | exit val val2 =>
    show wp (do doexit val val2; pure (Ctl.getproc true)) _ _ s
    rw [wp_bind]
    exact wp_post w.wp_doexit fun _ _ => id
  | wait statloc =>
    show wp (do return (← _wait statloc).ctl) _ _ s
    rw [wp_bind]
    exact wp_post (w.wp_wait running user) fun _ _ => id
  | waitOn statloc =>
    show wp (do return (← waitRound statloc).ctl) _ _ s
    rw [wp_bind]
    exact wp_post (w.wp_waitRound running user) fun _ _ => id
  | sleep event =>
    show wp (do return (← psleepSwap (α := PUnit) event).ctl) _ _ s
    rw [wp_bind]
    exact wp_post (w.wp_psleepSwap aside) fun _ _ => id
  | wakeup event => exact quiet fun _ => Signalling.woken
  | signal proc sig => exact quiet Signalling.sendsig
  | unixEnd =>
    show wp (do return (← Uzi.unixEnd).ctl) _ _ s
    rw [wp_bind]
    exact wp_post (w.wp_unixEnd running) fun _ _ => id

/-! ## Transfers -/

/-- The setup of a request keeps to the process. -/
lemma Keeping.setup {d nbytes : Word} {buf : Nat} {write : Bool} :
    Within Keeping (fun _ => True) (Request.setup d buf nbytes write) := by
  refine .bind (Keeping.modifyUdata fun _ => rfl) fun _ => Quiet.getinode.bind fun r => ?_
  cases r with
  | none => exact .pure
  | some ino =>
    refine .bind .get fun _ => .ite (Quiet.setError.bind fun _ => .pure) ?_
    exact Quiet.setftime.bind fun _ => .bind (Keeping.modifyUdata fun _ => rfl) fun _ => .pure

/-- A transfer goes to sleep with a reason, or it keeps the sleepers. -/
lemma Request.wp_run (r : Request) :
    wp r.run (fun n s' => match n with
      | some _ => Keeping s s'
      | none => s' = s.slept r.ino ∧ (s.iTab r.ino).getmode = F_PIPE ∧ r.Blocked s s.udata.uCount)
      (fun _ => True) s := by
  have done : ∀ s', Keeping s s' → wp (do
      updoff r.d
      pure (some (← get).udata.uCount)) (fun n s' => match n with
        | some _ => Keeping s s'
        | none => s' = s.slept r.ino ∧ (s.iTab r.ino).getmode = F_PIPE ∧ r.Blocked s s.udata.uCount)
        (fun _ => True) s' := by
    intro s' h
    rw [wp_bind]
    have offset : Within Keeping (fun _ => True) (updoff r.d) := Describing.updoff
    exact wp_post (offset s') fun _ _ h' => trans_of Keeping h h'
  unfold Request.run
  rw [wp_ite]
  split
  · next write =>
    unfold writeTo
    rw [wp_bind]
    refine wp_post wp_writei_keeping fun progress s' post => ?_
    cases progress with
    | returned => exact done s' post
    | asleep =>
      obtain ⟨same, pipe, ends, full⟩ := post
      exact ⟨same, pipe, ends, by rwa [if_pos write]⟩
  · next write =>
    unfold readFrom
    rw [wp_bind]
    refine wp_post wp_readi_keeping fun progress s' post => ?_
    cases progress with
    | returned => exact done s' post
    | asleep =>
      obtain ⟨same, pipe, ends, empty⟩ := post
      exact ⟨same, pipe, ends, by rwa [if_neg write]⟩

/-- The process that has gone to sleep waits for its request. -/
lemma Kernel.Waiting.slept {r : Request} (w : s.Waiting pending) (request : pending s.udata.uPtab = some r)
    (pipe : (s.iTab r.ino).getmode = F_PIPE) (blocked : r.Blocked s s.udata.uCount) :
    (s.slept r.ino).Waiting pending := by
  refine ⟨fun p => ?_, Kernel.images_turn w.images w.own, ?_⟩
  · by_cases own : p = s.udata.uPtab
    · subst own
      intro ino ⟨_, on⟩
      have on : ((s.setProc s.udata.uPtab _).ptab s.udata.uPtab).pWait = s.layout.addr (.inode ino) := on
      rw [Kernel.ptab_setProc] at on
      cases s.layout.injective on
      refine ⟨pipe, r, request, rfl, ?_⟩
      have count : (s.slept r.ino).countOf s.udata.uPtab = s.udata.uCount := if_pos rfl
      rw [count]
      exact blocked
    · exact (w.waits p).turn own
  · show ((s.setProc s.udata.uPtab _).ptab s.udata.uPtab).pSwap = _
    rw [Kernel.ptab_setProc]
    exact w.own

/-- A transfer of the running process that goes to sleep is swapped out. -/
def Request.runSwap (r : Request) : K (CallEnd Word) := do
  match ← r.run with
  | some n => pure (.returned n)
  | none => swapout

/-- A request on a pipe goes on, or waits with the others. -/
lemma Kernel.Waiting.wp_runSwap {r : Request} (w : s.Waiting pending) (running : s.Running)
    (request : pending s.udata.uPtab = some r) :
    wp r.runSwap (fun e s' => s'.Rests pending e.ctl) (fun _ => True) s := by
  unfold Request.runSwap
  rw [wp_bind]
  refine wp_post r.wp_run fun n s' post => ?_
  cases n with
  | some n => exact w.keeping running post
  | none =>
    obtain ⟨rfl, pipe, blocked⟩ := post
    exact (w.slept request pipe blocked).wp_swapout

/-! ## Another process -/

/-- The current process goes on. -/
lemma Kernel.Waiting.wp_resume (w : s.Waiting pending) :
    wp (do
      modifyPtab s.udata.uPtab fun x => { x with pStatus := .running }
      modify fun s => { s with runticks := 0 }) (fun _ s' => s'.Rests pending .running) E s := by
  rw [wp_bind, wp_modifyPtab, wp_modify]
  have w₁ := w.turn (x := { s.ptab s.udata.uPtab with pStatus := .running }) rfl fun _ => nofun
  have running₁ : (s.setProc s.udata.uPtab { s.ptab s.udata.uPtab with pStatus := .running }).Running := by
    show ((s.setProc s.udata.uPtab _).ptab s.udata.uPtab).pStatus = .running
    rw [Kernel.ptab_setProc]
  generalize s.setProc _ _ = s₁ at w₁ running₁ ⊢
  exact w₁.keeping running₁ (.of_iTab (.of_ptab rfl rfl rfl rfl rfl) rfl)

/-- Every process waits for a reason, with its `u_count` in the swap space. -/
structure Kernel.SwappedOut (s : Kernel) (pending : Fin PTABSIZE → Option Request) : Prop where
  waits : ∀ ino p, s.SleepsOn ino p → (s.iTab ino).getmode = F_PIPE ∧
    ∃ r, pending p = some r ∧ r.ino = ino ∧ r.Blocked s (s.swap (s.ptab p).pSwap).uCount
  images : ∀ p, (s.ptab p).pStatus ≠ .empty → (s.ptab p).pSwap = swapBlk p

/-- A process that has exited is out of the way. -/
lemma Kernel.Left.swappedOut (l : s.Left pending) : s.SwappedOut pending := by
  refine ⟨fun ino p sleeps => ?_, l.images⟩
  have other : p ≠ s.udata.uPtab := fun own => l.awake (own ▸ sleeps.1)
  obtain ⟨pipe, r, request, on, blocked⟩ := l.waits p ino sleeps
  unfold Kernel.countOf at blocked
  rw [if_neg other] at blocked
  exact ⟨pipe, r, request, on, blocked⟩

/-- The image that `swrite` leaves of the current process has its `u_count`. -/
lemma Kernel.Waiting.count_saved (w : s.Waiting pending) (used : (s.ptab p).pStatus ≠ .empty) :
    (s.saved.swap (s.saved.ptab p).pSwap).uCount = s.countOf p := by
  show (Function.update s.swap (s.ptab s.udata.uPtab).pSwap s.udata (s.ptab p).pSwap).uCount = _
  unfold Kernel.countOf
  rw [w.own]
  by_cases own : p = s.udata.uPtab
  · rw [if_pos own, own, w.own, Function.update_self]
  · rw [if_neg own, w.images p used, Function.update_of_ne fun e => own (swapBlk_inj e)]

/-- A process that is swapped out waits with the others. -/
lemma Kernel.Waiting.swappedOut (w : s.Waiting pending) : s.saved.SwappedOut pending := by
  refine ⟨fun ino p sleeps => ?_, w.images⟩
  obtain ⟨pipe, r, request, on, blocked⟩ := w.waits p ino sleeps
  refine ⟨pipe, r, request, on, ?_⟩
  have used : (s.ptab p).pStatus ≠ .empty := fun empty => absurd (empty.symm.trans sleeps.1) nofun
  rw [w.count_saved used]
  exact blocked

/-- `swapin` goes on with a process that need not wait. -/
lemma Kernel.SwappedOut.wp_swapin (h : s.SwappedOut pending) (ready : (s.ptab p).pStatus = .ready) :
    wp (swapin p) (fun _ s' => s'.Rests pending .running) (fun _ => True) s := by
  unfold swapin
  rw [wp_bind, wp_modify, wp_bind, wp_get, wp_ite]
  split
  · trivial
  · next own =>
    have own := not_not.mp own
    have image : (s.ptab p).pSwap = swapBlk p := h.images p (ready ▸ nofun)
    have loaded : ({ s with udata := s.swap (s.ptab p).pSwap } : Kernel).Waiting pending := by
      refine ⟨fun q ino sleeps => ?_, h.images, own ▸ image⟩
      obtain ⟨pipe, r, request, on, blocked⟩ := h.waits ino q sleeps
      refine ⟨pipe, r, request, on, ?_⟩
      have sleep : (s.ptab q).pStatus = .sleep := sleeps.1
      have other : q ≠ (s.swap (s.ptab p).pSwap).uPtab := by
        intro same
        rw [same.trans own.symm, ready] at sleep
        exact absurd sleep nofun
      have count : ({ s with udata := s.swap (s.ptab p).pSwap } : Kernel).countOf q =
          (s.swap (s.ptab q).pSwap).uCount := if_neg other
      rw [count]
      exact blocked
    generalize ({ s with udata := s.swap (s.ptab p).pSwap } : Kernel) = s₁ at own loaded ⊢
    subst own
    exact loaded.wp_resume

/-- The process that `getproc` has selected goes on. -/
lemma Kernel.Rests.wp_switchTo {exited : Bool} (h : s.Rests pending (.getproc exited))
    (ready : (s.ptab p).pStatus = .ready) :
    wp (switchTo exited p) (fun _ s' => s'.Rests pending .running) (fun _ => True) s := by
  unfold switchTo
  rw [wp_bind, wp_get]
  cases exited with
  | true => exact (Kernel.Left.swappedOut h).wp_swapin ready
  | false =>
    have w : s.Waiting pending := h
    rw [if_neg nofun, wp_ite]
    split
    · next own =>
      subst own
      exact w.wp_resume
    · rw [wp_bind, wp_swrite]
      exact w.swappedOut.wp_swapin ready

/-- `getproc` finds a process that is ready. -/
lemma wp_getprocRound_ready :
    wp getprocRound (fun r s' => Signalling s s' ∧ ∀ newp ∈ r, (s'.ptab newp).pStatus = .ready)
      (fun _ => True) s := by
  unfold getprocRound
  rw [wp_bind, wp_modify, wp_bind, wp_get, wp_ite]
  have pp : Signalling s { s with pp := s.pp + 1 } :=
    ⟨.of_ptab rfl rfl rfl rfl rfl, rfl, rfl, fun h => ⟨h, rfl⟩⟩
  split
  · trivial
  rw [wp_ite]
  split
  · next ready =>
    refine ⟨pp, fun newp h => ?_⟩
    cases h
    exact ready
  · exact ⟨pp, nofun⟩

/-- Signals that are sent on the way leave the others waiting. -/
lemma Kernel.Rests.signalling {exited : Bool} (h : s.Rests pending (.getproc exited))
    (signals : Signalling s s') : s'.Rests pending (.getproc exited) := by
  cases exited with
  | true =>
    have left : s.Left pending := h
    refine ⟨left.signalling signals, fun sleep => left.awake ?_⟩
    rw [signals.uPtab] at sleep
    exact (signals.own sleep).1
  | false => exact Kernel.Waiting.signalling h signals

/-! ## Runs -/

/-- The machine, and the requests of the processes. -/
structure Traffic where
  m : Machine
  pending : Fin PTABSIZE → Option Request

/-- The requests after a transfer of process `p`, which stays pending when the process sleeps. -/
def CallEnd.settle (e : CallEnd Word) (pending : Fin PTABSIZE → Option Request) (p : Fin PTABSIZE) :
    Fin PTABSIZE → Option Request :=
  match e with
  | .swapped => pending
  | _ => Function.update pending p none

/-- The steps of processes that read, write and close files, and of the machine. -/
inductive Traffic.Step : Traffic → Traffic → Prop
  | setup {k k' : Kernel} {pending : Fin PTABSIZE → Option Request} {d nbytes : Word} {buf : Nat}
    {write : Bool} {ino : Inoptr} (idle : pending k.udata.uPtab = none) (user : k.layout.InUser buf nbytes.toNat)
    (returned : Request.setup d buf nbytes write k = .ok (some ino, k')) :
    Traffic.Step ⟨⟨k, .running⟩, pending⟩
      ⟨⟨k', .running⟩, Function.update pending k.udata.uPtab (some ⟨d, ino, write⟩)⟩
  | reject {k k' : Kernel} {pending : Fin PTABSIZE → Option Request} {d nbytes : Word} {buf : Nat}
    {write : Bool} (idle : pending k.udata.uPtab = none)
    (returned : Request.setup d buf nbytes write k = .ok (none, k')) :
    Traffic.Step ⟨⟨k, .running⟩, pending⟩ ⟨⟨k', .running⟩, pending⟩
  | transfer {k k' : Kernel} {pending : Fin PTABSIZE → Option Request} {r : Request} {e : CallEnd Word}
    (request : pending k.udata.uPtab = some r) (returned : r.runSwap k = .ok (e, k')) :
    Traffic.Step ⟨⟨k, .running⟩, pending⟩ ⟨⟨k', e.ctl⟩, e.settle pending k'.udata.uPtab⟩
  | close {k k' : Kernel} {pending : Fin PTABSIZE → Option Request} {d n : Word}
    (idle : pending k.udata.uPtab = none) (returned : _close d k = .ok (n, k')) :
    Traffic.Step ⟨⟨k, .running⟩, pending⟩ ⟨⟨k', .running⟩, pending⟩
  | op {k k' : Kernel} {ctl : Ctl} {pending : Fin PTABSIZE → Option Request} (o : ProcOp) (aside : o.Aside)
    (idle : pending k.udata.uPtab = none) (user : o.InUser k ctl) (returned : o.run k = .ok (ctl, k')) :
    Traffic.Step ⟨⟨k, .running⟩, pending⟩ ⟨⟨k', ctl⟩, pending⟩
  | other {k k' : Kernel} {pending : Fin PTABSIZE → Option Request} (idle : pending k.udata.uPtab = none)
    (elsewhere : Elsewhere k k') (target : k'.target = k.target) (iTab : k'.iTab = k.iTab) :
    Traffic.Step ⟨⟨k, .running⟩, pending⟩ ⟨⟨k', .running⟩, pending⟩
  | machine {k : Kernel} {exited : Bool} {m' : Machine} {pending : Fin PTABSIZE → Option Request}
    (step : Machine.Step ProcOp.Any ⟨k, .getproc exited⟩ m') :
    Traffic.Step ⟨⟨k, .getproc exited⟩, pending⟩ ⟨m', pending⟩

/-- The invariant of the traffic. -/
def Traffic.Sound (t : Traffic) : Prop := t.m.k.Rests t.pending t.m.ctl

/-- The request of a process that does not sleep does not matter. -/
lemma Kernel.Waiting.update {r : Option Request} (w : s.Waiting pending)
    (awake : (s.ptab s.udata.uPtab).pStatus ≠ .sleep) :
    s.Waiting (Function.update pending s.udata.uPtab r) := by
  refine ⟨fun p ino sleeps => ?_, w.images, w.own⟩
  have own : p ≠ s.udata.uPtab := fun own => awake (own ▸ sleeps.1)
  rw [Function.update_of_ne own]
  exact w.waits p ino sleeps

/-- A running process is awake. -/
lemma Kernel.Running.awake (running : s.Running) : (s.ptab s.udata.uPtab).pStatus ≠ .sleep :=
  fun sleep => absurd (running.symm.trans sleep) nofun

/-- What happens elsewhere lets the waiting processes rest. -/
lemma Elsewhere.resting (h : Elsewhere s s') (target : s'.target = s.target) : Resting s s' := by
  refine ⟨h.layout, target, h.swap, h.uPtab, h.swapBlk, fun p used => h.status p ▸ used, fun p _ sleep => ?_, ?_⟩
  · exact ⟨h.status p ▸ sleep, h.wait p⟩
  · intro running
    show (s'.ptab s'.udata.uPtab).pStatus = .running
    rw [h.uPtab, h.status]
    exact running

/-- `_close` keeps to the process. -/
lemma Keeping.close {d : Word} : Within Keeping (fun _ => True) (_close d) := Keeping.doclose

/-- A step of the traffic. -/
lemma Traffic.Step.sound {t t' : Traffic} (step : Traffic.Step t t') (h : t.Sound) : t'.Sound := by
  cases step with
  | @setup k k' pending d nbytes buf write ino idle user returned =>
    obtain ⟨w, running⟩ : k.Rests pending .running := h
    have kept := (Keeping.setup.ok returned) w.guarded
    have rests : k'.Rests pending .running := w.keeping running fun _ => kept
    show k'.Rests _ .running
    rw [← kept.uPtab]
    exact ⟨rests.1.update rests.2.awake, rests.2⟩
  | reject idle returned =>
    exact h.1.keeping h.2 (Keeping.setup.ok returned)
  | @transfer k k' pending r e request returned =>
    obtain ⟨w, running⟩ : k.Rests pending .running := h
    have rests := (w.wp_runSwap running request).ok returned
    cases e with
    | swapped => exact rests
    | returned n => exact ⟨rests.1.update rests.2.awake, rests.2⟩
    | exited =>
      have left : k'.Left pending := rests
      exact ⟨left.update left.awake, left.awake⟩
  | close idle returned => exact h.1.keeping h.2 (Keeping.close.ok returned)
  | op o aside idle user returned => exact (o.wp_rests aside user h.1 h.2).ok returned
  | other idle elsewhere target iTab =>
    exact h.1.keeping h.2 (.of_iTab (elsewhere.resting target) iTab)
  | machine step =>
    cases step with
    | interrupt i returned => exact h.signalling (Signalling.interrupt.ok (E := fun _ => True) returned)
    | look round => exact h.signalling (wp_getprocRound_ready.ok round).1
    | switch round returned =>
      obtain ⟨signals, ready⟩ := wp_getprocRound_ready.ok round
      exact ((h.signalling signals).wp_switchTo (ready _ rfl)).ok returned

/-- A run of the traffic. -/
inductive Traffic.Run (t₀ : Traffic) : Traffic → Prop
  | start : Traffic.Run t₀ t₀
  | step {t t' : Traffic} (run : Traffic.Run t₀ t) (next : Traffic.Step t t') : Traffic.Run t₀ t'

/-- A state in which a process runs and none sleeps, and the images are in their places. -/
structure Traffic.Fresh (t : Traffic) : Prop where
  ctl : t.m.ctl = .running
  running : t.m.k.Running
  awake : ∀ p, (t.m.k.ptab p).pStatus ≠ .sleep
  images : ∀ p, (t.m.k.ptab p).pStatus ≠ .empty → (t.m.k.ptab p).pSwap = swapBlk p

/-- At the beginning nobody waits. -/
lemma Traffic.Fresh.sound {t : Traffic} (fresh : t.Fresh) : t.Sound := by
  obtain ⟨⟨k, ctl⟩, pending⟩ := t
  have ctl_running : ctl = .running := fresh.ctl
  subst ctl_running
  have running : k.Running := fresh.running
  refine ⟨⟨fun p ino sleeps => absurd sleeps.1 (fresh.awake p), fresh.images, fresh.images _ ?_⟩, running⟩
  exact fun empty => absurd (running.symm.trans empty) nofun

/-- A run of the traffic. -/
lemma Traffic.Run.sound {t₀ t : Traffic} (fresh : t₀.Fresh) (run : Traffic.Run t₀ t) : t.Sound := by
  induction run with
  | start => exact fresh.sound
  | step _ next ih => exact next.sound ih

/-- In every state of a run, whoever sleeps on the inode of a pipe is in a transfer of that pipe with a
reason to sleep that holds. -/
theorem pipe_no_lost_wakeup {t₀ t : Traffic} (fresh : t₀.Fresh) (run : Traffic.Run t₀ t)
    {ino : Inoptr} {p : Fin PTABSIZE} (sleeps : t.m.k.SleepsOn ino p) :
    ∃ r, t.pending p = some r ∧ r.ino = ino ∧ r.Blocked t.m.k (t.m.k.countOf p) := by
  have sound := run.sound fresh
  obtain ⟨⟨k, ctl⟩, pending⟩ := t
  have waits : k.WaitsFor pending p := by
    cases ctl with
    | running => exact sound.1.waits p
    | getproc exited =>
      cases exited with
      | true => exact Kernel.Waiting.waits (Kernel.Left.toWaiting sound) p
      | false => exact Kernel.Waiting.waits sound p
  exact (waits ino sleeps).2

/-- A process with the reading end of an empty pipe, whose writing end is open. -/
def Traffic.piped : Traffic :=
  let s := Machine.booted.k
  let c := s.iTab 0
  ⟨⟨{ s with
    iTab := fun _ => { c with cRefs := 2, cNode := { c.cNode with iMode := F_PIPE } }
    ofTab := Function.update s.ofTab 0 ⟨⟨0, 0⟩, some 0, .rdonly, 1⟩
    udata := { s.udata with uFiles := fun j => if j = 0 then 0 else 0xff } }, .running⟩, fun _ => none⟩

instance : Decidable (s.SleepsOn ino p) := by
  unfold Kernel.SleepsOn
  infer_instance

/-- The pipe is new. -/
lemma piped_fresh : Traffic.piped.Fresh where
  ctl := rfl
  running := by
    unfold Kernel.Running
    decide +kernel
  awake := by decide +kernel
  images := by decide +kernel

/-- A reader of the empty pipe sleeps on it. -/
lemma piped_read : wp (Request.setup 0 PROGBASE 1 false)
    (fun r k => r = some 0 ∧ k.udata.uPtab = 0 ∧
      wp (Request.runSwap ⟨0, 0, false⟩) (fun e k' => e.ctl = .getproc false ∧ k'.SleepsOn 0 0)
        (fun _ => False) k)
    (fun _ => False) Traffic.piped.m.k := by decide +kernel

/-- The process reads and goes to sleep. -/
theorem pipe_no_lost_wakeup_read : ∃ t, Traffic.Run Traffic.piped t ∧ t.m.k.SleepsOn 0 0 ∧
    ∃ r, t.pending 0 = some r ∧ r.ino = 0 ∧ r.Blocked t.m.k (t.m.k.countOf 0) := by
  obtain ⟨_, k, ready, rfl, own, reads⟩ := piped_read.returns
  obtain ⟨e, k', slept, ctl, sleeps⟩ := reads.returns
  have first : Traffic.Step Traffic.piped _ := .setup rfl (by decide) ready
  have request : Function.update Traffic.piped.pending Traffic.piped.m.k.udata.uPtab
      (some ⟨0, 0, false⟩) k.udata.uPtab = some ⟨0, 0, false⟩ := by
    rw [own]
    rfl
  have run : Traffic.Run Traffic.piped _ := .step (.step .start first) (.transfer request slept)
  exact ⟨_, run, sleeps, pipe_no_lost_wakeup piped_fresh run sleeps⟩

end Uzi
