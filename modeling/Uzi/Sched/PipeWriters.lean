import Uzi.Sched.PipeRuns

/-!
# Writers that sleep on an empty pipe

`writei` lets a write to a pipe begin when all of it has room, and a pipe has room for `16 * 512` bytes at
most. Whoever sleeps in it keeps the `u_count` that it has fallen asleep with (`Traffic.Step.asleep`), and
so a pipe with a sleeping writer is empty only when that writer has asked for more than a pipe can hold.
-/

namespace Uzi
open Exec

variable {s s' : Kernel} {p q : Fin PTABSIZE} {ino : Inoptr} {E : Panic → Prop}
  {pending : Fin PTABSIZE → Option Request}

/-! ## Code that lulls no one else -/

/-- No process other than the current one falls asleep, and the images in the swap space stay. -/
structure Lulling (s s' : Kernel) : Prop where
  swap : s'.swap = s.swap
  uPtab : s'.udata.uPtab = s.udata.uPtab
  image : ∀ p, (s'.ptab p).pSwap = (s.ptab p).pSwap
  asleep : ∀ p, p ≠ s.udata.uPtab → (s'.ptab p).pStatus = .sleep → (s.ptab p).pStatus = .sleep

/-- Who sleeps has been sleeping. -/
lemma Resting.lulling (h : Resting s s') : Lulling s s' :=
  ⟨h.swap, h.uPtab, h.image, fun p other sleep => (h.asleep p other sleep).1⟩

/-- The process table is the same. -/
lemma Lulling.of_ptab (ptab : s'.ptab = s.ptab) (swap : s'.swap = s.swap)
    (uPtab : s'.udata.uPtab = s.udata.uPtab) : Lulling s s' :=
  ⟨swap, uPtab, fun _ => by rw [ptab], fun _ _ sleep => ptab ▸ sleep⟩

instance : Filing Lulling where
  refl _ := .of_ptab rfl rfl rfl
  trans s s' s'' h h' := by
    refine ⟨h'.swap.trans h.swap, h'.uPtab.trans h.uPtab, fun p => (h'.image p).trans (h.image p), ?_⟩
    exact fun p other sleep => h.asleep p other (h'.asleep p (h.uPtab ▸ other) sleep)
  bufs _ _ := .of_ptab rfl rfl rfl
  fsTab _ _ _ _ := .of_ptab rfl rfl rfl
  iTab _ _ := .of_ptab rfl rfl rfl
  nexti _ _ := .of_ptab rfl rfl rfl
  error _ _ := .of_ptab rfl rfl rfl
  woken _ _ := Resting.woken.lulling
  ofTab _ _ := .of_ptab rfl rfl rfl
  ofBss _ _ := .of_ptab rfl rfl rfl
  files _ _ := .of_ptab rfl rfl rfl

namespace Lulling

/-- The current process changes its entry. -/
lemma own {x : PTab} (image : x.pSwap = (s.ptab s.udata.uPtab).pSwap) :
    Lulling s (s.setProc s.udata.uPtab x) := by
  refine ⟨rfl, rfl, fun q => ?_, fun q other => ?_⟩
  · by_cases same : q = s.udata.uPtab
    · rwa [same, Kernel.ptab_setProc]
    · rw [Kernel.ptab_setProc_of_ne same]
  · rw [Kernel.ptab_setProc_of_ne other]
    exact id

/-- A change of the own entry of the process table. -/
lemma modifyOwn {f : PTab → PTab} (image : ∀ x, (f x).pSwap = x.pSwap) : Within Lulling E (modifyOwn f) :=
  fun _ => own (image _)

/-- Udata changes. -/
lemma withUdata {u : UData} (h : u.uPtab = s.udata.uPtab) : Lulling s (s.withUdata u) := .of_ptab rfl rfl h

/-- A change of udata. -/
lemma modifyUdata {f : UData → UData} (h : ∀ u, (f u).uPtab = u.uPtab) : Within Lulling E (modifyUdata f) :=
  .modify fun _ => withUdata (h _)

/-- `doexit` moves no writer. -/
lemma doexit {val val2 : Word} : Within Lulling (fun _ => True) (doexit val val2) := by
  have adopt : Within Lulling (fun _ => True) (modify fun s => { s with ptab := s.adopt } : K PUnit) := by
    refine fun s => ⟨rfl, rfl, fun p => adopt_swap, fun p _ sleep => ?_⟩
    simpa only [adopt_status] using sleep
  have times : Within Lulling (fun _ => True) addTimes :=
    .bind (modifyUdata fun _ => rfl) fun _ => .bind (modifyUdata fun _ => rfl) fun _ =>
      .bind .get fun _ => modifyOwn fun _ => rfl
  have wake : Within Lulling (fun _ => True) wakeParent :=
    .bind .get fun _ => .ite (fun _ => Resting.woken.lulling) .pure
  refine within_closeAll.bind fun _ => .bind (modifyOwn fun _ => rfl) fun _ => adopt.bind fun _ => ?_
  refine .bind .get fun _ => Quiet.iDeref.bind fun _ => times.bind fun _ => wake.bind fun _ => ?_
  exact modifyOwn fun _ => rfl

/-- The loop over the signals moves no writer. -/
lemma chksigsLoop {js : List (Fin NSIGS)} : Within Lulling (fun _ => True) (chksigsLoop js) := by
  induction js with
  | nil => exact .pure
  | cons j js ih =>
    have catches : Within Lulling (fun _ => True)
        (Uzi.modifyUdata fun u => { u with uCursig := BitVec.ofNat 16 j }) := modifyUdata fun _ => rfl
    intro s
    rw [Uzi.chksigsLoop, wp_bind, wp_get, wp_ite]
    split
    · exact ih s
    rw [wp_ite]
    split
    · exact doexit.bind (fun _ => .pure) s
    rw [wp_ite]
    split
    · have taken : Lulling s (s.setProc s.udata.uPtab { s.ptab s.udata.uPtab with
          pPending := (s.ptab s.udata.uPtab).pPending &&& logicalNot (sigmask j) }) := own rfl
      rw [wp_bind, wp_modifyPtab]
      exact wp_post (catches.bind (fun _ => ih) _) fun _ s' h => trans_of Lulling taken h
    · exact ih s

/-- `chksigs` moves no writer. -/
lemma chksigs : Within Lulling (fun _ => True) chksigs := .bind .get fun _ => .ite .pure chksigsLoop

/-- `swapout` moves no writer. -/
lemma swapout {α : Type} : Within Lulling (fun _ => True) (swapout (α := α)) :=
  chksigs.bind fun _ => .ite .pure .pure

/-- The switch in `psleep` moves no writer. -/
lemma psleepSwap {α : Type} {event : Event} : Within Lulling (fun _ => True) (psleepSwap (α := α) event) := by
  refine .bind (fun s => ?_) fun _ => swapout
  unfold psleep
  rw [wp_bind, wp_get, wp_ite]
  split
  · trivial
  · exact own rfl

/-- A call that fails. -/
lemma fails {e : Errno} : Within Lulling (fun _ => True) (do
    setError e
    pure (CallEnd.returned (0xffff : Word))) := .bind Quiet.setError fun _ => .pure

/-- A round of `_wait` moves no writer. -/
lemma waitRound {statloc : Nat} (user : s.Collects → s.layout.TakesStatus statloc) :
    wp (waitRound statloc) (fun _ s' => Lulling s s') (fun _ => True) s := by
  unfold Uzi.waitRound
  rw [wp_bind, wp_get, wp_bind]
  refine wp_post (chksigs s).run fun exited s₁ ⟨checked, returned⟩ => ?_
  cases exited with
  | true => exact checked
  | false =>
    have on : ∀ {s'}, Lulling s₁ s' → Lulling s s' := fun h => trans_of Lulling checked h
    rw [if_neg nofun, wp_bind, wp_get, wp_ite]
    split
    · exact wp_post (fails s₁) fun _ _ => on
    · next idle =>
      rw [wp_bind, wp_get]
      cases child : s₁.zombieChild with
      | none => exact wp_post (Within.bind .get (fun _ => psleepSwap) s₁) fun _ _ => on
      | some p =>
        dsimp only
        rw [wp_bind]
        refine wp_post (wp_reap (Kernel.Collects.user user returned idle child)) fun _ s' ⟨u, same, h⟩ => on ?_
        subst h
        have buried : Resting s₁ (s₁.setProc p { s₁.ptab p with pStatus := .empty }) := by
          refine .setProc rfl (fun h => absurd rfl h) (fun _ => nofun) fun running => ?_
          exact absurd ((zombieChild_dead child).symm.trans running) nofun
        have buried := buried.lulling
        exact trans_of Lulling buried (withUdata same)

/-- `_wait` moves no writer. -/
lemma wait {statloc : Nat} (user : s.Collects → ¬ s.layout.udata < statloc → s.layout.TakesStatus statloc) :
    wp (_wait statloc) (fun _ s' => Lulling s s') (fun _ => True) s := by
  unfold _wait
  rw [wp_bind, wp_get, wp_ite]
  split
  · exact fails s
  next passed =>
  rw [wp_ite]
  split
  · exact fails s
  · exact waitRound fun collects => user collects passed

/-- The end of `unix` moves no writer. -/
lemma unixEnd : Within Lulling (fun _ => True) unixEnd := by
  refine chksigs.bind fun _ => .ite .pure fun s => ?_
  rw [wp_bind, wp_get, wp_ite]
  split
  · rw [wp_bind, wp_modifyPtab]
    have ready : Lulling s (s.setProc s.udata.uPtab { s.ptab s.udata.uPtab with pStatus := .ready }) := own rfl
    exact wp_post (swapout _) fun _ s' h => trans_of Lulling ready h
  · exact refl_of Lulling s

/-- An operation other than a fork lulls no one else. -/
lemma op (o : ProcOp) (aside : o.Aside) {ctl : Ctl} (user : o.InUser s ctl) :
    wp o.run (fun _ s' => Lulling s s') (fun _ => True) s := by
  have signals : ∀ {c : K PUnit}, Within Signalling (fun _ => True) c →
      Within Lulling (fun _ => True) (do c; pure Ctl.running) := fun h =>
    (h.mono fun _ _ h => h.toResting.lulling).bind fun _ => .pure
  cases o with
  | fork => exact aside.elim
  | exit val val2 => exact doexit.bind (fun _ => .pure) s
  | wait statloc =>
    show wp (do return (← _wait statloc).ctl) _ _ s
    rw [wp_bind]
    exact wait user
  | waitOn statloc =>
    show wp (do return (← Uzi.waitRound statloc).ctl) _ _ s
    rw [wp_bind]
    exact waitRound user
  | sleep event => exact psleepSwap.bind (fun _ => .pure) s
  | wakeup event =>
    have woken : Within Signalling (fun _ => True) (Uzi.wakeup event) := fun _ => Signalling.woken
    exact signals woken s
  | signal proc sig => exact signals Signalling.sendsig s
  | unixEnd => exact unixEnd.bind (fun _ => .pure) s

/-- A process other than the current one keeps its `u_count`. -/
lemma countOf (h : Lulling s s') (other : p ≠ s.udata.uPtab) : s'.countOf p = s.countOf p := by
  unfold Kernel.countOf
  rw [h.uPtab, if_neg other, if_neg other, h.swap, h.image]

end Lulling

/-- A signal leaves the counts. -/
lemma Signalling.countOf (h : Signalling s s') : s'.countOf p = s.countOf p := by
  unfold Kernel.countOf
  rw [h.uPtab, h.count, h.swap, h.image]

/-- A signal puts nobody to sleep. -/
lemma Signalling.sleeps (h : Signalling s s') (sleep : (s'.ptab p).pStatus = .sleep) :
    (s.ptab p).pStatus = .sleep := by
  by_cases own : p = s.udata.uPtab
  · subst own
    exact (h.own sleep).1
  · exact (h.toResting.asleep p own sleep).1

/-! ## Who sleeps, and since when -/

/-- A transfer that has gone to sleep is one to a pipe whose other end is open, with the `u_count` that it
was called with. -/
lemma Kernel.Waiting.wp_runSwap_asleep {r : Request} (w : s.Waiting pending)
    (request : pending s.udata.uPtab = some r) :
    wp r.runSwap (fun e s' => Lulling s s' ∧ (e.ctl = .getproc false →
        (s.iTab r.ino).getmode = F_PIPE ∧ (s.iTab r.ino).cRefs ≠ 1 ∧ s'.udata.uCount = s.udata.uCount))
      (fun _ => True) s := by
  unfold Request.runSwap
  rw [wp_bind]
  refine wp_post r.wp_run fun n s₁ post => ?_
  cases n with
  | some n => exact ⟨(post w.guarded).toResting.lulling, nofun⟩
  | none =>
    obtain ⟨rfl, pipe, blocked⟩ := post
    have slept : Lulling s (s.slept r.ino) := .own rfl
    unfold Uzi.swapout
    rw [wp_bind]
    have signs := wp.and (Lulling.chksigs (s.slept r.ino)) (w.slept request pipe blocked).wp_chksigs
    refine wp_mono signs (fun exited s₂ ⟨lulling, post⟩ => ?_) fun _ _ => trivial
    cases exited with
    | true => exact ⟨trans_of Lulling slept lulling, nofun⟩
    | false =>
      have signals : Signalling (s.slept r.ino) s₂ := post
      exact ⟨trans_of Lulling slept lulling, fun _ => ⟨pipe, blocked.1, signals.count⟩⟩

/-- Whoever sleeps when a process has been swapped in has slept before. -/
lemma wp_swapin_asleep :
    wp (swapin p) (fun _ s' => ∀ q, (s'.ptab q).pStatus = .sleep →
      (s.ptab q).pStatus = .sleep ∧ s'.countOf q = (s.swap (s.ptab q).pSwap).uCount) (fun _ => True) s := by
  unfold swapin
  rw [wp_bind, wp_modify, wp_bind, wp_get, wp_ite]
  split
  · trivial
  · next own =>
    have own : p = (s.swap (s.ptab p).pSwap).uPtab := not_not.mp own
    rw [wp_bind, wp_modifyPtab, wp_modify]
    intro q sleep
    have sleep : (Function.update s.ptab p { s.ptab p with pStatus := .running } q).pStatus = .sleep := sleep
    have other : q ≠ p := by
      intro same
      rw [same, Function.update_self] at sleep
      exact absurd sleep nofun
    rw [Function.update_of_ne other] at sleep
    refine ⟨sleep, ?_⟩
    show (if q = (s.swap (s.ptab p).pSwap).uPtab then _ else
      (s.swap (Function.update s.ptab p { s.ptab p with pStatus := .running } q).pSwap).uCount) = _
    rw [← own, if_neg other, Function.update_of_ne other]

/-- Whoever sleeps when the selected process goes on has slept before, and keeps its `u_count`. -/
lemma Kernel.Rests.wp_switchTo_asleep {exited : Bool} (h : s.Rests pending (.getproc exited)) :
    wp (switchTo exited p) (fun _ s' => ∀ q, (s'.ptab q).pStatus = .sleep →
      (s.ptab q).pStatus = .sleep ∧ s'.countOf q = s.countOf q) (fun _ => True) s := by
  have used : ∀ {q}, (s.ptab q).pStatus = .sleep → (s.ptab q).pStatus ≠ .empty :=
    fun sleep empty => absurd (empty.symm.trans sleep) nofun
  unfold switchTo
  rw [wp_bind, wp_get]
  cases exited with
  | true =>
    have left : s.Left pending := h
    refine wp_post wp_swapin_asleep fun _ s' post q sleep => ?_
    obtain ⟨sleep, count⟩ := post q sleep
    have other : q ≠ s.udata.uPtab := fun own => left.awake (own ▸ sleep)
    refine ⟨sleep, count.trans ?_⟩
    unfold Kernel.countOf
    rw [if_neg other]
  | false =>
    have w : s.Waiting pending := h
    rw [if_neg nofun, wp_ite]
    split
    · next own =>
      subst own
      rw [wp_bind, wp_modifyPtab, wp_modify]
      have goes : Lulling s (s.setProc s.udata.uPtab { s.ptab s.udata.uPtab with pStatus := .running }) := .own rfl
      intro q sleep
      have sleep : ((s.setProc s.udata.uPtab _).ptab q).pStatus = .sleep := sleep
      have other : q ≠ s.udata.uPtab := by
        intro own
        rw [own, Kernel.ptab_setProc] at sleep
        exact absurd sleep nofun
      exact ⟨goes.asleep q other sleep, goes.countOf other⟩
    · rw [wp_bind, wp_swrite]
      refine wp_post wp_swapin_asleep fun _ s' post q sleep => ?_
      obtain ⟨sleep, count⟩ := post q sleep
      exact ⟨sleep, count.trans (w.count_saved (used sleep))⟩

/-- The process goes on sleeping in its request. -/
structure Traffic.StaysAsleep (t t' : Traffic) (p : Fin PTABSIZE) (r : Request) : Prop where
  asleep : (t.m.k.ptab p).pStatus = .sleep
  request : t.pending p = some r
  count : t'.m.k.countOf p = t.m.k.countOf p

/-- The running process falls asleep in its request, a transfer to a pipe whose other end is open. -/
structure Traffic.FallsAsleep (t t' : Traffic) (p : Fin PTABSIZE) (r : Request) : Prop where
  running : t.m.ctl = .running
  own : p = t.m.k.udata.uPtab
  request : t.pending p = some r
  pipe : (t.m.k.iTab r.ino).getmode = F_PIPE
  ends : (t.m.k.iTab r.ino).cRefs ≠ 1
  count : t'.m.k.countOf p = t.m.k.udata.uCount

/-- While a process goes on running, the others that sleep are left alone. -/
lemma Kernel.Waiting.aside (w : s.Waiting pending) (running : s.Running) (h : Keeping s s')
    (sleep : (s'.ptab p).pStatus = .sleep) :
    p ≠ s.udata.uPtab ∧ (s.ptab p).pStatus = .sleep ∧ s'.countOf p = s.countOf p := by
  have kept := h w.guarded
  have other : p ≠ s.udata.uPtab := by
    intro own
    have awake := (kept.running running).awake
    rw [kept.uPtab, ← own] at awake
    exact awake sleep
  exact ⟨other, (kept.asleep p other sleep).1, kept.toResting.lulling.countOf other⟩

/-- A process that sleeps after a step has slept before, or has fallen asleep in its transfer. -/
lemma Traffic.Step.asleep {t t' : Traffic} (step : Traffic.Step t t') (h : t.Sound) {r : Request}
    (sleep : (t'.m.k.ptab p).pStatus = .sleep) (request : t'.pending p = some r) :
    t.StaysAsleep t' p r ∨ t.FallsAsleep t' p r := by
  cases step with
  | @setup k k' pending d nbytes buf write ino idle user returned =>
    obtain ⟨other, asleep, count⟩ := h.1.aside h.2 (Keeping.setup.ok returned) sleep
    have request : Function.update pending k.udata.uPtab _ p = some r := request
    rw [Function.update_of_ne other] at request
    exact .inl ⟨asleep, request, count⟩
  | reject idle returned =>
    obtain ⟨-, asleep, count⟩ := h.1.aside h.2 (Keeping.setup.ok returned) sleep
    exact .inl ⟨asleep, request, count⟩
  | @transfer k k' pending r' e request' returned =>
    obtain ⟨w, running⟩ : k.Rests pending .running := h
    obtain ⟨lulling, falls⟩ := (w.wp_runSwap_asleep request').ok returned
    by_cases own : p = k.udata.uPtab
    · -- the request is still pending, and so the transfer sleeps
      have settled : e.settle pending k'.udata.uPtab p = some r := request
      rw [own, lulling.uPtab] at settled
      cases e with
      | swapped =>
        have same : r' = r := Option.some.inj (request'.symm.trans settled)
        subst same
        obtain ⟨pipe, ends, count⟩ := falls rfl
        refine .inr ⟨rfl, own, own ▸ request', pipe, ends, ?_⟩
        show k'.countOf p = k.udata.uCount
        rw [← count, own, ← lulling.uPtab]
        exact if_pos rfl
      | returned n => exact absurd (settled.symm.trans (Function.update_self ..)) nofun
      | exited => exact absurd (settled.symm.trans (Function.update_self ..)) nofun
    · have request : e.settle pending k'.udata.uPtab p = some r := request
      rw [lulling.uPtab] at request
      have same : pending p = some r := by
        cases e with
        | swapped => exact request
        | returned n => exact (Function.update_of_ne own ..).symm.trans request
        | exited => exact (Function.update_of_ne own ..).symm.trans request
      exact .inl ⟨lulling.asleep p own sleep, same, lulling.countOf own⟩
  | close idle returned =>
    obtain ⟨-, asleep, count⟩ := h.1.aside h.2 (Keeping.close.ok returned) sleep
    exact .inl ⟨asleep, request, count⟩
  | @op k k' ctl pending o aside idle user returned =>
    have lulling := (Lulling.op o aside user).ok returned
    have other : p ≠ k.udata.uPtab := by
      intro own
      rw [own] at request
      exact absurd (idle.symm.trans request) nofun
    exact .inl ⟨lulling.asleep p other sleep, request, lulling.countOf other⟩
  | other idle elsewhere target iTab =>
    obtain ⟨-, asleep, count⟩ := h.1.aside h.2 (.of_iTab (elsewhere.resting target) iTab) sleep
    exact .inl ⟨asleep, request, count⟩
  | machine step =>
    cases step with
    | interrupt i returned =>
      have signals := Signalling.interrupt.ok (E := fun _ => True) returned
      exact .inl ⟨signals.sleeps sleep, request, signals.countOf⟩
    | look round =>
      have signals := (wp_getprocRound_ready.ok round).1
      exact .inl ⟨signals.sleeps sleep, request, signals.countOf⟩
    | switch round returned =>
      have signals := (wp_getprocRound_ready.ok round).1
      obtain ⟨asleep, count⟩ := (h.signalling signals).wp_switchTo_asleep.ok returned p sleep
      exact .inl ⟨signals.sleeps asleep, request, count.trans signals.countOf⟩

/-! ## Runs in which every write fits -/

/-- A write that is about to go to a pipe with an open reading end is not larger than the pipe. -/
def Traffic.Fits (t : Traffic) : Prop :=
  ∀ r, t.m.ctl = .running → t.pending t.m.k.udata.uPtab = some r → r.write = true →
    (t.m.k.iTab r.ino).getmode = F_PIPE → (t.m.k.iTab r.ino).cRefs ≠ 1 →
    t.m.k.udata.uCount.toNat ≤ 16 * 512

/-- A run whose steps are taken in states that `ok` allows. -/
inductive Traffic.RunWhile (ok : Traffic → Prop) (t₀ : Traffic) : Traffic → Prop
  | start : Traffic.RunWhile ok t₀ t₀
  | step {t t' : Traffic} (run : Traffic.RunWhile ok t₀ t) (allowed : ok t) (next : Traffic.Step t t') :
    Traffic.RunWhile ok t₀ t'

/-- A run with a condition is a run. -/
lemma Traffic.RunWhile.run {ok : Traffic → Prop} {t₀ t : Traffic} (run : Traffic.RunWhile ok t₀ t) :
    Traffic.Run t₀ t := by
  induction run with
  | start => exact .start
  | step _ _ next ih => exact .step ih next

/-- Whoever sleeps in a write has asked for no more than a pipe holds. -/
def Traffic.Modest (t : Traffic) : Prop :=
  ∀ p r, (t.m.k.ptab p).pStatus = .sleep → t.pending p = some r → r.write = true →
    (t.m.k.countOf p).toNat ≤ 16 * 512

/-- A step keeps the writes small. -/
lemma Traffic.Step.modest {t t' : Traffic} (step : Traffic.Step t t') (sound : t.Sound) (fits : t.Fits)
    (h : t.Modest) : t'.Modest := by
  intro p r sleep request write
  cases step.asleep sound sleep request with
  | inl stays =>
    rw [stays.count]
    exact h p r stays.asleep stays.request write
  | inr falls =>
    rw [falls.count]
    exact fits r falls.running (falls.own ▸ falls.request) write falls.pipe falls.ends

/-- In every run the writes stay small. -/
lemma Traffic.RunWhile.modest {t₀ t : Traffic} (fresh : t₀.Fresh) (run : Traffic.RunWhile Traffic.Fits t₀ t) :
    t.Modest := by
  induction run with
  | start => exact fun p r sleep => absurd sleep (fresh.awake p)
  | step run fits next ih => exact next.modest (run.run.sound fresh) fits ih

/-- The pipe has an open reading end. -/
def Kernel.HasReader (s : Kernel) (ino : Inoptr) : Prop :=
  ∃ i, (s.ofTab i).oInode = some ino ∧ (s.ofTab i).oAccess = .rdonly ∧ (s.ofTab i).oRefs ≠ 0

/-- A process sleeps in `writei` on an empty pipe with an open reading end. -/
def Traffic.WriterStuck (t : Traffic) : Prop :=
  ∃ p r, t.m.k.SleepsOn r.ino p ∧ t.pending p = some r ∧ r.write = true ∧
    psize t.m.k.target (t.m.k.iTab r.ino).cNode.iSize = 0 ∧ t.m.k.HasReader r.ino

/-- In every run in which no write to a pipe is larger than the pipe, no writer sleeps on an empty one. -/
theorem writer_not_stuck {t₀ t : Traffic} (fresh : t₀.Fresh) (run : Traffic.RunWhile Traffic.Fits t₀ t) :
    ¬ t.WriterStuck := by
  rintro ⟨p, r, sleeps, request, write, empty, -⟩
  obtain ⟨r', request', -, -, room⟩ := pipe_no_lost_wakeup fresh run.run sleeps
  have same : r' = r := Option.some.inj (request'.symm.trans request)
  subst same
  rw [if_pos write, empty] at room
  have small := run.modest fresh p r' sleeps.1 request write
  omega

/-- A process with both ends of a pipe. -/
def Traffic.bothEnds (size : Off) : Traffic :=
  let s := Machine.booted.k
  let c := s.iTab 0
  ⟨⟨{ s with
    iTab := fun _ => { c with cRefs := 2, cNode := { c.cNode with iMode := F_PIPE, iSize := size } }
    ofTab := fun i => if i = 0 then ⟨⟨0, 0⟩, some 0, .rdonly, 1⟩ else ⟨⟨0, 0⟩, some 0, .wronly, 1⟩
    udata := { s.udata with uFiles := fun j => if j = 0 then 0 else if j = 1 then 1 else 0xff } }, .running⟩,
    fun _ => none⟩

variable {size : Off} {n : Word}

/-- The two ends of a pipe, at the beginning. -/
lemma bothEnds_fresh : (Traffic.bothEnds size).Fresh :=
  ⟨rfl, piped_fresh.running, piped_fresh.awake, piped_fresh.images⟩

/-- The write falls asleep when the pipe has no room for all of it. -/
def WriteSleeps (size : Off) (n : Word) : Prop :=
  wp (Request.setup 1 PROGBASE n true)
    (fun r k => r = some 0 ∧ k.udata.uPtab = 0 ∧ k.udata.uCount = n ∧
      wp (Request.runSwap ⟨1, 0, true⟩) (fun e k' => e.ctl = .getproc false ∧ k'.SleepsOn 0 0 ∧
        k'.target = .nes ∧ (k'.iTab 0).cNode.iSize = size ∧ k'.HasReader 0)
        (fun _ => False) k)
    (fun _ => False) (Traffic.bothEnds size).m.k

instance : Decidable (s.HasReader ino) := by
  unfold Kernel.HasReader
  infer_instance

instance : Decidable (WriteSleeps size n) := by
  unfold WriteSleeps
  infer_instance

/-- A write that sleeps at once. -/
lemma WriteSleeps.run {P : Traffic → Prop} (h : WriteSleeps size n)
    (user : (Traffic.bothEnds size).m.k.layout.InUser PROGBASE n.toNat)
    (small : ∀ t : Traffic, t.m.k.udata.uCount = n ∨ t.pending t.m.k.udata.uPtab = none → P t) :
    ∃ t, Traffic.RunWhile P (Traffic.bothEnds size) t ∧ t.m.k.SleepsOn 0 0 ∧
      t.pending 0 = some ⟨1, 0, true⟩ ∧ t.m.k.target = .nes ∧ (t.m.k.iTab 0).cNode.iSize = size ∧
      t.m.k.HasReader 0 := by
  obtain ⟨_, k, ready, rfl, own, count, writes⟩ := h.returns
  obtain ⟨e, k', slept, ctl, sleeps, target, same, reader⟩ := writes.returns
  have first : Traffic.Step (Traffic.bothEnds size) _ := .setup rfl user ready
  have request : Function.update (Traffic.bothEnds size).pending (Traffic.bothEnds size).m.k.udata.uPtab
      (some ⟨1, 0, true⟩) k.udata.uPtab = some ⟨1, 0, true⟩ := by
    rw [own]
    rfl
  have run : Traffic.RunWhile P (Traffic.bothEnds size) _ :=
    .step (.step .start (small _ (.inr rfl)) first) (small _ (.inl count)) (.transfer request slept)
  refine ⟨_, run, sleeps, ?_, target, same, reader⟩
  cases e with
  | swapped => rfl
  | returned _ => exact absurd ctl nofun
  | exited => exact absurd ctl nofun

/-- A write that fills the pipe waits until it is empty. -/
theorem writer_not_stuck_full : ∃ t, Traffic.RunWhile Traffic.Fits (Traffic.bothEnds ⟨0, 100⟩) t ∧
    t.m.k.SleepsOn 0 0 ∧ ¬ t.WriterStuck := by
  have sleeps : WriteSleeps ⟨0, 100⟩ 8192 := by decide +kernel
  obtain ⟨t, run, asleep, -⟩ := sleeps.run (P := Traffic.Fits) (by decide) fun t small r _ request _ _ _ => by
    cases small with
    | inl count => rw [count]; decide
    | inr none => exact absurd (none.symm.trans request) nofun
  exact ⟨t, run, asleep, writer_not_stuck bothEnds_fresh run⟩

/-- A write of 9000 bytes to the empty pipe. -/
theorem writer_stuck : ∃ t, (Traffic.bothEnds ⟨0, 0⟩).Fresh ∧ Traffic.Run (Traffic.bothEnds ⟨0, 0⟩) t ∧
    t.WriterStuck := by
  have sleeps : WriteSleeps ⟨0, 0⟩ 9000 := by decide +kernel
  obtain ⟨t, run, asleep, request, target, same, reader⟩ := sleeps.run (P := fun _ => True) (by decide) fun _ _ => trivial
  refine ⟨t, bothEnds_fresh, run.run, 0, _, asleep, request, rfl, ?_, reader⟩
  rw [target, same]
  rfl

end Uzi
