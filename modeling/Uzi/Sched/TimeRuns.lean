import Uzi.Sched.SignalRuns
import Uzi.Sched.Times

/-!
# Runs in which zombies keep their times

A signal changes two of the fields in which a process that has exited has stored its times, and so does a
wakeup whose event has the address that looks like the first of them. In runs in which that does not happen,
what `_wait` finds is what `doexit` has stored, and no tick gets lost.
-/

namespace Uzi
open Exec Accounts

variable {m m' : Cpu} {s s' s₁ : Kernel} {p q : Fin PTABSIZE}

/-! ## The invariant -/

/-- What is known of the status of the current process, depending on where the processor is. -/
def Cpu.Placed (m : Cpu) : Prop :=
  match m.pt with
  | .running => m.k.Running
  | .swapout | .doexit _ _ | .leaving => (m.k.ptab m.k.udata.uPtab).pStatus.Alive
  | .getproc exited => (m.k.ptab m.k.udata.uPtab).pStatus ≠ .empty ∧
    ((m.k.ptab m.k.udata.uPtab).pStatus = .zombie ↔ exited = true)

/-- What has been stored by the processes that have exited, and the ticks that have been counted. -/
structure Books where
  wills : Fin PTABSIZE → Will
  spent : Spent

/-- The process has an image and a parent, its times are times, and if it has exited it has left what is in
the books. -/
structure Cpu.BalancedAt (w : Fin PTABSIZE → Will) (m : Cpu) (p : Fin PTABSIZE) : Prop where
  swap : (m.k.ptab p).pStatus ≠ .empty → (m.k.ptab p).pSwap = swapBlk p
  parent : (m.k.ptab p).pStatus ≠ .empty → (m.k.ptab p).pPptr ≠ none
  will : m.Gone p → (m.k.ptab p).will = w p ∧ (m.k.ptab p).will.Valid
  times : (m.k.ptab p).pStatus ≠ .empty → ¬ m.Gone p → (m.k.data p).times.Valid

/-- Everybody is in the books. -/
structure Cpu.Balanced (w : Fin PTABSIZE → Will) (m : Cpu) : Prop where
  placed : m.Placed
  each : ∀ p, m.BalancedAt w p

/-- A process that is the same is in the same books. -/
lemma Cpu.BalancedAt.same {w : Fin PTABSIZE → Will} (h : m.BalancedAt w p) (same : m.SameAt m' p) :
    m'.BalancedAt w p where
  swap used := by
    have used := fun e => used (same.empty.mpr e)
    rw [same.swap used]
    exact h.swap used
  parent used := same.parent (h.parent fun e => used (same.empty.mpr e))
  will gone := by
    have gone := same.gone.mp gone
    rw [same.will gone]
    exact h.will gone
  times used here := by
    have used := fun e => used (same.empty.mpr e)
    have here := fun e => here (same.gone.mpr e)
    rw [same.times used here]
    exact h.times used here

/-- A process is in other books that say the same of it. -/
lemma Cpu.BalancedAt.congr {w w' : Fin PTABSIZE → Will} (h : m.BalancedAt w p) (same : w' p = w p) :
    m.BalancedAt w' p :=
  ⟨h.swap, h.parent, fun gone => same ▸ h.will gone, h.times⟩

/-- A step of the processor and what happens in the books. -/
structure Cpu.Kept (b b' : Books) (m m' : Cpu) : Prop where
  balanced : m'.Balanced b'.wills
  step : ∃ d, Accounts.Step m.account m'.account d ∧ b'.spent = b.spent + d

/-- Nothing happens in the books. -/
lemma Cpu.Balanced.kept {b : Books} (h : m.Balanced b.wills) (same : ∀ p, m.SameAt m' p) (placed : m'.Placed) :
    Cpu.Kept b b m m' where
  balanced := ⟨placed, fun p => (h.each p).same (same p)⟩
  step := ⟨0, .stay fun p => (same p).account, (add_zero _).symm⟩

/-! ## What changes no account -/

/-- What is spared stays the same. -/
lemma Spared.sameAt {s' : Kernel} {pt : Point} (h : Spared m.Gone m.k s') (leaving : pt = .leaving ↔ m.pt = .leaving) :
    m.SameAt ⟨s', pt⟩ p where
  empty := (h.entry p).empty
  gone := by
    unfold Cpu.Gone
    rw [h.uPtab]
    exact or_congr (h.entry p).zombie (and_congr leaving Iff.rfl)
  swap _ := (h.entry p).swap
  parent := (h.entry p).parent
  will := h.will p
  times _ _ := by
    unfold Kernel.data
    rw [h.uPtab, h.swap, (h.entry p).swap]
    split
    · exact h.times
    · rfl

/-- A living process has not gone. -/
lemma Cpu.not_gone (alive : (m.k.ptab p).pStatus.Alive) (here : m.pt ≠ .leaving) : ¬ m.Gone p := by
  intro gone
  cases gone with
  | inl zombie => exact alive.2 zombie
  | inr leaving => exact here leaving.1

/-- The current process changes its entry and its data, but neither exits nor changes its times. -/
lemma Cpu.sameAt_own {x : PTab} {u : UData} {pt : Point} (alive : (m.k.ptab m.k.udata.uPtab).pStatus.Alive)
    (alive' : x.pStatus.Alive) (swap : x.pSwap = (m.k.ptab m.k.udata.uPtab).pSwap)
    (parent : x.pPptr = (m.k.ptab m.k.udata.uPtab).pPptr) (uPtab : u.uPtab = m.k.udata.uPtab)
    (times : u.times = m.k.udata.times) (here : m.pt ≠ .leaving) (here' : pt ≠ .leaving) :
    m.SameAt ⟨(m.k.setProc m.k.udata.uPtab x).withUdata u, pt⟩ p := by
  generalize hm : (⟨(m.k.setProc m.k.udata.uPtab x).withUdata u, pt⟩ : Cpu) = m'
  have pt_eq : m'.pt = pt := hm ▸ rfl
  have data : (m'.k.data p).times = (m.k.data p).times := by
    subst hm
    unfold Kernel.data
    show UData.times (if p = u.uPtab then u else m.k.swap ((m.k.setProc m.k.udata.uPtab x).ptab p).pSwap) = _
    rw [uPtab]
    split
    · exact times
    · next other => rw [Kernel.ptab_setProc_of_ne other]
  by_cases own : p = m.k.udata.uPtab
  · have entry : m'.k.ptab p = x := by
      subst hm own
      exact Kernel.ptab_setProc
    have gone : ¬ m.Gone p := Cpu.not_gone (own ▸ alive) here
    have gone' : ¬ m'.Gone p := Cpu.not_gone (entry ▸ alive') (pt_eq ▸ here')
    refine ⟨iff_of_false (entry ▸ alive'.1) (own ▸ alive.1), iff_of_false gone' gone, fun _ => ?_, ?_, ?_, fun _ _ => data⟩
    · rw [entry, own, swap]
    · rw [entry, own, parent]
      exact id
    · exact fun g => absurd g gone
  · have entry : m'.k.ptab p = m.k.ptab p := by
      subst hm
      exact Kernel.ptab_setProc_of_ne own
    have gone : m'.Gone p ↔ m.Gone p := by
      unfold Cpu.Gone
      rw [entry]
      refine or_congr Iff.rfl (iff_of_false (fun e => ?_) fun e => here e.1)
      exact here' (pt_eq.symm.trans e.1)
    refine ⟨by rw [entry], gone, fun _ => by rw [entry], by rw [entry]; exact id, fun _ => by rw [entry], fun _ _ => data⟩

/-- What is spared leaves the processor where it was. -/
lemma Spared.placed {s' : Kernel} (h : Spared m.Gone m.k s') (placed : m.Placed) : Cpu.Placed ⟨s', m.pt⟩ := by
  obtain ⟨k, pt⟩ := m
  have entry := h.entry k.udata.uPtab
  have alive : (k.ptab k.udata.uPtab).pStatus.Alive → (s'.ptab k.udata.uPtab).pStatus.Alive := fun alive =>
    ⟨fun e => alive.1 (entry.empty.mp e), fun e => alive.2 (entry.zombie.mp e)⟩
  unfold Cpu.Placed at placed ⊢
  cases pt with
  | running =>
    show (s'.ptab s'.udata.uPtab).pStatus = .running
    rw [h.uPtab]
    exact entry.running.mpr placed
  | swapout =>
    show (s'.ptab s'.udata.uPtab).pStatus.Alive
    rw [h.uPtab]
    exact alive placed
  | doexit val val2 =>
    show (s'.ptab s'.udata.uPtab).pStatus.Alive
    rw [h.uPtab]
    exact alive placed
  | leaving =>
    show (s'.ptab s'.udata.uPtab).pStatus.Alive
    rw [h.uPtab]
    exact alive placed
  | getproc exited =>
    show (s'.ptab s'.udata.uPtab).pStatus ≠ .empty ∧ ((s'.ptab s'.udata.uPtab).pStatus = .zombie ↔ exited = true)
    rw [h.uPtab]
    exact ⟨fun e => placed.1 (entry.empty.mp e), entry.zombie.trans placed.2⟩

/-- What is spared leaves the books alone. -/
lemma Cpu.Balanced.spared {b : Books} {s' : Kernel} (h : m.Balanced b.wills) (spared : Spared m.Gone m.k s') :
    Cpu.Kept b b m ⟨s', m.pt⟩ := h.kept (fun _ => spared.sameAt Iff.rfl) (spared.placed h.placed)

/-! ## Which steps spare the times -/

/-- No process that has stored its times can be woken up through them. -/
def Cpu.Apart (m : Cpu) : Prop :=
  ∀ p, m.Gone p → (m.k.ptab p).pStatus.isBehindRunning = true →
    ∀ e, e ≠ .none → (m.k.ptab p).pWait ≠ m.k.layout.addr e

/-- The signal changes nothing that the process has stored. -/
def Cpu.Deaf (m : Cpu) (p : Fin PTABSIZE) (sig : Nat) : Prop := m.Gone p → (m.k.ptab p).Deaf sig

/-- What a step must not do to the processes that have exited: it sends them no signal that changes what they
have stored, a process that exits does not find its own time as the address of its parent, and no tick is
counted for it after that. -/
def Cpu.Spares (m : Cpu) : Turn → Prop
  | .act (.kill pid sig) => 0 < sig.toInt ∧ sig.toInt ≤ 15 →
    ∀ p, (List.finRange PTABSIZE).find? (fun p => (m.k.ptab p).pPid = pid.toNat) = some p → m.Deaf p sig.toNat
  | .act (.sendsig proc sig) | .irq (.sendsig proc sig) => ∀ p, proc = none ∨ proc = some p → m.Deaf p sig
  | .irq (.clock _ second) => (m.pt = .leaving → (m.k.ptab m.k.udata.uPtab).pStatus ≠ .running) ∧
    (second ≠ none → ∀ p, (m.k.ptab p).pAlarm = 1 → m.Deaf p SIGALRM)
  | .leave => (m.k.ptab m.k.udata.uPtab).pStatus.isBehindRunning = true →
    ∀ e, e ≠ .none → (addtick m.k.udata.uUtime m.k.udata.uCutime).tTime ≠ m.k.layout.addr e
  | _ => True

/-- Processes that have gone are out of reach. -/
lemma Cpu.Apart.shielded (apart : m.Apart) : m.k.Shielded m.Gone := ⟨fun _ => .inl, apart⟩

/-! ## What a process does -/

/-- A running process is alive. -/
lemma Kernel.Running.alive (running : s.Running) : (s.ptab s.udata.uPtab).pStatus.Alive := running ▸ ⟨nofun, nofun⟩

/-- The process that runs changes its entry and its data. -/
lemma Cpu.Balanced.own {b : Books} {x : PTab} {u : UData} (pt : Point) (h : Cpu.Balanced b.wills ⟨s, .running⟩)
    (alive : x.pStatus.Alive) (swap : x.pSwap = (s.ptab s.udata.uPtab).pSwap)
    (parent : x.pPptr = (s.ptab s.udata.uPtab).pPptr) (uPtab : u.uPtab = s.udata.uPtab)
    (times : u.times = s.udata.times) (here : pt ≠ .leaving)
    (placed : Cpu.Placed ⟨(s.setProc s.udata.uPtab x).withUdata u, pt⟩) :
    Cpu.Kept b b ⟨s, .running⟩ ⟨(s.setProc s.udata.uPtab x).withUdata u, pt⟩ :=
  h.kept (fun _ => Cpu.sameAt_own (Kernel.Running.alive h.placed) alive swap parent uPtab times nofun here) placed

/-- The data of a process that has taken over what a child has left. -/
def UData.collect (u : UData) (w : Will) (mem : Nat → Byte) : UData :=
  { u with mem := mem, uCutime := addtick u.uCutime w.utime, uCstime := addtick u.uCstime w.stime }

/-- `_wait` adds what the child has left, stores the exit value and empties the slot. -/
lemma wp_reap_collects {l : Layout} {statloc : Nat} {E : Panic → Prop} (user : l.TakesStatus statloc) :
    wp (reap l statloc p) (fun _ s' => ∃ mem, s' =
      (s.setProc p { s.ptab p with pStatus := .empty }).withUdata (s.udata.collect (s.ptab p).will mem)) E s := by
  unfold reap
  rw [wp_bind, wp_get, wp_ite]
  split
  · next stored =>
    rw [wp_bind, wp_putStatus (user.resolve_left stored), wp_bind, wp_modifyPtab, wp_bind, wp_modifyUdata, wp_bind,
      wp_modifyUdata]
    exact ⟨_, rfl⟩
  · rw [wp_bind, wp_modifyPtab, wp_bind, wp_modifyUdata, wp_bind, wp_modifyUdata]
    exact ⟨s.udata.mem, rfl⟩

/-- The times with those of a child are times. -/
lemma Times.Valid.collect {u : UData} {w : Will} (h : u.times.Valid) (mem : Nat → Byte) (hw : w.Valid) :
    (u.collect w mem).times.Valid ∧ (u.collect w mem).times.spent = u.times.spent + w.spent := by
  obtain ⟨hu, user⟩ := addtick_ticks h.cutime hw.utime
  obtain ⟨hs, sys⟩ := addtick_ticks h.cstime hw.stime
  refine ⟨⟨h.utime, h.stime, hu, hs⟩, Prod.ext ?_ ?_⟩
  · exact (congrArg (u.uUtime.ticks + ·) user).trans (add_assoc _ _ _).symm
  · exact (congrArg (u.uStime.ticks + ·) sys).trans (add_assoc _ _ _).symm

/-- The parent takes over the times of a child that has exited. -/
lemma Cpu.Balanced.bury {b : Books} {l : Layout} {statloc : Nat} (h : Cpu.Balanced b.wills ⟨s, .running⟩)
    (user : l.TakesStatus statloc) (zombie : (s.ptab p).pStatus = .zombie) :
    wp (reap l statloc p) (fun _ s' => Cpu.Kept b b ⟨s, .running⟩ ⟨s', .running⟩) (fun _ => True) s := by
  have running : s.Running := h.placed
  have ne : p ≠ s.udata.uPtab := by
    rintro rfl
    exact absurd (zombie.symm.trans running) nofun
  refine wp_post (wp_reap_collects user) fun _ s' done => ?_
  obtain ⟨mem, eq⟩ := done
  have buried : s'.ptab p = { s.ptab p with pStatus := .empty } := eq ▸ Kernel.ptab_setProc
  have other : ∀ q, q ≠ p → s'.ptab q = s.ptab q := fun q hq => eq ▸ Kernel.ptab_setProc_of_ne hq
  have uPtab : s'.udata.uPtab = s.udata.uPtab := eq ▸ rfl
  have swap : s'.swap = s.swap := eq ▸ rfl
  have udata : s'.udata = s.udata.collect (s.ptab p).will mem := eq ▸ rfl
  have gone : ∀ q, Cpu.Gone ⟨s', .running⟩ q ↔ (s'.ptab q).pStatus = .zombie := fun q => or_iff_left nofun
  have gone₀ : ∀ q, Cpu.Gone ⟨s, .running⟩ q ↔ (s.ptab q).pStatus = .zombie := fun q => or_iff_left nofun
  have same : ∀ q, q ≠ p → q ≠ s.udata.uPtab → Cpu.SameAt ⟨s, .running⟩ ⟨s', .running⟩ q := by
    intro q hq hu
    refine ⟨by rw [other q hq], by rw [gone, gone₀, other q hq], fun _ => by rw [other q hq], by rw [other q hq]; exact id,
      fun _ => by rw [other q hq], fun _ _ => ?_⟩
    unfold Kernel.data
    rw [uPtab, if_neg hu, if_neg hu, swap, other q hq]
  have here : ¬ Cpu.Gone ⟨s, .running⟩ s.udata.uPtab := Cpu.not_gone running.alive nofun
  have here' : ¬ Cpu.Gone ⟨s', .running⟩ s.udata.uPtab := by
    rw [gone, other _ ne.symm, ← gone₀]
    exact here
  have used' : (s'.ptab s.udata.uPtab).pStatus ≠ .empty := by
    rw [other _ ne.symm]
    exact running.alive.1
  have data : s.data s.udata.uPtab = s.udata := if_pos rfl
  have data' : s'.data s.udata.uPtab = s.udata.collect (s.ptab p).will mem := (if_pos uPtab.symm).trans udata
  have valid : s.udata.times.Valid := data ▸ (h.each _).times running.alive.1 here
  obtain ⟨valid', spent⟩ := valid.collect mem ((h.each p).will (.inl zombie)).2
  have current := h.each s.udata.uPtab
  have left : Cpu.account ⟨s, .running⟩ p = .left (s.ptab p).will.spent :=
    Cpu.account_left (.inl zombie) (zombie ▸ nofun)
  have held : Cpu.account ⟨s, .running⟩ s.udata.uPtab = .held s.udata.times.spent :=
    (Cpu.account_held running.alive.1 here).trans (by rw [data])
  have closed : Cpu.account ⟨s', .running⟩ p = .closed := if_pos (by rw [buried])
  have after : Cpu.account ⟨s', .running⟩ s.udata.uPtab = .held (s.udata.times.spent + (s.ptab p).will.spent) :=
    (Cpu.account_held used' here').trans (by rw [data', spent])
  refine ⟨⟨?_, fun q => ?_⟩, 0, .settle ne left held closed after fun q hq hu => (same q hq hu).account, (add_zero _).symm⟩
  · show (s'.ptab s'.udata.uPtab).pStatus = .running
    rw [uPtab, other _ ne.symm]
    exact running
  · by_cases hq : q = p
    · have empty : (s'.ptab q).pStatus = .empty := by rw [hq, buried]
      refine ⟨fun used => absurd empty used, fun used => absurd empty used, fun g => ?_, fun used => absurd empty used⟩
      exact absurd (empty.symm.trans ((gone q).mp g)) nofun
    · by_cases hu : q = s.udata.uPtab
      · subst hu
        have entry := other _ hq
        refine ⟨fun _ => ?_, fun _ => ?_, fun g => absurd g here', fun _ _ => data' ▸ valid'⟩
        · rw [entry]
          exact current.swap running.alive.1
        · rw [entry]
          exact current.parent running.alive.1
      · exact (h.each q).same (same q hq hu)

/-- No time has passed. -/
lemma Time.ticks_zero : (⟨0, 0⟩ : Time).ticks = 0 := Nat.cast_zero

/-- A child starts with no times. -/
lemma UData.times_child {u : UData} : (u.child p).times.Valid ∧ (u.child p).times.spent = 0 := by
  have zero : (⟨0, 0⟩ : Time).Valid := show 0 < 600 by decide
  refine ⟨⟨zero, zero, zero, zero⟩, Prod.ext ?_ ?_⟩
  · show (⟨0, 0⟩ : Time).ticks + (⟨0, 0⟩ : Time).ticks = 0
    rw [Time.ticks_zero, add_zero]
  · show (⟨0, 0⟩ : Time).ticks + (⟨0, 0⟩ : Time).ticks = 0
    rw [Time.ticks_zero, add_zero]

section Fork

variable {b : Books} {pid : Nat} {s₂ : Kernel}

/-- The processes that have exited are the same when a child has been made. -/
lemma Kernel.Shielded.forked (h : Cpu.Balanced b.wills ⟨s, .running⟩) (apart : Cpu.Apart ⟨s, .running⟩) (free : s.Free p pid)
    (forked : s.Forked s₁ p pid) : s₁.Shielded (Cpu.Gone ⟨s, .running⟩) := by
  have running : s.Running := h.placed
  refine ⟨fun q zombie => ?_, fun q gone => ?_⟩
  · have hp : q ≠ p := by
      rintro rfl
      exact absurd (zombie.symm.trans forked.child.status) nofun
    have hu : q ≠ s.udata.uPtab := by
      rintro rfl
      rw [forked.parent] at zombie
      exact absurd zombie nofun
    rw [forked.others q hp hu] at zombie
    exact .inl zombie
  · have zombie : (s.ptab q).pStatus = .zombie := gone.elim id fun e => absurd e.1 nofun
    have hp : q ≠ p := by
      rintro rfl
      exact absurd (zombie.symm.trans free.empty) nofun
    have hu : q ≠ s.udata.uPtab := by
      rintro rfl
      exact absurd (zombie.symm.trans running) nofun
    rw [forked.others q hp hu, forked.layout]
    exact apart q gone

/-- A fork changes no account but the one of the child. -/
lemma Cpu.sameAt_forked (h : Cpu.Balanced b.wills ⟨s, .running⟩) (forked : s.Forked s₁ p pid)
    (spared : Spared (Cpu.Gone ⟨s, .running⟩) s₁ s₂) (ne : q ≠ p) (entry : s'.ptab q = s₂.ptab q)
    (swap : s'.swap = s₂.swap) (uPtab : s'.udata.uPtab = p) : Cpu.SameAt ⟨s, .running⟩ ⟨s', .running⟩ q := by
  have running : s.Running := h.placed
  have spares := spared.entry q
  rw [← entry] at spares
  have gone : ∀ {s : Kernel}, Cpu.Gone ⟨s, .running⟩ q ↔ (s.ptab q).pStatus = .zombie := or_iff_left nofun
  have data' : s'.data q = s₁.swap ((s₁.ptab q).pSwap) := by
    unfold Kernel.data
    rw [uPtab, if_neg ne, swap, spared.swap, spares.swap]
  by_cases own : q = s.udata.uPtab
  · subst own
    rw [forked.parent] at spares data'
    have here' : ¬ Cpu.Gone ⟨s', .running⟩ s.udata.uPtab := fun g => absurd (spares.zombie.mp (gone.mp g)) nofun
    have here : ¬ Cpu.Gone ⟨s, .running⟩ s.udata.uPtab := Cpu.not_gone running.alive nofun
    refine ⟨iff_of_false (fun e => absurd (spares.empty.mp e) nofun) running.alive.1, iff_of_false here' here,
      fun _ => spares.swap, spares.parent, fun g => absurd g here, fun used _ => ?_⟩
    have image : (s.ptab s.udata.uPtab).pSwap = swapBlk s.udata.uPtab := (h.each _).swap used
    show (s'.data _).times = (s.data _).times
    rw [data', forked.swap, image, Function.update_self]
    unfold Kernel.data
    rw [if_pos rfl]
  · have same := forked.others q ne own
    rw [same] at spares data'
    refine ⟨spares.empty, gone.trans (spares.zombie.trans gone.symm), fun _ => spares.swap, spares.parent, fun g => ?_,
      fun used _ => ?_⟩
    · show (s'.ptab q).will = _
      rw [entry, spared.will q g, same]
    · have image : (s.ptab q).pSwap = swapBlk q := (h.each q).swap used
      show (s'.data _).times = (s.data _).times
      rw [data', forked.swap, image, Function.update_of_ne fun e => own (swapBlk_inj e)]
      unfold Kernel.data
      rw [if_neg own, image]

end Fork

/-- A fork opens an account. -/
lemma Cpu.Balanced.fork {b : Books} (h : Cpu.Balanced b.wills ⟨s, .running⟩) (apart : Cpu.Apart ⟨s, .running⟩) :
    wp dofork (fun _ s' => Cpu.Kept b b ⟨s, .running⟩ ⟨s', .running⟩) (fun _ => True) s := by
  have running : s.Running := h.placed
  have image := (h.each s.udata.uPtab).swap running.alive.1
  refine wp_post (wp_dofork_forked (R := Sparing (Cpu.Gone ⟨s, .running⟩)) image running.alive.1) fun _ s' outcome => ?_
  cases outcome with
  | inl sparing => exact h.spared (sparing apart.shielded)
  | inr forks =>
    obtain ⟨p, pid, s₁, s₂, free, forked, child, sparing, eq⟩ := forks
    have spared := sparing (.forked h apart free forked)
    have entry : s'.ptab p = { s₂.ptab p with pStatus := .running } := eq ▸ Kernel.ptab_setProc
    have other : ∀ q, q ≠ p → s'.ptab q = s₂.ptab q := fun q hq => eq ▸ Kernel.ptab_setProc_of_ne hq
    have udata : s'.udata = s₂.udata := eq ▸ rfl
    have uPtab : s'.udata.uPtab = p := by rw [udata, spared.uPtab, forked.uPtab]
    have same : ∀ q, q ≠ p → Cpu.SameAt ⟨s, .running⟩ ⟨s', .running⟩ q := fun q hq =>
      Cpu.sameAt_forked h forked spared hq (other q hq) (eq ▸ rfl) uPtab
    have run : (s'.ptab p).pStatus = .running := by rw [entry]
    have used : (s'.ptab p).pStatus ≠ .empty := run ▸ nofun
    have here : ¬ Cpu.Gone ⟨s', .running⟩ p := Cpu.not_gone (run ▸ ⟨nofun, nofun⟩) nofun
    have data : (s'.data p).times = (s.udata.child p).times := by
      unfold Kernel.data
      rw [if_pos uPtab.symm, udata, spared.times, child]
    have before : Cpu.account ⟨s, .running⟩ p = .closed := if_pos free.empty
    have after : Cpu.account ⟨s', .running⟩ p = .held 0 := by
      rw [Cpu.account_held used here, data, UData.times_child.2]
    refine ⟨⟨?_, fun q => ?_⟩, 0, .enter before after fun q hq => (same q hq).account, (add_zero _).symm⟩
    · show (s'.ptab s'.udata.uPtab).pStatus = .running
      rw [uPtab]
      exact run
    · by_cases hq : q = p
      · subst hq
        have spares := spared.entry q
        refine ⟨fun _ => ?_, fun _ => ?_, fun g => absurd g here, fun _ _ => data ▸ UData.times_child.1⟩
        · rw [entry]
          exact spares.swap.trans forked.child.swap
        · rw [entry]
          exact spares.parent (forked.child.parent ▸ Option.some_ne_none _)
      · exact (h.each q).same (same q hq)

/-- An act of a running process is in the books. -/
lemma Act.wp_kept {b : Books} (a : Act) (h : Cpu.Balanced b.wills ⟨s, .running⟩) (apart : Cpu.Apart ⟨s, .running⟩)
    (spares : Cpu.Spares ⟨s, .running⟩ (.act a)) (user : Cpu.InUser ⟨s, .running⟩ (.act a)) :
    wp a.run (fun pt s' => Cpu.Kept b b ⟨s, .running⟩ ⟨s', pt⟩) (fun _ => True) s := by
  have running : s.Running := h.placed
  have shield := apart.shielded
  have quiet : ∀ {α : Type} {c : K α}, wp c (fun _ s' => Spared (Cpu.Gone ⟨s, .running⟩) s s') (fun _ => True) s →
      wp (do let _ ← c; pure Point.running) (fun pt s' => Cpu.Kept b b ⟨s, .running⟩ ⟨s', pt⟩) (fun _ => True) s := by
    intro α c hc
    rw [wp_bind]
    exact wp_post hc fun _ s' spared => h.spared spared
  have stays : Cpu.Kept b b ⟨s, .running⟩ ⟨s, .running⟩ := h.kept (fun _ => Spared.refl.sameAt Iff.rfl) running
  cases a with
  | sleep event =>
    unfold Act.run psleep
    rw [wp_bind, wp_bind, wp_get, wp_ite]
    split
    · trivial
    · rw [wp_modifyPtab]
      have alive : PStatus.Alive (if event = .none then .pause else if event = .ptab s.udata.uPtab then .wait
          else .sleep) := by
        split
        · decide
        split
        · decide
        · decide
      refine h.own .swapout (u := s.udata) alive rfl rfl rfl rfl Point.swapout_ne ?_
      show ((s.setProc s.udata.uPtab _).ptab s.udata.uPtab).pStatus.Alive
      rw [Kernel.ptab_setProc]
      exact alive
  | yield =>
    rw [Act.run, wp_bind, wp_get, wp_ite]
    split
    · rw [wp_bind, wp_modifyOwn]
      refine h.own .swapout (u := s.udata) PStatus.alive_ready rfl rfl rfl rfl Point.swapout_ne ?_
      show ((s.setProc s.udata.uPtab _).ptab s.udata.uPtab).pStatus.Alive
      rw [Kernel.ptab_setProc]
      exact PStatus.alive_ready
    · exact stays
  | check =>
    rw [Act.run, wp_bind]
    refine wp_chksigsFront (fun _ => stays) (fun j _ _ => ?_) fun j _ _ => ?_
    · exact h.kept (fun _ => Spared.refl.sameAt (iff_of_false Point.doexit_ne Point.running_ne)) running.alive
    · refine h.own .running running.alive rfl rfl rfl rfl Point.running_ne ?_
      show ((s.setProc s.udata.uPtab _).ptab s.udata.uPtab).pStatus = .running
      rw [Kernel.ptab_setProc]
      exact running
  | fork =>
    rw [Act.run, wp_bind]
    exact h.fork apart
  | exit val val2 => exact h.kept (fun _ => Spared.refl.sameAt (iff_of_false Point.doexit_ne Point.running_ne)) running.alive
  | bury statloc =>
    rw [Act.run, wp_bind, wp_get]
    cases found : s.zombieChild with
    | none => exact stays
    | some p =>
      have pointer : s.layout.TakesStatus statloc := user (found ▸ Option.some_ne_none p)
      rw [wp_bind, wp_get, wp_bind]
      exact h.bury pointer (zombieChild_dead found)
  | wakeup event => exact quiet (Spared.woken shield event.2)
  | kill pid sig =>
    refine quiet ?_
    unfold _kill
    have error : Within (Sparing (Cpu.Gone ⟨s, .running⟩)) (fun _ => True) (do setError .einval; pure (0xffff : Word)) :=
      .bind Quiet.setError fun _ => .pure
    rw [wp_bind, wp_get, wp_ite]
    split
    · exact wp_post (error s) fun _ _ h => h shield
    · next valid =>
      have valid : 0 < sig.toInt ∧ sig.toInt ≤ 15 := by omega
      cases found : (List.finRange PTABSIZE).find? fun p => (s.ptab p).pPid = pid.toNat with
      | none => exact wp_post (error s) fun _ _ h => h shield
      | some p =>
        rw [wp_bind]
        refine wp_sendsig_spared fun q heard gone => ?_
        cases heard with
        | inl every => exact absurd every (Option.some_ne_none p)
        | inr one =>
          cases one
          exact spares valid p found gone
  | sendsig proc sig => exact quiet (wp_sendsig_spared fun p => spares p)
  | signal sig func =>
    rw [Act.run, wp_bind]
    unfold _signal
    rw [wp_bind, wp_get]
    have error : ∀ e : Errno, Cpu.Kept b b ⟨s, .running⟩ ⟨s.withUdata { s.udata with uError := e }, .running⟩ := fun e =>
      h.spared (.withUdata rfl rfl)
    split
    · exact error .einval
    rw [wp_ite]
    split
    · exact error .efault
    · rw [wp_bind, wp_modifyOwn, wp_bind, wp_get, wp_bind, wp_modifyUdata]
      refine h.own .running running.alive rfl rfl rfl rfl Point.running_ne ?_
      show ((s.setProc s.udata.uPtab _).ptab s.udata.uPtab).pStatus = .running
      rw [Kernel.ptab_setProc]
      exact running
  | alarm secs =>
    unfold Act.run _alarm
    rw [wp_bind, wp_bind, wp_get, wp_bind, wp_modifyOwn]
    refine h.own .running (u := s.udata) running.alive rfl rfl rfl rfl Point.running_ne ?_
    show ((s.setProc s.udata.uPtab _).ptab s.udata.uPtab).pStatus = .running
    rw [Kernel.ptab_setProc]
    exact running
  | trap =>
    refine quiet ?_
    unfold calltrap
    rw [wp_bind, wp_get, wp_ite]
    split
    · exact .withUdata rfl rfl
    · exact .refl

/-! ## Interrupts, exits and switches -/

/-- What a turn enters into the books. -/
def Books.enter (b : Books) (m : Cpu) : Turn → Books
  | .leave =>
    match m.pt with
    | .doexit val val2 => { b with wills := Function.update b.wills m.k.udata.uPtab (m.k.will val val2) }
    | _ => b
  | .irq (.clock insys _) =>
    if (m.k.ptab m.k.udata.uPtab).pStatus = .running then
      { b with spent := b.spent + if insys then (0, 1) else (1, 0) }
    else b
  | _ => b

/-- A tick is no change of the current process. -/
lemma UData.tick_uPtab {u : UData} {insys : Bool} : (u.tick insys).uPtab = u.uPtab := by
  cases insys <;> rfl

/-- A tick is added to one of two times. -/
lemma Times.Valid.tick {u : UData} (h : u.times.Valid) (insys : Bool) :
    (u.tick insys).times.Valid ∧ (u.tick insys).times.spent = u.times.spent + if insys then (0, 1) else (1, 0) := by
  obtain ⟨hu, user⟩ := incrtick_ticks h.utime
  obtain ⟨hs, sys⟩ := incrtick_ticks h.stime
  cases insys with
  | true =>
    refine ⟨⟨h.utime, hs, h.cutime, h.cstime⟩, Prod.ext (add_zero _).symm ?_⟩
    exact (congrArg (· + u.uCstime.ticks) sys).trans (add_right_comm _ _ _)
  | false =>
    refine ⟨⟨hu, h.stime, h.cutime, h.cstime⟩, Prod.ext ?_ (add_zero _).symm⟩
    exact (congrArg (· + u.uCutime.ticks) user).trans (add_right_comm _ _ _)

/-- A change of the data leaves the processor where it was. -/
lemma Cpu.Placed.withUdata {k : Kernel} {pt : Point} {u : UData} (h : Cpu.Placed ⟨k, pt⟩)
    (uPtab : u.uPtab = k.udata.uPtab) : Cpu.Placed ⟨k.withUdata u, pt⟩ := by
  unfold Cpu.Placed Kernel.Running Kernel.withUdata at *
  dsimp only at h ⊢
  rw [uPtab]
  exact h

/-- A tick is counted for the process that runs. -/
lemma Cpu.Balanced.ticked {b : Books} (h : m.Balanced b.wills) (insys : Bool) (second : Option Time)
    (here : m.pt = .leaving → (m.k.ptab m.k.udata.uPtab).pStatus ≠ .running) :
    Cpu.Kept b (b.enter m (.irq (.clock insys second))) m ⟨m.k.ticked insys, m.pt⟩ := by
  obtain ⟨k, pt⟩ := m
  unfold Books.enter Kernel.ticked
  dsimp only at here ⊢
  split
  · next running =>
    have gone : ∀ q, Cpu.Gone ⟨k.withUdata (k.udata.tick insys), pt⟩ q ↔ Cpu.Gone ⟨k, pt⟩ q := by
      intro q
      unfold Cpu.Gone Kernel.withUdata
      dsimp only
      rw [UData.tick_uPtab]
    have alive : ¬ Cpu.Gone ⟨k, pt⟩ k.udata.uPtab :=
      Cpu.not_gone (Kernel.Running.alive running) fun leaving => here leaving running
    have used : (k.ptab k.udata.uPtab).pStatus ≠ .empty := running ▸ nofun
    have data : k.data k.udata.uPtab = k.udata := if_pos rfl
    have data' : (k.withUdata (k.udata.tick insys)).data k.udata.uPtab = k.udata.tick insys :=
      if_pos UData.tick_uPtab.symm
    obtain ⟨valid, spent⟩ := (data ▸ (h.each _).times used alive : k.udata.times.Valid).tick insys
    have same : ∀ q, q ≠ k.udata.uPtab → Cpu.SameAt ⟨k, pt⟩ ⟨k.withUdata (k.udata.tick insys), pt⟩ q := by
      intro q ne
      refine ⟨.rfl, gone q, fun _ => rfl, id, fun _ => rfl, fun _ _ => ?_⟩
      unfold Kernel.data Kernel.withUdata
      dsimp only
      rw [UData.tick_uPtab, if_neg ne, if_neg ne]
    have held : Cpu.account ⟨k, pt⟩ k.udata.uPtab = .held k.udata.times.spent :=
      (Cpu.account_held used alive).trans (by rw [data])
    have after : Cpu.account ⟨k.withUdata (k.udata.tick insys), pt⟩ k.udata.uPtab =
        .held (k.udata.times.spent + if insys then (0, 1) else (1, 0)) :=
      (Cpu.account_held (m := ⟨k.withUdata (k.udata.tick insys), pt⟩) used fun g => alive ((gone _).mp g)).trans
        (by rw [data', spent])
    refine ⟨⟨h.placed.withUdata UData.tick_uPtab, fun q => ?_⟩, _, .spend held after fun q hq => (same q hq).account, rfl⟩
    by_cases hq : q = k.udata.uPtab
    · subst hq
      have current := h.each k.udata.uPtab
      refine ⟨current.swap, current.parent, fun g => current.will ((gone _).mp g), fun _ _ => ?_⟩
      show ((k.withUdata (k.udata.tick insys)).data k.udata.uPtab).times.Valid
      rw [data']
      exact valid
    · exact ((h.each q).same (same q hq))
  · exact h.kept (fun _ => Spared.refl.sameAt Iff.rfl) h.placed

/-- What is the same afterwards. -/
lemma Cpu.Kept.same {b b' : Books} {m₁ : Cpu} (h : Cpu.Kept b b' m m₁) (same : ∀ p, m₁.SameAt m' p)
    (placed : m'.Placed) : Cpu.Kept b b' m m' := by
  have accounts : m'.account = m₁.account := funext fun p => (same p).account
  obtain ⟨d, step, spent⟩ := h.step
  exact ⟨⟨placed, fun p => (h.balanced.each p).same (same p)⟩, d, accounts ▸ step, spent⟩

/-- What is the same before. -/
lemma Cpu.Kept.after {b b' : Books} {m₁ : Cpu} (same : ∀ p, m.SameAt m₁ p) (h : Cpu.Kept b b' m₁ m') :
    Cpu.Kept b b' m m' := by
  have accounts : m₁.account = m.account := funext fun p => (same p).account
  obtain ⟨d, step, spent⟩ := h.step
  exact ⟨h.balanced, d, accounts ▸ step, spent⟩

/-- A tick lets nobody go. -/
lemma Cpu.gone_ticked {insys : Bool} : Cpu.Gone ⟨m.k.ticked insys, m.pt⟩ p ↔ m.Gone p := by
  unfold Cpu.Gone Kernel.ticked
  split
  · unfold Kernel.withUdata
    dsimp only
    rw [UData.tick_uPtab]
  · rfl

/-- Fewer processes may have gone. -/
lemma Spared.mono {G G' : Fin PTABSIZE → Prop} (h : Spared G s s') (le : ∀ p, G' p → G p) : Spared G' s s' :=
  { h with will := fun p g => h.will p (le p g) }

/-- An interrupt is in the books: a tick is spent by the current process. -/
lemma Irq.wp_kept {b : Books} (i : Irq) (h : m.Balanced b.wills) (apart : m.Apart) (spares : m.Spares (.irq i)) :
    wp i.run (fun _ s' => Cpu.Kept b (b.enter m (.irq i)) m ⟨s', m.pt⟩) (fun _ => True) m.k := by
  cases i with
  | clock insys second =>
    refine wp_post (wp_clkInt_spared (G := m.Gone) fun due p gone last => spares.2 due p last gone) fun _ s' spared => ?_
    have spared : Spared (Cpu.Gone ⟨m.k.ticked insys, m.pt⟩) _ s' := spared.mono fun p g => Cpu.gone_ticked.mp g
    have ticked := h.ticked insys second spares.1
    exact ticked.same (fun _ => spared.sameAt Iff.rfl) (spared.placed ticked.balanced.placed)
  | wakeup event => exact h.spared (Spared.woken apart.shielded event.2)
  | sendsig proc sig => exact wp_post (wp_sendsig_spared fun p => spares p) fun _ s' spared => h.spared spared

/-- Other work spares the times. -/
lemma Aside.spared {G : Fin PTABSIZE → Prop} (aside : Aside s s') : Spared G s s' where
  layout := aside.layout
  swap := aside.swap
  uPtab := aside.uPtab
  times := by
    unfold UData.times
    rw [aside.utime, aside.stime, aside.cutime, aside.cstime]
  entry p := by
    obtain ⟨uid, same⟩ := aside.ptab p
    exact .of_status (by rw [same]) (by rw [same]; exact id) (by rw [same])
  will p _ := by
    obtain ⟨uid, same⟩ := aside.ptab p
    rw [same]
    rfl

/-- The process stores its times. -/
lemma Cpu.Balanced.leave {b : Books} {val val2 : Word} (h : Cpu.Balanced b.wills ⟨s, .doexit val val2⟩)
    (apart : Cpu.Apart ⟨s, .doexit val val2⟩) (spares : Cpu.Spares ⟨s, .doexit val val2⟩ .leave) :
    wp (leave val val2)
      (fun _ s' => Cpu.Kept b (b.enter ⟨s, .doexit val val2⟩ .leave) ⟨s, .doexit val val2⟩ ⟨s', .leaving⟩)
      (fun _ => True) s := by
  have alive : (s.ptab s.udata.uPtab).pStatus.Alive := h.placed
  have here : ¬ Cpu.Gone ⟨s, .doexit val val2⟩ s.udata.uPtab := Cpu.not_gone alive nofun
  have current := h.each s.udata.uPtab
  have data : s.data s.udata.uPtab = s.udata := if_pos rfl
  obtain ⟨valid, spent⟩ := (data ▸ current.times alive.1 here : s.udata.times.Valid).will val val2
  refine wp_post (wp_leave apart.shielded here (current.parent alive.1) spares) fun _ s' left => ?_
  generalize hm : (⟨s, .doexit val val2⟩ : Cpu) = m₀ at left
  generalize hm' : (⟨s', .leaving⟩ : Cpu) = m₁
  have same : ∀ q, q ≠ s.udata.uPtab → m₀.SameAt m₁ q := by
    subst hm hm'
    intro q ne
    refine ⟨(left.entry q).empty, ?_, fun _ => (left.entry q).swap, (left.entry q).parent, left.will q, fun _ _ => ?_⟩
    · refine or_congr (left.entry q).zombie (iff_of_false (fun e => ?_) fun e => absurd e.1 nofun)
      exact ne (e.2.trans left.uPtab)
    · unfold Kernel.data
      dsimp only
      rw [left.uPtab, if_neg ne, if_neg ne, left.swap, (left.entry q).swap]
  have entry := left.entry s.udata.uPtab
  have alive' : (s'.ptab s.udata.uPtab).pStatus.Alive :=
    ⟨fun e => alive.1 (entry.empty.mp e), fun e => alive.2 (entry.zombie.mp e)⟩
  have gone : m₁.Gone s.udata.uPtab := hm' ▸ .inr ⟨rfl, left.uPtab.symm⟩
  have held : m₀.account s.udata.uPtab = .held (s.will val val2).spent := by
    subst hm
    rw [Cpu.account_held alive.1 here, data, spent]
  have after : m₁.account s.udata.uPtab = .left (s.will val val2).spent := by
    subst hm'
    rw [Cpu.account_left gone alive'.1, left.own]
  subst hm
  refine ⟨⟨?_, fun q => ?_⟩, 0, .leave held after fun q ne => (same q ne).account, (add_zero _).symm⟩
  · subst hm'
    show (s'.ptab s'.udata.uPtab).pStatus.Alive
    rw [left.uPtab]
    exact alive'
  · by_cases own : q = s.udata.uPtab
    · subst own hm'
      refine ⟨fun _ => ?_, fun _ => entry.parent (current.parent alive.1), fun _ => ?_, fun _ here => absurd gone here⟩
      · exact entry.swap.trans (current.swap alive.1)
      · show (s'.ptab s.udata.uPtab).will = Function.update b.wills s.udata.uPtab (s.will val val2) s.udata.uPtab ∧ _
        rw [Function.update_self]
        exact ⟨left.own, left.own ▸ valid⟩
    · refine ((h.each q).same (same q own)).congr ?_
      exact Function.update_of_ne own _ b.wills

/-- The status of a process that has stored its times changes. -/
lemma Cpu.Balanced.die {b : Books} (h : Cpu.Balanced b.wills ⟨s, .leaving⟩) :
    wp die (fun _ s' => Cpu.Kept b b ⟨s, .leaving⟩ ⟨s', .getproc true⟩) (fun _ => True) s := by
  have alive : (s.ptab s.udata.uPtab).pStatus.Alive := h.placed
  unfold Uzi.die
  rw [wp_modifyOwn]
  generalize hs : s.setProc s.udata.uPtab { s.ptab s.udata.uPtab with pStatus := .zombie } = s'
  have dead : s'.ptab s.udata.uPtab = { s.ptab s.udata.uPtab with pStatus := .zombie } := hs ▸ Kernel.ptab_setProc
  have other : ∀ q, q ≠ s.udata.uPtab → s'.ptab q = s.ptab q := fun q ne => hs ▸ Kernel.ptab_setProc_of_ne ne
  have uPtab : s'.udata.uPtab = s.udata.uPtab := hs ▸ rfl
  have swap : s'.swap = s.swap := hs ▸ rfl
  refine h.kept (fun q => ?_) ?_
  · by_cases own : q = s.udata.uPtab
    · subst own
      have gone : Cpu.Gone ⟨s, .leaving⟩ s.udata.uPtab := .inr ⟨rfl, rfl⟩
      have gone' : Cpu.Gone ⟨s', .getproc true⟩ s.udata.uPtab := .inl (by rw [dead])
      refine ⟨iff_of_false ?_ alive.1, iff_of_true gone' gone, fun _ => ?_, ?_, fun _ => ?_, fun _ here => absurd gone here⟩
      · exact dead ▸ nofun
      · rw [dead]
      · rw [dead]
        exact id
      · rw [dead]
        rfl
    · have entry := other q own
      refine ⟨by rw [entry], ?_, fun _ => by rw [entry], by rw [entry]; exact id, fun _ => by rw [entry], fun _ _ => ?_⟩
      · unfold Cpu.Gone
        rw [entry]
        exact or_congr .rfl (iff_of_false (fun e => absurd e.1 nofun) fun e => own e.2)
      · unfold Kernel.data
        dsimp only
        rw [uPtab, if_neg own, if_neg own, swap, entry]
  · show (s'.ptab s'.udata.uPtab).pStatus ≠ .empty ∧ ((s'.ptab s'.udata.uPtab).pStatus = .zombie ↔ true = true)
    rw [uPtab, dead]
    exact ⟨nofun, iff_of_true rfl rfl⟩

/-- A process that is ready runs, and the data of the others stay where they were. -/
lemma Cpu.Balanced.started {b : Books} {exited : Bool} {u : UData} (h : Cpu.Balanced b.wills ⟨s, .getproc exited⟩)
    (ready : (s.ptab p).pStatus = .ready) (ptab : s₁.ptab = s.ptab) (own : u.uPtab = p)
    (data : ∀ q, (s.ptab q).pStatus ≠ .empty → ¬ Cpu.Gone ⟨s, .getproc exited⟩ q →
      (if q = p then u else s₁.swap (s.ptab q).pSwap).times = (s.data q).times) :
    Cpu.Kept b b ⟨s, .getproc exited⟩ ⟨(s₁.withUdata u).started p, .running⟩ := by
  generalize hs : (s₁.withUdata u).started p = s'
  have run : s'.ptab p = { s.ptab p with pStatus := .running } := by
    subst hs
    rw [← ptab]
    exact Kernel.ptab_setProc
  have other : ∀ q, q ≠ p → s'.ptab q = s.ptab q := by
    subst hs
    intro q ne
    rw [← ptab]
    exact Kernel.ptab_setProc_of_ne ne
  have uPtab : s'.udata.uPtab = p := hs ▸ own
  have now : ∀ q, (s'.ptab q).pSwap = (s.ptab q).pSwap →
      s'.data q = if q = p then u else s₁.swap (s.ptab q).pSwap := by
    intro q same
    unfold Kernel.data
    rw [uPtab, same]
    subst hs
    rfl
  refine h.kept (fun q => ?_) ?_
  · by_cases e : q = p
    · subst e
      have here : ¬ Cpu.Gone ⟨s, .getproc exited⟩ q := Cpu.not_gone (ready ▸ ⟨nofun, nofun⟩) nofun
      have here' : ¬ Cpu.Gone ⟨s', .running⟩ q := Cpu.not_gone (by rw [run]; exact ⟨nofun, nofun⟩) nofun
      refine ⟨iff_of_false (run ▸ nofun) (ready ▸ nofun), iff_of_false here' here, fun _ => by rw [run], by rw [run]; exact id,
        fun gone => absurd gone here, fun used here => ?_⟩
      show (s'.data q).times = _
      rw [now q (by rw [run])]
      exact data q used here
    · have entry := other q e
      refine ⟨by rw [entry], ?_, fun _ => by rw [entry], by rw [entry]; exact id, fun _ => by rw [entry], fun used here => ?_⟩
      · unfold Cpu.Gone
        rw [entry]
        exact or_congr .rfl (iff_of_false (fun e => absurd e.1 nofun) fun e => absurd e.1 nofun)
      · show (s'.data q).times = _
        rw [now q (by rw [entry])]
        exact data q used here
  · show (s'.ptab s'.udata.uPtab).pStatus = .running
    rw [uPtab, run]

/-- A switch is not in the books. -/
lemma Cpu.Balanced.switch {b : Books} {exited : Bool} (h : Cpu.Balanced b.wills ⟨s, .getproc exited⟩)
    (ready : (s.ptab p).pStatus = .ready) :
    wp (switchTo exited p) (fun _ s' => Cpu.Kept b b ⟨s, .getproc exited⟩ ⟨s', .running⟩) (fun _ => True) s := by
  have here : exited = false → (s.ptab s.udata.uPtab).pStatus.Alive := by
    intro stays
    exact ⟨h.placed.1, fun zombie => absurd (stays.symm.trans (h.placed.2.mp zombie)) nofun⟩
  have images : ∀ q, (s.ptab q).pStatus ≠ .empty → (s.ptab q).pSwap = swapBlk q := fun q => (h.each q).swap
  have image := images p (ready ▸ nofun)
  refine wp_switchTo_started trivial (fun gone own => ?_) (fun stays own => ?_) fun stays own => ?_
  · refine h.started ready rfl own fun q used alive => ?_
    have ne : q ≠ s.udata.uPtab := by
      rintro rfl
      exact alive (.inl (h.placed.2.mpr gone))
    unfold Kernel.data
    rw [if_neg ne]
    split
    · next e => rw [e]
    · rfl
  · refine h.started (u := s.udata) ready rfl own fun q used _ => ?_
    unfold Kernel.data
    rw [own]
  · refine h.started ready rfl own fun q used _ => ?_
    have saved : ∀ q, (s.ptab q).pStatus ≠ .empty → s.saved.swap (s.ptab q).pSwap = s.data q := by
      intro q used
      show Function.update s.swap (s.ptab s.udata.uPtab).pSwap s.udata (s.ptab q).pSwap = _
      unfold Kernel.data
      by_cases e : q = s.udata.uPtab
      · rw [if_pos e, e, Function.update_self]
      · rw [if_neg e, Function.update_of_ne]
        rw [images q used, images _ h.placed.1]
        exact fun same => e (swapBlk_inj same)
    split
    · next e => rw [e, saved p (ready ▸ nofun)]
    · rw [saved q used]

/-- A turn is in the books. -/
lemma Cpu.Step.kept {b : Books} {v : Turn} (step : m.Step v m') (h : m.Balanced b.wills) (apart : m.Apart)
    (spares : m.Spares v) (user : m.InUser v) : Cpu.Kept b (b.enter m v) m m' := by
  cases step with
  | act ret => exact (Act.wp_kept _ h apart spares user).ok ret
  | other aside => exact h.spared aside.spared
  | irq enabled ret => exact (Irq.wp_kept _ h apart spares).ok ret
  | @chksigs k k' r ret =>
    refine (wp_chksigsFront (Q := fun r k' => Cpu.Kept b b ⟨k, .swapout⟩ ⟨k', .checked r⟩) (E := fun _ => True) (fun _ => ?_)
      (fun j _ _ => ?_) fun j _ _ => ?_).ok ret
    · refine h.kept (fun _ => Spared.refl.sameAt (iff_of_false nofun nofun)) ?_
      exact ⟨h.placed.1, iff_of_false h.placed.2 nofun⟩
    · exact h.kept (fun _ => Spared.refl.sameAt (iff_of_false nofun nofun)) h.placed
    · refine h.kept (fun _ => Cpu.sameAt_own h.placed h.placed rfl rfl rfl rfl nofun nofun) ?_
      show ((k.setProc k.udata.uPtab _).ptab k.udata.uPtab).pStatus ≠ .empty ∧
        (((k.setProc k.udata.uPtab _).ptab k.udata.uPtab).pStatus = .zombie ↔ _)
      rw [Kernel.ptab_setProc]
      exact ⟨h.placed.1, iff_of_false h.placed.2 nofun⟩
  | leave ret => exact (h.leave apart spares).ok ret
  | die ret => exact h.die.ok ret
  | look round =>
    have found := (wp_getprocRound_found (E := fun _ => True) trivial).ok round
    rw [found.1]
    exact h.spared (.of_ptab rfl rfl rfl rfl rfl)
  | @switch k _ _ exited newp round ret =>
    obtain ⟨rfl, ready⟩ := (wp_getprocRound_found (E := fun _ => True) trivial).ok round
    have passed : Spared (Cpu.Gone ⟨k, .getproc exited⟩) k { k with pp := k.pp + 1 } := .of_ptab rfl rfl rfl rfl rfl
    exact .after (fun _ => passed.sameAt Iff.rfl) (((h.spared passed).balanced.switch (ready _ rfl)).ok ret)

/-! ## Runs -/

/-- The books before anything has been entered. -/
def Books.new : Books := ⟨fun _ => ⟨0, ⟨0, 0⟩, ⟨0, 0⟩⟩, 0⟩

/-- A run of steps that `ok` allows, and the books that are kept in it. -/
inductive Cpu.Booked (ok : Cpu → Turn → Prop) (m₀ : Cpu) : Books → Cpu → Prop
  | start : Cpu.Booked ok m₀ .new m₀
  | step {b : Books} {m m' : Cpu} {v : Turn} (run : Cpu.Booked ok m₀ b m) (may : ok m v) (next : m.Step v m') :
    Cpu.Booked ok m₀ (b.enter m v) m'

/-- The step spares the times of the processes that have exited, and `_wait` stores into the memory of the process. -/
def Cpu.Careful (m : Cpu) (v : Turn) : Prop := m.Apart ∧ m.Spares v ∧ m.InUser v

/-- The state that `init2` leaves, in which no tick has been counted. -/
structure Cpu.Started (m : Cpu) : Prop where
  booted : m.Booted
  times : m.k.udata.times = ⟨⟨0, 0⟩, ⟨0, 0⟩, ⟨0, 0⟩, ⟨0, 0⟩⟩

/-- After `init2` the books are empty. -/
lemma Cpu.Started.balanced (start : m.Started) :
    m.Balanced Books.new.wills ∧ Accounts.total m.account = 0 := by
  obtain ⟨k, pt⟩ := m
  obtain ⟨⟨rfl, boot⟩, times⟩ := start
  have running : k.Running := by
    unfold Kernel.Running
    rw [boot.current, boot.init]
  have current : k.initproc = k.udata.uPtab := boot.current.symm
  have init : k.ptab k.udata.uPtab = _ := current ▸ boot.init
  have empty : ∀ p, p ≠ k.udata.uPtab → (k.ptab p).pStatus = .empty := current ▸ boot.others
  have here : ∀ p, ¬ Cpu.Gone ⟨k, .running⟩ p := by
    intro p gone
    by_cases own : p = k.udata.uPtab
    · exact Cpu.not_gone (m := ⟨k, .running⟩) (own ▸ running.alive) nofun gone
    · cases gone with
      | inl zombie => exact absurd (zombie.symm.trans (empty p own)) nofun
      | inr leaving => exact absurd leaving.1 nofun
  have zero : (k.data k.udata.uPtab).times = ⟨⟨0, 0⟩, ⟨0, 0⟩, ⟨0, 0⟩, ⟨0, 0⟩⟩ := by
    unfold Kernel.data
    rw [if_pos rfl]
    exact times
  have spent := UData.times_child (p := k.udata.uPtab) (u := k.udata)
  refine ⟨⟨running, fun p => ?_⟩, Finset.sum_eq_zero fun p _ => ?_⟩
  · by_cases own : p = k.udata.uPtab
    · subst own
      refine ⟨fun _ => ?_, fun _ => ?_, fun gone => absurd gone (here _), fun _ _ => ?_⟩
      · rw [init]
      · rw [init]
        exact Option.some_ne_none _
      · rw [zero]
        exact spent.1
    · have none := empty p own
      exact ⟨fun used => absurd none used, fun used => absurd none used, fun gone => absurd gone (here p),
        fun used => absurd none used⟩
  · by_cases own : p = k.udata.uPtab
    · subst own
      rw [Cpu.account_held running.alive.1 (here _), zero]
      exact spent.2
    · have closed : Cpu.account ⟨k, .running⟩ p = .closed := if_pos (empty p own)
      rw [closed]
      rfl

/-- A run is in the books, and what is spent in it is the sum of its ticks. -/
lemma Cpu.Booked.balanced {m₀ : Cpu} {b : Books} (run : Cpu.Booked Cpu.Careful m₀ b m) (start : m₀.Started) :
    m.Balanced b.wills ∧ Accounts.Run m₀.account b.spent m.account := by
  induction run with
  | start => exact ⟨start.balanced.1, .start⟩
  | step _ may next ih =>
    have kept := next.kept ih.1 may.1 may.2.1 may.2.2
    obtain ⟨d, step, spent⟩ := kept.step
    exact ⟨kept.balanced, spent ▸ .step ih.2 step⟩

/-- The times are kept: a process that has exited has left what is in the books, its parent adds just that to its
own times, and the times of all processes are the ticks that have been counted. -/
structure Cpu.TimesKept (b : Books) (m : Cpu) : Prop where
  kept : ∀ p, (m.k.ptab p).pStatus = .zombie → (m.k.ptab p).will = b.wills p
  added : ∀ statloc p, m.k.layout.TakesStatus statloc → (m.k.ptab p).pStatus = .zombie → wp (reap m.k.layout statloc p)
    (fun _ s' => s'.udata.uCutime = addtick m.k.udata.uCutime (b.wills p).utime ∧
      s'.udata.uCstime = addtick m.k.udata.uCstime (b.wills p).stime ∧ (s'.ptab p).pStatus = .empty)
    (fun _ => False) m.k
  total : ∑ p, (m.account p).balance = b.spent

/-- In every run in which the times of the processes that have exited are spared they are kept. -/
theorem timesKept_run {m₀ : Cpu} {b : Books} (start : m₀.Started) (run : Cpu.Booked Cpu.Careful m₀ b m) :
    m.TimesKept b := by
  obtain ⟨balanced, accounts⟩ := run.balanced start
  have kept : ∀ p, (m.k.ptab p).pStatus = .zombie → (m.k.ptab p).will = b.wills p := fun p zombie =>
    ((balanced.each p).will (.inl zombie)).1
  refine ⟨kept, fun statloc p user zombie => ?_, ?_⟩
  · refine wp_post (wp_reap_collects user) fun _ s' done => ?_
    obtain ⟨mem, rfl⟩ := done
    rw [kept p zombie]
    refine ⟨rfl, rfl, ?_⟩
    show ((m.k.setProc p _).ptab p).pStatus = .empty
    rw [Kernel.ptab_setProc]
  · have total := accounts.total
    rw [start.balanced.2, zero_add] at total
    exact total

/-! ## Runs that are given by their turns -/

instance {P : Event → Prop} [DecidablePred P] : Decidable (∀ e, P e) :=
  decidable_of_iff (P .none ∧ (∀ ino, P (.inode ino)) ∧ (∀ p, P (.ptab p)) ∧ P .ttyinq ∧ P .stopflag) <| by
    refine ⟨fun h e => ?_, fun h => ⟨h _, fun _ => h _, fun _ => h _, h _, h _⟩⟩
    cases e with
    | none => exact h.1
    | inode ino => exact h.2.1 ino
    | ptab p => exact h.2.2.1 p
    | ttyinq => exact h.2.2.2.1
    | stopflag => exact h.2.2.2.2

instance {sig : Nat} : Decidable (m.Deaf p sig) := by
  unfold Cpu.Deaf
  infer_instance

instance : Decidable m.Apart := by
  unfold Cpu.Apart
  infer_instance

instance {v : Turn} : Decidable (m.Spares v) := by
  unfold Cpu.Spares
  split <;> infer_instance

instance {v : Turn} : Decidable (m.Careful v) := by
  unfold Cpu.Careful
  infer_instance

/-- The run with these turns and its books, where `ok` allows every one of them. -/
def Cpu.bookTurns (ok : Cpu → Turn → Prop) [∀ m v, Decidable (ok m v)] : List Turn → Books → Cpu → Option (Books × Cpu)
  | [], b, m => some (b, m)
  | v :: vs, b, m => if ok m v then (m.turn v).bind (Cpu.bookTurns ok vs (b.enter m v)) else none

/-- Turns that are played are a run in the books. -/
lemma Cpu.bookTurns_booked {ok : Cpu → Turn → Prop} [∀ m v, Decidable (ok m v)] {m₀ : Cpu} {b b' : Books} {vs : List Turn}
    (run : Cpu.Booked ok m₀ b m) (h : Cpu.bookTurns ok vs b m = some (b', m')) : Cpu.Booked ok m₀ b' m' := by
  induction vs generalizing m b with
  | nil =>
    cases h
    exact run
  | cons v vs ih =>
    unfold Cpu.bookTurns at h
    split at h
    · next may =>
      obtain ⟨m₁, first, rest⟩ := Option.bind_eq_some_iff.mp h
      exact ih (.step run may (turn_step first)) rest
    · cases h

/-- `init2` has been run. -/
lemma Cpu.booted_started : Cpu.booted.Started := ⟨booted_booted, rfl⟩

/-- The first process forks, its child runs for a tick and exits. -/
def Turn.child : List Turn :=
  [.act .fork, .irq (.clock true none), .act (.exit 3 0), .leave, .die]

/-- A child exits after a tick, played. -/
lemma child_left : ((Cpu.bookTurns Cpu.Careful Turn.child .new Cpu.booted).map fun r =>
    decide ((r.2.k.ptab 1).pStatus = .zombie ∧ r.1.spent = (0, 1))) = some true := by
  decide +kernel

/-- The child leaves its tick, and the books are right. -/
theorem timesKept_run_child : ∃ b m, Cpu.Booked Cpu.Careful Cpu.booted b m ∧ (m.k.ptab 1).pStatus = .zombie ∧
    b.spent = (0, 1) ∧ m.TimesKept b := by
  obtain ⟨⟨b, m⟩, turned, done⟩ := Option.map_eq_some_iff.mp child_left
  obtain ⟨zombie, spent⟩ := of_decide_eq_true done
  have run := Cpu.bookTurns_booked .start turned
  exact ⟨b, m, run, zombie, spent, timesKept_run Cpu.booted_started run⟩

/-- The child sets its alarm clock and exits, and the alarm goes off after that. -/
def Turn.alarmed : List Turn :=
  [.act .fork, .act (.alarm 1), .act (.exit 3 0), .leave, .die, .irq (.clock true (some ⟨10, 0⟩))]

/-- The alarm of a process that has exited is heard, played. -/
lemma alarmed_lost : ((Cpu.bookTurns (fun _ _ => True) Turn.alarmed .new Cpu.booted).map fun r =>
    decide ((r.2.k.ptab 1).pStatus = .zombie ∧ (r.2.k.ptab 1).will.stime = ⟨1 <<< 14, 0⟩ ∧
      (r.1.wills 1).stime = ⟨0, 0⟩)) = some true := by
  decide +kernel

/-- The signal of the alarm clock changes the times that the child has stored. -/
theorem not_timesKept : ∃ b m, Cpu.Booked (fun _ _ => True) Cpu.booted b m ∧ ¬ m.TimesKept b := by
  obtain ⟨⟨b, m⟩, turned, done⟩ := Option.map_eq_some_iff.mp alarmed_lost
  obtain ⟨zombie, stored, left⟩ := of_decide_eq_true done
  refine ⟨b, m, Cpu.bookTurns_booked .start turned, fun kept => ?_⟩
  rw [kept.kept 1 zombie, left] at stored
  exact absurd stored (by decide)

end Uzi
