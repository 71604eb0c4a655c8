import Mathlib.Data.ZMod.Basic
import Mathlib.Tactic.Ring
import Mathlib.Algebra.Group.Prod
import Uzi.Lib.Accounts
import Uzi.Sched.Signals

/-!
# The times of processes

A process has counted ticks in its data, and `doexit` stores the sums over its entry of the process table,
from where `_wait` adds them to those of the parent. A date has 16 bits, so that ticks are counted modulo
600 · 2¹⁶.
-/

namespace Uzi
open Exec Accounts

/-! ## Ticks -/

/-- Numbers of ticks. -/
abbrev Ticks := ZMod (600 * 65536)

/-- The ticks of a time. -/
def Time.ticks (t : Time) : Ticks := (600 * t.tDate.toNat + t.tTime.toNat : Nat)

/-- A time of fewer than 600 ticks and a date. -/
def Time.Valid (t : Time) : Prop := t.tTime.toNat < 600

instance {t : Time} : Decidable t.Valid := by
  unfold Time.Valid
  infer_instance

/-- The date goes round after 65536. -/
lemma Time.ticks_wrap {d n : Nat} : (600 * (d % 65536) + n : Nat) = ((600 * d + n : Nat) : Ticks) := by
  refine (ZMod.natCast_eq_natCast_iff _ _ _).mpr (Nat.ModEq.add_right n ?_)
  unfold Nat.ModEq
  rw [Nat.mul_mod_mul_left, Nat.mul_mod_mul_left, Nat.mod_mod]

/-- A time whose two parts are these numbers. -/
lemma Time.ticks_of {t : Time} {d n : Nat} (date : t.tDate.toNat = d % 65536) (time : t.tTime.toNat = n) :
    t.ticks = ((600 * d + n : Nat) : Ticks) := by
  unfold Time.ticks
  rw [date, time, Time.ticks_wrap]

/-- `addtick` adds ticks. -/
lemma addtick_ticks {t u : Time} (ht : t.Valid) (hu : u.Valid) :
    (addtick t u).Valid ∧ (addtick t u).ticks = t.ticks + u.ticks := by
  unfold Time.Valid at ht hu
  have sum : t.ticks + u.ticks =
      ((600 * (t.tDate.toNat + u.tDate.toNat) + (t.tTime.toNat + u.tTime.toNat) : Nat) : Ticks) := by
    unfold Time.ticks
    push_cast
    ring
  have time : (t.tTime + u.tTime).toNat = t.tTime.toNat + u.tTime.toNat := by
    rw [BitVec.toNat_add]
    exact Nat.mod_eq_of_lt (by omega)
  rw [sum]
  unfold addtick
  dsimp only
  split
  · next full =>
    have full : 600 ≤ t.tTime.toNat + u.tTime.toNat := time ▸ BitVec.le_def.mp full
    have rest : (t.tTime + u.tTime - 600).toNat = t.tTime.toNat + u.tTime.toNat - 600 := by
      rw [BitVec.toNat_sub, time]
      show (65536 - 600 + _) % 65536 = _
      omega
    have date : (t.tDate + u.tDate + 1).toNat = (t.tDate.toNat + u.tDate.toNat + 1) % 65536 := by
      rw [toNat_increment, BitVec.toNat_add]
      omega
    refine ⟨?_, (Time.ticks_of date rest).trans (congrArg _ (by omega))⟩
    show (t.tTime + u.tTime - 600).toNat < 600
    omega
  · next part =>
    have part : ¬ 600 ≤ t.tTime.toNat + u.tTime.toNat := fun h => part (BitVec.le_def.mpr (time ▸ h))
    have date : (t.tDate + u.tDate).toNat = (t.tDate.toNat + u.tDate.toNat) % 65536 := BitVec.toNat_add ..
    refine ⟨?_, Time.ticks_of date time⟩
    show (t.tTime + u.tTime).toNat < 600
    omega

/-- `incrtick` adds one. -/
lemma incrtick_ticks {t : Time} (ht : t.Valid) : (incrtick t).Valid ∧ (incrtick t).ticks = t.ticks + 1 := by
  unfold Time.Valid at ht
  have sum : t.ticks + 1 = ((600 * t.tDate.toNat + (t.tTime.toNat + 1) : Nat) : Ticks) := by
    unfold Time.ticks
    push_cast
    ring
  have time : (t.tTime + 1).toNat = t.tTime.toNat + 1 := by
    rw [toNat_increment]
    omega
  rw [sum]
  unfold incrtick
  split
  · next full =>
    have full : t.tTime.toNat + 1 = 600 := by
      rw [← time, full]
      rfl
    have rest : (⟨0, t.tDate + 1⟩ : Time).ticks = _ := Time.ticks_of (n := 0) toNat_increment rfl
    exact ⟨show 0 < 600 by decide, rest.trans (congrArg _ (by omega))⟩
  · next part =>
    refine ⟨?_, Time.ticks_of (Nat.mod_eq_of_lt t.tDate.isLt).symm time⟩
    show (t.tTime + 1).toNat < 600
    have ne : t.tTime.toNat + 1 ≠ 600 := fun e => part (BitVec.eq_of_toNat_eq (by rw [time, e]; rfl))
    omega

/-! ## What a process leaves -/

/-- What `_wait` finds in the entry of a process that has exited. -/
structure Will where
  exitval : Word
  utime : Time
  stime : Time

/-- What a process that has exited has left in its entry. -/
def PTab.will (x : PTab) : Will := ⟨x.pExitval, ⟨x.pWait, x.pPriority⟩, ⟨x.pPending, x.pIgnored⟩⟩

/-- What the current process has to leave: its times with those of its children. -/
def Kernel.will (s : Kernel) (val val2 : Word) : Will :=
  ⟨val <<< 8 ||| (val2 &&& 0xff), addtick s.udata.uUtime s.udata.uCutime, addtick s.udata.uStime s.udata.uCstime⟩

/-- Ticks in user mode and in the kernel. -/
abbrev Spent := Ticks × Ticks

/-- The ticks of what is left. -/
def Will.spent (w : Will) : Spent := (w.utime.ticks, w.stime.ticks)

/-- The times that a process keeps in its data. -/
structure Times where
  utime : Time
  stime : Time
  cutime : Time
  cstime : Time

/-- The times in the data of a process. -/
def UData.times (u : UData) : Times := ⟨u.uUtime, u.uStime, u.uCutime, u.uCstime⟩

/-- The ticks of a process, with those of its children. -/
def Times.spent (t : Times) : Spent := (t.utime.ticks + t.cutime.ticks, t.stime.ticks + t.cstime.ticks)

/-- The times are below a minute. -/
structure Times.Valid (t : Times) : Prop where
  utime : t.utime.Valid
  stime : t.stime.Valid
  cutime : t.cutime.Valid
  cstime : t.cstime.Valid

/-- What is left are times. -/
structure Will.Valid (w : Will) : Prop where
  utime : w.utime.Valid
  stime : w.stime.Valid

/-- What a process leaves are its times. -/
lemma Times.Valid.will {s : Kernel} (h : s.udata.times.Valid) (val val2 : Word) :
    (s.will val val2).Valid ∧ (s.will val val2).spent = s.udata.times.spent := by
  obtain ⟨hu, u⟩ := addtick_ticks h.utime h.cutime
  obtain ⟨hs, s⟩ := addtick_ticks h.stime h.cstime
  exact ⟨⟨hu, hs⟩, Prod.ext u s⟩

/-- The process has stored its times in its entry. -/
def Cpu.Gone (m : Cpu) (p : Fin PTABSIZE) : Prop :=
  (m.k.ptab p).pStatus = .zombie ∨ m.pt = .leaving ∧ p = m.k.udata.uPtab

instance {m : Cpu} {p : Fin PTABSIZE} : Decidable (m.Gone p) := by
  unfold Cpu.Gone
  infer_instance

/-- A running process is not leaving. -/
lemma Point.running_ne : Point.running ≠ .leaving := nofun

/-- A process in `swapout` is not leaving. -/
lemma Point.swapout_ne : Point.swapout ≠ .leaving := nofun

/-- A process in `doexit` is not leaving. -/
lemma Point.doexit_ne {val val2 : Word} : Point.doexit val val2 ≠ .leaving := nofun

/-- A ready process is alive. -/
lemma PStatus.alive_ready : PStatus.ready.Alive := ⟨nofun, nofun⟩

/-- The account of a process. -/
def Cpu.account (m : Cpu) (p : Fin PTABSIZE) : Account Spent :=
  if (m.k.ptab p).pStatus = .empty then .closed
  else if m.Gone p then .left (m.k.ptab p).will.spent
  else .held (m.k.data p).times.spent

variable {m m' : Cpu} {p q : Fin PTABSIZE}

/-- The account of a process that is there is what its times say. -/
lemma Cpu.account_held (used : (m.k.ptab p).pStatus ≠ .empty) (here : ¬ m.Gone p) :
    m.account p = .held (m.k.data p).times.spent := by
  rw [account, if_neg used, if_neg here]

/-- The account of a process that has gone is what it has left. -/
lemma Cpu.account_left (gone : m.Gone p) (used : (m.k.ptab p).pStatus ≠ .empty) :
    m.account p = .left (m.k.ptab p).will.spent := by
  rw [account, if_neg used, if_pos gone]

/-- The account of a process stays as it is. -/
structure Cpu.SameAt (m m' : Cpu) (p : Fin PTABSIZE) : Prop where
  empty : (m'.k.ptab p).pStatus = .empty ↔ (m.k.ptab p).pStatus = .empty
  gone : m'.Gone p ↔ m.Gone p
  swap : (m.k.ptab p).pStatus ≠ .empty → (m'.k.ptab p).pSwap = (m.k.ptab p).pSwap
  parent : (m.k.ptab p).pPptr ≠ none → (m'.k.ptab p).pPptr ≠ none
  will : m.Gone p → (m'.k.ptab p).will = (m.k.ptab p).will
  times : (m.k.ptab p).pStatus ≠ .empty → ¬ m.Gone p → (m'.k.data p).times = (m.k.data p).times

/-- The account of a process that is the same. -/
lemma Cpu.SameAt.account (h : m.SameAt m' p) : m'.account p = m.account p := by
  unfold Cpu.account
  rw [if_congr h.empty rfl rfl, if_congr h.gone rfl rfl]
  split
  · rfl
  · next used =>
    split
    · next gone => rw [h.will gone]
    · next here => rw [h.times used here]

/-! ## What leaves the times alone -/

/-- The entry is not filled or emptied, and its process does not start or stop running, nor exit. -/
structure PTab.Spares (x y : PTab) : Prop where
  swap : y.pSwap = x.pSwap
  parent : x.pPptr ≠ none → y.pPptr ≠ none
  empty : y.pStatus = .empty ↔ x.pStatus = .empty
  running : y.pStatus = .running ↔ x.pStatus = .running
  zombie : y.pStatus = .zombie ↔ x.pStatus = .zombie

namespace PTab.Spares

variable {x y z : PTab}

/-- An entry is spared when its status stays. -/
lemma of_status (swap : y.pSwap = x.pSwap) (parent : x.pPptr ≠ none → y.pPptr ≠ none)
    (status : y.pStatus = x.pStatus) : PTab.Spares x y :=
  ⟨swap, parent, by rw [status], by rw [status], by rw [status]⟩

/-- An entry that does not change is spared. -/
lemma refl : PTab.Spares x x := .of_status rfl id rfl

/-- An entry is spared by two changes. -/
lemma trans (h : PTab.Spares x y) (h' : PTab.Spares y z) : PTab.Spares x z :=
  ⟨h'.swap.trans h.swap, fun e => h'.parent (h.parent e), h'.empty.trans h.empty, h'.running.trans h.running,
    h'.zombie.trans h.zombie⟩

/-- A process that sleeps becomes ready. -/
lemma of_ready (swap : y.pSwap = x.pSwap) (parent : y.pPptr = x.pPptr) (ready : y.pStatus = .ready)
    (behind : x.pStatus.isBehindRunning = true) (here : x.pStatus ≠ .zombie) : PTab.Spares x y := by
  refine ⟨swap, parent ▸ id, iff_of_false (ready ▸ nofun) fun e => ?_, iff_of_false (ready ▸ nofun) fun e => ?_,
    iff_of_false (ready ▸ nofun) here⟩
  · exact absurd (e ▸ behind) (by decide)
  · exact absurd (e ▸ behind) (by decide)

/-- Whether a process is behind the running ones stays. -/
lemma behind (h : PTab.Spares x y) : y.pStatus.isBehindRunning = x.pStatus.isBehindRunning := by
  have other : ∀ w : PStatus, w.isBehindRunning = !(decide (w = .empty) || decide (w = .running)) := by
    intro w
    cases w <;> rfl
  rw [other, other, decide_eq_decide.mpr h.empty, decide_eq_decide.mpr h.running]

end PTab.Spares

variable {G : Fin PTABSIZE → Prop} {s s' : Kernel} {E : Panic → Prop}

/-- The entries and the times are spared, and the processes in `G` leave the same as before. -/
structure Spared (G : Fin PTABSIZE → Prop) (s s' : Kernel) : Prop where
  layout : s'.layout = s.layout
  swap : s'.swap = s.swap
  uPtab : s'.udata.uPtab = s.udata.uPtab
  times : s'.udata.times = s.udata.times
  entry : ∀ p, (s.ptab p).Spares (s'.ptab p)
  will : ∀ p, G p → (s'.ptab p).will = (s.ptab p).will

/-- All processes that have exited are in `G`, and none of those in it could be woken up. -/
structure Kernel.Shielded (G : Fin PTABSIZE → Prop) (s : Kernel) : Prop where
  zombie : ∀ p, (s.ptab p).pStatus = .zombie → G p
  apart : ∀ p, G p → (s.ptab p).pStatus.isBehindRunning = true → ∀ e, e ≠ .none → (s.ptab p).pWait ≠ s.layout.addr e

namespace Spared

/-- Everything is spared that the process table and the times do not say otherwise of. -/
lemma of_ptab (ptab : s'.ptab = s.ptab) (layout : s'.layout = s.layout) (swap : s'.swap = s.swap)
    (uPtab : s'.udata.uPtab = s.udata.uPtab) (times : s'.udata.times = s.udata.times) : Spared G s s' :=
  ⟨layout, swap, uPtab, times, fun _ => ptab ▸ .refl, fun _ _ => by rw [ptab]⟩

/-- Nothing is changed. -/
lemma refl : Spared G s s := .of_ptab rfl rfl rfl rfl rfl

/-- Everything is spared by two changes. -/
lemma trans {s'' : Kernel} (h : Spared G s s') (h' : Spared G s' s'') : Spared G s s'' where
  layout := h'.layout.trans h.layout
  swap := h'.swap.trans h.swap
  uPtab := h'.uPtab.trans h.uPtab
  times := h'.times.trans h.times
  entry p := (h.entry p).trans (h'.entry p)
  will p g := (h'.will p g).trans (h.will p g)

/-- One entry changes. -/
lemma setProc {x : PTab} (entry : (s.ptab p).Spares x) (will : G p → x.will = (s.ptab p).will) :
    Spared G s (s.setProc p x) := by
  refine ⟨rfl, rfl, rfl, rfl, fun q => ?_, fun q g => ?_⟩
  · by_cases same : q = p
    · rw [same, Kernel.ptab_setProc]
      exact entry
    · rw [Kernel.ptab_setProc_of_ne same]
      exact .refl
  · by_cases same : q = p
    · subst same
      rw [Kernel.ptab_setProc]
      exact will g
    · rw [Kernel.ptab_setProc_of_ne same]

/-- The data of the process change, but for its times. -/
lemma withUdata {u : UData} (uPtab : u.uPtab = s.udata.uPtab) (times : u.times = s.udata.times) :
    Spared G s (s.withUdata u) := .of_ptab rfl rfl rfl uPtab times

/-- Those that have exited stay out of reach. -/
lemma shielded (h : Spared G s s') (g : s.Shielded G) : s'.Shielded G where
  zombie p e := g.zombie p ((h.entry p).zombie.mp e)
  apart p hp behind e ne := by
    have wait := congrArg (fun w => w.utime.tTime) (h.will p hp)
    have wait : (s'.ptab p).pWait = (s.ptab p).pWait := wait
    rw [wait, h.layout]
    exact g.apart p hp ((h.entry p).behind ▸ behind) e ne

/-- No process in `G` is woken up. -/
lemma woken {event : Event} (g : s.Shielded G) (ne : event ≠ .none) : Spared G s { s with ptab := s.woken event } := by
  refine ⟨rfl, rfl, rfl, rfl, fun p => ?_, fun p hp => ?_⟩
  · show (s.ptab p).Spares (s.woken event p)
    unfold Kernel.woken
    split
    · next sleeps =>
      exact .of_ready rfl rfl rfl sleeps.1 fun zombie => g.apart p (g.zombie p zombie) sleeps.1 event ne sleeps.2
    · exact .refl
  · show (s.woken event p).will = _
    unfold Kernel.woken
    split
    · next sleeps => exact absurd sleeps.2 (g.apart p hp sleeps.1 event ne)
    · rfl

end Spared

/-- The times are spared unless a process in `G` could be woken up. -/
def Sparing (G : Fin PTABSIZE → Prop) (s s' : Kernel) : Prop := s.Shielded G → Spared G s s'

instance : Forking (Sparing G) where
  refl _ _ := .refl
  trans _ _ _ h h' g := (h g).trans (h' ((h g).shielded g))
  bufs _ _ _ := .of_ptab rfl rfl rfl rfl rfl
  fsTab _ _ _ _ _ := .of_ptab rfl rfl rfl rfl rfl
  iTab _ _ _ := .of_ptab rfl rfl rfl rfl rfl
  nexti _ _ _ := .of_ptab rfl rfl rfl rfl rfl
  error _ _ _ := .of_ptab rfl rfl rfl rfl rfl
  woken _ ino g := .woken g (nofun : Event.inode ino ≠ .none)
  ofTab _ _ _ := .of_ptab rfl rfl rfl rfl rfl
  ofBss _ _ _ := .of_ptab rfl rfl rfl rfl rfl
  files _ _ _ := .of_ptab rfl rfl rfl rfl rfl
  time _ _ _ := .withUdata rfl rfl
  reset _ _ := .withUdata rfl rfl

/-! ## Signals and the clock -/

/-- A signal does not change what a process has stored in the entry. -/
def PTab.Deaf (x : PTab) (sig : Nat) : Prop :=
  x.pIgnored &&& sigmask sig ≠ 0 ∨ x.pWait = 0 ∧ x.pPending ||| sigmask sig = x.pPending

instance {x : PTab} {sig : Nat} : Decidable (x.Deaf sig) := by
  unfold PTab.Deaf
  infer_instance

/-- Nothing but the entry of `p` changes, which is spared. -/
def SparedAt (G : Fin PTABSIZE → Prop) (p : Fin PTABSIZE) (s s' : Kernel) : Prop :=
  ∃ x, s' = s.setProc p x ∧ (s.ptab p).Spares x ∧ (G p → x.will = (s.ptab p).will)

namespace SparedAt

/-- The entry stays. -/
lemma refl : SparedAt G p s s := by
  refine ⟨s.ptab p, ?_, .refl, fun _ => rfl⟩
  unfold Kernel.setProc
  rw [Function.update_eq_self]

/-- The entry changes twice. -/
lemma trans {s'' : Kernel} (h : SparedAt G p s s') (h' : SparedAt G p s' s'') : SparedAt G p s s'' := by
  obtain ⟨x, rfl, spares, will⟩ := h
  obtain ⟨y, rfl, spares', will'⟩ := h'
  rw [Kernel.ptab_setProc] at spares' will'
  refine ⟨y, ?_, spares.trans spares', fun g => (will' g).trans (will g)⟩
  unfold Kernel.setProc
  rw [Function.update_idem]

/-- Everything is spared by a change of one entry. -/
lemma spared (h : SparedAt G p s s') : Spared G s s' := by
  obtain ⟨x, rfl, spares, will⟩ := h
  exact .setProc spares will

/-- The other entries stay. -/
lemma ptab (h : SparedAt G p s s') (ne : q ≠ p) : s'.ptab q = s.ptab q := by
  obtain ⟨x, rfl, -⟩ := h
  exact Kernel.ptab_setProc_of_ne ne

end SparedAt

/-- A loop over the process table in which every round changes its own entry. -/
lemma wp_each_spared {body : Fin PTABSIZE → K PUnit}
    (step : ∀ p s₁, s₁.ptab p = s.ptab p → wp (body p) (fun _ s₂ => SparedAt G p s₁ s₂) E s₁) :
    wp (each (List.finRange PTABSIZE) body) (fun _ s' => Spared G s s') E s := by
  have rounds : wp (each (List.finRange PTABSIZE) body)
      (fun _ s' => Spared G s s' ∧ ∀ q ∈ ([] : List (Fin PTABSIZE)), s'.ptab q = s.ptab q) E s := by
    refine wp_each (fun js s' => Spared G s s' ∧ ∀ q ∈ js, s'.ptab q = s.ptab q) ?_ ⟨.refl, fun _ _ => rfl⟩
    intro p js suffix s₁ h
    obtain ⟨spared, left⟩ := h
    have nodup := (List.nodup_cons.mp ((List.nodup_finRange PTABSIZE).sublist suffix.sublist)).1
    refine wp_post (step p s₁ (left p List.mem_cons_self)) fun _ s₂ changed => ?_
    refine ⟨spared.trans changed.spared, fun q hq => ?_⟩
    have ne : q ≠ p := by
      rintro rfl
      exact nodup hq
    exact (changed.ptab ne).trans (left q (List.mem_cons_of_mem p hq))
  exact wp_post rounds fun _ _ h => h.1

/-- A signal that the entry does not hear of. -/
lemma wp_ssig_spared {sig : Nat} (deaf : G p → (s.ptab p).Deaf sig) :
    wp (ssig p sig) (fun _ s' => SparedAt G p s s') E s := by
  unfold ssig
  rw [wp_bind, wp_get, wp_ite]
  split
  · exact .refl
  rw [wp_ite]
  split
  · exact .refl
  · next heard =>
    rw [wp_modifyPtab]
    refine ⟨_, rfl, ?_, fun g => ?_⟩
    · split
      · next asleep =>
        refine .of_ready rfl rfl rfl ?_ fun dead => ?_
        · rcases asleep with e | e | e
          · exact e ▸ rfl
          · exact e ▸ rfl
          · exact e ▸ rfl
        · rw [dead] at asleep
          exact absurd asleep (by decide)
      · exact .of_status rfl id rfl
    · cases deaf g with
      | inl ignored => exact absurd ignored heard
      | inr same =>
        unfold PTab.will
        dsimp only
        rw [same.1, same.2]

/-- `sendsig` of one that nobody hears of who has exited. -/
lemma wp_sendsig_spared {proc : Option (Fin PTABSIZE)} {sig : Nat}
    (deaf : ∀ p, proc = none ∨ proc = some p → G p → (s.ptab p).Deaf sig) :
    wp (sendsig proc sig) (fun _ s' => Spared G s s') E s := by
  cases proc with
  | some p => exact wp_post (wp_ssig_spared (deaf p (.inr rfl))) fun _ _ => SparedAt.spared
  | none =>
    rw [sendsig]
    refine wp_each_spared fun p s₁ same => ?_
    rw [wp_bind, wp_get, wp_ite]
    split
    · exact wp_ssig_spared (same ▸ deaf p (.inl rfl))
    · exact .refl

/-- The alarm of a process that has exited is not heard. -/
lemma wp_alarmClock_spared (deaf : G p → (s.ptab p).pAlarm = 1 → (s.ptab p).Deaf SIGALRM) :
    wp (alarmClock p) (fun _ s' => SparedAt G p s s') E s := by
  unfold alarmClock
  rw [wp_bind, wp_get, wp_ite]
  split
  · rw [wp_bind, wp_modifyPtab, wp_bind, wp_get, wp_ite]
    generalize entry : s.ptab p = x at deaf ⊢
    have tick : SparedAt G p s (s.setProc p { x with pAlarm := x.pAlarm - 1 }) :=
      ⟨_, rfl, entry ▸ .of_status rfl id rfl, fun _ => entry ▸ rfl⟩
    split
    · next rings =>
      rw [Kernel.ptab_setProc] at rings
      have last : x.pAlarm = 1 := BitVec.sub_eq_iff_eq_add.mp rings
      refine wp_post (wp_ssig_spared fun g => ?_) fun _ _ => tick.trans
      rw [Kernel.ptab_setProc]
      exact deaf g last
    · exact tick
  · exact .refl

/-- The data of a process after a tick of it. -/
def UData.tick (u : UData) (insys : Bool) : UData :=
  if insys then { u with uStime := incrtick u.uStime } else { u with uUtime := incrtick u.uUtime }

/-- The kernel after the clock has counted a tick of the current process. -/
def Kernel.ticked (s : Kernel) (insys : Bool) : Kernel :=
  if (s.ptab s.udata.uPtab).pStatus = .running then s.withUdata (s.udata.tick insys) else s

/-- A tick is no change of the process table. -/
lemma Kernel.ticked_ptab {insys : Bool} : (s.ticked insys).ptab = s.ptab := by
  unfold Kernel.ticked
  split <;> rfl

/-- An interrupt of the clock counts a tick, and spares the rest. -/
lemma wp_clkInt_spared {insys : Bool} {second : Option Time}
    (deaf : second ≠ none → ∀ p, G p → (s.ptab p).pAlarm = 1 → (s.ptab p).Deaf SIGALRM) :
    wp (clkInt insys second) (fun _ s' => Spared G (s.ticked insys) s') E s := by
  unfold clkInt
  rw [wp_bind, wp_get]
  refine wp_when (fun s' => s' = s.ticked insys) (fun running => ?_) (fun idle => (if_neg idle).symm) ?_
  · rw [wp_modifyUdata]
    exact (if_pos running).symm
  · rintro _ rfl
    cases second with
    | none => exact .refl
    | some now =>
      rw [wp_bind, wp_modify]
      have set : Spared G (s.ticked insys) { s.ticked insys with tod := now } := .of_ptab rfl rfl rfl rfl rfl
      refine wp_post (wp_each_spared fun p s₁ same => wp_alarmClock_spared ?_) fun _ _ => set.trans
      rw [same]
      show G p → ((s.ticked insys).ptab p).pAlarm = 1 → ((s.ticked insys).ptab p).Deaf SIGALRM
      rw [Kernel.ticked_ptab]
      exact deaf (Option.some_ne_none now) p

/-! ## Exits -/

/-- The current process has stored its times for `w`. -/
structure Leaves (G : Fin PTABSIZE → Prop) (w : Will) (s s' : Kernel) : Prop where
  swap : s'.swap = s.swap
  uPtab : s'.udata.uPtab = s.udata.uPtab
  entry : ∀ p, (s.ptab p).Spares (s'.ptab p)
  will : ∀ p, G p → (s'.ptab p).will = (s.ptab p).will
  own : (s'.ptab s.udata.uPtab).will = w

/-- The children of a process get another parent. -/
lemma Spared.adopt : Spared G s { s with ptab := s.adopt } := by
  have parent : ∀ p, (s.ptab p).pPptr ≠ none → (s.adopt p).pPptr ≠ none := by
    intro p h
    cases adopt_parent (s := s) (p := p) with
    | inl same => exact same ▸ h
    | inr first => exact first ▸ Option.some_ne_none _
  refine ⟨rfl, rfl, rfl, rfl, fun p => .of_status adopt_swap (parent p) adopt_status, fun p _ => ?_⟩
  show (s.adopt p).will = _
  unfold Kernel.adopt
  split <;> rfl

/-- The exit values are the same. -/
def SameExitvals (s s' : Kernel) : Prop := ∀ p, (s'.ptab p).pExitval = (s.ptab p).pExitval

/-- A wakeup changes no exit value. -/
lemma SameExitvals.woken {event : Event} : SameExitvals s { s with ptab := s.woken event } := by
  intro p
  show (s.woken event p).pExitval = _
  unfold Kernel.woken
  split <;> rfl

/-- Nor do new parents. -/
lemma SameExitvals.adopt : SameExitvals s { s with ptab := s.adopt } := by
  intro p
  show (s.adopt p).pExitval = _
  unfold Kernel.adopt
  split <;> rfl

instance : Filing SameExitvals where
  refl _ _ := rfl
  trans _ _ _ h h' p := (h' p).trans (h p)
  bufs _ _ _ := rfl
  fsTab _ _ _ _ _ := rfl
  iTab _ _ _ := rfl
  nexti _ _ _ := rfl
  error _ _ _ := rfl
  woken _ _ := SameExitvals.woken
  ofTab _ _ _ := rfl
  ofBss _ _ _ := rfl
  files _ _ _ := rfl

/-- The current process stores what it leaves. -/
lemma wp_addTimes_leaves {e : Word} (exitval : (s.ptab s.udata.uPtab).pExitval = e) (here : ¬ G s.udata.uPtab) :
    wp addTimes (fun _ s' => s'.layout = s.layout ∧
      Leaves G ⟨e, addtick s.udata.uUtime s.udata.uCutime, addtick s.udata.uStime s.udata.uCstime⟩ s s') E s := by
  unfold addTimes
  rw [wp_bind, wp_modifyUdata, wp_bind, wp_modifyUdata, wp_bind, wp_get, wp_modifyOwn]
  have other : ∀ {x : PTab} {p}, p ≠ s.udata.uPtab → (s.setProc s.udata.uPtab x).ptab p = s.ptab p :=
    Kernel.ptab_setProc_of_ne
  refine ⟨rfl, rfl, rfl, fun p => ?_, fun p g => ?_, ?_⟩
  · show (s.ptab p).Spares ((s.setProc s.udata.uPtab _).ptab p)
    by_cases own : p = s.udata.uPtab
    · rw [own, Kernel.ptab_setProc]
      exact .of_status rfl id rfl
    · rw [other own]
      exact .refl
  · show ((s.setProc s.udata.uPtab _).ptab p).will = _
    rw [other fun own => here (own ▸ g)]
  · show ((s.setProc s.udata.uPtab _).ptab s.udata.uPtab).will = _
    rw [Kernel.ptab_setProc, ← exitval]
    rfl

/-- What is spared before a process leaves. -/
lemma Spared.leaves {w : Will} {s'' : Kernel} (h : Spared G s s') (h' : Leaves G w s' s'') : Leaves G w s s'' where
  swap := h'.swap.trans h.swap
  uPtab := h'.uPtab.trans h.uPtab
  entry p := (h.entry p).trans (h'.entry p)
  will p g := (h'.will p g).trans (h.will p g)
  own := h.uPtab ▸ h'.own

/-- What is spared after a process has left. -/
lemma Leaves.spared {w : Will} {s'' : Kernel} (h : Leaves G w s s')
    (h' : Spared (fun p => G p ∨ p = s.udata.uPtab) s' s'') : Leaves G w s s'' where
  swap := h'.swap.trans h.swap
  uPtab := h'.uPtab.trans h.uPtab
  entry p := (h.entry p).trans (h'.entry p)
  will p g := (h'.will p (.inl g)).trans (h.will p g)
  own := (h'.will _ (.inr rfl)).trans h.own

variable [Stopping E]

/-- `doexit` leaves the times of the process, with those of its children. -/
lemma wp_leave {val val2 : Word} (shield : s.Shielded G) (here : ¬ G s.udata.uPtab)
    (parent : (s.ptab s.udata.uPtab).pPptr ≠ none)
    (own : (s.ptab s.udata.uPtab).pStatus.isBehindRunning = true →
      ∀ e, e ≠ .none → (s.will val val2).utime.tTime ≠ s.layout.addr e) :
    wp (leave val val2) (fun _ s' => Leaves G (s.will val val2) s s') E s := by
  unfold leave
  rw [wp_bind]
  refine wp_post (within_closeAll (R := Sparing G) s) fun _ s₁ h => ?_
  have spared₁ := h shield
  rw [wp_bind, wp_modifyOwn, wp_bind, wp_modify]
  generalize exitval : val <<< 8 ||| val2 &&& 0xff = e
  have spared₂ : Spared G s₁ (s₁.setProc s₁.udata.uPtab { s₁.ptab s₁.udata.uPtab with pExitval := e }) :=
    .setProc (.of_status rfl id rfl) fun g => absurd (spared₁.uPtab ▸ g) here
  have stored : ((s₁.setProc s₁.udata.uPtab { s₁.ptab s₁.udata.uPtab with pExitval := e }).ptab
      s.udata.uPtab).pExitval = e := by
    rw [← spared₁.uPtab, Kernel.ptab_setProc]
  generalize (s₁.setProc _ _) = s₂ at spared₂ stored ⊢
  have spared₃ := (spared₁.trans spared₂).trans Spared.adopt
  have stored₃ := (SameExitvals.adopt s.udata.uPtab).trans stored
  generalize ({ s₂ with ptab := s₂.adopt } : Kernel) = s₃ at spared₃ stored₃ ⊢
  rw [wp_bind, wp_get, wp_bind]
  refine wp_mono ((Quiet.iDeref (R := Sparing G) (E := E) s₃).and (Quiet.iDeref (R := SameExitvals) (E := E) s₃))
    ?_ fun _ h => h.1
  intro _ s₄ h
  have spared₄ := spared₃.trans (h.1 (spared₃.shielded shield))
  have stored₄ : (s₄.ptab s₄.udata.uPtab).pExitval = e := by
    rw [spared₄.uPtab]
    exact (h.2 _).trans stored₃
  rw [wp_bind]
  refine wp_post (wp_addTimes_leaves (G := G) stored₄ (spared₄.uPtab ▸ here)) fun _ s₅ h => ?_
  obtain ⟨layout₅, leaves⟩ := h
  have times : (⟨e, addtick s₄.udata.uUtime s₄.udata.uCutime, addtick s₄.udata.uStime s₄.udata.uCstime⟩ : Will) =
      s.will val val2 := by
    have same : s₄.udata.times = s.udata.times := spared₄.times
    unfold UData.times at same
    obtain ⟨utime, stime, cutime, cstime⟩ := Times.mk.inj same
    rw [← exitval, utime, stime, cutime, cstime]
    rfl
  rw [times] at leaves
  have leaves₅ := spared₄.leaves leaves
  have layout : s₅.layout = s.layout := layout₅.trans spared₄.layout
  unfold wakeParent
  rw [wp_bind, wp_get, wp_ite]
  split
  · -- the parent is woken up, but neither a process in `G` nor the one that exits
    have spared₆ : Spared (fun p => G p ∨ p = s.udata.uPtab) s₅
        { s₅ with ptab := s₅.woken ((s₅.ptab s₅.udata.uPtab).pPptr.elim .none .ptab) } := by
      refine .woken ⟨fun p zombie => ?_, fun p g => ?_⟩ ?_
      · exact .inl (shield.zombie p ((leaves₅.entry p).zombie.mp zombie))
      · rw [(leaves₅.entry p).behind, layout]
        cases g with
        | inl g =>
          have wait := congrArg (fun w => w.utime.tTime) (leaves₅.will p g)
          have wait : (s₅.ptab p).pWait = (s.ptab p).pWait := wait
          rw [wait]
          exact shield.apart p g
        | inr current =>
          subst current
          have wait := congrArg (fun w => w.utime.tTime) leaves₅.own
          have wait : (s₅.ptab s.udata.uPtab).pWait = (s.will val val2).utime.tTime := wait
          rw [wait]
          exact own
      · have parent₅ := (leaves₅.entry _).parent parent
        rw [← leaves₅.uPtab] at parent₅
        cases pptr : (s₅.ptab s₅.udata.uPtab).pPptr with
        | none => exact absurd pptr parent₅
        | some q => exact (nofun : Event.ptab q ≠ .none)
    exact leaves₅.spared spared₆
  · exact leaves₅

end Uzi
