import Uzi.Sched.Signals

/-!
# The count of the clock

`clk_int` is called with every interrupt of the clock and counts interrupts, ticks, minutes of ticks and seconds, each
count being cleared by a line of its own, and with the seconds it counts down the alarm clocks of the processes.
`sendsig` is a parameter, so that it can be seen whether a call sends a signal.
-/

namespace Uzi
open Exec

/-- The interrupts of a tick, as the code has them. -/
def INTS_PER_TICK : Word := 6
/-- The ticks of a second. -/
def TICKSPERSEC : Word := 10
/-- The seconds of a minute. -/
def SECS_PER_MIN : Word := 60
/-- The minutes of an hour. -/
def MINS_PER_HOUR : Word := 60
/-- The hours of a day. -/
def HRS_PER_DAY : Word := 24
/-- The year that is set. -/
def YEAR : Word := 86

/-- The counters of the clock. -/
structure Clock where
  clkIntCount : Word
  tickCount : Word
  ticks : Time
  sec : Word

/-- The counters before the first interrupt. -/
def Clock.cleared : Clock := ⟨0, 0, ⟨0, 0⟩, 0⟩

/-- The registers of the clock chip that `tread` stands in for. -/
inductive ClockPort
  | secs
  | mins
  | hrs
  | day
  | mon

/-- `tread`. -/
def tread (tickCount : Word) : ClockPort → Word
  | .secs => tickCount / TICKSPERSEC % SECS_PER_MIN
  | .mins => tickCount / TICKSPERSEC / SECS_PER_MIN % MINS_PER_HOUR
  | .hrs => tickCount / TICKSPERSEC / SECS_PER_MIN / MINS_PER_HOUR % HRS_PER_DAY
  | .day => 27
  | .mon => 9

/-- The time of day that `rdtod` sets. -/
def rdtod (tickCount : Word) : Time where
  tTime := tread tickCount .secs >>> 1 ||| tread tickCount .mins <<< 5 ||| tread tickCount .hrs <<< 11
  tDate := tread tickCount .day ||| tread tickCount .mon <<< 5 ||| YEAR <<< 9

/-- What the clock sends a signal with. -/
abbrev Sendsig := Option (Fin PTABSIZE) → Nat → K PUnit

/-- The alarm clock of a process. -/
def alarmClockBy (sendsig : Sendsig) (p : Fin PTABSIZE) : K PUnit := do
  if ((← get).ptab p).pAlarm ≠ 0 then do
    modifyPtab p fun x => { x with pAlarm := x.pAlarm - 1 }
    if ((← get).ptab p).pAlarm = 0 then sendsig (some p) SIGALRM

/-- The tick of the running process in `clk_int`, `insys` being `u_insys`. -/
def countTick (insys : Bool) : K PUnit := do
  let s ← get
  if (s.ptab s.udata.uPtab).pStatus = .running then
    modifyUdata fun u =>
      if insys then { u with uStime := incrtick u.uStime } else { u with uUtime := incrtick u.uUtime }

/-- `clk_int`. -/
def clkIntCall (sendsig : Sendsig) (insys : Bool) (c : Clock) : K Clock := do
  if c.clkIntCount < INTS_PER_TICK then pure { c with clkIntCount := c.clkIntCount + 1 }
  else do
    let c := { c with clkIntCount := 0, tickCount := c.tickCount + 1 }
    countTick insys
    let c := { c with ticks := incrtick c.ticks, sec := c.sec + 1 }
    if c.sec = TICKSPERSEC then do
      let c := { c with sec := 0 }
      modify fun s => { s with tod := rdtod c.tickCount }
      each (List.finRange PTABSIZE) (alarmClockBy sendsig)
      pure c
    else pure c

/-! ## Runs of the clock -/

/-- `sendsig` that stops with `e` where it is to send SIGALRM to `p`. -/
def watched (p : Fin PTABSIZE) (e : Panic) : Sendsig := fun proc sig =>
  if proc = some p ∧ sig = SIGALRM then throw e else sendsig proc sig

/-- The call sends SIGALRM to `p`: whatever it is to stop with there, it stops with it. -/
def Sends (p : Fin PTABSIZE) (insys : Bool) (c : Clock) (t : Kernel) : Prop :=
  ∀ e, clkIntCall (watched p e) insys c t = .error e

/-- The first calls of `clk_int` from cleared counters and with `p_alarm` set to `s`, and the numbers of those that
have sent SIGALRM to `p`. -/
inductive ClockRun (p : Fin PTABSIZE) (s : Word) : Nat → Clock → Kernel → List Nat → Prop
  | cleared {t : Kernel} (set : (t.ptab p).pAlarm = s) : ClockRun p s 0 .cleared t []
  /-- Between two calls anything may happen that leaves the alarm clock alone. -/
  | between {n : Nat} {c : Clock} {t t' : Kernel} {sent : List Nat} (run : ClockRun p s n c t sent)
    (same : (t'.ptab p).pAlarm = (t.ptab p).pAlarm) : ClockRun p s n c t' sent
  | quiet {n : Nat} {c c' : Clock} {t t' : Kernel} {sent : List Nat} {insys : Bool} (run : ClockRun p s n c t sent)
    (call : clkIntCall sendsig insys c t = .ok (c', t')) (quiet : ¬ Sends p insys c t) : ClockRun p s (n + 1) c' t' sent
  | sends {n : Nat} {c c' : Clock} {t t' : Kernel} {sent : List Nat} {insys : Bool} (run : ClockRun p s n c t sent)
    (call : clkIntCall sendsig insys c t = .ok (c', t')) (sends : Sends p insys c t) :
    ClockRun p s (n + 1) c' t' ((n + 1) :: sent)

/-- After `n` calls there are as many ticks as there are groups of six calls, in both counts, and the alarm clocks have
sent their signal at the end of their seconds. -/
def DividesExactly (n : Nat) : Prop :=
  ∀ p s c t sent, ClockRun p s n c t sent →
    c.tickCount.toNat = n / INTS_PER_TICK.toNat % 2 ^ 16 ∧
    c.ticks.tTime.toNat < 600 ∧
    (600 * c.ticks.tDate.toNat + c.ticks.tTime.toNat) % (600 * 2 ^ 16) = n / INTS_PER_TICK.toNat % (600 * 2 ^ 16) ∧
    (0 < s.toNat → ∀ k, k ∈ sent ↔ k ≤ n ∧ k = s.toNat * TICKSPERSEC.toNat * INTS_PER_TICK.toNat)

/-! ## One call -/

section Alarms

variable {p q : Fin PTABSIZE} {t t' : Kernel} {e : Panic} {c : Clock} {insys : Bool}

/-- A tick of the clock is the one of `clkInt`. -/
lemma clkIntCall_clkInt (ticks : ¬ c.clkIntCount < INTS_PER_TICK) :
    clkIntCall sendsig insys c = (do
      clkInt insys (if c.sec + 1 = TICKSPERSEC then some (rdtod (c.tickCount + 1)) else none)
      pure ⟨0, c.tickCount + 1, incrtick c.ticks, if c.sec + 1 = TICKSPERSEC then 0 else c.sec + 1⟩) := by
  have each_eq : each (List.finRange PTABSIZE) (alarmClockBy sendsig) = each (List.finRange PTABSIZE) alarmClock := rfl
  unfold clkIntCall clkInt countTick
  rw [if_neg ticks, bind_assoc, bind_assoc]
  refine bind_congr fun s => ?_
  by_cases running : (s.ptab s.udata.uPtab).pStatus = .running
  · by_cases second : c.sec + 1 = TICKSPERSEC
    · simp only [if_pos second, if_pos running, each_eq, bind_assoc]
    · simp only [if_neg second, if_pos running, bind_assoc, pure_bind]
  · by_cases second : c.sec + 1 = TICKSPERSEC
    · simp only [if_pos second, if_neg running, each_eq, bind_assoc, pure_bind]
    · simp only [if_neg second, if_neg running, pure_bind]

/-- A signal leaves the alarm clocks alone. -/
lemma wp_ssig_alarm (sig : Nat) :
    wp (ssig q sig) (fun _ t' => ∀ p, (t'.ptab p).pAlarm = (t.ptab p).pAlarm) (fun _ => False) t := by
  unfold ssig
  rw [wp_bind, wp_get, wp_ite]
  split
  · exact fun _ => rfl
  rw [wp_ite]
  split
  · exact fun _ => rfl
  rw [wp_modifyPtab]
  intro p
  by_cases same : p = q
  · rw [same, Kernel.ptab_setProc]
  · rw [Kernel.ptab_setProc_of_ne same]

/-- The kernel after the alarm clock of `p` has gone on by a second. -/
def Kernel.down (t : Kernel) (p : Fin PTABSIZE) : Kernel :=
  t.setProc p { t.ptab p with pAlarm := (t.ptab p).pAlarm - 1 }

/-- An alarm clock that goes is counted down, and the one that has a second left rings. -/
lemma alarmClockBy_eq {sendsig : Sendsig} : alarmClockBy sendsig p t =
    if (t.ptab p).pAlarm = 0 then .ok (⟨⟩, t)
    else if (t.ptab p).pAlarm = 1 then sendsig (some p) SIGALRM (t.down p) else .ok (⟨⟩, t.down p) := by
  have left : ((t.down p).ptab p).pAlarm = 0 ↔ (t.ptab p).pAlarm = 1 := by
    unfold Kernel.down
    rw [Kernel.ptab_setProc]
    exact BitVec.sub_eq_iff_eq_add
  show (if (t.ptab p).pAlarm ≠ 0 then _ else pure ⟨⟩ : K PUnit) t = _
  by_cases still : (t.ptab p).pAlarm = 0
  · rw [if_pos still, if_neg (not_not.mpr still)]
    rfl
  · rw [if_neg still, if_pos still]
    show (if ((t.down p).ptab p).pAlarm = 0 then sendsig (some p) SIGALRM else pure ⟨⟩ : K PUnit) (t.down p) = _
    by_cases last : (t.ptab p).pAlarm = 1
    · rw [if_pos last, if_pos (left.mpr last)]
    · rw [if_neg last, if_neg fun rings => last (left.mp rings)]
      rfl

/-- A signal is sent, and the alarm clocks stay. -/
lemma sendsig_alarm :
    ∃ t', sendsig (some q) SIGALRM t = .ok (⟨⟩, t') ∧ ∀ p, (t'.ptab p).pAlarm = (t.ptab p).pAlarm := by
  obtain ⟨_, t', ran, same⟩ := (wp_ssig_alarm (q := q) (t := t) SIGALRM).returns
  exact ⟨t', ran, same⟩

/-- What the alarm clock of one process does to all of them. -/
lemma alarmClockBy_runs : ∃ t', alarmClockBy sendsig q t = .ok (⟨⟩, t') ∧
    ∀ p, (t'.ptab p).pAlarm.toNat = (t.ptab p).pAlarm.toNat - if p = q then 1 else 0 := by
  have down : ∀ p, ((t.down q).ptab p).pAlarm = if p = q then (t.ptab q).pAlarm - 1 else (t.ptab p).pAlarm := by
    intro p
    unfold Kernel.down
    by_cases same : p = q
    · rw [same, Kernel.ptab_setProc, if_pos rfl]
    · rw [Kernel.ptab_setProc_of_ne same, if_neg same]
  have counts : ∀ x : Word, x ≠ 0 → (x - 1).toNat = x.toNat - 1 := by
    intro x ne
    have pos : x.toNat ≠ 0 := fun zero => ne (BitVec.eq_of_toNat_eq zero)
    rw [BitVec.toNat_sub]
    have lt := x.isLt
    show (2 ^ 16 - 1 + x.toNat) % 2 ^ 16 = _
    omega
  rw [alarmClockBy_eq]
  by_cases still : (t.ptab q).pAlarm = 0
  · refine ⟨t, if_pos still, fun p => ?_⟩
    split
    · next same =>
      rw [same, still]
      rfl
    · rfl
  · have after : ∀ p, ((t.down q).ptab p).pAlarm.toNat = (t.ptab p).pAlarm.toNat - if p = q then 1 else 0 := by
      intro p
      rw [down]
      split
      · next same => rw [same, counts _ still]
      · rfl
    rw [if_neg still]
    split
    · obtain ⟨t', ran, same⟩ := sendsig_alarm (q := q) (t := t.down q)
      exact ⟨t', ran, fun p => (congrArg BitVec.toNat (same p)).trans (after p)⟩
    · exact ⟨t.down q, rfl, after⟩

/-- The watch is kept on one process. -/
lemma alarmClockBy_watched : alarmClockBy (watched p e) q t =
    if q = p ∧ (t.ptab p).pAlarm = 1 then .error e else alarmClockBy sendsig q t := by
  rw [alarmClockBy_eq, alarmClockBy_eq]
  by_cases own : q = p ∧ (t.ptab p).pAlarm = 1
  · obtain ⟨rfl, last⟩ := own
    have going : (t.ptab q).pAlarm ≠ 0 := by
      rw [last]
      decide
    rw [if_neg going, if_pos last, if_pos ⟨rfl, last⟩, watched, if_pos ⟨rfl, rfl⟩]
    rfl
  · rw [if_neg own]
    split
    · rfl
    split
    · next rings =>
      have other : q ≠ p := fun same => own ⟨same, same ▸ rings⟩
      rw [watched, if_neg fun both => other (Option.some.inj both.1)]
    · rfl

/-- A second for the alarm clocks of a list. -/
lemma each_alarmClockBy {l : List (Fin PTABSIZE)} (nodup : l.Nodup) :
    ∃ t', each l (alarmClockBy sendsig) t = .ok (⟨⟩, t') ∧
      ∀ p, (t'.ptab p).pAlarm.toNat = (t.ptab p).pAlarm.toNat - if p ∈ l then 1 else 0 := by
  induction l generalizing t with
  | nil => exact ⟨t, rfl, fun p => by rw [if_neg List.not_mem_nil, Nat.sub_zero]⟩
  | cons q l ih =>
    obtain ⟨absent, rest⟩ := List.nodup_cons.mp nodup
    obtain ⟨t₁, first, counts⟩ := alarmClockBy_runs (q := q) (t := t)
    obtain ⟨t₂, second, counts'⟩ := ih (t := t₁) rest
    refine ⟨t₂, ?_, fun p => ?_⟩
    · rw [each, bind_of_ok first, second]
    · rw [counts', counts]
      by_cases own : p = q
      · rw [if_pos own, if_neg (own ▸ absent), if_pos (own ▸ List.mem_cons_self), Nat.sub_zero]
      · rw [if_neg own, Nat.sub_zero]
        simp only [List.mem_cons, own, false_or]

/-- The loop stops where the watched alarm clock rings. -/
lemma each_watched {l : List (Fin PTABSIZE)} (nodup : l.Nodup) :
    each l (alarmClockBy (watched p e)) t =
      if p ∈ l ∧ (t.ptab p).pAlarm = 1 then .error e else each l (alarmClockBy sendsig) t := by
  induction l generalizing t with
  | nil => exact (if_neg fun both => List.not_mem_nil both.1).symm
  | cons q l ih =>
    obtain ⟨absent, rest⟩ := List.nodup_cons.mp nodup
    rw [each, each]
    by_cases rings : q = p ∧ (t.ptab p).pAlarm = 1
    · have stops : alarmClockBy (watched p e) q t = .error e := by rw [alarmClockBy_watched, if_pos rings]
      rw [bind_of_error stops, if_pos ⟨rings.1 ▸ List.mem_cons_self, rings.2⟩]
    · obtain ⟨t₁, first, counts⟩ := alarmClockBy_runs (q := q) (t := t)
      have watches : alarmClockBy (watched p e) q t = .ok (⟨⟩, t₁) := by rw [alarmClockBy_watched, if_neg rings, first]
      rw [bind_of_ok watches, bind_of_ok first, ih rest]
      by_cases own : q = p
      · have later : ¬ (t.ptab p).pAlarm = 1 := fun last => rings ⟨own, last⟩
        rw [if_neg fun both => absent (own ▸ both.1), if_neg fun both => later both.2]
      · have same : (t₁.ptab p).pAlarm = (t.ptab p).pAlarm := BitVec.eq_of_toNat_eq (by
          rw [counts, if_neg fun e => own e.symm, Nat.sub_zero])
        rw [same]
        simp only [List.mem_cons, show p ≠ q from fun e => own e.symm, false_or]

/-! ## The counts -/

/-- The counters after a call. -/
def Clock.next (c : Clock) : Clock :=
  if c.clkIntCount < INTS_PER_TICK then { c with clkIntCount := c.clkIntCount + 1 }
  else ⟨0, c.tickCount + 1, incrtick c.ticks, if c.sec + 1 = TICKSPERSEC then 0 else c.sec + 1⟩

/-- The call comes at the end of a second. -/
def Clock.Full (c : Clock) : Prop := ¬ c.clkIntCount < INTS_PER_TICK ∧ c.sec + 1 = TICKSPERSEC

/-- The kernel after a tick of the current process. -/
def Kernel.counted (t : Kernel) (insys : Bool) : Kernel :=
  if (t.ptab t.udata.uPtab).pStatus = .running then
    t.withUdata (if insys then { t.udata with uStime := incrtick t.udata.uStime }
      else { t.udata with uUtime := incrtick t.udata.uUtime })
  else t

/-- A count leaves the process table. -/
lemma Kernel.ptab_counted : (t.counted insys).ptab = t.ptab := by
  unfold Kernel.counted
  split <;> rfl

/-- What a tick does. -/
lemma countTick_eq : countTick insys t = .ok (⟨⟩, t.counted insys) := by
  show (if (t.ptab t.udata.uPtab).pStatus = .running then _ else pure ⟨⟩ : K PUnit) t = _
  unfold Kernel.counted
  split <;> rfl

/-- A call that does not end a second leaves the alarm clocks alone, whatever `sendsig` is. -/
lemma clkIntCall_quiet (insys : Bool) (quiet : ¬ c.Full) :
    ∃ t', t'.ptab = t.ptab ∧ ∀ sendsig, clkIntCall sendsig insys c t = .ok (c.next, t') := by
  by_cases ticks : c.clkIntCount < INTS_PER_TICK
  · refine ⟨t, rfl, fun sendsig => ?_⟩
    rw [clkIntCall, if_pos ticks, Clock.next, if_pos ticks]
    rfl
  · have second : ¬ c.sec + 1 = TICKSPERSEC := fun second => quiet ⟨ticks, second⟩
    refine ⟨t.counted insys, Kernel.ptab_counted, fun sendsig => ?_⟩
    rw [clkIntCall, if_neg ticks, bind_of_ok countTick_eq, if_neg second, Clock.next, if_neg ticks, if_neg second]
    rfl

/-- A call that ends a second goes through the alarm clocks. -/
lemma clkIntCall_full (insys : Bool) (full : c.Full) :
    ∃ t', t'.ptab = t.ptab ∧ ∀ sendsig, clkIntCall sendsig insys c t =
      (each (List.finRange PTABSIZE) (alarmClockBy sendsig) >>= fun _ => pure c.next : K Clock) t' := by
  refine ⟨{ t.counted insys with tod := rdtod (c.tickCount + 1) }, Kernel.ptab_counted, fun sendsig => ?_⟩
  rw [clkIntCall, if_neg full.1, bind_of_ok countTick_eq, if_pos full.2, Clock.next, if_neg full.1, if_pos full.2]
  exact bind_of_ok rfl

/-- A call returns, and at the end of a second it has taken one from every alarm clock that goes. -/
lemma clkIntCall_runs (insys : Bool) : ∃ t', clkIntCall sendsig insys c t = .ok (c.next, t') ∧
    (c.Full → ∀ p, (t'.ptab p).pAlarm.toNat = (t.ptab p).pAlarm.toNat - 1) ∧
    (¬ c.Full → ∀ p, (t'.ptab p).pAlarm = (t.ptab p).pAlarm) := by
  by_cases full : c.Full
  · obtain ⟨t₁, same, calls⟩ := clkIntCall_full (t := t) insys full
    obtain ⟨t₂, clocks, counts⟩ := each_alarmClockBy (t := t₁) (List.nodup_finRange PTABSIZE)
    refine ⟨t₂, ?_, fun _ p => ?_, fun quiet => absurd full quiet⟩
    · rw [calls, bind_of_ok clocks]
      rfl
    · rw [counts, if_pos (List.mem_finRange p), same]
  · obtain ⟨t₁, same, calls⟩ := clkIntCall_quiet (t := t) insys full
    exact ⟨t₁, calls sendsig, fun f => absurd f full, fun _ p => by rw [same]⟩

/-- A call sends the signal at the end of the last second of the alarm clock. -/
lemma sends_iff : Sends p insys c t ↔ c.Full ∧ (t.ptab p).pAlarm = 1 := by
  by_cases full : c.Full
  · obtain ⟨t₁, same, calls⟩ := clkIntCall_full (t := t) insys full
    have watches : ∀ e, each (List.finRange PTABSIZE) (alarmClockBy (watched p e)) t₁ =
        if p ∈ List.finRange PTABSIZE ∧ (t₁.ptab p).pAlarm = 1 then .error e
        else each (List.finRange PTABSIZE) (alarmClockBy sendsig) t₁ :=
      fun e => each_watched (List.nodup_finRange PTABSIZE)
    rw [same] at watches
    constructor
    · intro sends
      refine ⟨full, not_not.mp fun still => ?_⟩
      obtain ⟨t₂, clocks, _⟩ := each_alarmClockBy (t := t₁) (List.nodup_finRange PTABSIZE)
      have run := watches .hang
      rw [if_neg fun both => still both.2, clocks] at run
      cases (sends .hang).symm.trans ((calls _).trans (bind_of_ok run))
    · rintro ⟨_, last⟩ e
      have run := watches e
      rw [if_pos ⟨List.mem_finRange p, last⟩] at run
      rw [calls, bind_of_error run]
  · obtain ⟨t₁, _, calls⟩ := clkIntCall_quiet (t := t) insys full
    refine iff_of_false (fun sends => ?_) fun both => full both.1
    cases (sends .hang).symm.trans (calls _)

/-! ## All calls -/

/-- The counters after `n` calls: a tick is the seventh call, as the sixth one still finds the count below 6. -/
structure Clock.At (c : Clock) (n : Nat) : Prop where
  ints : c.clkIntCount.toNat = n % 7
  tickCount : c.tickCount.toNat = n / 7 % 2 ^ 16
  time : c.ticks.tTime.toNat = n / 7 % 600
  date : c.ticks.tDate.toNat = n / 7 / 600 % 2 ^ 16
  sec : c.sec.toNat = n / 7 % 10

/-- A count that is compared with a constant after it has been incremented. -/
lemma succ_eq_iff {x : Word} {k : Nat} (lt : k + 1 < 2 ^ 16) : x + 1 = BitVec.ofNat 16 (k + 1) ↔ x.toNat = k := by
  have ltx := x.isLt
  rw [← BitVec.toNat_inj, toNat_increment, BitVec.toNat_ofNat, Nat.mod_eq_of_lt lt]
  omega

/-- `incrtick` counts minutes of 600 ticks. -/
lemma incrtick_counts {t : Time} {m : Nat} (time : t.tTime.toNat = m % 600) (date : t.tDate.toNat = m / 600 % 2 ^ 16) :
    (incrtick t).tTime.toNat = (m + 1) % 600 ∧ (incrtick t).tDate.toNat = (m + 1) / 600 % 2 ^ 16 := by
  have minute : t.tTime + 1 = 600 ↔ t.tTime.toNat = 599 := succ_eq_iff (by decide)
  unfold incrtick
  split
  · next full =>
    rw [minute] at full
    refine ⟨?_, ?_⟩
    · show 0 = _
      omega
    · rw [toNat_increment, date]
      omega
  · next more =>
    rw [minute] at more
    refine ⟨?_, ?_⟩
    · rw [toNat_increment, time]
      omega
    · rw [date]
      omega

/-- The clock is full at every seventieth interrupt. -/
lemma Clock.At.full_iff {n : Nat} (h : c.At n) : c.Full ↔ n % 70 = 69 := by
  have ints := h.ints
  have sec := h.sec
  have lt : c.clkIntCount < INTS_PER_TICK ↔ c.clkIntCount.toNat < 6 := BitVec.lt_def
  have second : c.sec + 1 = TICKSPERSEC ↔ c.sec.toNat = 9 := succ_eq_iff (by decide)
  unfold Clock.Full
  rw [lt, second]
  omega

/-- The clock after one interrupt more. -/
lemma Clock.At.next {n : Nat} (h : c.At n) : c.next.At (n + 1) := by
  obtain ⟨ints, tickCount, time, date, sec⟩ := h
  have lt : c.clkIntCount < INTS_PER_TICK ↔ c.clkIntCount.toNat < 6 := BitVec.lt_def
  unfold Clock.next
  split
  · next few =>
    rw [lt] at few
    have same : (n + 1) / 7 = n / 7 := by omega
    refine ⟨?_, ?_, ?_, ?_, ?_⟩
    · rw [toNat_increment]
      omega
    · rw [same, tickCount]
    · rw [same, time]
    · rw [same, date]
    · rw [same, sec]
  · next ticks =>
    rw [lt] at ticks
    have more : (n + 1) / 7 = n / 7 + 1 := by omega
    have second : c.sec + 1 = TICKSPERSEC ↔ c.sec.toNat = 9 := succ_eq_iff (by decide)
    obtain ⟨time', date'⟩ := incrtick_counts time date
    refine ⟨?_, ?_, ?_, ?_, ?_⟩
    · show 0 = _
      omega
    · rw [toNat_increment, tickCount, more]
      omega
    · rw [time', more]
    · rw [date', more]
    · dsimp only
      split
      · next full =>
        rw [second] at full
        show 0 = _
        omega
      · next short =>
        rw [second] at short
        rw [toNat_increment, sec, more]
        omega

/-- What is known after `n` calls: the counters, what is left of the alarm, and the call that has sent the signal. -/
structure ClockAt (p : Fin PTABSIZE) (s : Word) (n : Nat) (c : Clock) (t : Kernel) (sent : List Nat) : Prop where
  clock : c.At n
  alarm : (t.ptab p).pAlarm.toNat = s.toNat - n / 70
  sent : ∀ k, k ∈ sent ↔ 0 < s.toNat ∧ k ≤ n ∧ k = 70 * s.toNat

variable {s : Word} {n : Nat} {sent : List Nat}

/-- The alarm clock after a call. -/
lemma ClockAt.call {c' : Clock} (h : ClockAt p s n c t sent) (call : clkIntCall sendsig insys c t = .ok (c', t')) :
    c'.At (n + 1) ∧ (t'.ptab p).pAlarm.toNat = s.toNat - (n + 1) / 70 := by
  obtain ⟨t₁, ran, seconds, others⟩ := clkIntCall_runs (t := t) (c := c) insys
  cases ran.symm.trans call
  refine ⟨h.clock.next, ?_⟩
  by_cases full : c.Full
  · have ends := h.clock.full_iff.mp full
    rw [seconds full, h.alarm]
    omega
  · have short : ¬ n % 70 = 69 := fun ends => full (h.clock.full_iff.mpr ends)
    rw [others full, h.alarm]
    omega

/-- The call that sends the signal is the seventieth for each second. -/
lemma ClockAt.sends_iff (h : ClockAt p s n c t sent) : Sends p insys c t ↔ 0 < s.toNat ∧ n + 1 = 70 * s.toNat := by
  have last : (t.ptab p).pAlarm = 1 ↔ s.toNat - n / 70 = 1 := by
    rw [← h.alarm, ← BitVec.toNat_inj]
    rfl
  rw [Uzi.sends_iff, h.clock.full_iff, last]
  omega

/-- The interrupts of a run are counted. -/
lemma ClockRun.counts (run : ClockRun p s n c t sent) : ClockAt p s n c t sent := by
  induction run with
  | cleared set =>
    refine ⟨⟨rfl, rfl, rfl, rfl, rfl⟩, ?_, fun k => ?_⟩
    · rw [set]
      rfl
    · refine iff_of_false List.not_mem_nil fun all => ?_
      omega
  | between _ same ih => exact ⟨ih.clock, by rw [same, ih.alarm], ih.sent⟩
  | @quiet n c c' t t' sent insys _ call quiet ih =>
    obtain ⟨clock, alarm⟩ := ih.call call
    rw [ih.sends_iff] at quiet
    refine ⟨clock, alarm, fun k => ?_⟩
    rw [ih.sent]
    omega
  | @sends n c c' t t' sent insys _ call sends ih =>
    obtain ⟨clock, alarm⟩ := ih.call call
    rw [ih.sends_iff] at sends
    refine ⟨clock, alarm, fun k => ?_⟩
    rw [List.mem_cons, ih.sent]
    omega

/-- The calls go on for ever. -/
lemma clockRun_exists (n : Nat) : ∃ c t sent, ClockRun p s n c t sent := by
  induction n with
  | zero => exact ⟨_, (Kernel.zeroed fun _ _ => .zero).setProc p { PTab.zero with pAlarm := s }, _, .cleared (by
      rw [Kernel.ptab_setProc])⟩
  | succ n ih =>
    obtain ⟨c, t, sent, run⟩ := ih
    obtain ⟨t', ran, _⟩ := clkIntCall_runs (t := t) (c := c) true
    by_cases sends : Sends p true c t
    · exact ⟨_, _, _, .sends run ran sends⟩
    · exact ⟨_, _, _, .quiet run ran sends⟩

end Alarms

/-- The clock counts a tick with every seventh call, so that it divides exactly as long as there are as many groups of
seven calls as of six. -/
theorem dividesExactly_iff {n : Nat} : DividesExactly n ↔ n / 6 ≤ n % 6 := by
  constructor
  · intro exact
    obtain ⟨c, t, sent, run⟩ := clockRun_exists (p := 0) (s := 1) n
    obtain ⟨ticks, _, _, alarm⟩ := exact 0 1 c t sent run
    have known := run.counts
    have early : n < 60 := by
      by_contra late
      have rings := (alarm (by decide) 60).mpr ⟨Nat.not_lt.mp late, rfl⟩
      exact absurd ((known.sent 60).mp rings).2.2 (by decide)
    have six : INTS_PER_TICK.toNat = 6 := rfl
    rw [known.clock.tickCount, six] at ticks
    omega
  · intro early p s c t sent run
    obtain ⟨clock, _, sends⟩ := run.counts
    have six : INTS_PER_TICK.toNat = 6 := rfl
    have ten : TICKSPERSEC.toNat = 10 := rfl
    have few : n < 36 := by omega
    have same : n / 7 = n / 6 := by omega
    have time := clock.time
    have date := clock.date
    rw [same] at time date
    refine ⟨?_, ?_, ?_, fun pos k => ?_⟩
    · rw [clock.tickCount, same, six]
    · omega
    · rw [six]
      omega
    · rw [sends, six, ten]
      omega

/-- After six calls no tick has been counted. -/
theorem not_dividesExactly : ¬ DividesExactly 6 := by
  intro exact
  obtain ⟨c, t, sent, run⟩ := clockRun_exists (p := 0) (s := 1) 6
  obtain ⟨ticks, _⟩ := exact 0 1 c t sent run
  rw [run.counts.clock.tickCount] at ticks
  exact absurd ticks (by decide)

end Uzi
