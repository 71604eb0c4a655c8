import Uzi.Drivers.PpuStream

/-!
# The vblank budget

`__queue_descriptor` tests the weight of each new descriptor alone. Of descriptors whose payload lies
in the buffer the room of the buffer bounds the sum of the weights; a read or NULL descriptor takes
few bytes whatever its weight, and for those the sum has to be looked at.
-/

namespace Uzi.Ppu
open Exec

/-- The weight that `calc_desc_weight` returns. -/
def PpuDesc.cycles (d : PpuDesc) : Nat :=
  match calcDescWeight d ⟨fun _ => 0, 0, 0, false⟩ with
  | .ok (weight, _) => weight
  | .error _ => 0

/-- The cycles of the vblank loop over a buffer of descriptors. -/
def loopCycles (ds : List PpuDesc) : Nat :=
  BASE_PPU_LOOP_CYCLES + (ds.map PpuDesc.cycles).sum

/-- The payload of the descriptor lies in the buffer: it has neither the NULL nor the READ flag. -/
def PpuDesc.Plain (d : PpuDesc) : Prop :=
  d.flags &&& (PPU_DESC_FLAG_NULL ||| PPU_DESC_FLAG_READ) = 0

/-- The buffer after the descriptors have been accepted one after the other since the last drain. -/
inductive Filled : List PpuDesc → Databuf → Prop
  | drained {s} (pos : s.databufPos = 0) : Filled [] s
  | queue {ds s s' d data} (filled : Filled ds s) (taken : tryQueueDescriptor d data s = .ok (true, s')) :
    Filled (ds ++ [d]) s'

/-- How many of the descriptors have a type. -/
def number (type : PpuDescType) (ds : List PpuDesc) : Nat :=
  ds.countP fun d => getDescType d = type

/-- The sizes of the descriptors of a type together. -/
def totalSize (type : PpuDescType) (ds : List PpuDesc) : Nat :=
  ((ds.filter fun d => getDescType d = type).map fun d => d.size.toNat).sum

/-- By their numbers and their sizes the descriptors take at most the 2029 cycles that the loop itself leaves. -/
def Few (ds : List PpuDesc) : Prop :=
  74 * number .video ds + 115 * (number .read ds + number .write ds) + 78 * number .null ds +
    20 * (totalSize .video ds + totalSize .read ds + totalSize .write ds) + 78 * totalSize .null ds ≤ 2029

instance {ds : List PpuDesc} : Decidable (Few ds) := Nat.decLe _ _

/-- All descriptors have their payload in the buffer, or they are few and small enough. -/
def Fits (ds : List PpuDesc) : Prop :=
  (∀ e ∈ ds, e.Plain) ∨ Few ds

/-- The weight of the buffer is within the budget, with every descriptor that has been put into it. -/
def InBudget (ds : List PpuDesc) : Prop :=
  ∀ part, part <+: ds → loopCycles part ≤ PPU_LOOP_MAX_CYCLES

section Weights

variable {d : PpuDesc} {ds : List PpuDesc} {s s' : Databuf} {data : Nat → Byte}

/-- The weight of a descriptor by its type. -/
lemma PpuDesc.cycles_eq : d.cycles = match getDescType d with
    | .video => 74 + d.size.toNat * 20
    | .read | .write => 115 + d.size.toNat * 20
    | .null => 78 + d.size.toNat * 78
    | .bad => 0 := by
  unfold PpuDesc.cycles calcDescWeight
  cases getDescType d <;> rfl

/-- The weights of descriptors that have a type, by their numbers and their sizes. -/
lemma loopCycles_eq (typed : ∀ d ∈ ds, getDescType d ≠ .bad) : loopCycles ds = BASE_PPU_LOOP_CYCLES +
    (74 * number .video ds + 115 * (number .read ds + number .write ds) + 78 * number .null ds +
      20 * (totalSize .video ds + totalSize .read ds + totalSize .write ds) + 78 * totalSize .null ds) := by
  induction ds with
  | nil => rfl
  | cons d ds ih =>
    have rest := ih fun e he => typed e (List.mem_cons_of_mem d he)
    have type := typed d List.mem_cons_self
    have cons : loopCycles (d :: ds) = loopCycles ds + d.cycles := by
      unfold loopCycles
      rw [List.map_cons, List.sum_cons]
      omega
    rw [cons, rest, PpuDesc.cycles_eq]
    simp only [number, totalSize, List.countP_cons, List.filter_cons]
    cases kind : getDescType d with
    | bad => exact absurd kind type
    | video | read | write | null =>
      simp only [decide_true, reduceCtorEq, decide_false, if_true, if_false, Bool.false_eq_true, List.map_cons,
        List.sum_cons]
      omega

/-- A descriptor with a type has its weight. -/
lemma calcDescWeight_eq (type : getDescType d ≠ .bad) : calcDescWeight d = pure d.cycles := by
  unfold PpuDesc.cycles calcDescWeight
  cases kind : getDescType d with
  | bad => exact absurd kind type
  | video => rfl
  | read => rfl
  | write => rfl
  | null => rfl

/-- What the test of the weight says of an accepted descriptor. -/
lemma cycles_le (h : tryQueueDescriptor d data s = .ok (true, s')) :
    getDescType d ≠ .bad ∧ d.cycles + BASE_PPU_LOOP_CYCLES ≤ PPU_LOOP_MAX_CYCLES := by
  have key : wp (tryQueueDescriptor d data)
      (fun taken _ => taken = true →
        getDescType d ≠ .bad ∧ d.cycles + BASE_PPU_LOOP_CYCLES ≤ PPU_LOOP_MAX_CYCLES) (fun _ => True) s := by
    simp only [tryQueueDescriptor, ppuLock, ppuUnlock, wp_bind, wp_get, wp_ite, wp_throw, wp_modify, wp_pure]
    split
    · trivial
    · split
      · exact fun no => absurd no Bool.false_ne_true
      · by_cases type : getDescType d = .bad
        · unfold calcDescWeight
          rw [type]
          trivial
        · rw [calcDescWeight_eq type, wp_pure]
          split
          · exact fun no => absurd no Bool.false_ne_true
          · next light => exact fun _ => ⟨type, Nat.le_of_not_lt light⟩
  exact key.ok h rfl

/-- What the flags of a plain descriptor tell the tests that look at them. -/
lemma plain_flags : ∀ flags : Byte, flags &&& (PPU_DESC_FLAG_NULL ||| PPU_DESC_FLAG_READ) = 0 →
    flags &&& PPU_DESC_FLAG_READ = 0 ∧ flags &&& PPU_DESC_FLAG_NULL = 0 ∧
      (flags &&& 0x0f) &&& PPU_DESC_FLAG_READ = 0 ∧ (flags &&& 0x0f) &&& PPU_DESC_FLAG_NULL = 0 ∧
      (flags &&& 0x0f) &&& PPU_DESC_FLAG_WRITE = flags &&& PPU_DESC_FLAG_WRITE := by
  decide

/-- A payload in the buffer bounds the weight. -/
lemma PpuDesc.Plain.cycles_le (plain : d.Plain) (type : getDescType d ≠ .bad)
    (light : d.cycles + BASE_PPU_LOOP_CYCLES ≤ PPU_LOOP_MAX_CYCLES) :
    d.cycles ≤ 23 * (DESC_SIZE + (descDatalen d).toNat) := by
  obtain ⟨noRead, noNull, lowRead, lowNull, lowWrite⟩ := plain_flags d.flags plain
  by_cases video : d.flags = 0
  · have isVideo : getDescType d = .video := by simp only [getDescType, video, if_true]
    have len : descDatalen d = d.size := by
      unfold descDatalen
      rw [video]
      rfl
    have weight : d.cycles = VIDEO_DESC_OVERHEAD_CYCLES + d.size.toNat * VIDEO_DESC_PERBYTE_CYCLES := by
      simp only [PpuDesc.cycles, calcDescWeight, isVideo]
      rfl
    rw [weight, len]
    simp only [VIDEO_DESC_OVERHEAD_CYCLES, VIDEO_DESC_PERBYTE_CYCLES, DESC_SIZE]
    omega
  · have write : d.flags &&& PPU_DESC_FLAG_WRITE ≠ 0 := by
      intro noWrite
      apply type
      simp only [getDescType, video, lowRead, lowNull, lowWrite, noWrite, ne_eq, not_true_eq_false, if_false]
    have isWrite : getDescType d = .write := by
      simp only [getDescType, video, lowRead, lowWrite, write, ne_eq, not_true_eq_false, not_false_eq_true, if_false,
        if_true]
    have weight : d.cycles = RW_DESC_OVERHEAD_CYCLES + d.size.toNat * RW_DESC_PERBYTE_CYCLES := by
      simp only [PpuDesc.cycles, calcDescWeight, isWrite]
      rfl
    have len : descDatalen d = d.size + 1 := by
      simp only [descDatalen, noRead, noNull, write, ne_eq, not_true_eq_false, not_false_eq_true, if_false, if_true]
    -- an accepted descriptor is far too short for the `char` that counts the payload to wrap round
    rw [weight] at light ⊢
    simp only [RW_DESC_OVERHEAD_CYCLES, RW_DESC_PERBYTE_CYCLES, BASE_PPU_LOOP_CYCLES, PPU_LOOP_MAX_CYCLES,
      DESC_SIZE] at *
    have bytes : (d.size + 1).toNat = d.size.toNat + 1 := by
      rw [BitVec.toNat_add, Nat.mod_eq_of_lt (by show d.size.toNat + 1 < 256; omega)]
      rfl
    rw [len, bytes]
    omega

end Weights

/-! ## Whole buffers -/

section Buffers

variable {d : PpuDesc} {ds part : List PpuDesc} {s : Databuf}

/-- What has been accepted lies in the buffer, and there is room for the terminator. -/
lemma Filled.pos (h : Filled ds s) :
    s.databufPos = (ds.map fun d => DESC_SIZE + (descDatalen d).toNat).sum ∧ s.databufPos < PPU_BUF_SIZE := by
  induction h with
  | drained pos =>
    rw [pos]
    exact ⟨rfl, by decide⟩
  | @queue ds s s' d data _ taken ih =>
    obtain ⟨room, rfl⟩ := tryQueueDescriptor_true taken
    have pos : (appendDesc d data s).databufPos = s.databufPos + DESC_SIZE + (descDatalen d).toNat := rfl
    refine ⟨?_, ?_⟩
    · show (appendDesc d data s).databufPos = _
      rw [pos, ih.1, List.map_append, List.sum_append, List.map_singleton, List.sum_singleton, Nat.add_assoc]
    · show (appendDesc d data s).databufPos < _
      rw [pos]
      omega

/-- A run over the descriptors passes through every part of them. -/
lemma Filled.earlier (h : Filled ds s) (le : part <+: ds) : ∃ s, Filled part s := by
  induction h with
  | @drained s pos =>
    obtain rfl := List.prefix_nil.mp le
    exact ⟨s, .drained pos⟩
  | @queue ds s s' d data filled taken ih =>
    obtain rfl | le := List.prefix_concat_iff.mp le
    · exact ⟨s', filled.queue taken⟩
    · exact ih le

/-- Plain descriptors weigh no more than 23 cycles a byte. -/
lemma Filled.plain_cycles (h : Filled ds s) (plain : ∀ e ∈ ds, e.Plain) :
    (ds.map PpuDesc.cycles).sum ≤ 23 * (ds.map fun d => DESC_SIZE + (descDatalen d).toNat).sum := by
  induction h with
  | drained => exact Nat.zero_le _
  | @queue ds s s' d data _ taken ih =>
    have rest := ih fun e he => plain e (List.mem_append_left _ he)
    obtain ⟨type, light⟩ := Ppu.cycles_le taken
    have last := (plain d (List.mem_append_right _ (List.mem_singleton_self d))).cycles_le type light
    rw [List.map_append, List.sum_append, List.map_append, List.sum_append, List.map_singleton, List.map_singleton,
      List.sum_singleton, List.sum_singleton]
    omega

/-- A buffer of plain descriptors is within the budget. -/
lemma Filled.plain_le (h : Filled ds s) (plain : ∀ e ∈ ds, e.Plain) : loopCycles ds ≤ PPU_LOOP_MAX_CYCLES := by
  have weight := h.plain_cycles plain
  obtain ⟨pos, room⟩ := h.pos
  rw [← pos] at weight
  unfold loopCycles
  simp only [BASE_PPU_LOOP_CYCLES, PPU_LOOP_MAX_CYCLES, PPU_BUF_SIZE, DESC_SIZE] at *
  omega

/-- What has been accepted has a type. -/
lemma Filled.typed (h : Filled ds s) : ∀ d ∈ ds, getDescType d ≠ .bad := by
  induction h with
  | drained => exact fun d mem => absurd mem List.not_mem_nil
  | queue _ taken ih =>
    intro e mem
    cases List.mem_append.mp mem with
    | inl old => exact ih e old
    | inr new => exact List.mem_singleton.mp new ▸ (Ppu.cycles_le taken).1

/-- A buffer is within the budget if and only if its descriptors fit. -/
lemma Filled.le_iff (h : Filled ds s) : loopCycles ds ≤ PPU_LOOP_MAX_CYCLES ↔ Fits ds := by
  have light : loopCycles ds ≤ PPU_LOOP_MAX_CYCLES ↔ Few ds := by
    rw [loopCycles_eq h.typed]
    simp only [Few, BASE_PPU_LOOP_CYCLES, PPU_LOOP_MAX_CYCLES]
    omega
  constructor
  · exact fun le => .inr (light.mp le)
  · rintro (plain | few)
    · exact h.plain_le plain
    · exact light.mpr few

/-- Every buffer on the way is within the budget if and only if what had been accepted each time has fitted. -/
theorem Filled.inBudget_iff (h : Filled ds s) : InBudget ds ↔ ∀ part, part <+: ds → Fits part := by
  refine forall_congr' fun part => forall_congr' fun le => ?_
  obtain ⟨t, filled⟩ := h.earlier le
  exact filled.le_iff

/-- Bytes for the screen, a pause, bytes of a disk block and a read of others. -/
def mixed : List PpuDesc :=
  [⟨3, 0x2040, 0⟩, ⟨4, 0, PPU_DESC_FLAG_NULL⟩, ⟨10, 0x1200, PPU_DESC_FLAG_WRITE⟩, ⟨30, 0x1400, PPU_DESC_FLAG_READ⟩]

/-- The descriptors are accepted, one after the other. -/
def queueAll : List PpuDesc → Databuf → Option Databuf
  | [], s => some s
  | d :: ds, s =>
    match tryQueueDescriptor d (fun _ => 0) s with
    | .ok (true, s') => queueAll ds s'
    | _ => none

/-- Descriptors that have been queued fill the buffer. -/
lemma Filled.queueAll {t : Databuf} (h : Filled part s) (e : queueAll ds s = some t) : Filled (part ++ ds) t := by
  induction ds generalizing part s with
  | nil =>
    obtain rfl := Option.some.inj e
    rwa [List.append_nil]
  | cons d ds ih =>
    unfold Ppu.queueAll at e
    split at e
    · next taken =>
      have rest := ih (h.queue taken) e
      rwa [List.append_assoc] at rest
    · cases e

/-- Four descriptors of all kinds are within the budget. -/
theorem inBudget_mixed : ∃ s, Filled mixed s ∧ InBudget mixed := by
  obtain ⟨s, taken⟩ := Option.isSome_iff_exists.mp (show (queueAll mixed idle).isSome = true from rfl)
  have filled : Filled mixed s := Filled.queueAll (.drained rfl) taken
  refine ⟨s, filled, filled.inBudget_iff.mpr fun part le => .inr ?_⟩
  have all : ∀ part ∈ mixed.inits, Few part := by decide
  exact all part ((List.mem_inits part mixed).mpr le)

/-- A read of 64 bytes. -/
def longRead : PpuDesc := ⟨64, 0x1200, PPU_DESC_FLAG_READ⟩

/-- Two reads of 64 bytes are accepted one after the other. -/
theorem not_inBudget : ¬ ∀ ds s, Filled ds s → InBudget ds := by
  intro all
  obtain ⟨s, taken⟩ := Option.isSome_iff_exists.mp (show (queueAll [longRead, longRead] idle).isSome = true from rfl)
  have twice := all _ s (Filled.queueAll (.drained rfl) taken)
  exact absurd (twice _ (List.prefix_refl _)) (by decide)

end Buffers

end Uzi.Ppu
