import Uzi.Drivers.PpuMemory

/-!
# The disk driver and the PPU

What the passes of `ppuwd_read` and `ppuwd_write` ask for, that they ask for nothing else, and that the chunks of a
read lie in the block buffer as they have been fetched: the journal has one entry for each pass that is over
(`handshake_run`). Vblanks may come between any two statements.
-/

namespace Uzi.Ppu
open Interrupts Cmd FlatFile

/-! ## The requests of the driver -/

/-- The request of a pass of `ppuwd_read`. -/
def readRequest (minor bfBlk : Word) (pass : Nat) : Request :=
  .read (blkBank bfBlk) (blkChunkAddrRd (bfBlk + minor) pass) (BitVec.ofNat 8 READ_CHUNK_SIZE)

/-- The request of a pass of `ppuwd_write`. -/
def writeRequest (minor bfBlk : Word) (bfData : Block) (pass : Nat) : Request :=
  .write (blkBank bfBlk) (blkChunkAddrWr (bfBlk + minor) pass)
    (slice bfData.byte (WRITE_CHUNK_SIZE * pass) WRITE_CHUNK_SIZE)

/-- The requests of `ppuwd_read`. -/
def readRequests (minor bfBlk : Word) : List Request := (List.range READ_PASSES).map (readRequest minor bfBlk)

/-- The requests of `ppuwd_write`. -/
def writeRequests (minor bfBlk : Word) (bfData : Block) : List Request :=
  (List.range WRITE_PASSES).map (writeRequest minor bfBlk bfData)

/-- The byte of a block in CHR RAM. -/
def blockByte (c : Nat → Nat → Byte) (blk : Word) (off : Nat) : Byte :=
  c (blkBank blk) (blk.toNat % BLOCKS_PER_BANK * BLOCK_SIZE + off)

section Requests

variable {d : Disk} {blk blk' : Word} {data : Block} {pass off : Nat} {c : Nat → Nat → Byte} {v : Nat → Byte}

/-- The address of a chunk. -/
lemma chunkAddr (k : Nat) (lt : k < BLOCK_SIZE) :
    (BitVec.ofNat 16 (blkBaseAddr (blk + d.minor) + k)).toNat =
      DISK_BANK_START + (blk.toNat % BLOCKS_PER_BANK * BLOCK_SIZE + k) := by
  rw [blkBaseAddr_minor, BitVec.toNat_ofNat, blkBaseAddr]
  simp only [BLOCK_SIZE, BLOCKS_PER_BANK, BANK_SIZE, DISK_BANK_START] at *
  omega

/-- A read of a low block is a valid request. -/
lemma readRequest_low (low : blkBank blk < 256) (minor : Word) (pass : Nat) :
    (readRequest minor blk pass).Valid ∧ (readRequest minor blk pass).LowBank :=
  ⟨⟨Nat.lt_trans low (by decide), by decide, by decide⟩, low⟩

/-- A write of a low block is a valid request. -/
lemma writeRequest_low (data : Block) (low : blkBank blk < 256) (minor : Word) (pass : Nat) :
    (writeRequest minor blk data pass).Valid ∧ (writeRequest minor blk data pass).LowBank := by
  have len : (slice data.byte (WRITE_CHUNK_SIZE * pass) WRITE_CHUNK_SIZE).length = 32 := length_slice
  refine ⟨⟨Nat.lt_trans low (by decide), ?_, ?_⟩, low⟩
  · rw [len]
    decide
  · rw [len]
    decide

/-- A read of a low block has its bank. -/
lemma readRequest_sound (low : blkBank blk < 256) (lt : pass < READ_PASSES) : (readRequest d.minor blk pass).Sound := by
  have upper := (bankUpperBits_eq_zero (Nat.lt_trans low (by decide))).mpr low
  have addr : (blkChunkAddrRd (blk + d.minor) pass).toNat = _ := chunkAddr (pass * READ_CHUNK_SIZE) (by
    simp only [READ_PASSES, READ_CHUNK_SIZE, BLOCK_SIZE] at *
    omega)
  obtain ⟨valid, low⟩ := readRequest_low low d.minor pass
  refine ⟨valid, low, ?_, ?_⟩
  · show _ ≤ _ ∧ _ + (64 : Nat) ≤ _
    rw [addr]
    simp only [READ_PASSES, READ_CHUNK_SIZE, BLOCK_SIZE, BLOCKS_PER_BANK, BANK_SIZE, DISK_BANK_START] at *
    omega
  · rw [Request.stored_length]
    show 4 + (descDatalen ⟨64, _, bankUpperBits _ ||| PPU_DESC_FLAG_READ⟩).toNat < 256
    rw [upper]
    show 4 + (descDatalen ⟨64, 0, 0 ||| PPU_DESC_FLAG_READ⟩).toNat < 256
    decide

/-- A write of a low block has its bank. -/
lemma writeRequest_sound (data : Block) (low : blkBank blk < 256) (lt : pass < WRITE_PASSES) :
    (writeRequest d.minor blk data pass).Sound := by
  have upper := (bankUpperBits_eq_zero (Nat.lt_trans low (by decide))).mpr low
  have len : (slice data.byte (WRITE_CHUNK_SIZE * pass) WRITE_CHUNK_SIZE).length = 32 := length_slice
  have addr : (blkChunkAddrWr (blk + d.minor) pass).toNat = _ := chunkAddr (pass * WRITE_CHUNK_SIZE) (by
    simp only [WRITE_PASSES, WRITE_CHUNK_SIZE, BLOCK_SIZE] at *
    omega)
  obtain ⟨valid, low⟩ := writeRequest_low data low d.minor pass
  refine ⟨valid, low, ?_, ?_⟩
  · show _ ≤ _ ∧ _ ≤ _
    rw [addr, len]
    simp only [WRITE_PASSES, WRITE_CHUNK_SIZE, BLOCK_SIZE, BLOCKS_PER_BANK, BANK_SIZE, DISK_BANK_START] at *
    omega
  · rw [Request.stored_length]
    show 4 + (descDatalen ⟨BitVec.ofNat 8 (List.length _), _, bankUpperBits _ ||| PPU_DESC_FLAG_WRITE⟩).toNat < 256
    rw [upper, len]
    show 4 + (descDatalen ⟨32, 0, 0 ||| PPU_DESC_FLAG_WRITE⟩).toNat < 256
    decide

/-- A block is written chunk by chunk. -/
lemma chrAfter_writes {k : Nat} (le : k ≤ WRITE_PASSES) :
    chrAfter c ((List.range k).map (writeRequest d.minor blk data)) =
      Function.update c (blkBank blk) (overwrite (c (blkBank blk)) (blk.toNat % BLOCKS_PER_BANK * BLOCK_SIZE)
        (slice data.byte 0 (WRITE_CHUNK_SIZE * k))) := by
  induction k with
  | zero =>
    show c = Function.update c (blkBank blk) (overwrite (c (blkBank blk)) _ [])
    rw [overwrite_nil, Function.update_eq_self]
  | succ k ih =>
    have addr : (blkChunkAddrWr (blk + d.minor) k).toNat = _ := chunkAddr (k * WRITE_CHUNK_SIZE) (by
      simp only [WRITE_PASSES, WRITE_CHUNK_SIZE, BLOCK_SIZE] at *
      omega)
    have place : (blkChunkAddrWr (blk + d.minor) k).toNat - DISK_BANK_START =
        blk.toNat % BLOCKS_PER_BANK * BLOCK_SIZE + (slice data.byte 0 (WRITE_CHUNK_SIZE * k)).length := by
      rw [addr, Nat.add_sub_cancel_left, length_slice, Nat.mul_comm k]
    have last : ∀ c' : Nat → Nat → Byte, chrAfter c' [writeRequest d.minor blk data k] =
        Function.update c' (blkBank blk) (overwrite (c' (blkBank blk))
          ((blkChunkAddrWr (blk + d.minor) k).toNat - DISK_BANK_START)
          (slice data.byte (WRITE_CHUNK_SIZE * k) WRITE_CHUNK_SIZE)) := fun _ => rfl
    rw [List.range_succ, List.map_append, List.map_singleton, chrAfter_append, ih (Nat.le_of_succ_le le), last,
      Function.update_self, Function.update_idem, place, overwrite_append, Nat.mul_succ, slice_add, Nat.zero_add]

/-- A read changes no byte. -/
lemma chrAfter_reads {k : Nat} : chrAfter c ((List.range k).map (readRequest d.minor blk)) = c := by
  induction k with
  | zero => rfl
  | succ k ih =>
    rw [List.range_succ, List.map_append, chrAfter_append, ih]
    rfl

/-- The blocks after one has been written. -/
lemma blockByte_writes (lt : off < BLOCK_SIZE) : blockByte (chrAfter c (writeRequests d.minor blk data)) blk' off =
    if blk' = blk then data.byte off else blockByte c blk' off := by
  have size : WRITE_CHUNK_SIZE * WRITE_PASSES = BLOCK_SIZE := rfl
  rw [writeRequests, chrAfter_writes (Nat.le_refl _), size, blockByte]
  by_cases bank : blkBank blk' = blkBank blk
  · rw [bank, Function.update_self, overwrite]
    by_cases same : blk' = blk
    · rw [if_pos same, same, if_pos (Nat.le_add_right _ _), Nat.add_sub_cancel_left, getElem?_slice, if_pos lt,
        Nat.zero_add]
      rfl
    · have apart : blk'.toNat ≠ blk.toNat := fun e => same (BitVec.eq_of_toNat_eq e)
      rw [if_neg same, blockByte, bank]
      split
      · next ge =>
        have outside : ¬ blk'.toNat % BLOCKS_PER_BANK * BLOCK_SIZE + off - blk.toNat % BLOCKS_PER_BANK * BLOCK_SIZE <
            BLOCK_SIZE := by
          simp only [blkBank, BLOCKS_PER_BANK, BANK_SIZE, BLOCK_SIZE] at *
          omega
        rw [getElem?_slice, if_neg outside]
        rfl
      · rfl
  · have other : blk' ≠ blk := fun e => bank (congrArg blkBank e)
    rw [if_neg other, Function.update_of_ne bank]
    rfl

end Requests

/-! ## The passes -/

/-- The console with a request queued. -/
def Console.ask (t : Console) (r : Request) : Console := t.queueDescriptor r.desc r.payload

/-- The console with requests queued. -/
def Console.askAll (t : Console) (rs : List Request) : Console := rs.foldl ask t

/-- One request more. -/
lemma Console.askAll_range (t : Console) (f : Nat → Request) (k : Nat) :
    t.askAll ((List.range (k + 1)).map f) = (t.askAll ((List.range k).map f)).ask (f k) := by
  rw [askAll, List.range_succ, List.map_append, List.foldl_append]
  rfl

/-- Requests leave the screen and are queued in their order. -/
lemma Console.askAll_queued (t : Console) (rs : List Request) : (t.askAll rs).screen = t.screen ∧
    (t.askAll rs).queued = t.queued ++ rs.map Request.entry := by
  induction rs generalizing t with
  | nil => exact ⟨rfl, (List.append_nil _).symm⟩
  | cons r rs ih =>
    obtain ⟨screen, queued⟩ := ih (t.ask r)
    refine ⟨screen, queued.trans ?_⟩
    rw [List.map_cons]
    exact List.append_assoc _ [r.entry] _

section Passes

variable {t : Console} {minor blk : Word} {data : Block} {r : Request}

/-- `queue_descriptor` queues a request that reads nothing. -/
lemma queueDescriptor_at (valid : r.Valid) (low : r.LowBank) (quiet : ¬ r.Reads) {payload : Nat → Byte}
    (hdata : ∀ i < (descDatalen r.desc).toNat, payload i = r.payload i) :
    Triple Vblank Handshake (IdleAt t) (Code.queueDescriptor r.desc payload) (IdleAt (t.ask r)) :=
  queueDescriptor_spec Ghost.console IdleAt.firm (fun _ _ hs => ⟨hs.1, hs.2.eagain⟩) valid low
    (fun _ _ e joined same => ⟨by rw [same, e]; rfl, joined.idle quiet⟩) hdata

/-- The passes of `ppuwd_write` queue its requests. -/
lemma ppuwdWrite_passes (minor : Word) (data : Block) (low : blkBank blk < 256) : ∃ f : Nat → Pass,
    Ppu.ppuwdWrite minor blk data = (List.range WRITE_PASSES).map f ∧
      ∀ k, (f k).desc = (writeRequest minor blk data k).desc ∧
        ∀ i < (descDatalen (writeRequest minor blk data k).desc).toNat,
          (f k).data i = (writeRequest minor blk data k).payload i := by
  unfold Ppu.ppuwdWrite
  refine ⟨_, rfl, fun k => ?_⟩
  have upper := (bankUpperBits_eq_zero (Nat.lt_trans low (by decide))).mpr low
  have len : (slice data.byte (WRITE_CHUNK_SIZE * k) WRITE_CHUNK_SIZE).length = WRITE_CHUNK_SIZE := length_slice
  have desc : (writeRequest minor blk data k).desc = ⟨BitVec.ofNat 8 WRITE_CHUNK_SIZE,
      blkChunkAddrWr (blk + minor) k, bankUpperBits (blkBank blk) ||| PPU_DESC_FLAG_WRITE⟩ := by
    show PpuDesc.mk (BitVec.ofNat 8 (List.length _)) _ _ = _
    rw [len]
  have datalen : (descDatalen (writeRequest minor blk data k).desc).toNat = WRITE_CHUNK_SIZE + BANK_BYTE_PAD := by
    rw [desc, upper]
    show (descDatalen ⟨BitVec.ofNat 8 WRITE_CHUNK_SIZE, 0, 0 ||| PPU_DESC_FLAG_WRITE⟩).toNat = _
    decide
  refine ⟨desc.symm, fun i hi => ?_⟩
  rw [datalen] at hi
  show (if _ then _ else _) = if _ then _ else _
  by_cases first : i < BANK_BYTE_PAD
  · rw [if_pos first, if_pos first]
    rfl
  · rw [if_neg first, if_neg first, List.getD_eq_getElem?_getD, getElem?_slice, if_pos (by omega)]
    rfl

/-- A pass of `ppuwd_write` queues its request. -/
lemma writePass_at (low : blkBank blk < 256) {k : Nat} {p : Pass}
    (desc : p.desc = (writeRequest minor blk data k).desc)
    (payload : ∀ i < (descDatalen (writeRequest minor blk data k).desc).toNat,
      p.data i = (writeRequest minor blk data k).payload i) :
    Triple Vblank Handshake (IdleAt t) (Code.writePass p) (IdleAt (t.ask (writeRequest minor blk data k))) := by
  rw [Code.writePass, desc]
  obtain ⟨valid, low⟩ := writeRequest_low data low minor k
  exact (queueDescriptor_at valid low id payload).seq (waitFrame_spec Ghost.console)

/-- `ppuwd_write` queues its requests. -/
lemma ppuwdWrite_spec (low : blkBank blk < 256) : Triple Vblank Handshake (IdleAt t)
    (Code.ppuwdWrite minor blk data) (IdleAt (t.askAll (writeRequests minor blk data))) := by
  obtain ⟨f, passes, spec⟩ := ppuwdWrite_passes minor data low
  rw [Code.ppuwdWrite, passes]
  refine Triple.eachRange (I := fun k => IdleAt (t.askAll ((List.range k).map (writeRequest minor blk data))))
    (fun _ => IdleAt.firm) fun k _ => ?_
  rw [t.askAll_range]
  exact writePass_at low (spec k).1 (spec k).2

/-- What `ppuwd_read` has read. -/
def Vars.read (s : Vars) : (Nat → Byte) × List Copied := (s.bfData, s.copied)

/-- A vblank copies nothing out. -/
lemma Vblank.read {s s' : Vars} (int : Vblank s s') : s'.read = s.read := by
  obtain ⟨data, e⟩ := int
  rw [handleVblank] at e
  split at e
  · cases e
    rfl
  · obtain ⟨⟨rs, d⟩, -, rfl⟩ := Option.map_eq_some_iff.mp e
    obtain ⟨buf, l, -, frame⟩ := performAll_frame s data rs
    rw [frame]
    rfl

section Maintains

variable {I : Vars → Prop} (same : ∀ s s' : Vars, s'.read = s.read → s'.queued = s.queued → I s → I s')
include same

/-- The queueing code reads nothing, and what it appends is light enough. -/
lemma queueDescriptor_maintains {desc : PpuDesc} {payload : Nat → Byte}
    (push : ∀ s s' : Vars, s'.read = s.read →
      s'.queued = s.queued ++ [⟨desc, (List.range (descDatalen desc).toNat).map payload⟩] →
      desc.cycles + BASE_PPU_LOOP_CYCLES ≤ PPU_LOOP_MAX_CYCLES → I s → I s') :
    Maintains I (Code.queueDescriptor desc payload) := by
  have unlock : ∀ b, Maintains I (Code.unlockReturn b) := fun b =>
    .seq (.set fun s => same _ _ rfl rfl) (.set fun s => same _ _ rfl rfl)
  have copy : ∀ src n, Maintains I (Code.bcopyIn src n) := by
    intro src n
    refine .forUp (fun i => ?_) n
    exact .set fun s => same _ _ rfl rfl
  have advance : ∀ n, Maintains I (Code.advance n) := fun n => .set fun s => same _ _ rfl rfl
  have once : Maintains I (Code.tryQueueDescriptor desc payload) := by
    refine .seq (.seq (.ite .fail .skip) (.set fun s => same _ _ rfl rfl)) (.ite (unlock _) (.look fun s => ?_))
    split
    · exact .fail
    · next w _ weight =>
      split
      · exact unlock _
      · next light =>
        have cycles : desc.cycles = w := by
          unfold PpuDesc.cycles
          unfold calcDescWeight at weight ⊢
          cases type : getDescType desc <;> rw [type] at weight <;> cases weight <;> rfl
        refine .seq (.seq (copy _ _) (.seq (advance _) (.seq ?_ (.set fun s => ?_)))) (unlock _)
        · split
          · exact .skip
          · exact .seq (copy _ _) (advance _)
        · exact push _ _ rfl rfl (by omega)
  exact .seq once (.loop (.seq (.seq (.set fun s => same _ _ rfl rfl) (.loop .skip)) once))

/-- So does the console, apart from its descriptors. -/
lemma ppuPutc_maintains (queues : ∀ desc payload, Maintains I (Code.queueDescriptor desc payload)) (c : Byte) :
    Maintains I (Code.ppuPutc c) := by
  have draws : ∀ f, Maintains I (Code.onScreen f) := fun f => .set fun s => same _ _ rfl rfl
  have scrolls : Maintains I Code.scrollOneRow := by
    refine .seq (.look fun s => queues _ _) (.seq (.seq (.ite .fail .skip) (.set fun s => same _ _ rfl rfl)) ?_)
    exact .seq (draws _) (.seq (.ite (.seq (draws _) (draws _)) .skip) (.set fun s => same _ _ rfl rfl))
  have wrapped : ∀ x, Maintains I (Code.scrollIfWrapped x) := by
    refine fun x => .ite (.look fun s => ?_) .skip
    dsimp only
    split
    · exact scrolls
    · split
      · exact scrolls
      · exact .skip
  have swaps : Maintains I Code.swapNametable :=
    .seq (draws _) (.ite (.seq (draws _) (draws _)) (.seq (draws _) (draws _)))
  have updates : ∀ dist, Maintains I (Code.updateScreenPtrs dist) := by
    refine fun dist => .look fun s => ?_
    dsimp only
    split
    · exact .skip
    · exact .seq (draws _) (.seq (draws _) (.seq (.ite swaps .skip) (.seq (.ite (draws _) .skip) (wrapped _))))
  unfold Code.ppuPutc
  split
  · exact .look fun s => updates _
  · exact .seq (.look fun s => queues _ _) (updates 1)

/-- A pass of `ppuwd_write` maintains what `queue_descriptor` does. -/
lemma writePass_maintains (queues : ∀ desc payload, Maintains I (Code.queueDescriptor desc payload)) (p : Pass) :
    Maintains I (Code.writePass p) :=
  .seq (queues _ _) (.seq (.set fun _ => same _ _ rfl rfl) (.loop .skip))

end Maintains

/-- `queue_descriptor` copies nothing out. -/
lemma queueDescriptor_read (desc : PpuDesc) (payload : Nat → Byte) (read : (Nat → Byte) × List Copied) :
    Maintains (·.read = read) (Code.queueDescriptor desc payload) :=
  queueDescriptor_maintains (fun _ _ same _ e => same.trans e) fun _ _ same _ _ e => same.trans e

/-- What the journal says of the first `k` passes of a read that begins at `t`: each has copied the bytes of its own
descriptor, and they lie at its place in the block buffer. -/
def Gathered (t : Console) (minor blk : Word) (bfData : Nat → Byte) (k : Nat) : List Copied :=
  (List.range k).map fun i =>
    ⟨(readRequest minor blk i).desc, t.queued.length + i, slice bfData (READ_CHUNK_SIZE * i) READ_CHUNK_SIZE⟩

/-- One pass more. -/
lemma Gathered.succ {bfData bfData' : Nat → Byte} {k : Nat}
    (same : ∀ i < READ_CHUNK_SIZE * k, bfData' i = bfData i) :
    Gathered t minor blk bfData' (k + 1) = Gathered t minor blk bfData k ++
      [⟨(readRequest minor blk k).desc, t.queued.length + k, slice bfData' (READ_CHUNK_SIZE * k) READ_CHUNK_SIZE⟩] := by
  rw [Gathered, List.range_succ, List.map_append, List.map_singleton]
  refine congrArg (· ++ _) (List.map_congr_left fun i hi => ?_)
  have lt := List.mem_range.mp hi
  refine congrArg _ (slice_congr fun q hq => same _ ?_)
  simp only [READ_CHUNK_SIZE] at *
  omega

/-- A pass that is over. -/
lemma Gathered.mem {bfData : Nat → Byte} {k i : Nat} (lt : i < k) :
    ⟨(readRequest minor blk i).desc, t.queued.length + i, slice bfData (READ_CHUNK_SIZE * i) READ_CHUNK_SIZE⟩ ∈
      Gathered t minor blk bfData k :=
  List.mem_map.mpr ⟨i, List.mem_range.mpr lt, rfl⟩

/-- The first `k` passes of a read are over. -/
def ReadUpTo (t : Console) (before : List Copied) (minor blk : Word) (k : Nat) (s : Vars) : Prop :=
  IdleAt (t.askAll ((List.range k).map (readRequest minor blk))) s ∧
    s.copied = before ++ Gathered t minor blk s.bfData k

/-- A vblank changes nothing that has been read. -/
lemma ReadUpTo.firm {before : List Copied} {k : Nat} : Firm Vblank Handshake (ReadUpTo t before minor blk k) where
  safe s h := IdleAt.firm.safe s h.1
  stable s s' h int := by
    have same := int.read
    refine ⟨IdleAt.firm.stable s s' h.1 int, (congrArg Prod.snd same).trans ?_⟩
    rw [show s'.bfData = s.bfData from congrArg Prod.fst same]
    exact h.2

/-- The chunk at `offset` has been copied up to `k` behind the block buffer `read`. -/
def CopyingAt (t : Console) (r : Request) (offset : Nat) (read : (Nat → Byte) × List Copied) (k : Nat)
    (s : Vars) : Prop :=
  s.console = t ∧ s.copied = read.2 ∧ (∀ i < offset, s.bfData i = read.1 i) ∧ Copying r offset k s

/-- A vblank changes nothing while a pass is copying. -/
lemma CopyingAt.firm {offset : Nat} {read : (Nat → Byte) × List Copied} {k : Nat} :
    Firm Vblank Handshake (CopyingAt t r offset read k) where
  safe s h := Copying.firm.safe s h.2.2.2
  stable s s' h int := by
    obtain ⟨console, copied, before, copying⟩ := h
    have same := int.read
    refine ⟨int.console.1.trans console, (congrArg Prod.snd same).trans copied, fun i hi => ?_,
      Copying.firm.stable s s' copying int⟩
    exact (congrFun (congrArg Prod.fst same) i).trans (before i hi)

/-- A pass of `ppuwd_read` copies out what has been fetched. -/
lemma readPass_at (low : blkBank blk < 256) {before : List Copied} {k : Nat} {p : Pass}
    (desc : p.desc = (readRequest minor blk k).desc) (payload : p.data = (readRequest minor blk k).payload)
    (offset : p.offset = READ_CHUNK_SIZE * k) :
    Triple Vblank Handshake (ReadUpTo t before minor blk k) (Code.readPass p)
      (ReadUpTo t before minor blk (k + 1)) := by
  obtain ⟨valid, low'⟩ := readRequest_low low minor k
  have firm := Waiting.firm (blkBank blk) (blkChunkAddrRd (blk + minor) k)
  have len := (t.askAll_queued ((List.range k).map (readRequest minor blk))).2
  let t' := t.askAll ((List.range k).map (readRequest minor blk))
  refine Triple.each_pre fun s₀ h₀ => ?_
  have queues : Triple Vblank Handshake (IdleAt t') (Code.queueDescriptor p.desc p.data)
      (fun s => s.console = t'.ask (readRequest minor blk k) ∧ Waiting (readRequest minor blk k) s) := by
    rw [desc, payload]
    exact queueDescriptor_spec Ghost.console (firm.and Ghost.console.vblank)
      (fun _ _ hs => ⟨hs.1, hs.2.eagain⟩) valid low'
      (fun _ _ e joined same => ⟨by rw [same, e]; rfl, .inl joined⟩) fun _ _ => rfl
  have waits : Firm Vblank Handshake (fun s => s.read = s₀.read ∧ s.console = t'.ask (readRequest minor blk k) ∧
      Waiting (readRequest minor blk k) s) :=
    (firm.and Ghost.console.vblank).and fun _ _ int e => int.read.trans e
  have copies : ∀ i, Firm Vblank Handshake
      (CopyingAt (t'.ask (readRequest minor blk k)) (readRequest minor blk k) p.offset s₀.read i) :=
    fun _ => CopyingAt.firm
  have first : Triple Vblank Handshake (· = s₀) (Code.queueDescriptor p.desc p.data)
      (fun s => s.read = s₀.read ∧ s.console = t'.ask (readRequest minor blk k) ∧
        Waiting (readRequest minor blk k) s) := by
    refine (queues.frame (queueDescriptor_read p.desc p.data s₀.read) fun _ _ int e => int.read.trans e).conseq ?_
      fun s hs => ⟨hs.2, hs.1⟩
    rintro _ rfl
    exact ⟨h₀.1, rfl⟩
  refine Triple.seq first ?_
  refine Triple.seq (Triple.loop waits (copies 0) (fun _ hs _ => hs) (.skip waits) fun s hs dirty => ?_) ?_
  · obtain ⟨read, console, (⟨_, _, -, h, -⟩ | h)⟩ := hs
    · exact absurd h.clean (of_decide_eq_false dirty)
    · exact ⟨console, congrArg Prod.snd read, fun i _ => congrFun (congrArg Prod.fst read) i,
        fun i hi => absurd hi (Nat.not_lt_zero i), h⟩
  refine Triple.seq (Triple.forUp (CopyingAt (t'.ask (readRequest minor blk k)) (readRequest minor blk k) p.offset
    s₀.read) (copies 0) (n := READ_CHUNK_SIZE) fun i _ => Triple.set (copies i) (copies (i + 1)) fun s hs => ?_) ?_
  · obtain ⟨console, copied, before, chunk, ⟨⟨done, b⟩, pos, first, dirty, unlocked, bytes⟩⟩ := hs
    refine ⟨console, copied, fun j hj => ?_, fun j hj => ?_, ⟨done, b.congr rfl rfl rfl⟩, pos, first, dirty, unlocked,
      bytes⟩
    · exact (Function.update_of_ne (by omega) _ s.bfData).trans (before j hj)
    · obtain lt | rfl := Nat.lt_succ_iff_lt_or_eq.mp hj
      · exact (Function.update_of_ne (by omega) _ s.bfData).trans (chunk j lt)
      · exact Function.update_self _ _ s.bfData
  refine Triple.set (copies READ_CHUNK_SIZE) ReadUpTo.firm fun s hs => ?_
  obtain ⟨console, copied, same, copying⟩ := hs
  have queued : s.queued = t'.queued ++ [(readRequest minor blk k).entry] := congrArg Console.queued console
  have number : s.queued.length - 1 = t.queued.length + k := by
    rw [queued, len, List.length_append, List.length_append, List.length_map, List.length_map, List.length_range]
    rfl
  refine ⟨?_, ?_⟩
  · rw [t.askAll_range, desc]
    exact ⟨console, copying.finish⟩
  · show s.copied ++ [(⟨p.desc, s.queued.length - 1, slice s.bfData p.offset READ_CHUNK_SIZE⟩ : Copied)] = _
    rw [Gathered.succ fun i hi => same i (offset ▸ hi), copied, number, desc, offset, ← List.append_assoc]
    exact congrArg (· ++ _) h₀.2

/-- The passes of `ppuwd_read` queue its requests and fill the block buffer chunk by chunk. -/
lemma ppuwdRead_passes (minor blk : Word) : ∃ f : Nat → Pass,
    Ppu.ppuwdRead minor blk = (List.range READ_PASSES).map f ∧
      ∀ k, (f k).desc = (readRequest minor blk k).desc ∧ (f k).data = (readRequest minor blk k).payload ∧
        (f k).offset = READ_CHUNK_SIZE * k := by
  unfold Ppu.ppuwdRead
  refine ⟨_, rfl, fun k => ?_⟩
  exact ⟨rfl, rfl, rfl⟩

/-- The passes of `ppuwd_read`. -/
lemma readPasses_spec (low : blkBank blk < 256) (before : List Copied) {f : Nat → Pass}
    (spec : ∀ k, (f k).desc = (readRequest minor blk k).desc ∧ (f k).data = (readRequest minor blk k).payload ∧
      (f k).offset = READ_CHUNK_SIZE * k) (k : Nat) :
    Triple Vblank Handshake (fun s => IdleAt t s ∧ s.copied = before) (each Code.readPass ((List.range k).map f))
      (ReadUpTo t before minor blk k) := by
  refine Triple.pre ?_ fun s hs => (⟨hs.1, hs.2.trans (List.append_nil _).symm⟩ : ReadUpTo t before minor blk 0 s)
  refine Triple.eachRange (I := ReadUpTo t before minor blk) (fun _ => ReadUpTo.firm) fun k _ => ?_
  obtain ⟨desc, payload, offset⟩ := spec k
  exact readPass_at low desc payload offset

/-- `ppuwd_read` has the block in `bfData`. -/
lemma ppuwdRead_spec (low : blkBank blk < 256) (before : List Copied) :
    Triple Vblank Handshake (fun s => IdleAt t s ∧ s.copied = before) (Code.ppuwdRead minor blk)
      (ReadUpTo t before minor blk READ_PASSES) := by
  obtain ⟨f, passes, spec⟩ := ppuwdRead_passes minor blk
  rw [Code.ppuwdRead, passes]
  exact readPasses_spec low before spec READ_PASSES

end Passes

/-! ## Calls in any order -/

namespace Call

/-- A disk call is for one of the disks of `dev_tab`, and for a block in the first 256 banks. -/
def Driven (c : Call) : Prop :=
  c.LowBank ∧ match c with
    | .putc _ => True
    | .read minor _ | .write minor _ _ => ∃ d : Disk, d.minor = minor

/-- The console after a call. -/
def console (t : Console) : Call → Console
  | .putc c => t.ppuPutc c
  | .read minor bfBlk => t.askAll (readRequests minor bfBlk)
  | .write minor bfBlk bfData => t.askAll (writeRequests minor bfBlk bfData)

/-- The character of a call. -/
def char? : Call → Option Byte
  | .putc c => some c
  | _ => none

end Call

/-- The console after calls. -/
def consoleAfter (calls : List Call) : Console := calls.foldl Call.console Console.start

section Calls

variable {t : Console} {calls : List Call} {c : Call}

/-- The console after one call more. -/
lemma consoleAfter_append : consoleAfter (calls ++ [c]) = c.console (consoleAfter calls) := List.foldl_append

/-- The passes of a call that comes when the console is `t`: what each of them asks for, and the number that this has
in the queue. -/
def Call.passes (t : Console) : Call → List (PpuDesc × Nat)
  | .read minor bfBlk => (List.range READ_PASSES).map fun i => ((readRequest minor bfBlk i).desc, t.queued.length + i)
  | _ => []

/-- The passes of calls from the console `t` on. -/
def passesFrom (t : Console) : List Call → List (PpuDesc × Nat)
  | [] => []
  | c :: calls => c.passes t ++ passesFrom (c.console t) calls

/-- The passes of calls. -/
def passesOf (calls : List Call) : List (PpuDesc × Nat) := passesFrom Console.start calls

/-- The passes of one call more. -/
lemma passesOf_append : passesOf (calls ++ [c]) = passesOf calls ++ c.passes (consoleAfter calls) := by
  have shift : ∀ t, passesFrom t (calls ++ [c]) = passesFrom t calls ++ c.passes (calls.foldl Call.console t) := by
    intro t
    induction calls generalizing t with
    | nil => exact List.append_nil _
    | cons d calls ih =>
      rw [List.cons_append, passesFrom, passesFrom, ih, List.append_assoc]
      rfl
  exact shift _

/-- The pass of an entry of the journal. -/
def Copied.pass (c : Copied) : PpuDesc × Nat := (c.desc, c.number)

/-- The passes of a read. -/
lemma Gathered.pass {minor blk : Word} {bfData : Nat → Byte} :
    (Gathered t minor blk bfData READ_PASSES).map Copied.pass = (Call.read minor blk).passes t := by
  rw [Gathered, List.map_map]
  rfl

/-- The journal of copied chunks when calls are over: one entry for each of their passes, in their order, and the
chunks of a last read lie in the block buffer. -/
structure Transferred (calls : List Call) (s : Vars) : Prop where
  queued : s.queued = (consoleAfter calls).queued
  passes : s.copied.map Copied.pass = passesOf calls
  last : ∀ front minor blk, calls = front ++ [.read minor blk] →
    ∃ before, s.copied = before ++ Gathered (consoleAfter front) minor blk s.bfData READ_PASSES

/-- The calls are over. -/
structure Over (calls : List Call) (s : Vars) : Prop extends Transferred calls s where
  idle : IdleAt (consoleAfter calls) s

/-- A vblank changes nothing that is over. -/
lemma Over.firm : Firm Vblank Handshake (Over calls) where
  safe s h := IdleAt.firm.safe s h.idle
  stable s s' h int := by
    have copied : s'.copied = s.copied := congrArg Prod.snd int.read
    have data : s'.bfData = s.bfData := congrArg Prod.fst int.read
    have idle := IdleAt.firm.stable s s' h.idle int
    refine ⟨⟨congrArg Console.queued idle.1, copied ▸ h.passes, ?_⟩, idle⟩
    rw [copied, data]
    exact h.last

/-- At the beginning no pass is over. -/
lemma over_nil {s : Vars} (idle : IdleAt Console.start s) (none : s.copied = []) : Over [] s :=
  ⟨⟨congrArg Console.queued idle.1, by rw [none]; rfl,
    fun _ _ _ e => absurd (congrArg List.length e) (by rw [List.length_append]; nofun)⟩, idle⟩

/-- One call. -/
lemma Call.code_over (low : c.LowBank) : Triple Vblank Handshake (Over calls) c.code (Over (calls ++ [c])) := by
  refine Triple.each_pre fun s₀ h₀ => ?_
  have start : ∀ s, s = s₀ → IdleAt (consoleAfter calls) s ∧ s.copied = s₀.copied := by
    rintro _ rfl
    exact ⟨h₀.idle, rfl⟩
  have queues : ∀ desc payload, Maintains (·.copied = s₀.copied) (Code.queueDescriptor desc payload) := fun _ _ =>
    queueDescriptor_maintains (fun _ _ same _ e => (congrArg Prod.snd same).trans e)
      fun _ _ same _ _ e => (congrArg Prod.snd same).trans e
  have handler : ∀ s s', Vblank s s' → s.copied = s₀.copied → s'.copied = s₀.copied := fun _ _ int e =>
    (congrArg Prod.snd int.read).trans e
  -- calls other than a read add nothing to the journal
  have other : (∀ minor blk, c ≠ .read minor blk) → Maintains (·.copied = s₀.copied) c.code →
      Triple Vblank Handshake (IdleAt (consoleAfter calls)) c.code (IdleAt (c.console (consoleAfter calls))) →
      Triple Vblank Handshake (· = s₀) c.code (Over (calls ++ [c])) := by
    intro quiet maintains triple
    refine (triple.frame maintains handler).conseq start fun s hs => ?_
    have idle : IdleAt (consoleAfter (calls ++ [c])) s := consoleAfter_append ▸ hs.1
    refine ⟨⟨congrArg Console.queued idle.1, ?_, fun _ _ _ e => ?_⟩, idle⟩
    · have none : c.passes (consoleAfter calls) = [] := by
        cases c with
        | read minor blk => exact absurd rfl (quiet minor blk)
        | putc => rfl
        | write => rfl
      rw [hs.2, h₀.passes, passesOf_append, none, List.append_nil]
    · exact absurd (List.append_inj_right' e rfl) fun e => quiet _ _ (List.singleton_injective e)
  cases c with
  | putc b =>
    exact other nofun (ppuPutc_maintains (fun _ _ same _ e => (congrArg Prod.snd same).trans e) queues b)
      Ppu.ppuPutc_spec
  | read minor blk =>
    refine (ppuwdRead_spec low s₀.copied).conseq start fun s hs => ?_
    have idle : IdleAt (consoleAfter (calls ++ [.read minor blk])) s := consoleAfter_append ▸ hs.1
    refine ⟨⟨congrArg Console.queued idle.1, ?_, ?_⟩, idle⟩
    · rw [hs.2, List.map_append, h₀.passes, passesOf_append, Gathered.pass]
    · intro front minor' blk' e
      obtain ⟨rfl, last⟩ := List.append_inj' e rfl
      cases last
      exact ⟨s₀.copied, hs.2⟩
  | write minor blk data =>
    refine other nofun (.each fun p _ => ?_) (ppuwdWrite_spec low)
    exact writePass_maintains (fun _ _ same _ e => (congrArg Prod.snd same).trans e) queues p

/-- The code of calls. -/
lemma calls_spec (low : ∀ c ∈ calls, c.LowBank) :
    Triple Vblank Handshake (Over []) (each Call.code calls) (Over calls) := by
  refine Triple.eachFrom (I := Over) (fun _ => Over.firm) [] fun is c is' e => Call.code_over (low c ?_)
  rw [show calls = is ++ c :: is' from e]
  exact List.mem_append_right _ List.mem_cons_self

/-- At the start no pass is over. -/
lemma booted_over : Over [] booted := over_nil ⟨rfl, booted_idle⟩ rfl

/-! ## In the middle of a call -/

/-- The passes before this one are in the journal, and so is this one if it is over. -/
lemma readPass_copied {p : Pass} {x : Cmd Vars} {s s' : Vars} (run : Interrupts.Run Vblank (Code.readPass p) s x s') :
    x = skip ∨ s'.copied = s.copied := by
  have handler : ∀ t t' : Vars, Vblank t t' → t.copied = s.copied → t'.copied = s.copied := fun _ _ int e =>
    (congrArg Prod.snd int.read).trans e
  have queues : Maintains (fun t : Vars => t.copied = s.copied) (Code.queueDescriptor p.desc p.data) :=
    queueDescriptor_maintains (fun _ _ same _ e => (congrArg Prod.snd same).trans e)
      fun _ _ same _ _ e => (congrArg Prod.snd same).trans e
  refine queues.seq_until handler (fun t x t' run e => ?_) run rfl
  refine Maintains.seq_until (.loop .skip) handler (fun t x t' run e => ?_) run e
  refine Maintains.seq_until (.forUp (fun i => ?_) _) handler (fun t x t' run e => run.act_until handler e) run e
  exact .set fun _ => id

/-- In the middle of a call the journal holds the passes of those before it, and at most its own behind them. -/
lemma Call.code_within (low : c.LowBank) {x : Cmd Vars} {s s' : Vars} (ended : Over calls s)
    (run : Interrupts.Run Vblank c.code s x s') :
    passesOf calls <+: s'.copied.map Copied.pass ∧ s'.copied.map Copied.pass <+: passesOf (calls ++ [c]) := by
  have handler : ∀ t t' : Vars, Vblank t t' → t.copied = s.copied → t'.copied = s.copied := fun _ _ int e =>
    (congrArg Prod.snd int.read).trans e
  have same : ∀ t t' : Vars, t'.read = t.read → t'.queued = t.queued → t.copied = s.copied → t'.copied = s.copied :=
    fun _ _ same _ e => (congrArg Prod.snd same).trans e
  have queues : ∀ desc payload, Maintains (fun t : Vars => t.copied = s.copied) (Code.queueDescriptor desc payload) :=
    fun _ _ => queueDescriptor_maintains same fun _ _ same _ _ e => (congrArg Prod.snd same).trans e
  have none : Maintains (fun t : Vars => t.copied = s.copied) c.code →
      passesOf calls <+: s'.copied.map Copied.pass ∧ s'.copied.map Copied.pass <+: passesOf (calls ++ [c]) := by
    intro maintains
    have copied : s'.copied = s.copied := (maintains.run handler run rfl).2
    rw [copied, ended.passes, passesOf_append]
    exact ⟨List.prefix_rfl, List.prefix_append _ _⟩
  cases c with
  | putc b => exact none (ppuPutc_maintains same queues b)
  | write minor blk data => exact none (.each fun p _ => writePass_maintains same queues p)
  | read minor blk =>
    obtain ⟨f, passes, spec⟩ := ppuwdRead_passes minor blk
    have upTo : ∀ k ≤ READ_PASSES, ∀ bf : Nat → Byte,
        s'.copied = s.copied ++ Gathered (consoleAfter calls) minor blk bf k →
        passesOf calls <+: s'.copied.map Copied.pass ∧
          s'.copied.map Copied.pass <+: passesOf (calls ++ [.read minor blk]) := by
      intro k le bf e
      have front : (Gathered (consoleAfter calls) minor blk bf k).map Copied.pass =
          ((Call.read minor blk).passes (consoleAfter calls)).take k := by
        rw [Call.passes, ← List.map_take, List.take_range, Nat.min_eq_left le, Gathered, List.map_map]
        rfl
      rw [e, List.map_append, ended.passes, front, passesOf_append]
      exact ⟨List.prefix_append _ _, (List.prefix_append_right_inj _).mpr (List.take_prefix _ _)⟩
    have begins : IdleAt (consoleAfter calls) s ∧ s.copied = s.copied := ⟨ended.idle, rfl⟩
    rw [show (Call.read minor blk).code = each Code.readPass ((List.range READ_PASSES).map f) from
      congrArg (each Code.readPass) passes] at run
    obtain rfl | ⟨front, p, back, c', s₁, e, -, before, within⟩ := run.each
    · exact upTo READ_PASSES (Nat.le_refl _) s'.bfData ((readPasses_spec low s.copied spec _ s begins _ _ run).2.2 rfl).2
    · -- `k` passes are over, and the run is in the next one
      obtain ⟨lt, rfl⟩ := range_split e
      generalize count : front.length = k at lt within
      have done : front = (List.range k).map f := by
        have whole := congrArg (List.take k) e
        rw [← List.map_take, List.take_range, Nat.min_eq_left (Nat.le_of_lt lt), ← count, List.take_left, count] at whole
        exact whole.symm
      subst done
      have there := (readPasses_spec low s.copied spec k s begins _ s₁ before).2.2 rfl
      obtain ⟨desc, payload, offset⟩ := spec k
      obtain rfl | same := readPass_copied within
      · exact upTo (k + 1) lt s'.bfData ((readPass_at low desc payload offset s₁ there _ _ within).2.2 rfl).2
      · exact upTo k (Nat.le_of_lt lt) s₁.bfData (same.trans there.2)

/-- Where a run of calls has come to: they are over, or one of them is being executed. -/
def Progress (calls : List Call) (c : Cmd Vars) (s : Vars) : Prop :=
  c = skip ∧ Transferred calls s ∨ ∃ front call back c', calls = front ++ call :: back ∧ c = seq c' (each Call.code back) ∧
    passesOf front <+: s.copied.map Copied.pass ∧ s.copied.map Copied.pass <+: passesOf (front ++ [call])

/-- In every run of calls of the console and of the disk driver, with vblanks between any of their statements, the
handshake holds all along, no statement panics, and there is one entry of the journal for each pass of `ppuwd_read` that
is over. When the calls are over, the buffer is unlocked and no fetched byte waits, so that the next vblank performs what
is left in the queue. -/
theorem handshake_run {calls : List Call} (low : ∀ c ∈ calls, c.LowBank) {c : Cmd Vars} {s : Vars}
    (run : Interrupts.Run Vblank (each Call.code calls) booted c s) :
    Handshake s ∧ Live c s ∧ Progress calls c s ∧ (c = skip → s.ppuLocked = false ∧ s.ppuReadbufDirty = 0) := by
  obtain ⟨handshake, live, fin⟩ := calls_spec low booted booted_over c s run
  refine ⟨handshake, live, ?_, fun e => ?_⟩
  · obtain rfl | ⟨front, call, back, c', s₁, e, residual, before, within⟩ := run.each
    · exact .inl ⟨rfl, (fin rfl).toTransferred⟩
    · have lows : (∀ d ∈ front, d.LowBank) ∧ call.LowBank := by
        rw [e] at low
        exact ⟨fun d hd => low d (List.mem_append_left _ hd), low call (List.mem_append_right _ List.mem_cons_self)⟩
      have ended := (calls_spec lows.1 booted booted_over _ s₁ before).2.2 rfl
      exact .inr ⟨front, call, back, c', e, residual, Call.code_within lows.2 ended within⟩
  · obtain ⟨_, _, -, h, -⟩ := (fin e).idle.2
    exact ⟨h.unlocked, h.clean⟩

/-- A character is printed and a block read. The first vblank comes while the descriptor of the character is half
written, and finds the buffer locked. -/
theorem handshake_run_putc_read : ∃ s, Interrupts.Run Vblank (each Call.code [.putc 65, .read 0 5]) booted skip s ∧
    s.processed.length = 9 ∧ Handshake s ∧ s.copied.length = 8 ∧ Transferred [.putc 65, .read 0 5] s := by
  have rides : (((each Call.code [.putc 65, .read 0 5]).ride (handleVblank fun _ x => x)
      (17 :: List.replicate 8 300 ++ [134]) booted).map
        fun p => decide (p.1.finished = true ∧ p.2.processed.length = 9)) = some true := by
    decide +kernel
  obtain ⟨⟨c, s⟩, e, h⟩ := Option.map_eq_some_iff.mp rides
  obtain ⟨finished, nine⟩ := of_decide_eq_true h
  obtain rfl := Cmd.eq_skip finished
  have run := Interrupts.Run.ride (N := Vblank) (fun s s' e => ⟨_, e⟩) .start e
  have bank : blkBank 5 < 256 := by decide
  have low : ∀ c ∈ [Call.putc 65, Call.read 0 5], c.LowBank :=
    List.forall_mem_cons.mpr ⟨trivial, List.forall_mem_singleton.mpr bank⟩
  obtain ⟨handshake, -, progress, -⟩ := handshake_run low run
  obtain ⟨-, transferred⟩ | ⟨_, _, _, _, -, ended, -⟩ := progress
  · refine ⟨s, run, nine, handshake, ?_, transferred⟩
    have eight := congrArg List.length transferred.passes
    rw [List.length_map] at eight
    exact eight
  · cases ended

end Calls

end Uzi.Ppu
