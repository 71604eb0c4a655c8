import Uzi.Drivers.PpuDisk

/-!
# The address map of the disk driver

Where the bytes of a disk block go: the passes of `ppuwd_write` and `ppuwd_read` as `process_ppubuf` performs the
bytes that are queued for them. A write and a read of one byte use one CHR location, the chunks cover the block once,
and two bytes are kept apart, exactly for the blocks below 2048 that are not one block number of the two disks. The
bank is computed from `bf_blk`, before the minor device number is added; from block 2048 on the upper bank bits fall
on the flags of the descriptor.
-/

namespace Uzi.Ppu
open FlatFile

/-! ## Locations -/

/-- A CHR location: a 10-bit bank and an address. -/
structure Location where
  bank : Nat
  addr : Word
  deriving DecidableEq

/-- The location of byte `off` of block `blk`, on either disk. -/
def location (blk : Word) (off : Nat) : Location where
  bank := blkBank blk
  addr := BitVec.ofNat 16 (blkBaseAddr blk + off)

/-- Blocks below 4096 have a bank of at most nine bits. -/
lemma blkBank_lt {blk : Word} (h : blk.toNat < 4096) : blkBank blk < 512 := by
  simp only [blkBank, BLOCKS_PER_BANK, BANK_SIZE, BLOCK_SIZE]
  omega

/-- A location determines the block number and the offset. -/
lemma location_inj {b b' : Word} {o o' : Nat} (ho : o < BLOCK_SIZE) (ho' : o' < BLOCK_SIZE)
    (e : location b o = location b' o') : b = b' ∧ o = o' := by
  obtain ⟨ebank, eaddr⟩ := Location.mk.injEq .. ▸ e
  have eaddr := congrArg BitVec.toNat eaddr
  simp only [blkBank, blkBaseAddr, BLOCKS_PER_BANK, BANK_SIZE, BLOCK_SIZE, DISK_BANK_START,
    BitVec.toNat_ofNat] at *
  have eb : b.toNat = b'.toNat := by omega
  exact ⟨BitVec.eq_of_toNat_eq eb, by omega⟩

/-- The bank and the address are in range. -/
lemma location_range {blk : Word} {off : Nat} (h : blk.toNat < 4096) (ho : off < BLOCK_SIZE) :
    (location blk off).bank < 1024 ∧ 0x1000 ≤ (location blk off).addr.toNat ∧
      (location blk off).addr.toNat < 0x2000 := by
  have := blkBank_lt h
  simp only [location, blkBaseAddr, BLOCKS_PER_BANK, BANK_SIZE, BLOCK_SIZE, DISK_BANK_START,
    BitVec.toNat_ofNat] at *
  omega

/-! ## Where accesses arrive -/

namespace Device

/-- The CHR location that an access to `PPU_DATA` reaches. -/
def here (d : Device) : Location := ⟨d.bank, BitVec.ofNat 16 d.addr⟩

/-- The bytes that accesses store, with the locations that they reach. -/
def stores (d : Device) : List PpuOp → List (Location × Byte)
  | [] => []
  | .store b :: ops => (d.here, b) :: (d.perform (.store b)).stores ops
  | op :: ops => (d.perform op).stores ops

/-- The places of `ppu_readbuf` that accesses fill, with the locations that the bytes come from. A read delivers what
the access before it has fetched, at first the byte of `src`. -/
def loads (d : Device) (src : Location) : List PpuOp → List (Nat × Location)
  | [] => []
  | .fetch x :: ops => (x.toNat, src) :: (d.perform (.fetch x)).loads d.here ops
  | .prime :: ops => (d.perform .prime).loads d.here ops
  | op :: ops => (d.perform op).loads src ops

variable {d : Device} {ops ops' : List PpuOp} {src : Location} {f : Nat → Byte} {p n : Nat}

/-- What is stored, one after the other. -/
lemma stores_append : d.stores (ops ++ ops') = d.stores ops ++ (d.run ops).stores ops' := by
  induction ops generalizing d with
  | nil => rfl
  | cons op ops ih =>
    cases op with
    | store b => exact congrArg ((d.here, b) :: ·) ih
    | addr b => exact ih
    | chrUpper b => exact ih
    | chrLower b => exact ih
    | fetch x => exact ih
    | prime => exact ih
    | setDirty => exact ih

/-- Stores inside the window go to one location after the other. -/
lemma stores_slice (inside : ∀ k < n, BankWindow (d.addr + k)) : d.stores ((slice f p n).map .store) =
    (List.range n).map fun k => (⟨d.bank, BitVec.ofNat 16 (d.addr + k)⟩, f (p + k)) := by
  induction n with
  | zero => rfl
  | succ n ih =>
    have before : ∀ k < n, BankWindow (d.addr + k) := fun k hk => inside k (Nat.lt_succ_of_lt hk)
    have chunk : ∀ k < (slice f p n).length, BankWindow (d.addr + k) := by rwa [length_slice]
    have run := run_stores_inside chunk
    rw [length_slice] at run
    rw [slice_add, List.map_append, stores_append, ih before, run, List.range_succ, List.map_append]
    rfl

/-- Reads take the bytes one behind the other. -/
lemma loads_fetches {a i : Nat} (addr : d.addr = a + i + 1) (lt : a + i + n + 1 < 0x4000) (le : i + n ≤ 256) :
    d.loads ⟨d.bank, BitVec.ofNat 16 (a + i)⟩
        ((List.range' i n).map (fun k => .fetch (BitVec.ofNat 8 k)) ++ [.setDirty]) =
      (List.range' i n).map fun k => (k, ⟨d.bank, BitVec.ofNat 16 (a + k)⟩) := by
  induction n generalizing d i with
  | zero => rfl
  | succ n ih =>
    have next : (d.perform (.fetch (BitVec.ofNat 8 i))).addr = a + (i + 1) + 1 := by
      show (d.addr + 1) % 0x4000 = _
      rw [addr, Nat.mod_eq_of_lt (by omega)]
      omega
    have here : d.here = ⟨d.bank, BitVec.ofNat 16 (a + (i + 1))⟩ := by
      rw [here, addr, Nat.add_assoc]
    have place : (BitVec.ofNat 8 i).toNat = i := by
      rw [BitVec.toNat_ofNat]
      exact Nat.mod_eq_of_lt (by omega)
    rw [List.range'_succ, List.map_cons, List.cons_append, loads, here, place, List.map_cons]
    exact congrArg _ (ih next (by omega) (by omega))

end Device

/-! ## The accesses of a pass -/

/-- What a pass finds: the buffer that its descriptor is appended to, the device when the walk comes to it, and the
location of the byte that the device has in its buffer then. -/
structure Scene where
  buf : Databuf
  dev : Device
  src : Location

/-- An empty buffer and a device after its reset. -/
def Scene.fresh : Scene where
  buf := ⟨fun _ => 0, 0, 0, false⟩
  dev := ⟨none, 0, 0, 0, 0, fun _ => 0, fun _ _ => 0⟩
  src := ⟨0, 0⟩

/-- The accesses that `process_ppubuf` makes for the descriptor of a pass, appended to a buffer. -/
def Pass.ops (p : Pass) (s : Databuf) : List PpuOp :=
  ((bufWriteLoop (appendDesc p.desc p.data s).ppuDatabuf (BitVec.ofNat 8 s.databufPos)).map Prod.fst).getD []

/-- The descriptor has room in the buffer, and the address of the device is set with the next two stores. -/
def Pass.Meets (p : Pass) (c : Scene) : Prop :=
  c.buf.databufPos + DESC_SIZE + (descDatalen p.desc).toNat + 1 ≤ PPU_BUF_SIZE ∧ c.dev.high = none

/-- The bytes that a pass stores, and where. -/
def Pass.sends (p : Pass) (c : Scene) : List (Location × Byte) := c.dev.stores (p.ops c.buf)

/-- The bytes of the block that a pass copies out of `ppu_readbuf`, and where they come from. -/
def Pass.takes (p : Pass) (c : Scene) : List (Nat × Location) :=
  (c.dev.loads c.src (p.ops c.buf)).map fun m => (p.offset + m.1, m.2)

/-- The driver keeps a block at the locations `L`: whatever it finds on the way, a write sends every byte of the block
to its location and nothing else anywhere, and a read takes every byte from its location and nothing else. -/
structure BlockMap (d : Disk) (blk : Word) (L : Nat → Location) : Prop where
  sent : ∀ (data : Block) (c : Nat → Scene), (∀ p ∈ ppuwdWrite d.minor blk data, p.Meets (c p.offset)) →
    (ppuwdWrite d.minor blk data).flatMap (fun p => p.sends (c p.offset)) =
      (List.range BLOCK_SIZE).map fun off => (L off, data.byte off)
  taken : ∀ c : Nat → Scene, (∀ p ∈ ppuwdRead d.minor blk, p.Meets (c p.offset)) →
    (ppuwdRead d.minor blk).flatMap (fun p => p.takes (c p.offset)) =
      (List.range BLOCK_SIZE).map fun off => (off, L off)

/-! ## The blocks below 2048 -/

section Low

variable {d : Disk} {blk : Word} {data : Block} {p : Pass} {r : Request} {c : Scene} {k : Nat}

/-- A descriptor that is appended lies in the buffer. -/
lemma appendDesc_at {s : Databuf} (desc : p.desc = r.desc)
    (same : ∀ i < (descDatalen r.desc).toNat, p.data i = r.payload i) :
    At (appendDesc p.desc p.data s).ppuDatabuf s.databufPos r.stored := by
  intro i hi
  rw [r.stored_length] at hi
  rw [desc, Request.stored]
  simp only [appendDesc]
  rw [Function.update_of_ne (by omega), copyInto]
  by_cases head : i < DESC_SIZE
  · rw [if_neg (by omega), copyInto, if_pos (by omega), Nat.add_sub_cancel_left, List.getD_append _ _ _ _ head]
  · rw [if_pos (by omega), List.getD_append_right _ _ _ _ (Nat.le_of_not_lt head)]
    have place : s.databufPos + i - (s.databufPos + DESC_SIZE) = i - DESC_SIZE := by omega
    have lt : i - DESC_SIZE < (descDatalen r.desc).toNat := by omega
    have header : r.desc.bytes.length = DESC_SIZE := rfl
    rw [place, same _ lt, header, List.getD_eq_getElem?_getD, List.getElem?_map, List.getElem?_range lt]
    rfl

/-- A pass that asks for a request performs it. -/
lemma Pass.ops_eq (sound : r.Sound) (desc : p.desc = r.desc)
    (same : ∀ i < (descDatalen r.desc).toNat, p.data i = r.payload i) (meets : p.Meets c) : p.ops c.buf = r.ops := by
  have room := meets.1
  have pos : (BitVec.ofNat 8 c.buf.databufPos).toNat = c.buf.databufPos := by
    rw [BitVec.toNat_ofNat]
    exact Nat.mod_eq_of_lt (by simp only [PPU_BUF_SIZE, DESC_SIZE] at room; omega)
  have stored := appendDesc_at (s := c.buf) desc same
  rw [← pos] at stored
  have fits : (BitVec.ofNat 8 c.buf.databufPos).toNat + r.stored.length < 256 := by
    rw [pos, r.stored_length, ← desc]
    simp only [PPU_BUF_SIZE, DESC_SIZE] at *
    omega
  rw [Pass.ops, bufWriteLoop_low sound.valid sound.low stored fits]
  rfl

/-- What a write of a low block stores. -/
lemma stores_writeRequest (low : blkBank blk < 256) (lt : k < WRITE_PASSES) {dev : Device} (h : dev.high = none) :
    dev.stores (writeRequest d.minor blk data k).ops = (List.range WRITE_CHUNK_SIZE).map fun i =>
      (location blk (WRITE_CHUNK_SIZE * k + i), data.byte (WRITE_CHUNK_SIZE * k + i)) := by
  have addr : (blkChunkAddrWr (blk + d.minor) k).toNat = _ := chunkAddr (k * WRITE_CHUNK_SIZE) (by
    simp only [WRITE_PASSES, WRITE_CHUNK_SIZE, BLOCK_SIZE] at *
    omega)
  have window : ∀ i < WRITE_CHUNK_SIZE, BankWindow ((blkChunkAddrWr (blk + d.minor) k).toNat + i) := by
    intro i hi
    rw [addr]
    simp only [BankWindow, WRITE_PASSES, WRITE_CHUNK_SIZE, BLOCK_SIZE, BLOCKS_PER_BANK, BANK_SIZE,
      DISK_BANK_START] at *
    omega
  have below : (blkChunkAddrWr (blk + d.minor) k).toNat < 0x4000 := Nat.lt_trans (window 0 (by decide)).2 (by decide)
  show dev.stores (Request.setAddr _ ++ Request.selectBank _ ++ _) = _
  rw [List.append_assoc, Device.stores_append, Device.run_setAddr h below, Device.stores_append,
    Device.run_selectBank low, Device.stores_slice window]
  show List.map _ _ = _
  refine List.map_congr_left fun i hi => ?_
  have place : (blkChunkAddrWr (blk + d.minor) k).toNat + i = blkBaseAddr blk + (WRITE_CHUNK_SIZE * k + i) := by
    rw [addr, blkBaseAddr, Nat.mul_comm k]
    omega
  rw [place]
  rfl

/-- What a read of a low block loads. -/
lemma loads_readRequest (low : blkBank blk < 256) (lt : k < READ_PASSES) {dev : Device} (h : dev.high = none)
    {src : Location} : dev.loads src (readRequest d.minor blk k).ops =
      (List.range READ_CHUNK_SIZE).map fun i => (i, location blk (READ_CHUNK_SIZE * k + i)) := by
  have addr : (blkChunkAddrRd (blk + d.minor) k).toNat = _ := chunkAddr (k * READ_CHUNK_SIZE) (by
    simp only [READ_PASSES, READ_CHUNK_SIZE, BLOCK_SIZE] at *
    omega)
  have below : (blkChunkAddrRd (blk + d.minor) k).toNat + READ_CHUNK_SIZE + 1 < 0x4000 := by
    rw [addr]
    simp only [READ_PASSES, READ_CHUNK_SIZE, BLOCK_SIZE, BLOCKS_PER_BANK, BANK_SIZE, DISK_BANK_START] at *
    omega
  show (((dev.run (Request.setAddr _)).run (Request.selectBank _)).perform .prime).loads
    ((dev.run (Request.setAddr _)).run (Request.selectBank _)).here
    ((List.range READ_CHUNK_SIZE).map (fun i => .fetch (BitVec.ofNat 8 i)) ++ [.setDirty]) = _
  rw [Device.run_setAddr h (by omega), Device.run_selectBank low, List.range_eq_range']
  refine (Device.loads_fetches (a := (blkChunkAddrRd (blk + d.minor) k).toNat) (i := 0) ?_ ?_ (by decide)).trans ?_
  · exact Nat.mod_eq_of_lt (show (blkChunkAddrRd (blk + d.minor) k).toNat + 1 < 0x4000 by omega)
  · omega
  refine List.map_congr_left fun i hi => ?_
  have place : (blkChunkAddrRd (blk + d.minor) k).toNat + i = blkBaseAddr blk + (READ_CHUNK_SIZE * k + i) := by
    rw [addr, blkBaseAddr, Nat.mul_comm k]
    omega
  rw [place]
  rfl

/-- Chunks end to end. -/
lemma flatMap_chunks {α : Type} (f : Nat → α) (n m : Nat) :
    ((List.range n).flatMap fun i => (List.range m).map fun j => f (m * i + j)) = (List.range (m * n)).map f := by
  induction n with
  | zero => rfl
  | succ n ih =>
    rw [List.range_succ, List.flatMap_append, ih, List.flatMap_singleton, Nat.mul_succ, List.range_add,
      List.map_append, List.map_map]
    rfl

/-- The driver keeps a block below 2048 at its locations. -/
lemma blockMap_low (d : Disk) (low : blk.toNat < 2048) : BlockMap d blk (location blk) := by
  have low : blkBank blk < 256 := by
    simp only [blkBank, BLOCKS_PER_BANK, BANK_SIZE, BLOCK_SIZE]
    omega
  constructor
  · intro data c meets
    obtain ⟨f, passes, spec⟩ := ppuwdWrite_passes d.minor data low
    rw [passes] at meets ⊢
    rw [List.flatMap_map]
    refine Eq.trans (List.flatMap_congr fun k hk => ?_) (flatMap_chunks _ WRITE_PASSES WRITE_CHUNK_SIZE)
    have lt := List.mem_range.mp hk
    have here := meets _ (List.mem_map_of_mem hk)
    show Device.stores _ (Pass.ops _ _) = _
    rw [Pass.ops_eq (writeRequest_sound data low lt) (spec k).1 (spec k).2 here, stores_writeRequest low lt here.2]
  · intro c meets
    unfold ppuwdRead at meets ⊢
    rw [List.flatMap_map]
    refine Eq.trans (List.flatMap_congr fun k hk => ?_) (flatMap_chunks _ READ_PASSES READ_CHUNK_SIZE)
    have lt := List.mem_range.mp hk
    have here := meets _ (List.mem_map_of_mem hk)
    show List.map _ (Device.loads _ _ (Pass.ops _ _)) = _
    rw [Pass.ops_eq (r := readRequest d.minor blk k) (readRequest_sound low lt) rfl (fun _ _ => rfl) here,
      loads_readRequest low lt here.2, List.map_map]
    rfl

end Low

/-! ## The blocks from 2048 on -/

section High

variable {d : Disk} {blk : Word} {L : Nat → Location}

/-- The upper bit of the bank falls on the flag of a NULL descriptor, which has no payload. -/
lemma datalen_high (data : Block) (ge : 2048 ≤ blk.toNat) (lt : blk.toNat < 4096) :
    ∀ p ∈ ppuwdWrite d.minor blk data, descDatalen p.desc = 0 := by
  have upper : bankUpperBits (blkBank blk) = 1 := by
    have bits : (blkBank blk >>> 8) &&& 3 = blkBank blk / 256 % 4 := by
      rw [Nat.shiftRight_eq_div_pow]
      exact Nat.and_two_pow_sub_one_eq_mod _ 2
    have one : blkBank blk / 256 % 4 = 1 := by
      simp only [blkBank, BLOCKS_PER_BANK, BANK_SIZE, BLOCK_SIZE]
      omega
    rw [bankUpperBits, bits, one]
    rfl
  intro p hp
  simp only [ppuwdWrite, List.mem_map] at hp
  obtain ⟨pass, -, rfl⟩ := hp
  show descDatalen ⟨_, _, bankUpperBits (blkBank blk) ||| PPU_DESC_FLAG_WRITE⟩ = 0
  rw [upper]
  have write : ¬ (0x05 : Byte) &&& PPU_DESC_FLAG_READ ≠ 0 := by decide
  have null : (0x05 : Byte) &&& PPU_DESC_FLAG_NULL ≠ 0 := by decide
  show descDatalen ⟨_, _, 0x05⟩ = 0
  rw [descDatalen, if_neg write, if_pos null]

/-- What is sent for a descriptor without a payload does not depend on the data. -/
lemma Pass.sends_congr {p q : Pass} (c : Scene) (desc : p.desc = q.desc) (empty : descDatalen p.desc = 0) :
    p.sends c = q.sends c := by
  have none : ∀ buf n data, copyInto buf n data 0 = buf := by
    intro buf n data
    funext i
    rw [copyInto, if_neg (by omega)]
  have appended : appendDesc p.desc p.data c.buf = appendDesc q.desc q.data c.buf := by
    have size : (descDatalen q.desc).toNat = 0 := congrArg BitVec.toNat (desc ▸ empty)
    simp only [appendDesc, desc, size, none]
  rw [sends, sends, ops, ops, appended]

/-- The driver keeps no block from 2048 on: what a write stores is not the block. -/
lemma not_blockMap_high (ge : 2048 ≤ blk.toNat) (lt : blk.toNat < 4096) : ¬ BlockMap d blk L := by
  intro map
  have meets : ∀ data, ∀ p ∈ ppuwdWrite d.minor blk data, p.Meets .fresh := by
    intro data p hp
    refine ⟨?_, rfl⟩
    rw [datalen_high data ge lt p hp]
    decide
  have same : (ppuwdWrite d.minor blk .zero).flatMap (fun p => p.sends .fresh) =
      (ppuwdWrite d.minor blk fun _ => 0x0101).flatMap (fun p => p.sends .fresh) := by
    have empty := datalen_high (d := d) .zero ge lt
    unfold ppuwdWrite at empty ⊢
    rw [List.flatMap_map, List.flatMap_map]
    exact List.flatMap_congr fun k hk => Pass.sends_congr _ rfl (empty _ (List.mem_map_of_mem hk))
  rw [map.sent _ (fun _ => .fresh) (meets _), map.sent _ (fun _ => .fresh) (meets _)] at same
  have first := List.map_inj_left.mp same 0 (List.mem_range.mpr (by decide))
  have differ : Block.byte .zero 0 ≠ Block.byte (fun _ => 0x0101) 0 := by decide
  exact differ (congrArg Prod.snd first)

end High

/-! ## The address map -/

/-- A byte of a disk. -/
structure DiskByte where
  disk : Disk
  blk : Word
  off : Nat
  deriving DecidableEq

/-- The driver keeps the byte at location `l`. -/
def DiskByte.KeptAt (t : DiskByte) (l : Location) : Prop := ∃ L, BlockMap t.disk t.blk L ∧ L t.off = l

/-- A byte of a block below 4096. -/
def DiskByte.Valid (t : DiskByte) : Prop := t.blk.toNat < 4096 ∧ t.off < BLOCK_SIZE

/-- The address map of two bytes: each is kept at one CHR location in range, and they are apart if they are two. -/
def AddressMap (t u : DiskByte) : Prop :=
  ∃ l m, t.KeptAt l ∧ u.KeptAt m ∧
    (l.bank < 1024 ∧ 0x1000 ≤ l.addr.toNat ∧ l.addr.toNat < 0x2000) ∧
    (m.bank < 1024 ∧ 0x1000 ≤ m.addr.toNat ∧ m.addr.toNat < 0x2000) ∧ (t ≠ u → l ≠ m)

section Map

variable {t u : DiskByte} {l : Location}

/-- A byte that is kept lies in a low block. -/
lemma DiskByte.KeptAt.low (h : t.KeptAt l) (valid : t.Valid) : t.blk.toNat < 2048 := by
  obtain ⟨L, map, -⟩ := h
  by_contra ge
  exact not_blockMap_high (Nat.le_of_not_lt ge) valid.1 map

/-- A byte that is kept is kept at its location. -/
lemma DiskByte.KeptAt.unique (h : t.KeptAt l) (valid : t.Valid) : l = location t.blk t.off := by
  have lt := h.low valid
  have low : blkBank t.blk < 256 := by
    simp only [blkBank, BLOCKS_PER_BANK, BANK_SIZE, BLOCK_SIZE]
    omega
  obtain ⟨L, map, rfl⟩ := h
  have meets : ∀ p ∈ ppuwdRead t.disk.minor t.blk, p.Meets .fresh := by
    intro p hp
    obtain ⟨target, desc, -⟩ := ppuwdRead_request hp
    refine ⟨?_, rfl⟩
    rw [desc, Request.desc, (bankUpperBits_eq_zero (Nat.lt_trans low (by decide))).mpr low]
    have read : (0x02 : Byte) &&& PPU_DESC_FLAG_READ ≠ 0 := by decide
    show _ + (descDatalen ⟨64, target, 0x02⟩).toNat + 1 ≤ _
    rw [descDatalen, if_pos read]
    decide
  have same := (map.taken (fun _ => .fresh) meets).symm.trans ((blockMap_low t.disk lt).taken (fun _ => .fresh) meets)
  exact congrArg Prod.snd (List.map_inj_left.mp same t.off (List.mem_range.mpr valid.2))

/-- A byte of a low block is kept. -/
lemma DiskByte.keptAt_low (t : DiskByte) (low : t.blk.toNat < 2048) : t.KeptAt (location t.blk t.off) :=
  ⟨_, blockMap_low t.disk low, rfl⟩

end Map

/-- The address map is right for two bytes exactly when both lie in blocks below 2048 and they are not the same byte
of the same block number on the two disks. -/
theorem addressMap_iff {t u : DiskByte} (ht : t.Valid) (hu : u.Valid) :
    AddressMap t u ↔ t.blk.toNat < 2048 ∧ u.blk.toNat < 2048 ∧
      ¬ (t.disk ≠ u.disk ∧ t.blk = u.blk ∧ t.off = u.off) := by
  constructor
  · rintro ⟨l, m, kl, km, -, -, apart⟩
    refine ⟨kl.low ht, km.low hu, ?_⟩
    rintro ⟨hd, hb, ho⟩
    apply apart (fun e => hd (congrArg DiskByte.disk e))
    rw [kl.unique ht, km.unique hu, hb, ho]
  · rintro ⟨tlow, ulow, h⟩
    refine ⟨_, _, t.keptAt_low tlow, u.keptAt_low ulow, location_range ht.1 ht.2, location_range hu.1 hu.2, ?_⟩
    intro ne e
    obtain ⟨eb, eo⟩ := location_inj ht.2 hu.2 e
    refine h ⟨fun ed => ne ?_, eb, eo⟩
    cases t
    cases u
    simp_all

/-- Byte 0 of root block 0 and byte 1 of swap block 0 are kept apart. -/
theorem addressMap_root_swap : AddressMap ⟨.root, 0, 0⟩ ⟨.swap, 0, 1⟩ :=
  (addressMap_iff ⟨by decide, by decide⟩ ⟨by decide, by decide⟩).mpr (by decide)

/-- Byte 0 of root block 0 and byte 0 of swap block 0 are kept at one CHR location, and byte 0 of root block 2048 is
not kept. -/
theorem not_addressMap : ¬ AddressMap ⟨.root, 0, 0⟩ ⟨.swap, 0, 0⟩ ∧ ¬ AddressMap ⟨.root, 2048, 0⟩ ⟨.root, 0, 0⟩ := by
  constructor
  · rintro ⟨l, m, kl, km, -, -, apart⟩
    refine apart (by decide) ?_
    rw [kl.unique ⟨by decide, by decide⟩, km.unique ⟨by decide, by decide⟩]
  · rintro ⟨l, m, kl, -, -, -, -⟩
    exact absurd (kl.low ⟨by decide, by decide⟩) (by decide)

end Uzi.Ppu
