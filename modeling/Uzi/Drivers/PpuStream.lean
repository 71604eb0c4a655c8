import Uzi.Drivers.Ppuwd
import Mathlib.Data.List.GetD

/-!
# The descriptor stream

What `__queue_descriptor` writes is compared with what `process_ppubuf` makes of it. A `Request` is
a descriptor as the console code and the disk driver build it; `Request.ops` is what it asks for.
The two agree on a whole buffer exactly when no disk request names a bank above 255: the upper
bank bits are put where the flags are, and the walk shifts them out of the masked flags.
-/

namespace Uzi.Ppu
open Exec

/-- A descriptor with its payload. -/
inductive Request
  | video (target : Word) (data : List Byte)
  | null (target : Word) (size : Byte)
  | read (bank : Nat) (target : Word) (size : Byte)
  | write (bank : Nat) (target : Word) (data : List Byte)

namespace Request

/-- The descriptor of a request. -/
def desc : Request → PpuDesc
  | .video target data => ⟨BitVec.ofNat 8 data.length, target, 0⟩
  | .null target size => ⟨size, target, PPU_DESC_FLAG_NULL⟩
  | .read bank target size => ⟨size, target, bankUpperBits bank ||| PPU_DESC_FLAG_READ⟩
  | .write bank target data =>
    ⟨BitVec.ofNat 8 data.length, target, bankUpperBits bank ||| PPU_DESC_FLAG_WRITE⟩

/-- The bytes that the data pointer of a request points at. -/
def payload : Request → Nat → Byte
  | .video _ data => fun i => data.getD i 0
  | .null _ _ => fun _ => 0
  | .read bank _ _ => fun _ => bankLowerByte bank
  | .write bank _ data => fun i =>
    if i < BANK_BYTE_PAD then bankLowerByte bank else data.getD (i - BANK_BYTE_PAD) 0

/-- At least one byte, a payload that a `char` counts, a bank of ten bits, and a read that fits in
`ppu_readbuf`. -/
def Valid : Request → Prop
  | .video _ data => 1 ≤ data.length ∧ data.length < 256
  | .null _ size => size ≠ 0
  | .read bank _ size => bank < 1024 ∧ size ≠ 0 ∧ size.toNat ≤ READ_CHUNK_SIZE
  | .write bank _ data => bank < 1024 ∧ 1 ≤ data.length ∧ data.length + BANK_BYTE_PAD < 256

/-- The stores that set the PPU address. -/
def setAddr (target : Word) : List PpuOp :=
  [.addr ((target >>> 8).setWidth 8), .addr (target.setWidth 8)]

/-- The stores that select a CHR bank. -/
def selectBank (bank : Nat) : List PpuOp :=
  [.chrUpper (bankUpperBits bank), .chrLower (bankLowerByte bank)]

/-- What a request asks for. -/
def ops : Request → List PpuOp
  | .video target data => setAddr target ++ data.map .store
  | .null target size => setAddr target ++ List.replicate size.toNat (.store 0)
  | .read bank target size =>
    setAddr target ++ selectBank bank ++ .prime ::
      (List.range size.toNat).map (fun i => .fetch (BitVec.ofNat 8 i)) ++ [.setDirty]
  | .write bank target data => setAddr target ++ selectBank bank ++ data.map .store

/-- The bank of a request lies in the first 256. -/
def LowBank : Request → Prop
  | .read bank _ _ | .write bank _ _ => bank < 256
  | _ => True

/-- The bytes that a request puts into the buffer. -/
def stored (r : Request) : List Byte :=
  r.desc.bytes ++ (List.range (descDatalen r.desc).toNat).map r.payload

/-- The length of a request in the buffer. -/
lemma stored_length (r : Request) : r.stored.length = DESC_SIZE + (descDatalen r.desc).toNat := by
  simp only [stored, List.length_append, List.length_map, List.length_range]
  rfl

end Request

/-- A read pass of the disk driver is a read request for the bank of the block. -/
lemma ppuwdRead_request {minor blk : Word} {p : Pass} (h : p ∈ ppuwdRead minor blk) :
    ∃ target, p.desc = (Request.read (blkBank blk) target 64).desc ∧
      p.data = (Request.read (blkBank blk) target 64).payload := by
  simp only [ppuwdRead, List.mem_map] at h
  obtain ⟨pass, -, rfl⟩ := h
  exact ⟨_, rfl, rfl⟩

/-! ## Queueing -/

/-- The requests are accepted one after the other. -/
inductive Queued : Databuf → List Request → Databuf → Prop
  | nil {s} : Queued s [] s
  | cons {s s' s'' r rs} :
    tryQueueDescriptor r.desc r.payload s = .ok (true, s') →
    Queued s' rs s'' →
    Queued s (r :: rs) s''

/-- The buffer after a drain: empty, unlocked, and no fetched bytes waiting. -/
structure Drained (s : Databuf) : Prop where
  pos : s.databufPos = 0
  first : s.ppuDatabuf 0 = 0
  clean : s.ppuReadbufDirty = 0
  unlocked : s.ppuLocked = false

/-- The buffer holds `bs` and then the terminator, all of it inside `PPU_BUF_SIZE`. -/
structure Holds (s : Databuf) (bs : List Byte) : Prop where
  pos : s.databufPos = bs.length
  bytes : ∀ i ≤ bs.length, s.ppuDatabuf i = bs.getD i 0
  fits : bs.length < PPU_BUF_SIZE
  clean : s.ppuReadbufDirty = 0
  unlocked : s.ppuLocked = false

/-- An empty buffer holds nothing. -/
lemma Drained.holds {s : Databuf} (h : Drained s) : Holds s [] where
  pos := h.pos
  bytes i hi := by
    obtain rfl : i = 0 := by simpa using hi
    exact h.first
  fits := by decide
  clean := h.clean
  unlocked := h.unlocked

/-- An accepted descriptor had room and is appended. -/
lemma tryQueueDescriptor_true {desc : PpuDesc} {data : Nat → Byte} {s s' : Databuf}
    (h : tryQueueDescriptor desc data s = .ok (true, s')) :
    s.databufPos + DESC_SIZE + (descDatalen desc).toNat + 1 ≤ PPU_BUF_SIZE ∧
      s' = { appendDesc desc data s with ppuLocked := false } := by
  have key : wp (tryQueueDescriptor desc data)
      (fun b s' => b = true →
        s.databufPos + DESC_SIZE + (descDatalen desc).toNat + 1 ≤ PPU_BUF_SIZE ∧
          s' = { appendDesc desc data s with ppuLocked := false })
      (fun _ => True) s := by
    simp only [tryQueueDescriptor, ppuLock, ppuUnlock, wp_bind, wp_get, wp_ite, wp_throw,
      wp_modify, wp_pure]
    split
    · trivial
    · split
      · simp
      · rename_i room
        cases hd : getDescType desc <;>
          simp only [calcDescWeight, hd, wp_pure, wp_throw, appendDesc] <;>
          (try split) <;> simp_all
  exact key.ok h rfl

/-- A descriptor that has room and is light enough is accepted. -/
lemma tryQueueDescriptor_ok {desc : PpuDesc} {data : Nat → Byte} {s : Databuf} {w : Nat}
    (unlocked : s.ppuLocked = false)
    (room : ¬ s.databufPos + DESC_SIZE + (descDatalen desc).toNat + 1 > PPU_BUF_SIZE)
    (weight : ∀ t, calcDescWeight desc t = .ok (w, t)) (light : ¬ w + BASE_PPU_LOOP_CYCLES > PPU_LOOP_MAX_CYCLES) :
    tryQueueDescriptor desc data s = .ok (true, { appendDesc desc data s with ppuLocked := false }) := by
  have key : wp (tryQueueDescriptor desc data)
      (fun b s' => b = true ∧ s' = { appendDesc desc data s with ppuLocked := false }) (fun _ => False) s := by
    simp only [tryQueueDescriptor, ppuLock, ppuUnlock, wp_bind, wp_get, wp_ite, wp_throw, wp_modify, wp_pure,
      unlocked, room, if_false, Bool.false_eq_true]
    unfold wp
    rw [weight]
    simp only [light, if_false, true_and]
    rfl
  obtain ⟨b, s', e, rfl, rfl⟩ := key.returns
  exact e

/-- Appending a request to the buffer appends its bytes. -/
lemma Holds.append {s s' : Databuf} {bs : List Byte} {r : Request} (h : Holds s bs)
    (hq : tryQueueDescriptor r.desc r.payload s = .ok (true, s')) : Holds s' (bs ++ r.stored) := by
  obtain ⟨room, rfl⟩ := tryQueueDescriptor_true hq
  have len := r.stored_length
  have hpos := h.pos
  refine ⟨?_, ?_, ?_, h.clean, rfl⟩
  · simp only [appendDesc, List.length_append]
    omega
  · intro i hi
    rw [List.length_append] at hi
    simp only [appendDesc, Function.update_apply, copyInto, hpos]
    by_cases h0 : i = bs.length + DESC_SIZE + (descDatalen r.desc).toNat
    · rw [if_pos h0, List.getD_eq_default]
      rw [List.length_append]
      omega
    · rw [if_neg h0]
      by_cases h1 : i < bs.length
      · rw [if_neg (by omega), if_neg (by omega), h.bytes i (by omega),
          List.getD_append _ _ _ _ h1]
      · rw [List.getD_append_right _ _ _ _ (by omega)]
        by_cases h2 : i < bs.length + DESC_SIZE
        · rw [if_neg (by omega), if_pos (by omega)]
          rw [Request.stored, List.getD_append]
          simpa [PpuDesc.bytes, DESC_SIZE] using (by omega : i - bs.length < DESC_SIZE)
        · rw [if_pos (by omega), Request.stored, List.getD_append_right]
          · have e4 : r.desc.bytes.length = DESC_SIZE := rfl
            rw [e4, List.getD_eq_getElem _ _ (by simp; omega)]
            simp only [List.getElem_map, List.getElem_range]
            congr 1
          · show DESC_SIZE ≤ _
            omega
  · rw [List.length_append]
    omega

/-- After a sequence of accepted requests the buffer holds their bytes in order. -/
lemma Queued.holds {s s' : Databuf} {rs : List Request} (hq : Queued s rs s') {bs : List Byte}
    (h : Holds s bs) : Holds s' (bs ++ rs.flatMap Request.stored) := by
  induction hq generalizing bs with
  | nil => simpa using h
  | cons hr _ ih =>
    have h' := ih (h.append hr)
    rwa [List.append_assoc, ← List.flatMap_cons] at h'

/-! ## The loops of the walk -/

/-- `read_desc_loop` fetches the bytes in order. -/
lemma readDescLoop_eq {m f : Nat} {x n : Byte} (hnum : n = x + BitVec.ofNat 8 (m + 1))
    (hm : m + 1 < 256) (hf : m < f) :
    readDescLoop n f x = (List.range (m + 1)).map fun i => .fetch (x + BitVec.ofNat 8 i) := by
  induction m generalizing f x with
  | zero =>
    obtain ⟨f, rfl⟩ := Nat.exists_eq_add_of_lt hf
    simp [readDescLoop, hnum]
  | succ m ih =>
    obtain ⟨f, rfl⟩ := Nat.exists_eq_add_of_lt hf
    have ne : x + 1 ≠ n := by bv_omega
    have tail := ih (f := m + 1 + f) (x := x + 1) (by rw [hnum]; bv_omega) (by omega)
      (by omega)
    rw [show m + 1 + f + 1 = (m + 1 + f) + 1 from rfl, readDescLoop, if_neg ne, tail,
      List.range_succ_eq_map (n := m + 1), List.map_cons, List.map_map]
    congr 1
    · simp
    · apply List.map_congr_left
      intro i _
      simp only [Function.comp, PpuOp.fetch.injEq]
      bv_omega

/-- `write_null_desc_loop` stores as many zeros as X counts. -/
lemma writeNullDescLoop_eq {m f : Nat} {x : Byte} (hx : x.toNat = m + 1) (hf : m < f) :
    writeNullDescLoop f x = List.replicate (m + 1) (.store 0) := by
  induction m generalizing f x with
  | zero =>
    obtain ⟨f, rfl⟩ := Nat.exists_eq_add_of_lt hf
    have e : x - 1 = 0 := by bv_omega
    rw [Nat.zero_add, writeNullDescLoop, if_pos e]
    rfl
  | succ m ih =>
    obtain ⟨f, rfl⟩ := Nat.exists_eq_add_of_lt hf
    have ne : x - 1 ≠ 0 := by bv_omega
    have tail := ih (f := m + 1 + f) (x := x - 1) (by bv_omega) (by omega)
    rw [show m + 1 + f + 1 = (m + 1 + f) + 1 from rfl, writeNullDescLoop, if_neg ne, tail]
    rfl

/-- `write_bytes_loop` stores the bytes of the buffer in order and moves Y past them. -/
lemma writeBytesLoop_eq {b : Nat → Byte} {m f : Nat} {x y n : Byte}
    (hnum : n = x + BitVec.ofNat 8 (m + 1)) (hm : m + 1 < 256) (hf : m < f)
    (hy : y.toNat + m + 1 < 256) :
    writeBytesLoop b n f x y =
      ((List.range (m + 1)).map fun i => .store (b (y.toNat + i)), y + BitVec.ofNat 8 (m + 1)) := by
  induction m generalizing f x y with
  | zero =>
    obtain ⟨f, rfl⟩ := Nat.exists_eq_add_of_lt hf
    simp [writeBytesLoop, hnum]
  | succ m ih =>
    obtain ⟨f, rfl⟩ := Nat.exists_eq_add_of_lt hf
    have ne : x + 1 ≠ n := by bv_omega
    have ey : (y + 1).toNat = y.toNat + 1 := by bv_omega
    have tail := ih (f := m + 1 + f) (x := x + 1) (y := y + 1) (by rw [hnum]; bv_omega)
      (by omega) (by omega) (by omega)
    rw [show m + 1 + f + 1 = (m + 1 + f) + 1 from rfl, writeBytesLoop, if_neg ne, tail,
      List.range_succ_eq_map (n := m + 1), List.map_cons, List.map_map]
    simp only [Prod.mk.injEq, List.cons.injEq, Nat.add_zero, true_and]
    constructor
    · apply List.map_congr_left
      intro i _
      simp only [Function.comp, ey]
      congr 2
      omega
    · bv_omega

/-! ## One round of the walk -/

/-- The bytes `bs` lie in the buffer from `y` on, with the terminator or the next byte behind. -/
def At (buf : Nat → Byte) (y : Nat) (bs : List Byte) : Prop :=
  ∀ i < bs.length, buf (y + i) = bs.getD i 0

/-- The first part. -/
lemma At.append_left {buf : Nat → Byte} {y : Nat} {bs cs : List Byte} (h : At buf y (bs ++ cs)) :
    At buf y bs := by
  intro i hi
  rw [h i (by rw [List.length_append]; omega), List.getD_append _ _ _ _ hi]

/-- The second part. -/
lemma At.append_right {buf : Nat → Byte} {y : Nat} {bs cs : List Byte} (h : At buf y (bs ++ cs)) :
    At buf (y + bs.length) cs := by
  intro i hi
  rw [Nat.add_assoc, h _ (by rw [List.length_append]; omega),
    List.getD_append_right _ _ _ _ (by omega)]
  congr 1
  omega

/-- Reading the payload of a request out of the buffer. -/
lemma At.payload {buf : Nat → Byte} {y : Nat} {r : Request} (h : At buf y r.stored) {i : Nat}
    (hi : i < (descDatalen r.desc).toNat) : buf (y + 4 + i) = r.payload i := by
  have e := h (4 + i) (by rw [r.stored_length, DESC_SIZE]; omega)
  rw [Request.stored, List.getD_append_right _ _ _ _ (by show 4 ≤ _; omega),
    show 4 + i - r.desc.bytes.length = i by show 4 + i - 4 = i; omega,
    List.getD_eq_getElem _ _ (by simpa using hi)] at e
  rw [Nat.add_assoc, e]
  simp

section Header

variable {buf : Nat → Byte} {y : Byte} {r : Request} (h : At buf y.toNat r.stored)
  (fits : y.toNat + r.stored.length < 256)

include h

/-- The size in the header. -/
lemma header_size : buf y.toNat = r.desc.size :=
  h 0 (by rw [r.stored_length, DESC_SIZE]; omega)

include fits

/-- The lower byte of the target. -/
lemma header_target_low : buf (y + 1).toNat = r.desc.target.setWidth 8 := by
  have len := r.stored_length
  rw [DESC_SIZE] at len
  rw [show (y + 1).toNat = y.toNat + 1 by bv_omega]
  exact h 1 (by omega)

/-- The upper byte of the target. -/
lemma header_target_high : buf (y + 2).toNat = (r.desc.target >>> 8).setWidth 8 := by
  have len := r.stored_length
  rw [DESC_SIZE] at len
  rw [show (y + 2).toNat = y.toNat + 2 by bv_omega]
  exact h 2 (by omega)

/-- The flags in the header. -/
lemma header_flags : buf (y + 3).toNat = r.desc.flags := by
  have len := r.stored_length
  rw [DESC_SIZE] at len
  rw [show (y + 3).toNat = y.toNat + 3 by bv_omega]
  exact h 3 (by omega)

end Header

/-- The upper bits of a ten-bit bank. -/
lemma bankUpperBits_cases (bank : Nat) :
    bankUpperBits bank = 0 ∨ bankUpperBits bank = 1 ∨ bankUpperBits bank = 2 ∨
      bankUpperBits bank = 3 := by
  have e : (bank >>> 8) &&& 3 = bank / 256 % 4 := by
    rw [Nat.shiftRight_eq_div_pow]
    exact Nat.and_two_pow_sub_one_eq_mod _ 2
  have lt : bank / 256 % 4 < 4 := Nat.mod_lt _ (by decide)
  simp only [bankUpperBits, e]
  rcases (by omega : bank / 256 % 4 = 0 ∨ bank / 256 % 4 = 1 ∨ bank / 256 % 4 = 2 ∨
    bank / 256 % 4 = 3) with e | e | e | e <;> rw [e] <;> decide

/-- The upper bits are zero for the first 256 banks only. -/
lemma bankUpperBits_eq_zero {bank : Nat} (h : bank < 1024) : bankUpperBits bank = 0 ↔ bank < 256 := by
  have split_bank := bank_split h
  have lower : (bankLowerByte bank).toNat < 256 := (bankLowerByte bank).isLt
  constructor
  · intro e
    rw [e] at split_bank
    have : (0 : Byte).toNat = 0 := rfl
    omega
  · intro lt
    apply BitVec.eq_of_toNat_eq
    show _ = 0
    omega

/-- Storing the bytes of the buffer that hold `data`. -/
lemma stores_eq {buf : Nat → Byte} {base : Nat} {data : List Byte}
    (h : ∀ i < data.length, buf (base + i) = data.getD i 0) :
    ((List.range data.length).map fun i => PpuOp.store (buf (base + i))) = data.map .store := by
  apply List.ext_getElem (by simp)
  intro i h1 h2
  have hi : i < data.length := by simpa using h2
  simp only [List.getElem_map, List.getElem_range, PpuOp.store.injEq]
  rw [h i hi, List.getD_eq_getElem _ _ hi]

/-- A nonzero byte as the length of a nonempty list. -/
lemma ofNat_length_ne_zero {n : Nat} (h1 : 1 ≤ n) (h2 : n < 256) : BitVec.ofNat 8 n ≠ 0 := by
  bv_omega

/-- A round over the descriptor of a low bank does what the request asks for and consumes exactly
its bytes. -/
lemma bufWriteLoop_low {buf : Nat → Byte} {y : Byte} {r : Request} (valid : r.Valid)
    (low : r.LowBank) (h : At buf y.toNat r.stored) (fits : y.toNat + r.stored.length < 256) :
    bufWriteLoop buf y = some (r.ops, y + BitVec.ofNat 8 r.stored.length) := by
  have size := header_size h
  have tlow := header_target_low h fits
  have thigh := header_target_high h fits
  have flags := header_flags h fits
  have len := r.stored_length
  rw [DESC_SIZE] at len
  have y4 : (y + 4).toNat = y.toNat + 4 := by bv_omega
  cases r with
  | video target data =>
    obtain ⟨hpos, hlt⟩ := valid
    have ne := ofNat_length_ne_zero hpos hlt
    have dlen : (descDatalen (Request.video target data).desc).toNat = data.length := by
      have e : descDatalen (Request.video target data).desc = BitVec.ofNat 8 data.length := by
        simp [descDatalen, Request.desc]
      rw [e, BitVec.toNat_ofNat, Nat.mod_eq_of_lt hlt]
    obtain ⟨m, hm⟩ : ∃ m, data.length = m + 1 := ⟨data.length - 1, by omega⟩
    have loop := writeBytesLoop_eq (b := buf) (n := BitVec.ofNat 8 data.length) (f := 256)
      (x := 0) (y := y + 4) (m := m) (by simp [hm]) (by omega) (by omega) (by omega)
    rw [← hm, y4, stores_eq fun i hi => h.payload (dlen ▸ hi)] at loop
    have e1 : PPUBUF_RW_DESC_MASK &&& 0 = 0 := by decide
    have e2 : PPUBUF_NULL_DESC_MASK &&& 0 = 0 := by decide
    simp only [Request.desc] at size tlow thigh flags
    simp only [bufWriteLoop, size, ne, if_false, tlow, thigh, flags, e1, e2, if_true, loop, len,
      dlen, Request.ops, Request.setAddr, Option.some.injEq, Prod.mk.injEq, true_and]
    bv_omega
  | null target sz =>
    have ne : sz ≠ 0 := valid
    obtain ⟨m, hm⟩ : ∃ m, sz.toNat = m + 1 := ⟨sz.toNat - 1, by bv_omega⟩
    have dlen : (descDatalen (Request.null target sz).desc).toNat = 0 := by
      simp [descDatalen, Request.desc, PPU_DESC_FLAG_READ, PPU_DESC_FLAG_NULL]
    have loop := writeNullDescLoop_eq (f := 256) hm (by have := sz.isLt; omega)
    have e1 : PPUBUF_RW_DESC_MASK &&& PPU_DESC_FLAG_NULL = 0 := by decide
    have e2 : PPUBUF_NULL_DESC_MASK &&& PPU_DESC_FLAG_NULL ≠ 0 := by decide
    simp only [Request.desc] at size tlow thigh flags
    simp only [bufWriteLoop, size, ne, if_false, tlow, thigh, flags, e1, e2, if_true, loop,
      Request.ops, Request.setAddr, hm, len, dlen]
    rfl
  | read bank target sz =>
    obtain ⟨hbank, ne, -⟩ := valid
    obtain ⟨m, hm⟩ : ∃ m, sz.toNat = m + 1 := ⟨sz.toNat - 1, by bv_omega⟩
    have zero : bankUpperBits bank = 0 := (bankUpperBits_eq_zero hbank).mpr low
    have dlen : (descDatalen (Request.read bank target sz).desc).toNat = 1 := by
      simp [descDatalen, Request.desc, zero, PPU_DESC_FLAG_READ]
    have lower := h.payload (i := 0) (by rw [dlen]; decide)
    have loop := readDescLoop_eq (n := sz) (x := 0) (m := m) (f := 256) (by bv_omega)
      (by have := sz.isLt; omega) (by have := sz.isLt; omega)
    have e1 : PPUBUF_RW_DESC_MASK &&& (0 ||| PPU_DESC_FLAG_READ) ≠ 0 := by decide
    have e2 : PPUBUF_READ_DESC_MASK &&& (0 ||| PPU_DESC_FLAG_READ) ≠ 0 := by decide
    have e3 : (PPUBUF_RW_DESC_MASK &&& (0 ||| PPU_DESC_FLAG_READ)) >>> 4 = 0 := by decide
    simp only [Request.desc, zero, Request.payload, Nat.add_zero] at size tlow thigh flags lower
    simp only [bufWriteLoop, size, ne, if_false, tlow, thigh, flags, e1, e2, e3, loop, y4, lower,
      Request.ops, Request.setAddr, Request.selectBank, zero, hm, len, dlen, Option.some.injEq,
      Prod.mk.injEq]
    refine ⟨by simp, by bv_omega⟩
  | write bank target data =>
    obtain ⟨hbank, hpos, hlt⟩ := valid
    rw [BANK_BYTE_PAD] at hlt
    have ne := ofNat_length_ne_zero hpos (by omega)
    have zero : bankUpperBits bank = 0 := (bankUpperBits_eq_zero hbank).mpr low
    have dlen : (descDatalen (Request.write bank target data).desc).toNat = data.length + 1 := by
      have e : descDatalen (Request.write bank target data).desc = BitVec.ofNat 8 data.length + 1 := by
        simp [descDatalen, Request.desc, zero, PPU_DESC_FLAG_READ, PPU_DESC_FLAG_NULL,
          PPU_DESC_FLAG_WRITE]
      rw [e]
      bv_omega
    have lower := h.payload (i := 0) (by omega)
    have chunk : ∀ i < data.length, buf (y.toNat + 5 + i) = data.getD i 0 := by
      intro i hi
      rw [show y.toNat + 5 + i = y.toNat + 4 + (i + 1) by omega, h.payload (by omega)]
      rfl
    obtain ⟨m, hm⟩ : ∃ m, data.length = m + 1 := ⟨data.length - 1, by omega⟩
    have y5 : (y + 4 + 1).toNat = y.toNat + 5 := by bv_omega
    have loop := writeBytesLoop_eq (b := buf) (n := BitVec.ofNat 8 data.length) (f := 256)
      (x := 0) (y := y + 4 + 1) (m := m) (by simp [hm]) (by omega) (by omega) (by omega)
    rw [← hm, y5, stores_eq chunk] at loop
    have e1 : PPUBUF_RW_DESC_MASK &&& (0 ||| PPU_DESC_FLAG_WRITE) ≠ 0 := by decide
    have e2 : PPUBUF_READ_DESC_MASK &&& (0 ||| PPU_DESC_FLAG_WRITE) = 0 := by decide
    have e3 : (PPUBUF_RW_DESC_MASK &&& (0 ||| PPU_DESC_FLAG_WRITE)) >>> 4 = 0 := by decide
    simp only [Request.desc, zero, Request.payload, Nat.add_zero, BANK_BYTE_PAD, Nat.one_pos,
      if_true] at size tlow thigh flags lower
    simp only [bufWriteLoop, size, ne, if_false, tlow, thigh, flags, e1, e2, e3, if_true, loop, y4,
      lower, Request.ops, Request.setAddr, Request.selectBank, zero, len, dlen, Option.some.injEq,
      Prod.mk.injEq, true_and]
    bv_omega

/-- Whatever follows, the round over a disk descriptor selects the upper bank 0. -/
lemma bufWriteLoop_upper {buf : Nat → Byte} {y : Byte} {out : List PpuOp × Byte}
    (h : bufWriteLoop buf y = some out) (flags : PPUBUF_RW_DESC_MASK &&& buf (y + 3).toNat ≠ 0) :
    out.1[2]? = some (.chrUpper 0) := by
  have zero : ∀ o : Byte, (PPUBUF_RW_DESC_MASK &&& o) >>> 4 = 0 := by decide
  simp only [bufWriteLoop, flags, if_false, zero] at h
  split at h
  · cases h
  · split at h <;> (cases h; rfl)

/-- A round that does what a disk request asks for is over a low bank. -/
lemma lowBank_of_bufWriteLoop {buf : Nat → Byte} {y : Byte} {r : Request} (valid : r.Valid)
    (h : At buf y.toNat r.stored) (fits : y.toNat + r.stored.length < 256) {y' : Byte}
    (e : bufWriteLoop buf y = some (r.ops, y')) : r.LowBank := by
  have flags := header_flags h fits
  cases r with
  | video => trivial
  | null => trivial
  | read bank target sz =>
    have rw_desc : PPUBUF_RW_DESC_MASK &&& buf (y + 3).toNat ≠ 0 := by
      simp only [flags, Request.desc]
      obtain u | u | u | u := bankUpperBits_cases bank <;> rw [u] <;> decide
    have upper := bufWriteLoop_upper e rw_desc
    simp only [Request.ops, Request.setAddr, Request.selectBank] at upper
    exact (bankUpperBits_eq_zero valid.1).mp (by simpa using upper)
  | write bank target data =>
    have rw_desc : PPUBUF_RW_DESC_MASK &&& buf (y + 3).toNat ≠ 0 := by
      simp only [flags, Request.desc]
      obtain u | u | u | u := bankUpperBits_cases bank <;> rw [u] <;> decide
    have upper := bufWriteLoop_upper e rw_desc
    simp only [Request.ops, Request.setAddr, Request.selectBank] at upper
    exact (bankUpperBits_eq_zero valid.1).mp (by simpa using upper)

/-! ## The whole buffer -/

/-- The rounds that perform exactly the requests, with the first one at `pos`. -/
def rounds : Nat → List Request → List Round
  | _, [] => []
  | pos, r :: rs =>
    ⟨BitVec.ofNat 8 pos, BitVec.ofNat 8 (pos + r.stored.length), r.ops⟩ ::
      rounds (pos + r.stored.length) rs

/-- One run of `process_ppubuf` performs the requests in order, each in one round over exactly its
bytes, and stops at the terminator with the buffer reset. -/
def Performs (rs : List Request) (s : Databuf) : Prop :=
  ∃ s', processPpubuf s = some (rounds 0 rs, s') ∧ s'.databufPos = 0

/-- The walk ends at a zero size. -/
lemma bufWriteLoop_end {buf : Nat → Byte} {y : Byte} (h : buf y.toNat = 0) :
    bufWriteLoop buf y = none := by
  simp only [bufWriteLoop, h, if_true]

/-- A walk over the bytes of the requests performs them exactly when they name low banks. -/
lemma walk_iff {buf : Nat → Byte} {rs : List Request} (valid : ∀ r ∈ rs, r.Valid) {pos f : Nat}
    (h : At buf pos (rs.flatMap Request.stored ++ [0]))
    (fits : pos + (rs.flatMap Request.stored).length < 256) (hf : rs.length < f) :
    walk buf f (BitVec.ofNat 8 pos) = some (rounds pos rs) ↔ ∀ r ∈ rs, r.LowBank := by
  induction rs generalizing pos f with
  | nil =>
    obtain ⟨f, rfl⟩ := Nat.exists_eq_add_of_lt hf
    have size : buf (BitVec.ofNat 8 pos).toNat = 0 := by
      rw [BitVec.toNat_ofNat, Nat.mod_eq_of_lt (by simpa using fits)]
      exact h 0 (by simp)
    rw [walk, bufWriteLoop_end size]
    simp [rounds]
  | cons r rs ih =>
    obtain ⟨f, rfl⟩ := Nat.exists_eq_add_of_lt hf
    rw [List.flatMap_cons, List.append_assoc] at h
    rw [List.flatMap_cons, List.length_append] at fits
    have epos : (BitVec.ofNat 8 pos).toNat = pos := by
      rw [BitVec.toNat_ofNat]
      exact Nat.mod_eq_of_lt (by omega)
    have hr : At buf (BitVec.ofNat 8 pos).toNat r.stored := by
      rw [epos]
      exact h.append_left
    have fits_r : (BitVec.ofNat 8 pos).toNat + r.stored.length < 256 := by omega
    have valid_r := valid r List.mem_cons_self
    have stop : BitVec.ofNat 8 pos + BitVec.ofNat 8 r.stored.length =
        BitVec.ofNat 8 (pos + r.stored.length) := (BitVec.ofNat_add ..).symm
    have tail := ih (fun q hq => valid q (List.mem_cons_of_mem _ hq)) h.append_right (by omega)
      (f := rs.length + 1 + f) (by omega)
    rw [List.forall_mem_cons, ← tail, List.length_cons, walk, rounds]
    constructor
    · intro e
      cases hloop : bufWriteLoop buf (BitVec.ofNat 8 pos) with
      | none => simp [hloop] at e
      | some out =>
        obtain ⟨ops, y'⟩ := out
        simp only [hloop, Option.map_eq_map, Option.map_eq_some_iff, List.cons.injEq,
          Round.mk.injEq] at e
        obtain ⟨rest, e, ⟨-, hy, hops⟩, rfl⟩ := e
        subst hy hops
        exact ⟨lowBank_of_bufWriteLoop valid_r hr fits_r hloop, e⟩
    · rintro ⟨low, e⟩
      simp only [bufWriteLoop_low valid_r low hr fits_r, stop, e, Option.map_eq_map,
        Option.map_some]

/-- Every request takes at least a descriptor's room. -/
lemma length_le_stored (rs : List Request) : rs.length ≤ (rs.flatMap Request.stored).length := by
  induction rs with
  | nil => simp
  | cons r rs ih =>
    have := r.stored_length
    rw [List.flatMap_cons, List.length_append, List.length_cons]
    rw [DESC_SIZE] at this
    omega

/-- One run of `process_ppubuf` over a buffer that holds the requests performs exactly these if and
only if the disk requests among them name banks below 256. -/
lemma Holds.performs {s : Databuf} {rs : List Request} (holds : Holds s (rs.flatMap Request.stored))
    (valid : ∀ r ∈ rs, r.Valid) : Performs rs s ↔ ∀ r ∈ rs, r.LowBank := by
  have fits := holds.fits
  have len := length_le_stored rs
  simp only [PPU_BUF_SIZE, DESC_SIZE] at fits
  have at0 : At s.ppuDatabuf 0 (rs.flatMap Request.stored ++ [0]) := by
    intro i hi
    rw [List.length_append, List.length_singleton] at hi
    rw [Nat.zero_add, holds.bytes i (by omega)]
    by_cases h : i < (rs.flatMap Request.stored).length
    · rw [List.getD_append _ _ _ _ h]
    · rw [List.getD_eq_default _ _ (by omega), List.getD_append_right _ _ _ _ (by omega)]
      rw [show i - (rs.flatMap Request.stored).length = 0 by omega]
      rfl
  rw [← walk_iff valid at0 (by omega) (f := 256) (by omega)]
  simp only [Performs, processPpubuf, holds.clean, ne_eq, not_true_eq_false, if_false,
    Option.map_eq_some_iff, Prod.mk.injEq]
  constructor
  · rintro ⟨-, ⟨rest, e, rfl, -⟩, -⟩
    exact e
  · intro e
    exact ⟨_, ⟨_, e, rfl, rfl⟩, rfl⟩

/-- One run of `process_ppubuf` performs exactly the accepted requests if and only if the disk
requests among them name banks below 256. -/
theorem performs_iff {s s' : Databuf} {rs : List Request} (hs : Drained s)
    (valid : ∀ r ∈ rs, r.Valid) (hq : Queued s rs s') : Performs rs s' ↔ ∀ r ∈ rs, r.LowBank := by
  have holds := hq.holds hs.holds
  rw [List.nil_append] at holds
  exact holds.performs valid

/-- The PPU variables after initialisation. -/
def idle : Databuf := ⟨fun _ => 0, 0, 0, false⟩

/-- The idle buffer is empty. -/
lemma idle_drained : Drained idle := ⟨rfl, rfl, rfl, rfl⟩

/-- A console byte and a read of bank 5 are performed. -/
theorem performs_putc_read :
    Performs [.video 0x2020 [65], .read 5 0x1200 64]
      { appendDesc (Request.read 5 0x1200 64).desc (Request.read 5 0x1200 64).payload
          (appendDesc (Request.video 0x2020 [65]).desc (Request.video 0x2020 [65]).payload idle)
        with ppuLocked := false } :=
  (performs_iff idle_drained
    (by simp [Request.Valid, READ_CHUNK_SIZE])
    (.cons (by rfl) (.cons (by rfl) .nil))).mpr
    (by simp [Request.LowBank])

/-- The read of block 2048 asks for bank 256; the walk selects bank 0. -/
theorem read_bank_256 :
    ¬ ∀ s s' rs, Drained s → (∀ r ∈ rs, Request.Valid r) → Queued s rs s' → Performs rs s' := by
  intro h
  have queued : Queued idle [.read 256 0x1000 64]
      { appendDesc (Request.read 256 0x1000 64).desc (Request.read 256 0x1000 64).payload idle
        with ppuLocked := false } := .cons (by rfl) .nil
  obtain ⟨s', e, -⟩ := h _ _ _ idle_drained (by simp [Request.Valid, READ_CHUNK_SIZE]) queued
  have ne : walk (appendDesc (Request.read 256 0x1000 64).desc
      (Request.read 256 0x1000 64).payload idle).ppuDatabuf 256 0 ≠
        some (rounds 0 [.read 256 0x1000 64]) := by decide +kernel
  simp only [processPpubuf, appendDesc, idle, ne_eq, not_true_eq_false, if_false,
    Option.map_eq_some_iff, Prod.mk.injEq] at e
  obtain ⟨rest, e, rfl, -⟩ := e
  exact ne e

end Uzi.Ppu
