import Uzi.Drivers.PpuHandshake
import Uzi.Lib.FlatFile

/-!
# The memory behind the PPU

Where the accesses of `process_ppubuf` arrive: the nametables, and the CHR RAM through the bank that the second
pattern table shows. A request for the screen changes the nametables alone, a request for the disk its bank alone.
-/

namespace Uzi.Ppu
open FlatFile

/-- The second pattern table, in which the banks of the disk are seen. -/
def BankWindow (a : Nat) : Prop := DISK_BANK_START ≤ a ∧ a < DISK_BANK_START + BANK_SIZE

instance (a : Nat) : Decidable (BankWindow a) := inferInstanceAs (Decidable (_ ∧ _))

/-- The PPU and the MMC5. `PPU_ADDR` takes the high byte and then the low byte of an address of 14 bits, `high` being
the first of them. An access to `PPU_DATA` goes on to the next address, and a read gives what the read before it has
fetched into `buffer`. `MMC5_CHR_4K_SEG1` selects a bank with the upper bits that `MMC5_CHR_UPPER` has got. The bytes
of CHR RAM are `chr`, by bank and place in the bank, and `vram` is what lies outside the window. -/
structure Device where
  high : Option Byte
  addr : Nat
  upper : Byte
  bank : Nat
  buffer : Byte
  vram : Nat → Byte
  chr : Nat → Nat → Byte

namespace Device

/-- The byte at an address. -/
def peek (d : Device) (a : Nat) : Byte := if BankWindow a then d.chr d.bank (a - DISK_BANK_START) else d.vram a

/-- A byte is put at the present address. -/
def poke (d : Device) (b : Byte) : Device :=
  if BankWindow d.addr then
    { d with chr := Function.update d.chr d.bank (overwrite (d.chr d.bank) (d.addr - DISK_BANK_START) [b]) }
  else { d with vram := overwrite d.vram d.addr [b] }

/-- The next address. -/
def next (d : Device) : Device := { d with addr := (d.addr + 1) % 0x4000 }

/-- One access. -/
def perform (d : Device) : PpuOp → Device
  | .addr b =>
    match d.high with
    | none => { d with high := some b }
    | some h => { d with high := none, addr := h.toNat % 64 * 256 + b.toNat }
  | .chrUpper b => { d with upper := b }
  | .chrLower b => { d with bank := d.upper.toNat % 4 * 256 + b.toNat }
  | .store b => (d.poke b).next
  | .prime | .fetch _ => { d.next with buffer := d.peek d.addr }
  | .setDirty => d

/-- One access after the other. -/
def run (d : Device) (ops : List PpuOp) : Device := ops.foldl perform d

/-- The bytes that accesses fetch. -/
def fetched (d : Device) : List PpuOp → List Byte
  | [] => []
  | .fetch x :: ops => d.buffer :: (d.perform (.fetch x)).fetched ops
  | op :: ops => (d.perform op).fetched ops

/-- The descriptors performed have fetched what the device holds. -/
def Delivers (d : Device) : List Processed → Prop
  | [] => True
  | p :: ps => p.fetched = d.fetched p.ops ∧ (d.run p.ops).Delivers ps

/-- Whether the device delivers them is decidable. -/
def decidableDelivers : (d : Device) → (ps : List Processed) → Decidable (d.Delivers ps)
  | _, [] => .isTrue trivial
  | d, p :: ps =>
    have := (d.run p.ops).decidableDelivers ps
    inferInstanceAs (Decidable (_ ∧ _))

instance (d : Device) (ps : List Processed) : Decidable (d.Delivers ps) := d.decidableDelivers ps

end Device

/-! ## What a request does -/

namespace Request

/-- The nametables after a request. -/
def vram (r : Request) (v : Nat → Byte) : Nat → Byte :=
  match r with
  | .video target data => overwrite v target.toNat data
  | .null target size => overwrite v target.toNat (List.replicate size.toNat 0)
  | _ => v

/-- The CHR RAM after a request. -/
def chr (r : Request) (c : Nat → Nat → Byte) : Nat → Nat → Byte :=
  match r with
  | .write bank target data => Function.update c bank (overwrite (c bank) (target.toNat - DISK_BANK_START) data)
  | _ => c

/-- The console's requests lie in the nametables, those of the disk driver in the window. -/
def Aimed : Request → Prop
  | .video target data => 0x2000 ≤ target.toNat ∧ target.toNat + data.length ≤ 0x3000
  | .null target size => 0x2000 ≤ target.toNat ∧ target.toNat + size.toNat ≤ 0x3000
  | .read _ target size => DISK_BANK_START ≤ target.toNat ∧ target.toNat + size.toNat ≤ DISK_BANK_START + BANK_SIZE
  | .write _ target data => DISK_BANK_START ≤ target.toNat ∧ target.toNat + data.length ≤ DISK_BANK_START + BANK_SIZE

end Request

namespace Device

variable {d : Device} {a n : Nat} {data : List Byte} {r : Request}

/-- Operations, one after the other. -/
lemma run_append (ops ops' : List PpuOp) : d.run (ops ++ ops') = (d.run ops).run ops' := List.foldl_append

/-- What is fetched, one after the other. -/
lemma fetched_append (ops ops' : List PpuOp) : d.fetched (ops ++ ops') = d.fetched ops ++ (d.run ops).fetched ops' := by
  induction ops generalizing d with
  | nil => rfl
  | cons op ops ih =>
    cases op with
    | fetch x => exact congrArg (d.buffer :: ·) ih
    | addr b => exact ih
    | chrUpper b => exact ih
    | chrLower b => exact ih
    | store b => exact ih
    | prime => exact ih
    | setDirty => exact ih

/-- The two stores that set the address. -/
lemma run_setAddr (h : d.high = none) {target : Word} (lt : target.toNat < 0x4000) :
    d.run (Request.setAddr target) = { d with addr := target.toNat } := by
  have addr : ((target >>> 8).setWidth 8).toNat % 64 * 256 + (target.setWidth 8).toNat = target.toNat := by
    rw [BitVec.toNat_setWidth, BitVec.toNat_setWidth, BitVec.toNat_ushiftRight, Nat.shiftRight_eq_div_pow]
    omega
  show (d.perform (.addr _)).perform (.addr _) = _
  unfold perform
  rw [h]
  dsimp only
  rw [addr, ← h]

/-- The two stores that select a low bank. -/
lemma run_selectBank {bank : Nat} (low : bank < 256) :
    d.run (Request.selectBank bank) = { d with upper := 0, bank := bank } := by
  have upper : bankUpperBits bank = 0 := (bankUpperBits_eq_zero (Nat.lt_trans low (by decide))).mpr low
  have lower : (0 : Byte).toNat % 4 * 256 + (bankLowerByte bank).toNat = bank := by
    have split := bank_split (Nat.lt_trans low (by decide))
    rw [upper] at split
    exact split
  show (d.perform (.chrUpper _)).perform (.chrLower _) = _
  unfold perform
  dsimp only
  rw [upper, lower]

/-- Stores outside the window. -/
lemma run_stores_outside (outside : ∀ k < data.length, ¬ BankWindow (d.addr + k)) (lt : d.addr + data.length < 0x4000) :
    d.run (data.map .store) =
      { d with addr := d.addr + data.length, vram := overwrite d.vram d.addr data } := by
  induction data generalizing d with
  | nil =>
    rw [overwrite_nil]
    rfl
  | cons b data ih =>
    rw [List.length_cons] at outside lt
    have first : ¬ BankWindow d.addr := outside 0 (Nat.succ_pos _)
    have poked : d.perform (.store b) = { d with addr := d.addr + 1, vram := overwrite d.vram d.addr [b] } := by
      show (d.poke b).next = _
      unfold poke next
      rw [if_neg first]
      dsimp only
      rw [Nat.mod_eq_of_lt (by omega)]
    have rest := ih (d := d.perform (.store b)) (fun k hk => ?_) ?_
    · show (d.perform (.store b)).run _ = _
      rw [rest, poked]
      dsimp only
      rw [List.length_cons, overwrite_cons, Nat.add_assoc, Nat.add_comm 1]
    · rw [poked]
      dsimp only
      rw [Nat.add_assoc, Nat.add_comm 1]
      exact outside (k + 1) (Nat.succ_lt_succ hk)
    · rw [poked]
      dsimp only
      omega

/-- Stores inside the window. -/
lemma run_stores_inside (inside : ∀ k < data.length, BankWindow (d.addr + k)) :
    d.run (data.map .store) =
      { d with
        addr := d.addr + data.length
        chr := Function.update d.chr d.bank (overwrite (d.chr d.bank) (d.addr - DISK_BANK_START) data) } := by
  induction data generalizing d with
  | nil =>
    rw [overwrite_nil, Function.update_eq_self]
    rfl
  | cons b data ih =>
    rw [List.length_cons] at inside
    have first : BankWindow d.addr := inside 0 (Nat.succ_pos _)
    have bounds : DISK_BANK_START ≤ d.addr ∧ d.addr < DISK_BANK_START + BANK_SIZE := first
    have poked : d.perform (.store b) = { d with
        addr := d.addr + 1
        chr := Function.update d.chr d.bank (overwrite (d.chr d.bank) (d.addr - DISK_BANK_START) [b]) } := by
      show (d.poke b).next = _
      unfold poke next
      rw [if_pos first]
      dsimp only
      simp only [DISK_BANK_START, BANK_SIZE] at bounds
      rw [Nat.mod_eq_of_lt (by omega)]
    have rest := ih (d := d.perform (.store b)) (fun k hk => ?_)
    · show (d.perform (.store b)).run _ = _
      rw [rest, poked]
      dsimp only
      have place : d.addr + 1 - DISK_BANK_START = d.addr - DISK_BANK_START + 1 := Nat.sub_add_comm bounds.1
      rw [List.length_cons, Function.update_self, Function.update_idem, place, overwrite_cons, Nat.add_assoc,
        Nat.add_comm 1]
    · rw [poked]
      dsimp only
      rw [Nat.add_assoc, Nat.add_comm 1]
      exact inside (k + 1) (Nat.succ_lt_succ hk)

/-- Reads give the bytes one behind the other, the first of which is already there. -/
lemma run_fetches {n : Nat} {f : Nat → Byte} (addr : d.addr = a + 1) (buffer : d.buffer = d.peek a)
    (lt : a + n + 1 < 0x4000) :
    d.run ((List.range n).map fun i => .fetch (f i)) = { d with addr := a + n + 1, buffer := d.peek (a + n) } ∧
      d.fetched ((List.range n).map fun i => .fetch (f i)) = slice d.peek a n := by
  induction n with
  | zero =>
    refine ⟨?_, rfl⟩
    show d = { d with addr := a + 1, buffer := d.peek a }
    rw [← addr, ← buffer]
  | succ n ih =>
    obtain ⟨run, fetched⟩ := ih (Nat.lt_of_succ_lt lt)
    rw [List.range_succ, List.map_append, List.map_singleton, run_append, fetched_append, run, fetched, slice_add]
    refine ⟨?_, rfl⟩
    have next : (a + n + 1 + 1) % 0x4000 = a + n + 1 + 1 := Nat.mod_eq_of_lt lt
    show Device.mk _ ((a + n + 1 + 1) % 0x4000) _ _ _ _ _ = Device.mk _ _ _ _ _ _ _
    rw [next]
    rfl

/-- The bytes of a read. -/
lemma run_read (lt : d.addr + n + 1 < 0x4000) {f : Nat → Byte} :
    ∃ addr buffer,
      d.run (.prime :: (List.range n).map (fun i => .fetch (f i)) ++ [.setDirty]) = { d with addr, buffer } ∧
      d.fetched (.prime :: (List.range n).map (fun i => .fetch (f i)) ++ [.setDirty]) = slice d.peek d.addr n := by
  have next : (d.addr + 1) % 0x4000 = d.addr + 1 := Nat.mod_eq_of_lt (by omega)
  obtain ⟨run, fetched⟩ := run_fetches (d := d.perform .prime) (a := d.addr) (n := n) (f := f) next rfl lt
  rw [run_append, fetched_append]
  refine ⟨d.addr + n + 1, d.peek (d.addr + n), run, ?_⟩
  exact (List.append_nil _).trans fetched

end Device

/-- The bytes of a slice inside the window. -/
lemma slice_peek {d : Device} {a n : Nat} (ge : DISK_BANK_START ≤ a) (le : a + n ≤ DISK_BANK_START + BANK_SIZE) :
    slice d.peek a n = slice (d.chr d.bank) (a - DISK_BANK_START) n := by
  refine slice_congr fun k hk => ?_
  rw [Device.peek, if_pos ⟨by omega, by omega⟩, Nat.sub_add_comm ge]

namespace Request

variable {r : Request} {d : Device}

/-- What a request does to the memory. -/
lemma run_ops (valid : r.Valid) (low : r.LowBank) (aimed : r.Aimed) (h : d.high = none) :
    (d.run r.ops).high = none ∧ (d.run r.ops).vram = r.vram d.vram ∧ (d.run r.ops).chr = r.chr d.chr := by
  cases r with
  | video target data =>
    obtain ⟨ge, le⟩ := aimed
    show (d.run (setAddr target ++ _)).high = _ ∧ (d.run (setAddr target ++ _)).vram = _ ∧
      (d.run (setAddr target ++ _)).chr = _
    rw [Device.run_append, Device.run_setAddr h (by omega), Device.run_stores_outside]
    · exact ⟨h, rfl, rfl⟩
    · intro k hk window
      have hi : target.toNat + k < DISK_BANK_START + BANK_SIZE := window.2
      simp only [DISK_BANK_START, BANK_SIZE] at hi
      omega
    · dsimp only
      omega
  | null target size =>
    obtain ⟨ge, le⟩ := aimed
    have stores : List.replicate size.toNat (PpuOp.store 0) = (List.replicate size.toNat 0).map PpuOp.store :=
      List.map_replicate.symm
    show (d.run (setAddr target ++ _)).high = _ ∧ (d.run (setAddr target ++ _)).vram = _ ∧
      (d.run (setAddr target ++ _)).chr = _
    rw [Device.run_append, Device.run_setAddr h (by omega), stores, Device.run_stores_outside]
    · exact ⟨h, rfl, rfl⟩
    · intro k hk window
      have hi : target.toNat + k < DISK_BANK_START + BANK_SIZE := window.2
      simp only [DISK_BANK_START, BANK_SIZE] at hi
      omega
    · rw [List.length_replicate]
      dsimp only
      omega
  | read bank target size =>
    obtain ⟨ge, le⟩ := aimed
    simp only [DISK_BANK_START, BANK_SIZE] at ge le
    obtain ⟨addr, buffer, run, -⟩ := Device.run_read (d := { d with addr := target.toNat, upper := 0, bank := bank })
      (n := size.toNat) (f := BitVec.ofNat 8) (by dsimp only; omega)
    have ops : d.run (Request.read bank target size).ops = { d with addr, upper := 0, bank, buffer } := by
      show d.run (setAddr target ++ selectBank bank ++ _ ++ _) = _
      rw [List.append_assoc, Device.run_append (setAddr target ++ selectBank bank), Device.run_append (setAddr target),
        Device.run_setAddr h (by omega), Device.run_selectBank low]
      exact run
    rw [ops]
    exact ⟨h, rfl, rfl⟩
  | write bank target data =>
    obtain ⟨ge, le⟩ := aimed
    show (d.run (setAddr target ++ selectBank bank ++ _)).high = _ ∧
      (d.run (setAddr target ++ selectBank bank ++ _)).vram = _ ∧
      (d.run (setAddr target ++ selectBank bank ++ _)).chr = _
    have lt : target.toNat < 0x4000 := by
      simp only [DISK_BANK_START, BANK_SIZE] at ge le
      omega
    rw [Device.run_append, Device.run_append, Device.run_setAddr h lt, Device.run_selectBank low,
      Device.run_stores_inside]
    · exact ⟨h, rfl, rfl⟩
    · intro k hk
      dsimp only
      exact ⟨by omega, by omega⟩

/-- What a read fetches. -/
lemma fetched_read {bank : Nat} {target : Word} {size : Byte} (low : bank < 256)
    (aimed : (Request.read bank target size).Aimed) (h : d.high = none) :
    d.fetched (Request.read bank target size).ops = slice (d.chr bank) (target.toNat - DISK_BANK_START) size.toNat := by
  obtain ⟨ge, le⟩ := aimed
  have lt : target.toNat + size.toNat + 1 < 0x4000 := by
    simp only [DISK_BANK_START, BANK_SIZE] at ge le
    omega
  obtain ⟨addr, buffer, -, fetched⟩ := Device.run_read (d := { d with addr := target.toNat, upper := 0, bank := bank })
    (n := size.toNat) (f := BitVec.ofNat 8) lt
  show d.fetched (setAddr target ++ selectBank bank ++ _ ++ _) = _
  rw [List.append_assoc, Device.fetched_append (setAddr target ++ selectBank bank),
    Device.run_append (setAddr target), Device.run_setAddr h (by omega), Device.run_selectBank low]
  exact fetched.trans (slice_peek ge le)

end Request

/-! ## A sequence of requests -/

/-- The nametables after requests. -/
def vramAfter (v : Nat → Byte) (rs : List Request) : Nat → Byte := rs.foldl (fun v r => r.vram v) v

/-- The CHR RAM after requests. -/
def chrAfter (c : Nat → Nat → Byte) (rs : List Request) : Nat → Nat → Byte := rs.foldl (fun c r => r.chr c) c

/-- What the console and the disk driver ask for. -/
structure Request.Sound (r : Request) : Prop where
  valid : r.Valid
  low : r.LowBank
  aimed : r.Aimed
  fits : r.stored.length < 256

section Requests

variable {d : Device} {rs rs' : List Request} {v : Nat → Byte} {c : Nat → Nat → Byte}

/-- The nametables after more requests. -/
lemma vramAfter_append : vramAfter v (rs ++ rs') = vramAfter (vramAfter v rs) rs' := List.foldl_append

/-- The disk after more requests. -/
lemma chrAfter_append : chrAfter c (rs ++ rs') = chrAfter (chrAfter c rs) rs' := List.foldl_append

/-- The memory after requests. -/
lemma run_requests (sound : ∀ r ∈ rs, r.Sound) (h : d.high = none) :
    (d.run (rs.flatMap Request.ops)).high = none ∧ (d.run (rs.flatMap Request.ops)).vram = vramAfter d.vram rs ∧
      (d.run (rs.flatMap Request.ops)).chr = chrAfter d.chr rs := by
  induction rs generalizing d with
  | nil => exact ⟨h, rfl, rfl⟩
  | cons r rs ih =>
    obtain ⟨first, rest⟩ := List.forall_mem_cons.mp sound
    obtain ⟨high, vram, chr⟩ := Request.run_ops first.valid first.low first.aimed h
    rw [List.flatMap_cons, Device.run_append]
    obtain ⟨high', vram', chr'⟩ := ih rest high
    refine ⟨high', ?_, ?_⟩
    · rw [vram', vram]
      rfl
    · rw [chr', chr]
      rfl

end Requests

/-- What `process_ppubuf` performs for an entry of the queue. -/
def Entry.ops (e : Entry) : List PpuOp :=
  ((bufWriteLoop (fun i => (e.desc.bytes ++ e.data).getD i 0) 0).map Prod.fst).getD []

section Entries

variable {r r' : Request} {rs : List Request}

/-- The entry of a request is performed as the request asks. -/
lemma Request.entry_ops (valid : r.Valid) (low : r.LowBank) (fits : r.stored.length < 256) : r.entry.ops = r.ops := by
  have stored : At (fun i => (r.entry.desc.bytes ++ r.entry.data).getD i 0) 0 r.stored := by
    intro i hi
    rw [Nat.zero_add]
    rfl
  rw [Entry.ops, bufWriteLoop_low (y := 0) valid low stored (by rw [show (0 : Byte).toNat = 0 from rfl]; omega)]
  rfl

/-- Requests with one entry ask for the same. -/
lemma Request.Sound.ops_eq (sound : r.Sound) (valid : r'.Valid) (low : r'.LowBank) (e : r'.entry = r.entry) :
    r'.ops = r.ops := by
  have stored : r'.stored = r.stored := congrArg (fun e : Entry => e.desc.bytes ++ e.data) e
  rw [← entry_ops valid low (stored ▸ sound.fits), e, entry_ops sound.valid sound.low sound.fits]

/-- The operations of requests. -/
lemma entries_ops (sound : ∀ r ∈ rs, r.Sound) : (rs.map Request.entry).flatMap Entry.ops = rs.flatMap Request.ops := by
  rw [List.flatMap_map]
  refine List.flatMap_congr fun r hr => ?_
  obtain ⟨valid, low, -, fits⟩ := sound r hr
  exact Request.entry_ops valid low fits

end Entries

end Uzi.Ppu
