import Uzi.Lib.Exec
import Uzi.Unix

/-!
# The PPU descriptor buffer

`ppu/ppu_databuf.c` queues descriptors into the one-page buffer `ppu_databuf`;
`ppu/ppu_databuf.S` walks the buffer during vblank. The walk is given as the list of its accesses
to the PPU and mapper registers, descriptor by descriptor, with the Y register before and after.
-/

namespace Uzi.Ppu
open Exec

/-- Nothing is moved, the descriptor takes time only. -/
def PPU_DESC_FLAG_NULL : Byte := 0x01
/-- Bytes of the PPU are read. -/
def PPU_DESC_FLAG_READ : Byte := 0x02
/-- Bytes are written into a bank. -/
def PPU_DESC_FLAG_WRITE : Byte := 0x04

/-- The bit by which `process_ppubuf` knows a pause. -/
def PPUBUF_NULL_DESC_MASK : Byte := 0x01
/-- The bits by which it knows a read or a write. -/
def PPUBUF_RW_DESC_MASK : Byte := 0x06
/-- The bit by which it knows a read. -/
def PPUBUF_READ_DESC_MASK : Byte := 0x02

/-- `sizeof(struct ppu_desc)`. -/
def DESC_SIZE : Nat := 4

/-- `PPU_MAX_CHAR_WRITE * PPU_BUF_BYTE`, where `PPU_BUF_BYTE` is `sizeof(struct ppu_desc) + 1`
without parentheses. -/
def PPU_BUF_SIZE : Nat := 16 * DESC_SIZE + 1

/-- The cycles of a vblank that the loop may take. -/
def PPU_LOOP_MAX_CYCLES : Nat := 2200
/-- The cycles of the loop around the descriptors. -/
def BASE_PPU_LOOP_CYCLES : Nat := 171
/-- The cycles for a video descriptor. -/
def VIDEO_DESC_OVERHEAD_CYCLES : Nat := 74
/-- The cycles for a read or a write. -/
def RW_DESC_OVERHEAD_CYCLES : Nat := 115
/-- The cycles for a NULL descriptor. -/
def NULL_DESC_OVERHEAD_CYCLES : Nat := 78
/-- The cycles for a byte of a video descriptor. -/
def VIDEO_DESC_PERBYTE_CYCLES : Nat := 20
/-- The cycles for a byte of a read or a write. -/
def RW_DESC_PERBYTE_CYCLES : Nat := 20

/-- `struct ppu_desc`. -/
structure PpuDesc where
  size : Byte
  target : Word
  flags : Byte

/-- The bytes of a descriptor in memory, the target pointer low byte first. -/
def PpuDesc.bytes (d : PpuDesc) : List Byte :=
  [d.size, d.target.setWidth 8, (d.target >>> 8).setWidth 8, d.flags]

/-- The variables of the PPU code: the bytes from `ppu_databuf` on, `databuf_pos`,
`ppu_readbuf_dirty` and `ppu_locked`. -/
structure Databuf where
  ppuDatabuf : Nat → Byte
  databufPos : Nat
  ppuReadbufDirty : Byte
  ppuLocked : Bool

/-- The panics of the PPU code. -/
inductive Panic
  | ppuDeadlock
  | badPpuDesc
  deriving DecidableEq

/-- A program over the PPU variables. -/
abbrev P (α : Type) := Prog Databuf Panic α

/-- What a descriptor is for. -/
inductive PpuDescType
  | video | read | write | null | bad
  deriving DecidableEq

/-- `get_desc_type`. -/
def getDescType (desc : PpuDesc) : PpuDescType :=
  let lowFlagBits := desc.flags &&& 0x0f
  if desc.flags = 0 then .video
  else if lowFlagBits &&& PPU_DESC_FLAG_READ ≠ 0 then .read
  else if lowFlagBits &&& PPU_DESC_FLAG_WRITE ≠ 0 then .write
  else if lowFlagBits &&& PPU_DESC_FLAG_NULL ≠ 0 then .null
  else .bad

/-- The vblank cycles a descriptor takes. A NULL descriptor is charged its overhead for every
byte. -/
def calcDescWeight (desc : PpuDesc) : P Nat :=
  match getDescType desc with
  | .video => pure (VIDEO_DESC_OVERHEAD_CYCLES + desc.size.toNat * VIDEO_DESC_PERBYTE_CYCLES)
  | .read | .write => pure (RW_DESC_OVERHEAD_CYCLES + desc.size.toNat * RW_DESC_PERBYTE_CYCLES)
  | .null => pure (NULL_DESC_OVERHEAD_CYCLES + desc.size.toNat * NULL_DESC_OVERHEAD_CYCLES)
  | .bad => throw .badPpuDesc

/-- `ppu_lock`. -/
def ppuLock : P Unit := do
  if (← get).ppuLocked then throw .ppuDeadlock
  modify fun s => { s with ppuLocked := true }

/-- `ppu_unlock`. -/
def ppuUnlock : P Unit :=
  modify fun s => { s with ppuLocked := false }

/-- `bcopy(src, mem + pos, n)`. -/
def copyInto (mem : Nat → Byte) (pos : Nat) (src : Nat → Byte) (n : Nat) : Nat → Byte :=
  fun i => if pos ≤ i ∧ i < pos + n then src (i - pos) else mem i

/-- The number of payload bytes that follow a descriptor, a `char`. -/
def descDatalen (desc : PpuDesc) : Byte :=
  if desc.flags &&& PPU_DESC_FLAG_READ ≠ 0 then 1
  else if desc.flags &&& PPU_DESC_FLAG_NULL ≠ 0 then 0
  else if desc.flags &&& PPU_DESC_FLAG_WRITE ≠ 0 then desc.size + 1
  else desc.size

/-- Appends a descriptor and its payload and terminates the buffer. -/
def appendDesc (desc : PpuDesc) (data : Nat → Byte) (s : Databuf) : Databuf :=
  let datalen := (descDatalen desc).toNat
  let buf := copyInto s.ppuDatabuf s.databufPos (fun i => desc.bytes.getD i 0) DESC_SIZE
  let pos := s.databufPos + DESC_SIZE
  let buf := copyInto buf pos data datalen
  let pos := pos + datalen
  { s with ppuDatabuf := Function.update buf pos 0, databufPos := pos }

/-- `__queue_descriptor`: true when the descriptor was taken, false for `-EAGAIN`. -/
def tryQueueDescriptor (desc : PpuDesc) (data : Nat → Byte) : P Bool := do
  ppuLock
  if (← get).databufPos + DESC_SIZE + (descDatalen desc).toNat + 1 > PPU_BUF_SIZE then
    ppuUnlock
    return false
  if (← calcDescWeight desc) + BASE_PPU_LOOP_CYCLES > PPU_LOOP_MAX_CYCLES then
    ppuUnlock
    return false
  modify (appendDesc desc data)
  ppuUnlock
  return true

/-! ## `process_ppubuf` -/

/-- One access of `process_ppubuf`: a store to `PPU_ADDR`, to `MMC5_CHR_UPPER`, to
`MMC5_CHR_4K_SEG1` or to `PPU_DATA`, the dummy read of `PPU_DATA`, a read of `PPU_DATA` into
`ppu_readbuf[x]`, and the setting of `ppu_readbuf_dirty`. -/
inductive PpuOp
  | addr (b : Byte)
  | chrUpper (b : Byte)
  | chrLower (b : Byte)
  | store (b : Byte)
  | prime
  | fetch (x : Byte)
  | setDirty
  deriving DecidableEq

/-- `read_desc_loop`, entered with X = `x`: the X register goes round once at most. -/
def readDescLoop (num : Byte) : Nat → Byte → List PpuOp
  | 0, _ => []
  | fuel + 1, x => .fetch x :: if x + 1 = num then [] else readDescLoop num fuel (x + 1)

/-- `write_null_desc_loop`, entered with X = `x`. -/
def writeNullDescLoop : Nat → Byte → List PpuOp
  | 0, _ => []
  | fuel + 1, x => .store 0 :: if x - 1 = 0 then [] else writeNullDescLoop fuel (x - 1)

/-- `write_bytes_loop`, entered with X = `x` and Y = `y`. -/
def writeBytesLoop (buf : Nat → Byte) (num : Byte) : Nat → Byte → Byte → List PpuOp × Byte
  | 0, _, y => ([], y)
  | fuel + 1, x, y =>
    if x + 1 = num then ([.store (buf y.toNat)], y + 1)
    else
      let (ops, y') := writeBytesLoop buf num fuel (x + 1) (y + 1)
      (.store (buf y.toNat) :: ops, y')

/-- One round of `buf_write_loop` with Y = `y`; `none` at the terminator. The upper CHR bits are
shifted out of the byte that has just been masked with `PPUBUF_RW_DESC_MASK`. -/
def bufWriteLoop (buf : Nat → Byte) (y : Byte) : Option (List PpuOp × Byte) :=
  let num := buf y.toNat
  if num = 0 then none
  else
    let addr := [.addr (buf (y + 2).toNat), .addr (buf (y + 1).toNat)]
    let options := buf (y + 3).toNat
    let y := y + 4
    if PPUBUF_RW_DESC_MASK &&& options = 0 then
      if PPUBUF_NULL_DESC_MASK &&& options = 0 then
        let (ops, y) := writeBytesLoop buf num 256 0 y
        some (addr ++ ops, y)
      else some (addr ++ writeNullDescLoop 256 num, y)
    else
      let bank := [.chrUpper ((PPUBUF_RW_DESC_MASK &&& options) >>> 4), .chrLower (buf y.toNat)]
      let y := y + 1
      if PPUBUF_READ_DESC_MASK &&& options = 0 then
        let (ops, y) := writeBytesLoop buf num 256 0 y
        some (addr ++ bank ++ ops, y)
      else some (addr ++ bank ++ .prime :: readDescLoop num 256 0 ++ [.setDirty], y)

/-- What one round did: Y before, Y after, and the accesses. -/
structure Round where
  start : Byte
  stop : Byte
  ops : List PpuOp
  deriving DecidableEq

/-- `buf_write_loop` until the terminator; `none` if the walk has not met one after `fuel` rounds. -/
def walk (buf : Nat → Byte) : Nat → Byte → Option (List Round)
  | 0, _ => none
  | fuel + 1, y =>
    match bufWriteLoop buf y with
    | none => some []
    | some (ops, y') => (⟨y, y', ops⟩ :: ·) <$> walk buf fuel y'

/-- `process_ppubuf`: the rounds it makes and the variables it leaves. Nothing happens while the
bytes of an earlier read wait in `ppu_readbuf`. -/
def processPpubuf (s : Databuf) : Option (List Round × Databuf) :=
  if s.ppuReadbufDirty ≠ 0 then some ([], s)
  else
    (walk s.ppuDatabuf 256 0).map fun rounds =>
      let dirty := if rounds.any (·.ops.contains .setDirty) then 1 else 0
      (rounds, { s with
        ppuDatabuf := Function.update s.ppuDatabuf 0 0, databufPos := 0, ppuReadbufDirty := dirty })

end Uzi.Ppu
