import Uzi.Ppu.Databuf

/-!
# The PPU RAM disk

`drivers/devppuwd.c`: a disk block is kept in CHR RAM and moved in chunks, one PPU descriptor a
chunk. `ppuwdRead` and `ppuwdWrite` give the descriptors that the driver queues, pass by pass,
with the payload and the place of the chunk in the block.

The bank is computed from `bf_blk`, before the minor device number is added, so that the two disks
of `dev_tab` ask for the same banks.
-/

namespace Uzi.Ppu

/-- The bytes of a CHR bank. -/
def BANK_SIZE : Nat := 4096
/-- The bytes of a block. -/
def BLOCK_SIZE : Nat := 512
/-- The blocks in a bank. -/
def BLOCKS_PER_BANK : Nat := BANK_SIZE / BLOCK_SIZE
/-- Where the window on the bank of the disk begins. -/
def DISK_BANK_START : Nat := 0x1000
/-- The byte for the bank in front of the data that are written. -/
def BANK_BYTE_PAD : Nat := 1
/-- The bytes of a pass of `ppuwd_read`. -/
def READ_CHUNK_SIZE : Nat := 64
/-- The bytes of a pass of `ppuwd_write`. -/
def WRITE_CHUNK_SIZE : Nat := 32
/-- The passes for a block that is read. -/
def READ_PASSES : Nat := BLOCK_SIZE / READ_CHUNK_SIZE
/-- The passes for a block that is written. -/
def WRITE_PASSES : Nat := BLOCK_SIZE / WRITE_CHUNK_SIZE

/-- The 10-bit CHR bank of a block. -/
def blkBank (blkno : Word) : Nat := blkno.toNat / BLOCKS_PER_BANK

/-- The address of a block in its bank. -/
def blkBaseAddr (blkno : Word) : Nat := DISK_BANK_START + blkno.toNat % BLOCKS_PER_BANK * BLOCK_SIZE

/-- The two upper bits of a bank. -/
def bankUpperBits (bank : Nat) : Byte := BitVec.ofNat 8 ((bank >>> 8) &&& 3)

/-- The lower byte of a bank. -/
def bankLowerByte (bank : Nat) : Byte := BitVec.ofNat 8 (bank &&& 0xff)

/-- Where a pass of `ppuwd_read` begins. -/
def blkChunkAddrRd (blkno : Word) (chunk : Nat) : Word :=
  BitVec.ofNat 16 (blkBaseAddr blkno + chunk * READ_CHUNK_SIZE)

/-- Where a pass of `ppuwd_write` begins. -/
def blkChunkAddrWr (blkno : Word) (chunk : Nat) : Word :=
  BitVec.ofNat 16 (blkBaseAddr blkno + chunk * WRITE_CHUNK_SIZE)

/-- `struct ppuwd_bank_desc`. -/
structure PpuwdBankDesc where
  lowerByte : Byte
  upperBits : Byte

/-- `populate_bank_desc`. The block number `blk` it is given is not used: the bank is that of
`udata.u_buf->bf_blk`. -/
def populateBankDesc (bfBlk _blk : Word) : PpuwdBankDesc where
  lowerByte := bankLowerByte (blkBank bfBlk)
  upperBits := bankUpperBits (blkBank bfBlk)

/-- One pass of the driver's loop: the chunk's offset in the block, the descriptor asked for, and
the payload queued behind the descriptor. -/
structure Pass where
  offset : Nat
  desc : PpuDesc
  data : Nat → Byte

/-- The passes of `ppuwd_read`; the payload is the lower byte of the bank. -/
def ppuwdRead (minor bfBlk : Word) : List Pass :=
  let blk := bfBlk + minor
  let bankdesc := populateBankDesc bfBlk blk
  (List.range READ_PASSES).map fun pass =>
    { offset := READ_CHUNK_SIZE * pass
      desc :=
        { size := BitVec.ofNat 8 READ_CHUNK_SIZE
          target := blkChunkAddrRd blk pass
          flags := bankdesc.upperBits ||| PPU_DESC_FLAG_READ }
      data := fun _ => bankdesc.lowerByte }

/-- The passes of `ppuwd_write`; the payload is the lower byte of the bank and then the chunk. -/
def ppuwdWrite (minor bfBlk : Word) (bfData : Block) : List Pass :=
  let blk := bfBlk + minor
  let bankdesc := populateBankDesc bfBlk blk
  (List.range WRITE_PASSES).map fun pass =>
    { offset := WRITE_CHUNK_SIZE * pass
      desc :=
        { size := BitVec.ofNat 8 WRITE_CHUNK_SIZE
          target := blkChunkAddrWr blk pass
          flags := bankdesc.upperBits ||| PPU_DESC_FLAG_WRITE }
      data := fun i =>
        if i < BANK_BYTE_PAD then bankdesc.lowerByte
        else bfData.byte (WRITE_CHUNK_SIZE * pass + (i - BANK_BYTE_PAD)) }

/-- The disk entries of `dev_tab`. -/
inductive Disk
  | root | swap
  deriving DecidableEq

/-- `dev_tab[dev].minor`. -/
def Disk.minor : Disk → Word
  | .root => 0
  | .swap => 4096

/-- The two parts of a bank descriptor put the 10-bit bank together again. -/
lemma bank_split {bank : Nat} (h : bank < 1024) :
    (bankUpperBits bank).toNat * 256 + (bankLowerByte bank).toNat = bank := by
  have upper : (bank >>> 8) &&& 3 = bank / 256 % 4 := by
    rw [Nat.shiftRight_eq_div_pow]
    exact Nat.and_two_pow_sub_one_eq_mod _ 2
  have lower : bank &&& 0xff = bank % 256 := Nat.and_two_pow_sub_one_eq_mod _ 8
  simp only [bankUpperBits, bankLowerByte, upper, lower, BitVec.toNat_ofNat]
  omega

/-- The minor number is a multiple of the bank size, so the in-bank address ignores it. -/
lemma blkBaseAddr_minor {d : Disk} {bfBlk : Word} :
    blkBaseAddr (bfBlk + d.minor) = blkBaseAddr bfBlk := by
  have e : (bfBlk + d.minor).toNat % 8 = bfBlk.toNat % 8 := by
    cases d <;> simp only [Disk.minor] <;> bv_omega
  simp only [blkBaseAddr, BLOCKS_PER_BANK, BANK_SIZE, BLOCK_SIZE]
  omega

end Uzi.Ppu
