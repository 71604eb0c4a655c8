import Mathlib.Data.BitVec
import Mathlib.Logic.Function.Basic

/-!
# The kernel's data structures

`include/unix.h`, `include/config.h` and the error numbers of `errno.py`. A `uint16` or `int16` is
a `Word`; where the C type is signed the code reads it with `BitVec.toInt`. A plain `char` is an
unsigned `Byte`, as under cc65.

A disk block is kept as its 256 little-endian words; `Block.byte` is the byte view. A pointer into
one of the kernel's tables is an index (`none` for a null pointer), and a C string is the function
from an offset to the byte there.
-/

namespace Uzi

/-- A plain `char`. -/
abbrev Byte := BitVec 8

/-- A `uint16` or an `int16`. -/
abbrev Word := BitVec 16

/-- A word that is incremented wraps round. -/
lemma toNat_increment {x : Word} : (x + 1).toNat = (x.toNat + 1) % 2 ^ 16 := BitVec.toNat_add x 1

/-- A small number as a word. -/
lemma toNat_ofNat_of_lt {n : Nat} (lt : n < 2 ^ 16) : (BitVec.ofNat 16 n).toNat = n := by
  rw [BitVec.toNat_ofNat, Nat.mod_eq_of_lt lt]

/-! ## Sizes and magic numbers -/

/-- Descriptors of a process. -/
def UFTSIZE : Nat := 10
/-- Open files. -/
def OFTSIZE : Nat := 15
/-- In-core inodes. -/
def ITABSIZE : Nat := 20
/-- Processes. -/
def PTABSIZE : Nat := 20
/-- Signals, with the one that does not exist. -/
def NSIGS : Nat := 16
/-- Devices. -/
def NDEVS : Nat := 5
/-- The device with the swap space. -/
def SWAPDEV : Nat := 1
/-- Buffers. -/
def NBUFS : Nat := 4
/-- The number of the root directory. -/
def ROOTINODE : Word := 1
/-- The mark of an in-core inode. -/
def CMAGIC : Word := 24721
/-- The mark of a mounted device. -/
def SMOUNTED : Word := 12742
/-- The number of no block. -/
def NULLBLK : Word := 0xffff
/-- The number of no device. -/
def NODEV : Nat := 0xff
/-- Where the memory of a process begins. -/
def PROGBASE : Nat := 0x6000

instance : NeZero UFTSIZE := ⟨by decide⟩
instance : NeZero OFTSIZE := ⟨by decide⟩
instance : NeZero ITABSIZE := ⟨by decide⟩
instance : NeZero PTABSIZE := ⟨by decide⟩
instance : NeZero NBUFS := ⟨by decide⟩

/-! ## Mode bits -/

/-- Others may execute. -/
def OTH_EX : Word := 0x1
/-- Others may write. -/
def OTH_WR : Word := 0x2
/-- Others may read. -/
def OTH_RD : Word := 0x4
/-- The bits of a mode that a caller may set. -/
def MODE_MASK : Word := 0xfff
/-- A regular file. -/
def F_REG : Word := 0x8000
/-- A directory. -/
def F_DIR : Word := 0x4000
/-- A pipe. -/
def F_PIPE : Word := 0x1000
/-- A block device. -/
def F_BDEV : Word := 0x6000
/-- A character device. -/
def F_CDEV : Word := 0x2000
/-- The bits for the kind of a file. -/
def F_MASK : Word := 0xf000

/-- The error numbers, `ok` standing for 0. -/
inductive Errno
  | ok | eperm | enoent | eio | enxio | ebadf | eacces | enotblk | ebusy | eexist | exdev | enodev
  | enotdir | eisdir | einval | enfile | enospc | espipe | epipe | eagain | echild | efault | eintr | e2big
  | enoexec | enomem
  deriving DecidableEq, Repr

/-! ## Blocks -/

/-- A 512-byte block as 256 little-endian words. -/
abbrev Block := Fin 256 → Word

namespace Block

/-- The zeroed block. -/
def zero : Block := fun _ => 0

/-- The word at index `i`. -/
def word (b : Block) (i : Nat) : Word := if h : i < 256 then b ⟨i, h⟩ else 0

/-- The block whose words are given by `f`. -/
def ofWords (f : Nat → Word) : Block := fun i => f i

/-- The block with word `i` replaced. -/
def setWord (b : Block) (i : Nat) (w : Word) : Block :=
  ofWords fun j => if j = i then w else b.word j

/-- The byte at offset `i`, the low byte of a word first. -/
def byte (b : Block) (i : Nat) : Byte :=
  if i % 2 = 0 then (b.word (i / 2)).setWidth 8 else ((b.word (i / 2)) >>> 8).setWidth 8

/-- The block whose bytes are given by `f`. -/
def ofBytes (f : Nat → Byte) : Block := ofWords fun i => f (2 * i + 1) ++ f (2 * i)

/-- Blocks with the same words are the same. -/
lemma ext_word {b b' : Block} (h : ∀ i < 256, b.word i = b'.word i) : b = b' := by
  funext i
  have e := h i i.isLt
  simpa only [word, i.isLt, dite_true, Fin.eta] using e

/-- The words of a block that is given by its words. -/
@[simp] lemma word_ofWords {f : Nat → Word} {i : Nat} (h : i < 256) :
    (ofWords f).word i = f i := by
  simp only [word, ofWords, h, dite_true]

/-- The words of the block of zeros. -/
@[simp] lemma word_zero {i : Nat} : zero.word i = 0 := by
  simp only [word, zero, dite_eq_ite, ite_self]

/-- The words of a block in which one is replaced. -/
lemma word_setWord {b : Block} {i j : Nat} {w : Word} (h : j < 256) :
    (b.setWord i w).word j = if j = i then w else b.word j :=
  word_ofWords h

/-- The bytes of a block that is given by its bytes. -/
@[simp] lemma byte_ofBytes {f : Nat → Byte} {i : Nat} (h : i < 512) : (ofBytes f).byte i = f i := by
  rw [byte, ofBytes, word_ofWords (by omega)]
  split
  · next even =>
    rw [BitVec.setWidth_append]
    simp only [Nat.le_refl, dite_true, BitVec.setWidth_eq]
    congr 1
    omega
  · next odd =>
    ext k hk
    rw [BitVec.getElem_setWidth, BitVec.getLsbD_ushiftRight, BitVec.getLsbD_append]
    simp only [Nat.not_lt.mpr (Nat.le_add_right 8 k), if_false, Nat.add_sub_cancel_left]
    rw [BitVec.getLsbD_eq_getElem hk]
    congr 2
    omega

/-- Only the bytes below 512 matter. -/
lemma ofBytes_congr {f g : Nat → Byte} (h : ∀ i < 512, f i = g i) : ofBytes f = ofBytes g := by
  funext i
  have lt := i.isLt
  simp only [ofBytes, ofWords]
  rw [h _ (by omega), h _ (by omega)]

end Block

/-! ## Records -/

/-- `time_t`: a packed time of day and date, or ticks and minutes. -/
structure Time where
  tTime : Word
  tDate : Word
  deriving DecidableEq

/-- `off_t`: a block number and a signed offset in the block. -/
structure Off where
  oBlkno : Word
  oOffset : Word
  deriving DecidableEq

/-- A block buffer. `bfDev` is a plain `char`: the device number -1 of a buffer that belongs to no
device is `NODEV` there. -/
structure Blkbuf where
  bfData : Block
  bfDev : Nat
  bfBlk : Word
  bfDirty : Byte
  bfBusy : Bool
  bfTime : Word

/-- A disk inode. -/
structure Dinode where
  iMode : Word
  iNlink : Word
  iUid : Word
  iGid : Word
  iSize : Off
  iAtime : Time
  iMtime : Time
  iCtime : Time
  iAddr : Fin 20 → Word

/-- A pointer to an entry of `i_tab`. -/
abbrev Inoptr := Fin ITABSIZE

/-- An in-core inode. -/
structure Cinode where
  cMagic : Word
  cDev : Nat
  cNum : Word
  cNode : Dinode
  cRefs : Byte
  cDirty : Bool

/-- A directory entry. -/
structure Direct where
  dIno : Word
  dName : Fin 14 → Byte

/-- A mount table entry, the in-core superblock. `sMntpt` is the raw pointer: 0 for null, `i + 1`
for `i_tab + i`, anything else a wild pointer that a bad superblock left there. -/
structure Filesys where
  sMounted : Word
  sIsize : Word
  sFsize : Word
  sNfree : Word
  sFree : Fin 50 → Word
  sNinode : Word
  sInode : Fin 50 → Word
  sFmod : Word
  sTime : Time
  sTfree : Word
  sTinode : Word
  sMntpt : Word

/-- The access modes of an open file. -/
inductive Access
  | rdonly | wronly | rdwr
  deriving DecidableEq, Repr

/-- An open file table entry. -/
structure Oft where
  oPtr : Off
  oInode : Option Inoptr
  oAccess : Access
  oRefs : Byte

/-- The `p_status` values. -/
inductive PStatus
  | empty | running | ready | sleep | xsleep | pause | forking | wait | zombie
  deriving DecidableEq, Repr

/-- What a process sleeps on: nothing, an in-core inode, a process table slot, a variable of the
terminal driver. -/
inductive Event
  | none
  | inode (ino : Inoptr)
  | ptab (p : Fin PTABSIZE)
  | ttyinq
  | stopflag
  deriving DecidableEq

/-- The addresses of the variables that processes sleep on, and of `udata`. -/
structure Layout where
  addr : Event → Word
  null : addr .none = 0
  injective : Function.Injective addr
  udata : Nat

/-- The `n` bytes from `a` on lie in the memory of the process. -/
def Layout.InUser (l : Layout) (a n : Nat) : Prop := PROGBASE ≤ a ∧ a + n ≤ l.udata

instance {l : Layout} {a n : Nat} : Decidable (l.InUser a n) := inferInstanceAs (Decidable (_ ∧ _))

/-- The process table entry at an address. -/
def Layout.ptabAt (l : Layout) (a : Word) : Option (Fin PTABSIZE) :=
  (List.finRange PTABSIZE).find? fun p => l.addr (.ptab p) = a

/-- A process table entry. In a zombie the tick counts of the process lie over `pWait`, `pPriority`,
`pPending` and `pIgnored`. -/
structure PTab where
  pStatus : PStatus
  pPid : Nat
  pUid : Word
  pPptr : Option (Fin PTABSIZE)
  pSwap : Word
  pAlarm : Word
  pExitval : Word
  pWait : Word
  pPriority : Word
  pPending : Word
  pIgnored : Word

/-- The zeroed entry. -/
def PTab.zero : PTab := ⟨.empty, 0, 0, none, 0, 0, 0, 0, 0, 0, 0⟩

/-- The per-process data. `mem` is the memory `uBase` points into. -/
structure UData where
  uPtab : Fin PTABSIZE
  uError : Errno
  uBase : Nat
  uCount : Word
  uOffset : Off
  uGid : Word
  uEuid : Word
  uEgid : Word
  uMask : Word
  uTime : Time
  uFiles : Fin UFTSIZE → Byte
  uCwd : Inoptr
  uSigvec : Fin NSIGS → Word
  uCursig : Word
  uUtime : Time
  uStime : Time
  uCutime : Time
  uCstime : Time
  mem : Nat → Byte

/-! ## C strings -/

/-- A C string: the bytes from its address on, and where its terminator is. -/
structure CStr where
  chr : Nat → Byte
  len : Nat
  ne_zero : ∀ i < len, chr i ≠ 0
  terminated : chr len = 0

end Uzi
