import Uzi.Fs.Blocks

/-!
# Making a file system

`mkfs` of `uzi-nes-utils/fs/mkfs.c`: the image of a file system with `fsize` blocks, `isize` of them
before the data area.
-/

namespace Uzi

/-- The blocks of a device. -/
abbrev Image := Word → Block

namespace Mkfs

/-- The words of `sb_buf` that a copy starting at word `k` takes. -/
def sbBlock (sb : Filesys) (k : Nat) : Block :=
  Block.ofWords fun i => if k + i < Filesys.WORDS then sb.word (k + i) else 0

/-- The superblock before any block is freed. -/
def super (fsize isize : Word) : Filesys where
  sMounted := SMOUNTED
  sIsize := isize
  sFsize := fsize
  sNfree := 1
  sFree _ := 0
  sNinode := 0
  sInode _ := 0
  sFmod := 0
  sTime := ⟨0, 0⟩
  sTfree := 0
  sTinode := 8 * (isize - 2) - 2
  sMntpt := 0

/-- Frees block `j`. -/
def freeBlock (j : Word) (st : Image × Filesys) : Image × Filesys :=
  let (image, sb) :=
    if st.2.sNfree = 50 then
      (Function.update st.1 j (sbBlock st.2 3), { st.2 with sNfree := 0 })
    else st
  (image, { sb.setFree sb.sNfree.toNat j with sNfree := sb.sNfree + 1, sTfree := sb.sTfree + 1 })

/-- Frees the `n` blocks behind `isize`, the last one first. -/
def freeBlocks (isize : Word) : Nat → Image × Filesys → Image × Filesys
  | 0, st => st
  | n + 1, st => freeBlocks isize n (freeBlock (isize + BitVec.ofNat 16 (n + 1)) st)

/-- The inodes of block 2: the reserved inode 0 and the root directory. -/
def inodes (isize : Word) : Block :=
  Block.ofWords fun i =>
    if i = 0 then 0xffff
    else if i = 1 then 1
    else if i = 32 then F_DIR ||| (0o777 &&& MODE_MASK)
    else if i = 33 then 3
    else if i = 37 then 32
    else if i = 44 then isize
    else 0

/-- The entries `.` and `..` of the root directory. -/
def dirbuf : Block :=
  Block.ofWords fun i =>
    if i = 0 ∨ i = 8 then ROOTINODE
    else if i = 1 then 0x2e
    else if i = 9 then 0x2e2e
    else 0

end Mkfs

/-- `mkfs`. The image is written in the order inodes, root directory, superblock. -/
def mkfs (fsize isize : Word) : Image :=
  let st := Mkfs.freeBlocks isize (fsize.toNat - 1 - isize.toNat)
    (fun _ => Block.zero, Mkfs.super fsize isize)
  let image := Function.update st.1 2 (Mkfs.inodes isize)
  let image := Function.update image isize Mkfs.dirbuf
  Function.update image 1 (Mkfs.sbBlock st.2 0)

/-- What `main` requires of its arguments before it calls `mkfs`. -/
def Mkfs.Accepts (fsize isize : Word) : Prop := 3 ≤ fsize ∧ 2 ≤ isize ∧ isize < fsize

end Uzi
