import Uzi.Drivers.Devio

/-!
# Blocks of a file system

The part of `fs/filesys.c` that deals with data blocks: the mount table entry of a device, the free
list (`blk_alloc`, `blk_free`), the block map of an inode (`bmap`) and its truncation (`f_trunc`).
-/

namespace Uzi
open Exec

/-! ## The superblock in memory -/

namespace Filesys

/-- The words of a superblock. -/
def WORDS : Nat := 111

/-- `s_free[i]`. -/
def free (fs : Filesys) (i : Nat) : Word := if h : i < 50 then fs.sFree ⟨i, h⟩ else 0

/-- `s_inode[i]`. -/
def inode (fs : Filesys) (i : Nat) : Word := if h : i < 50 then fs.sInode ⟨i, h⟩ else 0

/-- The entry with `s_free[i]` replaced. -/
def setFree (fs : Filesys) (i : Nat) (b : Word) : Filesys :=
  { fs with sFree := fun j => if j.val = i then b else fs.sFree j }

/-- The words of an entry in the order of their addresses. -/
def word (fs : Filesys) (i : Nat) : Word :=
  if i = 0 then fs.sMounted
  else if i = 1 then fs.sIsize
  else if i = 2 then fs.sFsize
  else if i = 3 then fs.sNfree
  else if i < 54 then fs.free (i - 4)
  else if i = 54 then fs.sNinode
  else if i < 105 then fs.inode (i - 55)
  else if i = 105 then fs.sFmod
  else if i = 106 then fs.sTime.tTime
  else if i = 107 then fs.sTime.tDate
  else if i = 108 then fs.sTfree
  else if i = 109 then fs.sTinode
  else fs.sMntpt

/-- The entry that the words of a block make. -/
def ofBlock (b : Block) : Filesys where
  sMounted := b.word 0
  sIsize := b.word 1
  sFsize := b.word 2
  sNfree := b.word 3
  sFree i := b.word (4 + i)
  sNinode := b.word 54
  sInode i := b.word (55 + i)
  sFmod := b.word 105
  sTime := ⟨b.word 106, b.word 107⟩
  sTfree := b.word 108
  sTinode := b.word 109
  sMntpt := b.word 110

end Filesys

/-- The memory from `fs_tab[dev]` on: the entries that follow, and then the variables behind. -/
def Kernel.fsWord (s : Kernel) (dev i : Nat) : Word :=
  if dev + i / Filesys.WORDS < NDEVS then
    (s.fsTab (dev + i / Filesys.WORDS)).word (i % Filesys.WORDS)
  else s.bss (i - (NDEVS - dev) * Filesys.WORDS)

/-! ## The mount table -/

/-- `getdev`. The pointer it returns is `fs_tab + devno`. -/
def getdev (devno : Nat) : K PUnit := do
  let s ← get
  if ¬ devno < NDEVS ∨ (s.fsTab devno).sMounted = 0 then throw .getdevBadDev
  else modifyFs devno fun fs => { fs with sTime := s.tod, sFmod := 1 }

/-- `baddev`. -/
def baddev (fs : Filesys) : Bool := fs.sMounted ≠ SMOUNTED

/-- `validblk`. -/
def validblk (dev : Nat) (num : Word) : K PUnit := do
  let fs := (← get).fsTab dev
  if fs.sMounted = 0 then throw .validblkNotMounted
  else if num < fs.sIsize ∨ fs.sFsize ≤ num then throw .validblkInvalidBlk
  else pure ⟨⟩

/-! ## The free list -/

/-- The exit `corrupt2` of `blk_alloc`. -/
def blkAllocCorrupt2 : K Word := do
  setError .enospc
  pure 0

/-- The exit `corrupt` of `blk_alloc`. -/
def blkAllocCorrupt (devno : Nat) : K Word := do
  modifyFs devno fun fs => { fs with sMounted := 1 }
  blkAllocCorrupt2

/-- `blk_alloc` refills `s_free` from the block that was its last entry. -/
def blkAllocRefill (devno : Nat) (newno : Word) : K PUnit := do
  let buf ← breadPtr devno newno 0
  let x := ((← get).buf buf).bfData
  modifyFs devno fun fs => { fs with sNfree := x.word 0, sFree := fun j => x.word (j + 1) }
  brelse buf

/-- The end of `blk_alloc`: the block found is checked, counted and zeroed. -/
def blkAllocTake (devno : Nat) (newno : Word) : K Word := do
  validblk devno newno
  if ((← get).fsTab devno).sTfree = 0 then blkAllocCorrupt devno
  else do
    modifyFs devno fun fs => { fs with sTfree := fs.sTfree - 1 }
    let buf ← breadPtr devno newno 2
    fill buf Block.zero
    bawrite buf
    pure newno

/-- `blk_alloc`. -/
def blkAlloc (devno : Nat) : K Word := do
  getdev devno
  let fs := (← get).fsTab devno
  if baddev fs then blkAllocCorrupt2
  else if fs.sNfree.toInt ≤ 0 ∨ 50 < fs.sNfree.toInt then blkAllocCorrupt devno
  else do
    let newno := fs.free (fs.sNfree - 1).toNat
    modifyFs devno fun fs => { fs with sNfree := fs.sNfree - 1 }
    if newno = 0 then
      if fs.sTfree ≠ 0 then blkAllocCorrupt devno
      else do
        setError .enospc
        modifyFs devno fun fs => { fs with sNfree := fs.sNfree + 1 }
        pure 0
    else do
      if ((← get).fsTab devno).sNfree = 0 then blkAllocRefill devno newno
      blkAllocTake devno newno

/-- `blk_free` stores a full `s_free` in the block that is freed. The copy takes 512 bytes from
`s_nfree` on. -/
def blkFreeSpill (devno : Nat) (blk : Word) : K PUnit := do
  let buf ← breadPtr devno blk 1
  let s ← get
  fill buf (Block.ofWords fun i => s.fsWord devno (3 + i))
  bawrite buf
  modifyFs devno fun fs => { fs with sNfree := 0 }

/-- The end of `blk_free`: the block is counted and entered in `s_free`. -/
def blkFreePush (devno : Nat) (blk : Word) : K PUnit := do
  modifyFs devno fun fs => { fs with sTfree := fs.sTfree + 1 }
  if 50 ≤ ((← get).fsTab devno).sNfree.toNat then throw .undefined
  else modifyFs devno fun fs => { fs.setFree fs.sNfree.toNat blk with sNfree := fs.sNfree + 1 }

/-- `blk_free`. -/
def blkFree (devno : Nat) (blk : Word) : K PUnit := do
  if blk = 0 then pure ⟨⟩
  else do
    getdev devno
    if baddev ((← get).fsTab devno) then pure ⟨⟩
    else do
      validblk devno blk
      if ((← get).fsTab devno).sNfree = 50 then blkFreeSpill devno blk
      blkFreePush devno blk

/-! ## The blocks of an inode -/

/-- `i_addr[i]`. -/
def Dinode.addr (d : Dinode) (i : Nat) : Word := if h : i < 20 then d.iAddr ⟨i, h⟩ else 0

/-- The inode with `i_addr[i]` replaced. -/
def Dinode.setAddr (d : Dinode) (i : Nat) (b : Word) : Dinode :=
  { d with iAddr := fun j => if j.val = i then b else d.iAddr j }

/-- `getmode`. -/
def Cinode.getmode (ino : Cinode) : Word := ino.cNode.iMode &&& F_MASK

/-- `freeblk`. -/
def freeblk (dev : Nat) (blk : Word) : Nat → K PUnit
  | 0 =>
    if blk = 0 then pure ⟨⟩
    else blkFree dev blk
  | level + 1 =>
    if blk = 0 then pure ⟨⟩
    else do
      let buf ← breadPtr dev blk 0
      forDown (fun j => do
        let s ← get
        freeblk dev ((s.buf buf).bfData.word j) level) 256
      brelse buf
      blkFree dev blk

/-- `f_trunc`. -/
def fTrunc (ino : Inoptr) : K PUnit := do
  let dev := ((← get).iTab ino).cDev
  freeblk dev (((← get).iTab ino).cNode.addr 19) 2
  freeblk dev (((← get).iTab ino).cNode.addr 18) 1
  forDown (fun j => do
    let s ← get
    freeblk dev ((s.iTab ino).cNode.addr j) 0) 18
  modifyInode ino fun c =>
    { c with cNode := { c.cNode with iAddr := fun _ => 0, iSize := ⟨0, 0⟩ }, cDirty := true }

/-- The rounds of `bmap` through the indirect blocks, `bn` being the index that is left. -/
def bmapRounds (dev : Nat) (rwflg : Bool) (bn : Word) : (rounds sh : Nat) → (nb : Word) → K Word
  | 0, _, nb => pure nb
  | rounds + 1, sh, nb => do
    let bp ← breadPtr dev nb 0
    let i := (bn >>> sh &&& 0xff).toNat
    let nb := ((← get).buf bp).bfData.word i
    if nb ≠ 0 then do
      brelse bp
      bmapRounds dev rwflg bn rounds (sh - 8) nb
    else if rwflg then do
      brelse bp
      pure NULLBLK
    else do
      let nb ← blkAlloc dev
      if nb = 0 then do
        brelse bp
        pure NULLBLK
      else do
        let s ← get
        fill bp ((s.buf bp).bfData.setWord i nb)
        bawrite bp
        bmapRounds dev rwflg bn rounds (sh - 8) nb

/-- `bmap` takes an address from the inode, or creates it, and goes on with it. -/
def bmapAddr (ip : Inoptr) (slot : Nat) (rwflg : Bool) (k : Word → K Word) : K Word := do
  let c := (← get).iTab ip
  let nb := c.cNode.addr slot
  if nb ≠ 0 then k nb
  else if rwflg then pure NULLBLK
  else do
    let nb ← blkAlloc c.cDev
    if nb = 0 then pure NULLBLK
    else do
      modifyInode ip fun c => { c with cNode := c.cNode.setAddr slot nb, cDirty := true }
      k nb

/-- `bmap`. -/
def bmap (ip : Inoptr) (bn : Word) (rwflg : Bool) : K Word := do
  let c := (← get).iTab ip
  if c.getmode = F_BDEV then pure bn
  else if bn < 18 then bmapAddr ip bn.toNat rwflg pure
  else if (bn - 18) &&& 0xff00 ≠ 0 then
    bmapAddr ip 19 rwflg (bmapRounds c.cDev rwflg (bn - 18 - 256) 2 8)
  else bmapAddr ip 18 rwflg (bmapRounds c.cDev rwflg (bn - 18) 1 0)

end Uzi
