import Uzi.Fs.Blocks
import Uzi.Process

/-!
# Inodes of a file system

The part of `fs/filesys.c` that deals with inodes: the in-core inodes and their references (`i_open`,
`i_ref`, `i_deref`, `wr_inode`), the free inodes (`i_alloc`, `i_free`), permissions and times. `i_alloc`
calls `_sync` of `kernel/scall1.c`.
-/

namespace Uzi
open Exec

/-! ## Disk inodes -/

namespace Dinode

/-- The words of a disk inode in the order of their addresses. -/
def word (d : Dinode) (i : Nat) : Word :=
  if i = 0 then d.iMode
  else if i = 1 then d.iNlink
  else if i = 2 then d.iUid
  else if i = 3 then d.iGid
  else if i = 4 then d.iSize.oBlkno
  else if i = 5 then d.iSize.oOffset
  else if i = 6 then d.iAtime.tTime
  else if i = 7 then d.iAtime.tDate
  else if i = 8 then d.iMtime.tTime
  else if i = 9 then d.iMtime.tDate
  else if i = 10 then d.iCtime.tTime
  else if i = 11 then d.iCtime.tDate
  else d.addr (i - 12)

/-- The disk inode with index `k` in a block of eight. -/
def ofBlock (b : Block) (k : Nat) : Dinode where
  iMode := b.word (32 * k)
  iNlink := b.word (32 * k + 1)
  iUid := b.word (32 * k + 2)
  iGid := b.word (32 * k + 3)
  iSize := ⟨b.word (32 * k + 4), b.word (32 * k + 5)⟩
  iAtime := ⟨b.word (32 * k + 6), b.word (32 * k + 7)⟩
  iMtime := ⟨b.word (32 * k + 8), b.word (32 * k + 9)⟩
  iCtime := ⟨b.word (32 * k + 10), b.word (32 * k + 11)⟩
  iAddr i := b.word (32 * k + 12 + i)

end Dinode

/-- The block with the disk inode of index `k` replaced. -/
def Block.setDinode (b : Block) (k : Nat) (d : Dinode) : Block :=
  Block.ofWords fun j => if 32 * k ≤ j ∧ j < 32 * (k + 1) then d.word (j - 32 * k) else b.word j

/-- The block of a device that holds inode `num`. -/
def inodeBlk (num : Word) : Word := (num >>> 3) + 2

/-- The index of inode `num` in its block. -/
def inodeIdx (num : Word) : Nat := (num &&& 0x07).toNat

/-- `(s_isize - 2) * 8` as an unsigned number: an `unsigned` has 16 bits on the NES and 32 in `fsutil`. -/
def Filesys.inodeEnd (t : Target) (fs : Filesys) : Nat :=
  match t with
  | .nes => ((fs.sIsize - 2) * 8).toNat
  | .fsutil => (((fs.sIsize.toNat : Int) - 2) * 8 % 2 ^ 32).toNat

/-! ## Permissions and times -/

/-- `super`. -/
def super (s : Kernel) : Bool := s.udata.uEuid = 0

/-- Whether a user or group of an inode is the one at hand, an `int16` that is compared with a `uint16`. -/
def sameId (t : Target) (id euid : Word) : Bool :=
  match t with
  | .nes => id = euid
  | .fsutil => (id.toNat : Int) = euid.toInt

/-- `getperm`. -/
def getperm (s : Kernel) (ino : Inoptr) : Word :=
  if super s then 0o7
  else
    let d := (s.iTab ino).cNode
    if sameId s.target d.iUid s.udata.uEuid then d.iMode >>> 6 &&& 0o7
    else if sameId s.target d.iGid s.udata.uEgid then d.iMode >>> 3 &&& 0o7
    else d.iMode &&& 0o7

/-- The time of the last access. -/
def A_TIME : Word := 1
/-- The time of the last change. -/
def M_TIME : Word := 2
/-- The time of the last change of the inode. -/
def C_TIME : Word := 4

/-- `setftime`. -/
def setftime (ino : Inoptr) (flag : Word) : K PUnit := do
  let now := (← get).tod
  modifyInode ino fun c =>
    { c with
      cDirty := true
      cNode :=
        { c.cNode with
          iAtime := if flag &&& A_TIME ≠ 0 then now else c.cNode.iAtime
          iMtime := if flag &&& M_TIME ≠ 0 then now else c.cNode.iMtime
          iCtime := if flag &&& C_TIME ≠ 0 then now else c.cNode.iCtime } }

/-- `isdevice`. -/
def Cinode.isdevice (ino : Cinode) : Bool := ino.cNode.iMode &&& F_CDEV ≠ 0

/-! ## In-core inodes -/

/-- `magic`. -/
def magic (ino : Inoptr) : K PUnit := do
  if ((← get).iTab ino).cMagic ≠ CMAGIC then throw .corruptInode

/-- `wr_inode`. -/
def wrInode (ino : Inoptr) : K PUnit := do
  magic ino
  let c := (← get).iTab ino
  let buf ← breadPtr c.cDev (inodeBlk c.cNum) 0
  let s ← get
  fill buf ((s.buf buf).bfData.setDinode (inodeIdx c.cNum) (s.iTab ino).cNode)
  let _ ← bfree buf 2
  modifyInode ino fun c => { c with cDirty := false }

/-- One round of the first loop of `_sync`. -/
def syncInode (ino : Inoptr) : K PUnit := do
  let c := (← get).iTab ino
  if c.cRefs ≠ 0 ∧ c.cDirty then do
    wrInode ino
    modifyInode ino fun c => { c with cDirty := false }

/-- One round of the second loop of `_sync`. It copies 512 bytes from `fs_tab[j]` on. -/
def syncFs (j : Nat) : K PUnit := do
  let fs := (← get).fsTab j
  if fs.sMounted = SMOUNTED ∧ fs.sFmod ≠ 0 then do
    modifyFs j fun fs => { fs with sFmod := 0 }
    let buf ← breadPtr j 1 1
    let s ← get
    fill buf (Block.ofWords fun i => s.fsWord j i)
    let _ ← bfree buf 2

/-- `_sync`. -/
def _sync : K PUnit := do
  each (List.finRange ITABSIZE) syncInode
  each (List.range NDEVS) syncFs
  bufsync

/-! ## Free inodes -/

/-- The exit `corrupt` of `i_alloc`. -/
def iAllocCorrupt (devno : Nat) : K Word := do
  modifyFs devno fun fs => { fs with sMounted := 1 }
  setError .enospc
  pure 0

/-- `i_alloc` takes the last entry of `s_inode`, of which there is at least one. -/
def iAllocTake (devno : Nat) : K Word := do
  let s ← get
  let fs := s.fsTab devno
  if fs.sTinode = 0 then iAllocCorrupt devno
  else if 50 ≤ (fs.sNinode - 1).toNat then throw .undefined
  else do
    modifyFs devno fun fs => { fs with sNinode := fs.sNinode - 1 }
    let ino := fs.inode (fs.sNinode - 1).toNat
    if ino < 2 ∨ fs.inodeEnd s.target ≤ ino.toNat then iAllocCorrupt devno
    else do
      modifyFs devno fun fs => { fs with sTinode := fs.sTinode - 1 }
      pure ino

/-- The inodes of block `blk` that the scan of `i_alloc` takes for free, from index `j` on. -/
def freeInodes (b : Block) (blk : Word) (j : Nat) : Nat → List Word
  | 0 => []
  | n + 1 =>
    let d := Dinode.ofBlock b j
    if d.iMode = 0 ∧ d.iNlink = 0 then (8 * (blk - 2) + BitVec.ofNat 16 j) :: freeInodes b blk (j + 1) n
    else freeInodes b blk (j + 1) n

/-- The entry with `s_inode` holding the numbers `inos` from index `k` on. -/
def Filesys.setInodes (fs : Filesys) (k : Nat) (inos : List Word) : Filesys :=
  { fs with
    sInode := fun i =>
      if k ≤ i.val ∧ i.val < k + inos.length then inos.getD (i.val - k) 0 else fs.sInode i }

/-- The scan of `i_alloc` over `n` blocks from `blk` on, `k` inodes having been found. It ends at 50. -/
def iAllocScan (devno : Nat) (blk : Word) (k : Nat) : Nat → K Nat
  | 0 => pure k
  | n + 1 => do
    let buf ← breadPtr devno blk 0
    let s ← get
    let found := (freeInodes (s.buf buf).bfData blk 0 8).take (50 - k)
    modifyFs devno fun fs => fs.setInodes k found
    brelse buf
    if k + found.length = 50 then pure 50
    else iAllocScan devno (blk + 1) (k + found.length) n

/-- `i_alloc`. -/
def iAlloc (devno : Nat) : K Word := do
  getdev devno
  let fs := (← get).fsTab devno
  if baddev fs then iAllocCorrupt devno
  else if fs.sNinode ≠ 0 then iAllocTake devno
  else do
    _sync
    let k ← iAllocScan devno 2 0 (((← get).fsTab devno).sIsize.toNat - 2)
    if k = 0 then
      if ((← get).fsTab devno).sTinode ≠ 0 then iAllocCorrupt devno
      else do
        setError .enospc
        pure 0
    else do
      modifyFs devno fun fs => { fs with sNinode := BitVec.ofNat 16 k }
      iAllocTake devno

/-- `i_free`. -/
def iFree (devno : Nat) (ino : Word) : K PUnit := do
  getdev devno
  let s ← get
  let fs := s.fsTab devno
  if baddev fs then pure ⟨⟩
  else if ino < 2 ∨ fs.inodeEnd s.target ≤ ino.toNat then throw .iFreeBadIno
  else do
    modifyFs devno fun fs => { fs with sTinode := fs.sTinode + 1 }
    if fs.sNinode.toInt < 0 then throw .undefined
    else if fs.sNinode.toInt < 50 then
      modifyFs devno fun fs => { fs.setInodes fs.sNinode.toNat [ino] with sNinode := fs.sNinode + 1 }

/-! ## References -/

/-- `i_ref`. -/
def iRef (ino : Inoptr) : K PUnit := do
  modifyInode ino fun c => { c with cRefs := c.cRefs + 1 }
  if (((← get).iTab ino).cRefs).toNat = 2 * ITABSIZE then throw .tooManyIrefs

/-- `i_deref`. -/
def iDeref (ino : Inoptr) : K PUnit := do
  magic ino
  if ((← get).iTab ino).cRefs = 0 then throw .inodeFreed
  else do
    if ((← get).iTab ino).getmode = F_PIPE then wakeup (.inode ino)
    modifyInode ino fun c => { c with cRefs := c.cRefs - 1 }
    let c := (← get).iTab ino
    if c.cRefs = 0 ∧ c.cNode.iNlink = 0 then fTrunc ino
    let c := (← get).iTab ino
    if c.cRefs = 0 ∧ c.cDirty then do
      if c.cNode.iNlink = 0 then do
        modifyInode ino fun c => { c with cNode := { c.cNode with iMode := 0 } }
        iFree c.cDev c.cNum
      wrInode ino

/-- The search of `i_open` through `n` more entries of `i_tab`, the last of them being `j`: whether the
inode was found, and the entry to use. -/
def iSearch (dev : Nat) (ino : Word) : (n : Nat) → (j : Inoptr) → (nindex : Option Inoptr) →
    K (Bool × Option Inoptr)
  | 0, _, nindex => pure (false, nindex)
  | n + 1, j, nindex => do
    modify fun s => { s with nexti := j }
    let c := (← get).iTab (j + 1)
    let nindex := if c.cRefs = 0 then some (j + 1) else nindex
    if c.cDev = dev ∧ c.cNum = ino then pure (true, some (j + 1))
    else iSearch dev ino n (j + 1) nindex

/-- The end of `i_open`, from its label `found` on. -/
def iOpenFound (nindex : Inoptr) (new : Bool) : K (Option Inoptr) := do
  let d := ((← get).iTab nindex).cNode
  if new then
    if d.iNlink ≠ 0 ∨ d.iMode &&& F_MASK ≠ 0 then pure none
    else do
      modifyInode nindex fun c => { c with cRefs := c.cRefs + 1 }
      pure (some nindex)
  else if ¬ (d.iNlink ≠ 0 ∧ d.iMode &&& F_MASK ≠ 0) then pure none
  else do
    modifyInode nindex fun c => { c with cRefs := c.cRefs + 1 }
    pure (some nindex)

/-- `i_open` with the number of the inode at hand. -/
def iOpenAt (dev : Nat) (ino : Word) (new : Bool) : K (Option Inoptr) := do
  let s ← get
  if ino < ROOTINODE ∨ (s.fsTab dev).inodeEnd s.target ≤ ino.toNat then pure none
  else do
    match ← iSearch dev ino ITABSIZE s.nexti none with
    | (true, some nindex) => iOpenFound nindex new
    | (_, none) => do
      setError .enfile
      pure none
    | (false, some nindex) => do
      let buf ← breadPtr dev (inodeBlk ino) 0
      let s ← get
      modifyInode nindex fun c => { c with cNode := Dinode.ofBlock (s.buf buf).bfData (inodeIdx ino) }
      brelse buf
      modifyInode nindex fun c => { c with cDev := dev, cNum := ino, cMagic := CMAGIC }
      iOpenFound nindex new

/-- `i_open`. -/
def iOpen (dev : Nat) (ino : Word) : K (Option Inoptr) := do
  if ¬ dev < NDEVS then throw .iOpenBadDev
  else if ino = 0 then do
    let ino ← iAlloc dev
    if ino = 0 then do
      setError .enospc
      pure none
    else iOpenAt dev ino true
  else iOpenAt dev ino false

end Uzi
