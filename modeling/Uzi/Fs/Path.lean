import Uzi.Fs.Rw

/-!
# Directories and path names

The part of `fs/filesys.c` that deals with names: the search of a directory (`srch_dir`), of a path
(`n_open`) and of the mount table (`srch_mt`), and new directory entries (`ch_link`, `newfile`). A
pointer into a path name is an offset.
-/

namespace Uzi
open Exec

/-- The character `/`. -/
def SLASH : Byte := 0x2f

/-- The character `.`. -/
def DOT : Byte := 0x2e

/-! ## Names -/

/-- The loop of `namecomp` with `n` characters left. -/
def namecompRounds (n1 n2 : Nat → Byte) : (n : Nat) → Bool
  | 0 => true
  | n + 1 =>
    let i := 13 - n
    if n1 i = 0 ∨ n1 i = SLASH then n2 i = 0 ∨ n2 i = SLASH
    else if n1 i ≠ n2 i then false
    else namecompRounds n1 n2 n

/-- `namecomp`. -/
def namecomp (n1 n2 : Nat → Byte) : Bool := namecompRounds n1 n2 14

/-- The second loop of `filename`, from `ptr` down. -/
def filenameFrom (chr : Nat → Byte) : (ptr : Nat) → Nat
  | 0 => if chr 0 = SLASH then 1 else 0
  | ptr + 1 => if chr (ptr + 1) = SLASH then ptr + 2 else filenameFrom chr ptr

/-- `filename`: where the last component starts. -/
def filename (path : CStr) : Nat := filenameFrom path.chr path.len

/-- The first offset from `i` on, of the next `n` ones, where `p` does not hold. -/
def skipWhile (p : Byte → Bool) (chr : Nat → Byte) : (n i : Nat) → Nat
  | 0, i => i
  | n + 1, i => if p (chr i) then skipWhile p chr n (i + 1) else i

/-- The offset behind the slashes at `i`. -/
def CStr.skipSlashes (s : CStr) (i : Nat) : Nat := skipWhile (fun c => c = SLASH) s.chr (s.len - i) i

/-- The offset behind the component at `i`. -/
def CStr.skipComponent (s : CStr) (i : Nat) : Nat :=
  skipWhile (fun c => c ≠ SLASH ∧ c ≠ 0) s.chr (s.len - i) i

/-! ## Directories -/

/-- A directory entry with a name that is given as the bytes from an address on. -/
def Direct.ofName (ino : Word) (name : Nat → Byte) : Direct := ⟨ino, fun i => name i⟩

/-- The bytes from `d_name` on. -/
def Direct.name (d : Direct) (i : Nat) : Byte := if h : i < 14 then d.dName ⟨i, h⟩ else 0

/-- The bytes of an entry. -/
def Direct.byte (d : Direct) (i : Nat) : Byte :=
  if i = 0 then d.dIno.setWidth 8 else if i = 1 then (d.dIno >>> 8).setWidth 8 else d.name (i - 2)

/-- The entry whose bytes are given by `f`. -/
def Direct.ofBytes (f : Nat → Byte) : Direct := ⟨f 1 ++ f 0, fun i => f (2 + i)⟩

/-- The entry at index `e` of a block of 32. -/
def Block.direct (b : Block) (e : Nat) : Direct := .ofBytes fun i => b.byte (16 * e + i)

/-- The inode number in the first entry of a block that has the name. -/
def Block.findName (b : Block) (compname : Nat → Byte) : Option Word :=
  ((List.range 32).find? fun e => namecomp compname (b.direct e).name).map fun e => (b.direct e).dIno

/-- The loop of `srch_dir` over `n` more blocks. Where a counter of blocks has more bits than a block
number it ends never (`wraps`). -/
def srchBlocks (wd : Inoptr) (compname : Nat → Byte) (wraps : Bool) : (n : Nat) → (curblock : Word) →
    K (Option Inoptr)
  | 0, _ => if wraps then throw .hang else pure none
  | n + 1, curblock => do
    let blk ← bmap wd curblock true
    let buf ← breadPtr ((← get).iTab wd).cDev blk 0
    match ((← get).buf buf).bfData.findName compname with
    | some inum => do
      brelse buf
      iOpen ((← get).iTab wd).cDev inum
    | none => do
      brelse buf
      srchBlocks wd compname wraps n (curblock + 1)

/-- `srch_dir`. -/
def srchDir (wd : Inoptr) (compname : Nat → Byte) : K (Option Inoptr) := do
  let s ← get
  let size := (s.iTab wd).cNode.iSize
  let nblocks := if size.oOffset ≠ 0 then size.oBlkno.toNat + 1 else size.oBlkno.toNat
  match s.target with
  | .nes => srchBlocks wd compname false (nblocks % 2 ^ 16) 0
  | .fsutil => srchBlocks wd compname (nblocks = 2 ^ 16) nblocks 0

/-- The raw pointer to an entry of `i_tab`. -/
def Inoptr.raw (ino : Inoptr) : Word := BitVec.ofNat 16 (ino + 1)

/-- The entry of `i_tab` that a raw pointer points to. -/
def inoOfRaw (p : Word) : Option Inoptr :=
  if h : 1 ≤ p.toNat ∧ p.toNat ≤ ITABSIZE then some ⟨p.toNat - 1, by omega⟩ else none

/-- `srch_mt`. -/
def srchMt (ino : Inoptr) : K (Option Inoptr) := do
  let s ← get
  match (List.range NDEVS).find? fun j =>
      (s.fsTab j).sMounted = SMOUNTED ∧ (s.fsTab j).sMntpt = Inoptr.raw ino with
  | some j => do
    iDeref ino
    iOpen j ROOTINODE
  | none => pure (some ino)

/-! ## Paths -/

/-- The inode that `n_open` has found is replaced by the root of the device that is mounted on it. -/
def throughMount : Option Inoptr → K (Option Inoptr)
  | none => pure none
  | some ninode => do
    magic ninode
    srchMt ninode

/-- `n_open` goes up through a mount point when `wd` is the root of a mounted device and the second
character of the rest of the name is a dot. -/
def upMount (name : Nat → Byte) (wd : Inoptr) : K Inoptr := do
  let s ← get
  let c := s.iTab wd
  if c.cNum = ROOTINODE ∧ c.cDev ≠ s.rootdev ∧ name 1 = DOT then
    match inoOfRaw (s.fsTab c.cDev).sMntpt with
    | none => throw .undefined
    | some temp => do
      modifyInode temp fun c => { c with cRefs := c.cRefs + 1 }
      iDeref wd
      pure temp
  else pure wd

/-- The exit `nodir` of `n_open`. -/
def nOpenNodir (wd : Inoptr) : K (Option Inoptr × Option Inoptr) := do
  iDeref wd
  pure (none, none)

/-- The end of `n_open`. -/
def nOpenEnd (parent : Bool) (wd : Inoptr) (ninode : Option Inoptr) :
    K (Option Inoptr × Option Inoptr) := do
  if parent then pure (ninode, some wd)
  else do
    iDeref wd
    if ninode = none then setError .enoent
    pure (ninode, none)

/-- The loop of `n_open` from offset `i` of the name on. -/
def nOpenLoop (name : CStr) (parent : Bool) : (rounds : Nat) → (wd : Inoptr) → (ninode : Option Inoptr) →
    (i : Nat) → K (Option Inoptr × Option Inoptr)
  | 0, _, _, _ => throw .hang
  | rounds + 1, wd, ninode, i => do
    let ninode ← throughMount ninode
    let i := name.skipSlashes i
    if name.chr i = 0 then nOpenEnd parent wd ninode
    else
      match ninode with
      | none => do
        setError .enoent
        nOpenNodir wd
      | some ninode => do
        iDeref wd
        let wd := ninode
        let s ← get
        if (s.iTab wd).getmode ≠ F_DIR then do
          setError .enotdir
          nOpenNodir wd
        else if getperm s wd &&& OTH_EX = 0 then do
          setError .eperm
          nOpenNodir wd
        else do
          let wd ← upMount (fun k => name.chr (i + k)) wd
          let ninode ← srchDir wd fun k => name.chr (i + k)
          nOpenLoop name parent rounds wd ninode (name.skipComponent i)

/-- `n_open`: the inode and, for a caller that asks for it, the parent. -/
def nOpen (name : CStr) (parent : Bool) : K (Option Inoptr × Option Inoptr) := do
  let s ← get
  let wd := if name.chr 0 = SLASH then s.root else s.udata.uCwd
  iRef wd
  iRef wd
  nOpenLoop name parent (name.len + 1) wd (some wd) 0

/-! ## New entries -/

/-- The address of the variable `curentry` of `ch_link`: the memory of the kernel is behind that of the
processes. -/
def CURENTRY : Nat := 0x10000

/-- The variable `curentry`. -/
def UData.curentry (u : UData) : Direct := .ofBytes fun i => u.mem (CURENTRY + i)

/-- A transfer of 16 bytes between a directory and `curentry`. The directory is not a pipe, so that the
process does not sleep. -/
def entryTransfer (transfer : Inoptr → K Progress) (wd : Inoptr) : K PUnit := do
  modifyUdata fun u => { u with uCount := 16, uBase := CURENTRY }
  match ← transfer wd with
  | .returned => pure ⟨⟩
  | .asleep => throw .hang

/-- The search of `ch_link`, which ends at the end of the file or at an entry with the name. -/
def chLinkSearch (wd : Inoptr) (oldname : Nat → Byte) : (rounds : Nat) → K PUnit
  | 0 => throw .hang
  | rounds + 1 => do
    entryTransfer readi wd
    let u := (← get).udata
    if u.uCount = 0 ∨ namecomp oldname u.curentry.name then pure ⟨⟩
    else chLinkSearch wd oldname rounds

/-- The file offset of the entry in front of the one at hand. -/
def Off.backUp (o : Off) : Off :=
  if o.oOffset = 0 then ⟨o.oBlkno - 1, 512 - 16⟩ else ⟨o.oBlkno, o.oOffset - 16⟩

/-- `ch_link`. -/
def chLink (wd : Inoptr) (oldname newname : Nat → Byte) (nindex : Option Inoptr) : K Bool := do
  if getperm (← get) wd &&& OTH_WR = 0 then do
    setError .eperm
    pure false
  else do
    modifyUdata fun u => { u with uOffset := ⟨0, 0⟩ }
    chLinkSearch wd oldname (2 ^ 26)
    if (← get).udata.uCount = 0 ∧ oldname 0 ≠ 0 then pure false
    else do
      let s ← get
      let ino := match nindex with
        | some nindex => (s.iTab nindex).cNum
        | none => 0
      let entry := Direct.ofName ino newname
      modifyUdata fun u => { u with mem := putBytes u.mem CURENTRY 16 entry.byte }
      -- an existing slot: the offset goes back to it
      if (← get).udata.uCount ≠ 0 then modifyUdata fun u => { u with uOffset := u.uOffset.backUp }
      entryTransfer writei wd
      if (← get).udata.uError ≠ .ok then pure false
      else do
        setftime wd (A_TIME ||| M_TIME ||| C_TIME)
        let size := ((← get).iTab wd).cNode.iSize
        if size.oOffset ≠ 0 then
          modifyInode wd fun c => { c with cNode := { c.cNode with iSize := ⟨size.oBlkno + 1, 0⟩ } }
        pure true

/-- The string `""`. -/
def Kernel.emptyName (s : Kernel) : Nat → Byte := s.rodata

/-- `newfile`. -/
def newfile (pino : Inoptr) (name : CStr) : K (Option Inoptr) := do
  match ← iOpen ((← get).iTab pino).cDev 0 with
  | none => do
    iDeref pino
    pure none
  | some nindex => do
    modifyInode nindex fun c =>
      { c with
        cNode := { c.cNode with iMode := F_REG, iNlink := 1, iSize := ⟨0, 0⟩, iAddr := fun _ => 0 } }
    wrInode nindex
    if ← chLink pino (← get).emptyName (fun k => name.chr (filename name + k)) (some nindex) then do
      iDeref pino
      pure (some nindex)
    else do
      iDeref nindex
      iDeref pino
      pure none

end Uzi
