import Uzi.Fs.Path
import Uzi.Lib.Rounds
import Uzi.Utils.Mkfs

/-!
# Checking a file system

`uzi-nes-utils/fs/fsck.c`: the five passes of `fsck` over an image that has every block that a number of 16
bits can name. An `int` is an `Int` here, since it is wider than the counters. A run records what it reads,
asks, writes and indexes. It also stops where C says nothing more (`Stop.undefined`), and where a loop has not
ended after `fuel` rounds (`Stop.hang`). What is only printed, and not asked, is left out.
-/

namespace Uzi
open Exec

/-- The block with entry `e` of 32 replaced. -/
def Block.setDirect (b : Block) (e : Nat) (d : Direct) : Block :=
  Block.ofBytes fun i => if 16 * e ≤ i ∧ i < 16 * (e + 1) then d.byte (i - 16 * e) else b.byte i

namespace Fsck

/-- The levels that `ckdir` goes down. -/
def MAXDEPTH : Nat := 20

/-- The questions, with the values that they are printed with. -/
inductive Question
  | invalidMagic (sMounted : Word)
  | sizes (sFsize sIsize : Word)
  | incorrectType (n iMode : Word)
  | offsetTooBig (n oOffset : Word)
  | offsetNegative (n oOffset : Word)
  | singlyOutOfRange (n : Word) (b : Nat) (value : Word)
  | singlyPastEnd (n : Word) (b : Nat) (value : Word)
  | doublyOutOfRange (n : Word) (b : Nat) (value : Word)
  | blockOutOfRange (n bno b : Word)
  | freeInodeCount (sTinode : Word) (should : Int)
  | rebuildFreeList
  | indirectMultiply (b : Nat) (n value : Word)
  | blockMultiply (bno n b : Word)
  | improperLength
  | entryOutOfRange (name : List Byte) (dentry : Direct)
  | entryBogus (name : List Byte) (dentry : Direct)
  | entrySlash (name : List Byte) (dentry : Direct)
  | dotWrong (name : List Byte) (dentry : Direct)
  | dotDotWrong (name : List Byte) (dentry : Direct)
  | linkCount (n iNlink linkmap : Word)
  | uselessDetached (n iMode iNlink : Word)
  | detached (n iNlink : Word)

/-- What a run does: it reads an inode, asks and is answered, writes a block of the image, uses an index of
`bitmap` or `linkmap`, comes to an entry of a directory that is in use, with the links counted by then and the depth
that it is at, puts a path into `ename`, and begins a loop over the logical blocks up to `last`. -/
inductive Event
  | inode (n : Word) (ino : Dinode)
  | asked (image : Image) (q : Question) (answer : Bool)
  | wrote (image : Image) (blk : Word) (data : Block)
  | bitmap (i : Word)
  | linkmap (i : Word)
  | entry (linkmap : Word → Word) (depth : Nat) (inum pnum : Word) (name : List Byte) (dentry : Direct)
  | path (ename : List Byte)
  | blocks (last : Word)

/-- The ways in which a run stops before its end. -/
inductive Stop
  | exit | missingIndirectBlock | missingDirectoryBlock | inconsistentDepth | inconsistentLinkmap
  | undefined | hang
  deriving DecidableEq, Repr

/-- The image and the variables of `fsck`. `fsTail` are the words of `fs_buf` behind the superblock, `answers`
are those that are still to come, the next one first, and `stack` is what the memory holds behind a local
`struct direct`, up to the next zero. `events` is what the run has done, the latest first. -/
structure State where
  image : Image
  readbuf : Block
  filsys : Filesys
  fsTail : Nat → Word
  bitmap : Word → Byte
  linkmap : Word → Word
  depth : Nat
  answers : Nat → Bool
  stack : List Byte
  events : List Event

/-- A part of `fsck`. Where it stops, the state is the one that it has come to. -/
abbrev F := Prog State (Stop × State)

/-- Stops. -/
def halt {α : Type} (e : Stop) : F α := do throw (e, ← get)

/-- Records what is done. -/
def emit (e : Event) : F PUnit := modify fun s => { s with events := e :: s.events }

/-- `yes`, with the question that is printed before. -/
def yes (q : Question) : F Bool := do
  let a := (← get).answers 0
  modify fun s => { s with answers := fun i => s.answers (i + 1) }
  emit (.asked (← get).image q a)
  pure a

/-- Changes the superblock in memory. -/
def modifyFilsys (f : Filesys → Filesys) : F PUnit := modify fun s => { s with filsys := f s.filsys }

/-! ## The disk -/

/-- `daread`, which returns `readbuf`. -/
def daread (blk : Word) : F PUnit := modify fun s => { s with readbuf := s.image blk }

/-- Changes `readbuf`. -/
def modifyReadbuf (f : Block → Block) : F PUnit := modify fun s => { s with readbuf := f s.readbuf }

/-- `dwrite`. -/
def dwrite (blk : Word) (addr : Block) : F PUnit := do
  emit (.wrote (← get).image blk addr)
  modify fun s => { s with image := Function.update s.image blk addr }

/-- The 512 bytes from word `k` of `filsys` on. -/
def State.fsBlock (s : State) (k : Nat) : Block :=
  Block.ofWords fun i => if k + i < Filesys.WORDS then s.filsys.word (k + i) else s.fsTail (k + i)

/-- Writes the superblock. -/
def writeSuper : F PUnit := do dwrite 1 ((← get).fsBlock 0)

/-- `iread`. -/
def iread (ino : Word) : F Dinode := do
  daread (inodeBlk ino)
  let buf := Dinode.ofBlock (← get).readbuf (inodeIdx ino)
  emit (.inode ino buf)
  pure buf

/-- `iwrite`. -/
def iwrite (ino : Word) (buf : Dinode) : F PUnit := do
  daread (inodeBlk ino)
  modifyReadbuf fun b => b.setDinode (inodeIdx ino) buf
  dwrite (inodeBlk ino) (← get).readbuf

/-- `getblkno`. -/
def getblkno (ino : Dinode) (num : Word) : F Word := do
  if num < 18 then pure (ino.addr num.toNat)
  else if num < 256 + 18 then
    let indb := ino.addr 18
    if indb = 0 then pure 0
    else do
      daread indb
      pure ((← get).readbuf.word (num.toNat - 18))
  else
    let indb := ino.addr 19
    if indb = 0 then pure 0
    else do
      daread indb
      let dindb := (← get).readbuf.word ((num.toNat - (18 + 256)) / 256)
      daread dindb
      pure ((← get).readbuf.word ((num.toNat - (18 + 256)) % 256))

/-- `setblkno`, which returns the inode. -/
def setblkno (ino : Dinode) (num dnum : Word) : F Dinode := do
  if num < 18 then pure (ino.setAddr num.toNat dnum)
  else if num < 256 + 18 then
    let indb := ino.addr 18
    if indb = 0 then halt .missingIndirectBlock
    else do
      daread indb
      modifyReadbuf fun b => b.setWord (num.toNat - 18) dnum
      dwrite indb (← get).readbuf
      pure ino
  else
    let indb := ino.addr 19
    if indb = 0 then halt .missingIndirectBlock
    else do
      daread indb
      let dindb := (← get).readbuf.word ((num.toNat - (18 + 256)) / 256)
      if dindb = 0 then halt .missingIndirectBlock
      else do
        daread dindb
        modifyReadbuf fun b => b.setWord ((num.toNat - (18 + 256)) % 256) num
        dwrite indb (← get).readbuf
        pure ino

/-- `dirread`. It takes 16 bytes from `buf + 16 * j` on. -/
def dirread (ino : Dinode) (j : Word) : F Direct := do
  let blkno ← getblkno ino (j / 32)
  if blkno = 0 then halt .missingDirectoryBlock
  else do
    daread blkno
    if 512 < 16 * j.toNat + 16 then halt .undefined
    else pure ((← get).readbuf.direct j.toNat)

/-- `dirwrite`. -/
def dirwrite (ino : Dinode) (j : Word) (dentry : Direct) : F PUnit := do
  let blkno ← getblkno ino (j / 32)
  if blkno = 0 then halt .missingDirectoryBlock
  else do
    daread blkno
    if 512 < 16 * j.toNat + 16 then halt .undefined
    else do
      modifyReadbuf fun b => b.setDirect j.toNat dentry
      dwrite blkno (← get).readbuf

/-- `blk_alloc` fills `s_free` from the block that was its last entry. -/
def blkAllocRefill (newno : Word) : F PUnit := do
  daread newno
  let buf := (← get).readbuf
  modifyFilsys fun fs => { fs with sNfree := buf.word 0, sFree := fun j => buf.word (j + 1) }

/-- `blk_alloc`. -/
def blkAlloc : F Word := do
  modifyFilsys fun fs => { fs with sNfree := fs.sNfree - 1 }
  let fs := (← get).filsys
  if fs.sNfree.toInt < 0 ∨ 50 ≤ fs.sNfree.toInt then halt .undefined
  else do
    let newno := fs.free fs.sNfree.toNat
    if newno = 0 then do
      modifyFilsys fun fs => { fs with sNfree := fs.sNfree + 1 }
      pure 0
    else do
      if fs.sNfree = 0 then blkAllocRefill newno
      modifyFilsys fun fs => { fs with sTfree := fs.sTfree - 1 }
      let fs := (← get).filsys
      if newno < fs.sIsize ∨ fs.sFsize ≤ newno then pure 0
      else do
        writeSuper
        pure newno

/-! ## The maps -/

/-- `bitmap[i]`. -/
def bitmapAt (i : Word) : F Byte := do
  emit (.bitmap i)
  let s ← get
  if i < s.filsys.sFsize then pure (s.bitmap i) else halt .undefined

/-- `bitmap[i] = v`. -/
def setBitmap (i : Word) (v : Byte) : F PUnit := do
  emit (.bitmap i)
  let s ← get
  if i < s.filsys.sFsize then modify fun s => { s with bitmap := Function.update s.bitmap i v }
  else halt .undefined

/-- `linkmap[i]`. -/
def linkmapAt (i : Word) : F Word := do
  emit (.linkmap i)
  let s ← get
  if i.toNat < 8 * s.filsys.sIsize.toNat then pure (s.linkmap i) else halt .undefined

/-- `linkmap[i] = v`. -/
def setLinkmap (i v : Word) : F PUnit := do
  emit (.linkmap i)
  let s ← get
  if i.toNat < 8 * s.filsys.sIsize.toNat then modify fun s => { s with linkmap := Function.update s.linkmap i v }
  else halt .undefined

/-- `8*(s_isize-2)`. -/
def inodesEnd (fs : Filesys) : Int := 8 * ((fs.sIsize.toNat : Int) - 2)

/-- `n < 8*(s_isize-2)`. -/
def inodesLeft (fs : Filesys) (n : Word) : Bool := (n.toNat : Int) < inodesEnd fs

/-! ## Pass 1 -/

/-- `pass1` zaps an inode of no known type, and says whether it has. -/
def zapInode (n : Word) (ino : Dinode) : F Bool := do
  let mode := ino.iMode &&& F_MASK
  if mode ≠ F_REG ∧ mode ≠ F_DIR ∧ mode ≠ F_BDEV ∧ mode ≠ F_CDEV then
    if ← yes (.incorrectType n ino.iMode) then do
      iwrite n { ino with iMode := 0, iNlink := 0 }
      pure true
    else pure false
  else pure false

/-- `while (o_offset >= 512)`, which an offset of 16 bits leaves after 63 rounds at most. -/
def carryOffset : (rounds : Nat) → Off → Off
  | 0, o => o
  | rounds + 1, o =>
    if 512 ≤ o.oOffset.toInt then carryOffset rounds ⟨o.oBlkno + 1, o.oOffset - 512⟩ else o

/-- `pass1` fixes an offset that is too big. -/
def fixBigOffset (n : Word) (ino : Dinode) : F Dinode := do
  if 512 ≤ ino.iSize.oOffset.toInt then
    if ← yes (.offsetTooBig n ino.iSize.oOffset) then do
      let ino := { ino with iSize := carryOffset 64 ino.iSize }
      iwrite n ino
      pure ino
    else pure ino
  else pure ino

/-- `pass1` fixes an offset that is negative. -/
def fixNegativeOffset (n : Word) (ino : Dinode) : F Dinode := do
  if ino.iSize.oOffset.toInt < 0 then
    if ← yes (.offsetNegative n ino.iSize.oOffset) then do
      let ino := { ino with iSize := ⟨ino.iSize.oBlkno, 0⟩ }
      iwrite n ino
      pure ino
    else pure ino
  else pure ino

/-- A block number that is not 0 and not in the data area. -/
def outOfRange (fs : Filesys) (b : Word) : Bool := b ≠ 0 ∧ (b < fs.sIsize ∨ fs.sFsize ≤ b)

/-- `pass1` zaps the address `i_addr[b]` of an inode, if it asks and the answer is yes. -/
def zapAddr (n : Word) (ino : Dinode) (b : Nat) (asks : Bool) (q : Question) : F Dinode := do
  if asks then
    if ← yes q then do
      let ino := ino.setAddr b 0
      iwrite n ino
      pure ino
    else pure ino
  else pure ino

/-- `pass1` checks the address of an indirect block. -/
def checkIndirect (n : Word) (ino : Dinode) (b : Nat) : F Dinode := do
  let ino ← zapAddr n ino b (outOfRange (← get).filsys (ino.addr b)) (.singlyOutOfRange n b (ino.addr b))
  let ino ← zapAddr n ino b (ino.addr b ≠ 0 ∧ ino.iSize.oBlkno < 18) (.singlyPastEnd n b (ino.addr b))
  if ino.addr b ≠ 0 then do
    setBitmap (ino.addr b) 1
    pure ino
  else pure ino

/-- `pass1` zaps entry `b` of the double indirect block in `readbuf`. The block goes to block `b` of the disk. -/
def zapDoubly (n : Word) (b : Nat) : F PUnit := do
  let s ← get
  if outOfRange s.filsys (s.readbuf.word b) then
    if ← yes (.doublyOutOfRange n b (s.readbuf.word b)) then do
      modifyReadbuf fun buf => buf.setWord b 0
      dwrite b (← get).readbuf
    else pure ⟨⟩
  else pure ⟨⟩

/-- `pass1` checks entry `b` of the double indirect block in `readbuf`. -/
def checkDoubly (n : Word) (b : Nat) : F PUnit := do
  zapDoubly n b
  let value := (← get).readbuf.word b
  if value ≠ 0 then setBitmap value 1 else pure ⟨⟩

/-- `pass1` zaps the logical block `bno`, which is block `b`. -/
def zapBlock (n : Word) (ino : Dinode) (bno b : Word) : F Dinode := do
  if outOfRange (← get).filsys b then
    if ← yes (.blockOutOfRange n bno b) then do
      let ino ← setblkno ino bno 0
      iwrite n ino
      pure ino
    else pure ino
  else pure ino

/-- `pass1` checks the logical block `bno`. -/
def checkBlock (n : Word) (ino : Dinode) (bno : Word) : F Dinode := do
  let b ← getblkno ino bno
  let ino ← zapBlock n ino bno b
  if b ≠ 0 then do
    setBitmap b 1
    pure ino
  else pure ino

/-- `pass1` checks the blocks of a file or a directory. -/
def checkBlocks (fuel : Nat) (n : Word) (ino : Dinode) : F PUnit := do
  let ino ← checkIndirect n ino 18
  let ino ← checkIndirect n ino 19
  if ino.addr 19 ≠ 0 then do
    daread (ino.addr 19)
    each (List.range 256) (checkDoubly n)
  emit (.blocks ino.iSize.oBlkno)
  let _ ← loop (fun p : Word × Dinode => p.1 ≤ p.2.iSize.oBlkno)
    (fun p => do
      let ino ← checkBlock n p.2 p.1
      pure (p.1 + 1, ino)) (halt .hang) fuel (0, ino)

/-- `pass1` checks inode `n`, and returns the count of the inodes in use. -/
def checkInode (fuel : Nat) (n icount : Word) : F Word := do
  let ino ← iread n
  setLinkmap n (-1)
  if ino.iMode = 0 then pure icount
  else if ← zapInode n ino then pure icount
  else do
    let mode := ino.iMode &&& F_MASK
    setLinkmap n 0
    let ino ← fixBigOffset n ino
    let ino ← fixNegativeOffset n ino
    if mode = F_REG ∨ mode = F_DIR then checkBlocks fuel n ino
    pure (icount + 1)

/-- `pass1` fixes the count of the free inodes. -/
def fixTinode (icount : Word) : F PUnit := do
  let fs := (← get).filsys
  let should := inodesEnd fs - ROOTINODE.toNat - icount.toNat
  if (fs.sTinode.toNat : Int) ≠ should then
    if ← yes (.freeInodeCount fs.sTinode should) then do
      modifyFilsys fun fs => { fs with sTinode := BitVec.ofInt 16 should }
      writeSuper
    else pure ⟨⟩
  else pure ⟨⟩

/-- `pass1`. -/
def pass1 (fuel : Nat) : F PUnit := do
  let fs := (← get).filsys
  let p ← loop (fun p : Word × Word => inodesLeft fs p.1)
    (fun p => do
      let icount ← checkInode fuel p.1 p.2
      pure (p.1 + 1, icount)) (halt .hang) fuel (ROOTINODE, 0)
  fixTinode p.2

/-! ## Pass 2 -/

/-- `pass2` stores a full `s_free` in block `j`. -/
def spill (j : Word) : F PUnit := do
  dwrite j ((← get).fsBlock 3)
  modifyFilsys fun fs => { fs with sNfree := 0 }

/-- `pass2` frees block `j`, if it is not in use. -/
def freeBlock (j : Word) : F PUnit := do
  if (← bitmapAt j) = 0 then do
    if (← get).filsys.sNfree = 50 then spill j
    modifyFilsys fun fs =>
      { fs.setFree fs.sNfree.toNat j with sTfree := fs.sTfree + 1, sNfree := fs.sNfree + 1 }
  else pure ⟨⟩

/-- `pass2`. -/
def pass2 (fuel : Nat) : F PUnit := do
  if ← yes .rebuildFreeList then do
    modifyFilsys fun fs => { fs.setFree 0 0 with sNinode := 0, sNfree := 1, sTfree := 0 }
    let fs := (← get).filsys
    let _ ← loop (fun j : Word => fs.sIsize ≤ j)
      (fun j => do
        freeBlock j
        pure (j - 1)) (halt .hang) fuel (fs.sFsize - 1)
    writeSuper
  else pure ⟨⟩

/-! ## Pass 3 -/

/-- `pass3` allocates a new block and copies block `b` to it. -/
def copyBlock (b : Word) : F Word := do
  let newno ← blkAlloc
  if newno = 0 then pure 0
  else do
    daread b
    dwrite newno (← get).readbuf
    pure newno

/-- `pass3` checks the address of an indirect block. -/
def uniqueIndirect (n : Word) (ino : Dinode) (b : Nat) : F Dinode := do
  let value := ino.addr b
  if value = 0 then pure ino
  else if (← bitmapAt value) = 0 then do
    setBitmap value 1
    pure ino
  else if ← yes (.indirectMultiply b n value) then do
    let newno ← copyBlock value
    if newno = 0 then pure ino
    else do
      let ino := ino.setAddr b newno
      iwrite n ino
      pure ino
  else pure ino

/-- `pass3` checks the logical block `bno`. -/
def uniqueBlock (n : Word) (ino : Dinode) (bno : Word) : F Dinode := do
  let b ← getblkno ino bno
  if b = 0 then pure ino
  else if (← bitmapAt b) = 0 then do
    setBitmap b 1
    pure ino
  else if ← yes (.blockMultiply bno n b) then do
    let newno ← copyBlock b
    if newno = 0 then pure ino
    else do
      let ino ← setblkno ino bno newno
      iwrite n ino
      pure ino
  else pure ino

/-- `pass3` checks inode `n`. -/
def uniqueInode (fuel : Nat) (n : Word) : F PUnit := do
  let ino ← iread n
  let mode := ino.iMode &&& F_MASK
  if mode ≠ F_REG ∧ mode ≠ F_DIR then pure ⟨⟩
  else do
    let ino ← uniqueIndirect n ino 18
    let ino ← uniqueIndirect n ino 19
    emit (.blocks ino.iSize.oBlkno)
    let _ ← loop (fun p : Word × Dinode => p.1 ≤ p.2.iSize.oBlkno)
      (fun p => do
        let ino ← uniqueBlock n p.2 p.1
        pure (p.1 + 1, ino)) (halt .hang) fuel (0, ino)

/-- `pass3`. -/
def pass3 (fuel : Nat) : F PUnit := do
  let fs := (← get).filsys
  let _ ← loop (fun b : Word => b < fs.sFsize)
    (fun b => do
      setBitmap b 0
      pure (b + 1)) (halt .hang) fuel fs.sIsize
  let _ ← loop (inodesLeft fs)
    (fun n => do
      uniqueInode fuel n
      pure (n + 1)) (halt .hang) fuel ROOTINODE

/-! ## Pass 4 -/

/-- `strncmp(d_name, name, 14) == 0`. -/
def isName (d : Direct) (name : List Byte) : Bool :=
  (List.range (name.length + 1)).all fun i => d.name i = name.getD i 0

/-- The bytes that `strcat(ename, d_name)` appends: where the name has no end, those behind it too. -/
def catName (stack : List Byte) (d : Direct) : List Byte :=
  let chars := (List.range 14).map d.name
  let name := chars.takeWhile (· ≠ 0)
  if name.length = 14 then name ++ stack else name

/-- `ckdir` rounds an improper length. -/
def fixLength (inum : Word) (ino : Dinode) : F Dinode := do
  if Int.tmod ino.iSize.oOffset.toInt 16 ≠ 0 then
    if ← yes .improperLength then do
      let ino := { ino with iSize := ⟨ino.iSize.oBlkno, (ino.iSize.oOffset &&& ~~~0x0f) + 1⟩ }
      iwrite inum ino
      pure ino
    else pure ino
  else pure ino

/-- `ckdir` zaps an entry, if it asks and the answer is yes, and says whether it has. -/
def zapEntry (ino : Dinode) (j : Word) (dentry : Direct) (asks : Bool) (q : Question) : F Bool := do
  if asks then
    if ← yes q then do
      dirwrite ino j { dentry with dIno := 0, dName := fun i => if i.val = 0 then 0 else dentry.dName i }
      pure true
    else pure false
  else pure false

/-- `ckdir` replaces a slash at `c`. -/
def fixSlash (ino : Dinode) (j : Word) (name : List Byte) (dentry : Direct) (c : Nat) : F Direct := do
  if dentry.name c = SLASH then
    if ← yes (.entrySlash name dentry) then do
      let dentry := { dentry with dName := fun i => if i.val = c then 0x58 else dentry.dName i }
      dirwrite ino j dentry
      pure dentry
    else pure dentry
  else pure dentry

/-- `ckdir` replaces the slashes from `c` on, of `count` more characters. -/
def fixSlashes (ino : Dinode) (j : Word) (name : List Byte) : (count c : Nat) → Direct → F Direct
  | 0, _, dentry => pure dentry
  | count + 1, c, dentry =>
    if dentry.name c = 0 then pure dentry
    else do
      let dentry ← fixSlash ino j name dentry c
      fixSlashes ino j name count (c + 1) dentry

/-- `ckdir` sets the inode number of `.` or `..`, if it asks and the answer is yes. -/
def fixDot (ino : Dinode) (j : Word) (dentry : Direct) (inum : Word) (asks : Bool) (q : Question) : F Direct := do
  if asks then
    if ← yes q then do
      let dentry := { dentry with dIno := inum }
      dirwrite ino j dentry
      pure dentry
    else pure dentry
  else pure dentry

/-- `ckdir` puts the path of an entry into `ename`. -/
def makePath (name : List Byte) (dentry : Direct) : F (List Byte) := do
  let ename := name ++ catName (← get).stack dentry ++ [SLASH]
  emit (.path ename)
  if ename.length < 150 then pure ename else halt .undefined

/-- `linkmap[i] == -1`, which is looked at when `i` is not 0. -/
def bogus (i : Word) : F Bool := do
  if i = 0 then pure false
  else do
    let links ← linkmapAt i
    pure (links = -1)

/-- `++linkmap[i]`. -/
def countLink (i : Word) : F PUnit := do
  let links ← linkmapAt i
  setLinkmap i (links + 1)

/-- `ckdir` checks entry `j`, `rec` being `ckdir` itself. -/
def ckentry (rec : Word → Word → List Byte → F PUnit) (inum pnum : Word) (name : List Byte) (ino : Dinode)
    (j : Word) : F PUnit := do
  let dentry ← dirread ino j
  if dentry.dIno = 0 then pure ⟨⟩
  else do
    let s ← get
    emit (.entry s.linkmap s.depth inum pnum name dentry)
    if ← zapEntry ino j dentry
        (dentry.dIno < ROOTINODE ∨ 8 * s.filsys.sIsize.toNat ≤ dentry.dIno.toNat) (.entryOutOfRange name dentry)
      then pure ⟨⟩
    else do
      let bogus ← bogus dentry.dIno
      if ← zapEntry ino j dentry bogus (.entryBogus name dentry) then pure ⟨⟩
      else do
        countLink dentry.dIno
        let dentry ← fixSlashes ino j name 14 0 dentry
        let dentry ← fixDot ino j dentry inum (isName dentry [0x2e] ∧ dentry.dIno ≠ inum) (.dotWrong name dentry)
        let dentry ← fixDot ino j dentry pnum (isName dentry [0x2e, 0x2e] ∧ dentry.dIno ≠ pnum)
          (.dotDotWrong name dentry)
        if dentry.dIno ≠ pnum ∧ dentry.dIno ≠ inum ∧ (← get).depth < MAXDEPTH then do
          let ename ← makePath name dentry
          rec dentry.dIno inum ename

/-- `ckdir`, for `levels` more calls inside each other. -/
def ckdir (fuel : Nat) : (levels : Nat) → (inum pnum : Word) → (name : List Byte) → F PUnit
  | 0, _, _, _ => halt .hang
  | levels + 1, inum, pnum, name => do
    let ino ← iread inum
    if ino.iMode &&& F_MASK ≠ F_DIR then pure ⟨⟩
    else do
      modify fun s => { s with depth := s.depth + 1 }
      let ino ← fixLength inum ino
      let nentries := 8 * (ino.iSize.oBlkno.toNat : Int) + Int.tdiv ino.iSize.oOffset.toInt 16
      let _ ← loop (fun j : Word => (j.toNat : Int) < nentries)
        (fun j => do
          ckentry (ckdir fuel levels) inum pnum name ino j
          pure (j + 1)) (halt .hang) fuel 0
      modify fun s => { s with depth := s.depth - 1 }

/-- `pass4`. -/
def pass4 (fuel : Nat) : F PUnit := do
  modify fun s => { s with depth := 0 }
  setLinkmap ROOTINODE 1
  ckdir fuel MAXDEPTH ROOTINODE ROOTINODE [SLASH]
  if (← get).depth ≠ 0 then halt .inconsistentDepth

/-! ## Pass 5 -/

/-- The name that `sprintf` makes of `"l+f%d"`, and what the 14 bytes held behind it. -/
def lostName (inum : Word) (old : Fin 14 → Byte) : Fin 14 → Byte :=
  let name := [0x6c, 0x2b, 0x66] ++ (Nat.toDigits 10 inum.toNat).map fun c => BitVec.ofNat 8 c.toNat
  fun i => if i.val < name.length then name.getD i 0 else if i.val = name.length then 0 else old i

/-- `mkentry` looks at the entries of the root directory from `d` on. -/
def mkentryFrom (inum : Word) (rootino : Dinode) (more : Word → Bool) : (fuel : Nat) → Word → F PUnit
  | 0, d => if more d then halt .hang else pure ⟨⟩
  | fuel + 1, d =>
    if more d then do
      let dentry ← dirread rootino d
      if dentry.dIno = 0 ∧ dentry.name 0 = 0 then
        dirwrite rootino d { dentry with dIno := inum, dName := lostName inum dentry.dName }
      else mkentryFrom inum rootino more fuel (d + 1)
    else pure ⟨⟩

/-- `mkentry`. -/
def mkentry (fuel : Nat) (inum : Word) : F PUnit := do
  let rootino ← iread ROOTINODE
  let size := rootino.iSize
  mkentryFrom inum rootino
    (fun d => (d.toNat : Int) < 32 * (size.oBlkno.toNat : Int) + Int.tdiv size.oOffset.toInt 16) fuel 0

/-- `pass5` fixes a link count. -/
def fixLinkCount (n : Word) (ino : Dinode) (links : Word) : F Dinode := do
  if 0 < links.toInt ∧ (ino.iNlink.toNat : Int) ≠ links.toInt then
    if ← yes (.linkCount n ino.iNlink links) then do
      let ino := { ino with iNlink := links }
      iwrite n ino
      pure ino
    else pure ino
  else pure ino

/-- `pass5` zaps an inode without a link, or enters it in the root directory. -/
def attach (fuel : Nat) (n : Word) (ino : Dinode) : F PUnit := do
  let mode := ino.iMode &&& F_MASK
  if mode = F_BDEV ∨ mode = F_CDEV ∨ ino.iSize.oBlkno = 0 ∧ ino.iSize.oOffset = 0 then
    if ← yes (.uselessDetached n ino.iMode ino.iNlink) then do
      iwrite n { ino with iNlink := 0, iMode := 0 }
      modifyFilsys fun fs => { fs with sTinode := fs.sTinode + 1 }
      writeSuper
    else pure ⟨⟩
  else if ← yes (.detached n ino.iNlink) then do
    iwrite n { ino with iNlink := 1 }
    mkentry fuel n
  else pure ⟨⟩

/-- `pass5` checks inode `n`. -/
def checkLinks (fuel : Nat) (n : Word) : F PUnit := do
  let ino ← iread n
  let links ← linkmapAt n
  if ino.iMode = 0 then
    if links ≠ -1 then halt .inconsistentLinkmap else pure ⟨⟩
  else if links = -1 then halt .inconsistentLinkmap
  else do
    let ino ← fixLinkCount n ino links
    if links = 0 then attach fuel n ino else pure ⟨⟩

/-- `pass5`. -/
def pass5 (fuel : Nat) : F PUnit := do
  let fs := (← get).filsys
  let _ ← loop (inodesLeft fs)
    (fun n => do
      checkLinks fuel n
      pure (n + 1)) (halt .hang) fuel ROOTINODE

/-! ## The program -/

/-- The variables before anything has been done. -/
def State.start (image : Image) (answers : Nat → Bool) : State where
  image := image
  readbuf := Block.zero
  filsys := Filesys.ofBlock Block.zero
  fsTail := fun _ => 0
  bitmap := fun _ => 0
  linkmap := fun _ => 0
  depth := 0
  answers := answers
  stack := []
  events := []

/-- `main` reads the superblock, of which `struct filesys` has 116 words, and clears the maps. -/
def readSuper : F PUnit := do
  daread 1
  modify fun s =>
    { s with
      filsys := Filesys.ofBlock s.readbuf
      fsTail := fun k => if k < 116 then s.readbuf.word k else 0 }

/-- `main` sets the magic number. -/
def fixMagic : F PUnit := do
  let fs := (← get).filsys
  if fs.sMounted ≠ SMOUNTED then
    if ← yes (.invalidMagic fs.sMounted) then do
      modifyFilsys fun fs => { fs with sMounted := SMOUNTED }
      writeSuper
    else halt .exit
  else pure ⟨⟩

/-- `main`, on an image that can be opened. -/
def main (fuel : Nat) : F PUnit := do
  readSuper
  fixMagic
  let fs := (← get).filsys
  if ← yes (.sizes fs.sFsize fs.sIsize) then do
    modify fun s => { s with bitmap := fun _ => 0, linkmap := fun _ => 0 }
    pass1 fuel
    pass2 fuel
    pass3 fuel
    pass4 fuel
    pass5 fuel
  else halt .exit

end Fsck
end Uzi
