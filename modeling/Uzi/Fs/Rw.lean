import Uzi.Fs.Inodes

/-!
# Reading and writing

The part of `kernel/scall1.c` that transfers data: `readi`, `writei`, and `_read` and `_write` on top of
them. On the NES a `uint16` that becomes an `int` may turn negative, in `fsutil` it does not, and so the
arithmetic depends on the target.

A transfer that calls `psleep` does not return. When the process is resumed it goes on at the test of the
`while` loop, with nothing changed that it has read before: this is the transfer from its start.
-/

namespace Uzi
open Exec

/-! ## Arithmetic -/

/-- A `uint16` as an `int`. -/
def cint (t : Target) (x : Word) : Int :=
  match t with
  | .nes => x.toInt
  | .fsutil => x.toNat

/-- The negative of a `uint16` as an `int`. -/
def cneg (t : Target) (x : Word) : Int :=
  match t with
  | .nes => (-x).toInt
  | .fsutil => -x.toNat

/-- `psize`, of the size of an inode. -/
def psize (t : Target) (size : Off) : Int :=
  match t with
  | .nes => (512 * size.oBlkno + size.oOffset).toInt
  | .fsutil => 512 * (size.oBlkno.toNat : Int) + size.oOffset.toInt

/-- The negative of an `int`. -/
def intNeg (t : Target) (x : Int) : Int :=
  match t with
  | .nes => (BitVec.ofInt 16 (-x)).toInt
  | .fsutil => -x

/-- `addoff`. -/
def addoff (t : Target) (o : Off) (amount : Int) : Off :=
  if 0 ≤ amount then
    let offset := o.oOffset + BitVec.ofInt 16 (amount % 512)
    let blocks := BitVec.ofInt 16 (amount / 512)
    if 512 ≤ offset.toInt then ⟨o.oBlkno + 1 + blocks, offset - 512⟩
    else ⟨o.oBlkno + blocks, offset⟩
  else
    let offset := o.oOffset - BitVec.ofInt 16 ((intNeg t amount).tmod 512)
    let blocks := BitVec.ofInt 16 ((intNeg t amount).tdiv 512)
    if offset.toInt < 0 then ⟨o.oBlkno - 1 - blocks, offset + 512⟩
    else ⟨o.oBlkno - blocks, offset⟩

/-- `min(n, 512 - offset)`, the bytes of the next round of a transfer. -/
def chunk (t : Target) (n offset : Word) : Word :=
  match t with
  | .nes => BitVec.ofInt 16 (min n.toInt (512 - offset).toInt)
  | .fsutil => BitVec.ofInt 16 (min (n.toNat : Int) (512 - offset.toInt))

/-- The bytes that the end of a regular file or directory leaves to a read of `count` bytes. -/
def readLimit (t : Target) (count : Word) (size off : Off) : Word :=
  match t with
  | .nes =>
    let blocks := size.oBlkno - off.oBlkno
    if 64 ≤ blocks.toNat then count
    else BitVec.ofInt 16 (min count.toInt (512 * blocks + (size.oOffset - off.oOffset)).toInt)
  | .fsutil =>
    let blocks := (size.oBlkno.toNat : Int) - off.oBlkno.toNat
    if 64 ≤ blocks then count
    else BitVec.ofInt 16 (min (count.toNat : Int)
      (512 * blocks + (size.oOffset.toInt - off.oOffset.toInt)))

/-- Whether `count` bytes have no room in a pipe of `p` bytes. -/
def pipeFull (t : Target) (count : Word) (p : Int) : Bool :=
  match t with
  | .nes => (BitVec.ofInt 16 (16 * 512 - p)).toNat < count.toNat
  | .fsutil => 16 * 512 - p < (count.toNat : Int)

/-! ## Moving bytes -/

/-- The block with the bytes from `off` to `off + n` replaced. -/
def Block.setBytes (b : Block) (off n : Nat) (f : Nat → Byte) : Block :=
  ofBytes fun i => if off ≤ i ∧ i < off + n then f (i - off) else b.byte i

/-- The bytes of a block after some have been set. -/
lemma byte_setBytes {x : Block} {off n i : Nat} {f : Nat → Byte} (hi : i < 512) :
    (x.setBytes off n f).byte i = if off ≤ i ∧ i < off + n then f (i - off) else x.byte i :=
  Block.byte_ofBytes hi

/-- The memory with the bytes from `base` to `base + n` replaced. -/
def putBytes (mem : Nat → Byte) (base n : Nat) (f : Nat → Byte) : Nat → Byte := fun a =>
  if base ≤ a ∧ a < base + n then f (a - base) else mem a

/-- Whether `amount` bytes from `offset` on are not all in a block. -/
def outside (offset amount : Word) : Prop :=
  amount ≠ 0 ∧ (offset.toInt < 0 ∨ 512 < offset.toInt + amount.toNat)

instance {offset amount : Word} : Decidable (outside offset amount) := by
  unfold outside
  infer_instance

/-- `bcopy(bp + u_offset.o_offset, u_base, amount)`. -/
def copyOut (bp : Bufptr) (amount : Word) : K PUnit := do
  let s ← get
  let offset := s.udata.uOffset.oOffset
  if outside offset amount then throw .undefined
  else modifyUdata fun u =>
    { u with mem := putBytes u.mem u.uBase amount.toNat fun i => (s.buf bp).bfData.byte (offset.toNat + i) }

/-- `bcopy(u_base, bp + u_offset.o_offset, amount)`. -/
def copyIn (bp : Bufptr) (amount : Word) : K PUnit := do
  let s ← get
  let u := s.udata
  let offset := u.uOffset.oOffset
  if outside offset amount then throw .undefined
  else fill bp ((s.buf bp).bfData.setBytes offset.toNat amount.toNat fun i => u.mem (u.uBase + i))

/-- `u_base += amount; addoff(&u_offset, amount)`. -/
def advance (amount : Word) : K PUnit := do
  let t := (← get).target
  modifyUdata fun u =>
    { u with uBase := u.uBase + amount.toNat, uOffset := addoff t u.uOffset (cint t amount) }

/-- The file offset of a pipe goes round after 18 blocks. -/
def wrapOffset : K PUnit :=
  modifyUdata fun u =>
    if 18 ≤ u.uOffset.oBlkno then { u with uOffset := { u.uOffset with oBlkno := 0 } } else u

/-- `addoff(&ino->c_node.i_size, amount)`. -/
def addSize (ino : Inoptr) (amount : Int) : K PUnit := do
  let t := (← get).target
  modifyInode ino fun c => { c with cNode := { c.cNode with iSize := addoff t c.cNode.iSize amount } }

/-! ## Character devices -/

/-- `cdread` and `cdwrite`. -/
def cdTransfer (dev : Word) (write : Bool) : K Word := do
  if ¬ validdev dev.toNat then throw .undefined
  else if ¬ dev.toNat < NDEVS then throw .undefined
  else do
    let s ← get
    let (v, n) := s.chardev dev.toNat write s.udata
    modifyUdata fun u => { u with uBase := v.uBase, uCount := v.uCount, mem := v.mem, uError := v.uError }
    pure n

/-- A transfer of a character device. On the NES a count of -1 stands for an error. -/
def cdevTransfer (ino : Inoptr) (write : Bool) : K PUnit := do
  let n ← cdTransfer (((← get).iTab ino).cNode.addr 0) write
  modifyUdata fun u => { u with uCount := n }
  let t := (← get).target
  if t = .fsutil ∨ n ≠ 0xffff then
    modifyUdata fun u => { u with uOffset := addoff t u.uOffset (cint t n) }

/-! ## Transfers -/

/-- How a transfer ends: it returns, or the process sleeps in it and takes it up again when it is
resumed. -/
inductive Progress
  | returned | asleep
  deriving DecidableEq, Repr

/-- The loop of `readi`. A round in which no byte is left in the block repeats for ever, and any other
one moves at least one of the `toread` bytes. -/
def readLoop (ino : Inoptr) (dev : Nat) (ispipe : Bool) : (rounds : Nat) → (toread : Word) → K PUnit
  | 0, toread => if toread = 0 then pure ⟨⟩ else throw .hang
  | rounds + 1, toread =>
    if toread = 0 then pure ⟨⟩
    else do
      let pblk ← bmap ino ((← get).udata.uOffset.oBlkno) true
      let bp ← if pblk ≠ NULLBLK then breadPtr dev pblk 0 else zerobuf
      let s ← get
      let amount := chunk s.target toread s.udata.uOffset.oOffset
      copyOut bp amount
      brelse bp
      advance amount
      if ispipe then do
        wrapOffset
        addSize ino (cneg s.target amount)
        wakeup (.inode ino)
      readLoop ino dev ispipe rounds (toread - amount)

/-- `readi`. -/
def readi (ino : Inoptr) : K Progress := do
  let s ← get
  let c := s.iTab ino
  let u := s.udata
  if c.getmode = F_DIR ∨ c.getmode = F_REG then do
    let toread := readLimit s.target u.uCount c.cNode.iSize u.uOffset
    modifyUdata fun u => { u with uCount := toread }
    readLoop ino c.cDev false toread.toNat toread
    pure .returned
  else if c.getmode = F_PIPE then
    let size := psize s.target c.cNode.iSize
    if size = 0 ∧ c.cRefs ≠ 1 then do
      psleep (.inode ino)
      pure .asleep
    else do
      let toread := BitVec.ofInt 16 (min (cint s.target u.uCount) size)
      modifyUdata fun u => { u with uCount := toread }
      readLoop ino c.cDev true toread.toNat toread
      pure .returned
  else if c.getmode = F_BDEV then do
    readLoop ino (c.cNode.addr 0).toNat false u.uCount.toNat u.uCount
    pure .returned
  else if c.getmode = F_CDEV then do
    cdevTransfer ino false
    pure .returned
  else do
    setError .enodev
    pure .returned

/-- The loop of `writei`, which ends when there is no space for a block. -/
def writeLoop (ino : Inoptr) (dev : Nat) (ispipe : Bool) : (rounds : Nat) → (towrite : Word) → K PUnit
  | 0, towrite => if towrite = 0 then pure ⟨⟩ else throw .hang
  | rounds + 1, towrite =>
    if towrite = 0 then pure ⟨⟩
    else do
      let s ← get
      let amount := chunk s.target towrite s.udata.uOffset.oOffset
      let pblk ← bmap ino s.udata.uOffset.oBlkno false
      if pblk = NULLBLK then pure ⟨⟩
      else do
        let bp ← breadPtr dev pblk (if amount = 512 then 1 else 0)
        copyIn bp amount
        bawrite bp
        advance amount
        if ispipe then do
          wrapOffset
          addSize ino (cint s.target amount)
          wakeup (.inode ino)
        writeLoop ino dev ispipe rounds (towrite - amount)

/-- The end of `writei` for files other than pipes: the size grows with the file. -/
def growSize (ino : Inoptr) : K PUnit := do
  let s ← get
  let off := s.udata.uOffset
  let size := (s.iTab ino).cNode.iSize
  if size.oBlkno < off.oBlkno ∨
      (off.oBlkno = size.oBlkno ∧ size.oOffset.toInt < off.oOffset.toInt) then
    modifyInode ino fun c => { c with cNode := { c.cNode with iSize := off }, cDirty := true }

/-- `writei`. -/
def writei (ino : Inoptr) : K Progress := do
  let s ← get
  let c := s.iTab ino
  let u := s.udata
  if c.getmode = F_BDEV then do
    writeLoop ino (c.cNode.addr 0).toNat false u.uCount.toNat u.uCount
    growSize ino
    pure .returned
  else if c.getmode = F_DIR ∨ c.getmode = F_REG then do
    writeLoop ino c.cDev false u.uCount.toNat u.uCount
    growSize ino
    pure .returned
  else if c.getmode = F_PIPE then
    if pipeFull s.target u.uCount (psize s.target c.cNode.iSize) then
      if c.cRefs = 1 then do
        modifyUdata fun u => { u with uCount := 0xffff, uError := .epipe }
        ssig u.uPtab SIGPIPE
        pure .returned
      else do
        psleep (.inode ino)
        pure .asleep
    else do
      writeLoop ino c.cDev true u.uCount.toNat u.uCount
      pure .returned
  else if c.getmode = F_CDEV then do
    cdevTransfer ino true
    pure .returned
  else do
    setError .enodev
    pure .returned

/-! ## System calls -/

/-- `u_files[d]`, for a `d` in bounds. -/
def UData.file (u : UData) (d : Word) : Byte :=
  if h : d.toNat < UFTSIZE then u.uFiles ⟨d.toNat, h⟩ else 0xff

/-- `of_tab + u_files[d]`, for a `d` that `getinode` has checked. -/
def UData.ofIndex (u : UData) (d : Word) : Fin OFTSIZE := Fin.ofNat OFTSIZE (u.file d).toNat

/-- `getinode`. -/
def getinode (uindex : Word) : K (Option Inoptr) := do
  let s ← get
  if uindex.toInt < 0 ∨ (UFTSIZE : Int) ≤ uindex.toInt ∨ s.udata.file uindex &&& 0x80 ≠ 0 then do
    setError .ebadf
    pure none
  else if ¬ (s.udata.file uindex).toNat < OFTSIZE then throw .getinodeBadDescTable
  else
    match (s.ofTab (s.udata.ofIndex uindex)).oInode with
    | none => throw .getinodeBadOft
    | some inoindex => do
      magic inoindex
      pure (some inoindex)

/-- `rwsetup`. -/
def rwsetup (d : Word) (buf : Nat) (nbytes : Word) (rwflag : Bool) : K (Option Inoptr) := do
  modifyUdata fun u => { u with uBase := buf, uCount := nbytes }
  match ← getinode d with
  | none => pure none
  | some ino => do
    let s ← get
    let oftp := s.ofTab (s.udata.ofIndex d)
    if oftp.oAccess = (if rwflag then .wronly else .rdonly) then do
      setError .ebadf
      pure none
    else do
      setftime ino (if rwflag then A_TIME else A_TIME ||| M_TIME ||| C_TIME)
      modifyUdata fun u => { u with uOffset := oftp.oPtr }
      pure (some ino)

/-- `updoff`. -/
def updoff (d : Word) : K PUnit := do
  let u := (← get).udata
  modifyOft (u.ofIndex d) fun o => { o with oPtr := u.uOffset }

/-- `_read` from the call of `readi` on. It gives nothing when the process sleeps. -/
def readFrom (d : Word) (ino : Inoptr) : K (Option Word) := do
  match ← readi ino with
  | .asleep => pure none
  | .returned => do
    updoff d
    pure (some (← get).udata.uCount)

/-- `_write` from the call of `writei` on. -/
def writeTo (d : Word) (ino : Inoptr) : K (Option Word) := do
  match ← writei ino with
  | .asleep => pure none
  | .returned => do
    updoff d
    pure (some (← get).udata.uCount)

/-- `_read`. -/
def _read (d : Word) (buf : Nat) (nbytes : Word) : K (Option Word) := do
  match ← rwsetup d buf nbytes true with
  | none => pure (some 0xffff)
  | some ino => readFrom d ino

/-- `_write`. -/
def _write (d : Word) (buf : Nat) (nbytes : Word) : K (Option Word) := do
  match ← rwsetup d buf nbytes false with
  | none => pure (some 0xffff)
  | some ino => writeTo d ino

end Uzi
