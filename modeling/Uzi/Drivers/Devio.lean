import Uzi.Kernel

/-!
# The block buffers

`drivers/devio.c`: `bread`, `bfree` and the rest of the buffer pool, and the block device
interface below it. `validdev` accepts every device number, so that a number outside `dev_tab`
makes the kernel jump through whatever lies behind the table.
-/

namespace Uzi
open Exec

/-- `validdev`. -/
def validdev (_dev : Nat) : Bool := true

/-- `bdread`: -1 when the driver reports an error. -/
def bdread (bp : Bufptr) : K Int := do
  let s ← get
  let b := s.buf bp
  if ¬ validdev b.bfDev then throw .bdreadInvalidDev
  else if ¬ b.bfDev < NDEVS then throw .undefined
  else if s.bufs.rdErr b.bfDev b.bfBlk then pure (-1)
  else do
    modifyBuf bp fun b => { b with bfData := s.bufs.disk b.bfDev b.bfBlk }
    pure 0

/-- `bdwrite`: -1 when the driver reports an error. -/
def bdwrite (bp : Bufptr) : K Int := do
  let s ← get
  let b := s.buf bp
  if ¬ validdev b.bfDev then throw .bdwriteInvalidDev
  else if ¬ b.bfDev < NDEVS then throw .undefined
  else if s.bufs.wrErr b.bfDev b.bfBlk then pure (-1)
  else do
    modify fun s => { s with bufs := s.bufs.write b.bfDev b.bfBlk b.bfData }
    pure 0

/-- `bfind`: the first buffer of that name. -/
def bfind (s : Bufs) (dev : Nat) (blk : Word) : Option Bufptr :=
  (List.finRange NBUFS).find? fun bp => (s.bufpool bp).bfDev = dev ∧ (s.bufpool bp).bfBlk = blk

/-- One round of the search of `freebuf` for the buffer that is longest unused. -/
def freebufRound (s : Bufs) (acc : Option Bufptr × Word) (bp : Bufptr) : Option Bufptr × Word :=
  let time := s.bufclock - (s.bufpool bp).bfTime
  if acc.2 ≤ time ∧ ¬ (s.bufpool bp).bfBusy then (some bp, time) else acc

/-- The buffer that `freebuf` finds, if one is not busy. -/
def oldest (s : Bufs) : Option Bufptr :=
  ((List.finRange NBUFS).foldl (freebufRound s) (none, 0)).1

/-- `freebuf`. -/
def freebuf : K Bufptr := do
  match oldest (← get).bufs with
  | none => throw .noFreeBuffers
  | some oldest =>
    if ((← get).buf oldest).bfDirty ≠ 0 then do
      if (← bdwrite oldest) = -1 then setError .eio
      modifyBuf oldest fun b => { b with bfDirty := 0 }
      pure oldest
    else pure oldest

/-- The end of `bread`: the buffer is made busy and stamped. -/
def breadDone (bp : Bufptr) : K (Option Bufptr) := do
  modify fun s => { s with bufs := { s.bufs with bufclock := s.bufs.bufclock + 1 } }
  let s ← get
  modifyBuf bp fun b => { b with bfBusy := true, bfTime := s.bufs.bufclock }
  pure (some bp)

/-- `bread`. -/
def bread (dev : Nat) (blk : Word) (rewrite : Nat) : K (Option Bufptr) := do
  match bfind (← get).bufs dev blk with
  | some bp =>
    if ((← get).buf bp).bfBusy then throw .wantBusyBlock
    else breadDone bp
  | none =>
    let bp ← freebuf
    modifyBuf bp fun b => { b with bfDev := dev % 256, bfBlk := blk }
    if rewrite = 0 then
      if (← bdread bp) = -1 then do
        setError .eio
        pure none
      else breadDone bp
    else if rewrite = 2 then do
      modifyBuf bp fun b => { b with bfData := Block.zero }
      breadDone bp
    else breadDone bp

/-- `bread` for a caller that uses the buffer without a look at the pointer. -/
def breadPtr (dev : Nat) (blk : Word) (rewrite : Nat) : K Bufptr := do
  match ← bread dev blk rewrite with
  | some bp => pure bp
  | none => throw .undefined

/-- `bfree`. -/
def bfree (bp : Bufptr) (dirty : Byte) : K Int := do
  modifyBuf bp fun b => { b with bfDirty := b.bfDirty ||| dirty, bfBusy := false }
  if dirty = 2 then do
    if (← bdwrite bp) = -1 then setError .eio
    modifyBuf bp fun b => { b with bfDirty := 0 }
    pure (-1)
  else pure 0

/-- `brelse`. -/
def brelse (bp : Bufptr) : K PUnit := do
  let _ ← bfree bp 0

/-- `bawrite`. -/
def bawrite (bp : Bufptr) : K PUnit := do
  let _ ← bfree bp 1

/-- `zerobuf`. The buffer is not made busy. -/
def zerobuf : K Bufptr := do
  let bp ← freebuf
  modifyBuf bp fun b => { b with bfDev := NODEV, bfData := Block.zero }
  pure bp

/-- One round of `bufsync`. `bf_dev` is an unsigned `char`, so that it differs from -1 always. -/
def bufsyncRound (bp : Bufptr) : K PUnit := do
  if ((← get).buf bp).bfDirty ≠ 0 then
    let _ ← bdwrite bp

/-- `bufsync`. -/
def bufsync : K PUnit := each (List.finRange NBUFS) bufsyncRound

/-- `bufinit`. -/
def bufinit : K PUnit :=
  each (List.finRange NBUFS) fun bp => modifyBuf bp fun b => { b with bfDev := NODEV }

/-- Overwrites the data of a buffer, as its holder does. -/
def fill (bp : Bufptr) (x : Block) : K PUnit :=
  modifyBuf bp fun b => { b with bfData := x }

/-- `d_open`: the drivers of `dev_tab` all report success. -/
def dOpen (dev : Nat) : K Int := do
  if ¬ validdev dev then pure (-1)
  else if dev < NDEVS then pure 0
  else throw .undefined

/-- `d_close`. -/
def dClose (dev : Nat) : K PUnit := do
  if ¬ validdev dev then throw .dCloseBadDevice
  else if dev < NDEVS then pure ⟨⟩
  else throw .undefined

end Uzi
