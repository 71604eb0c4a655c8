import Uzi.Lib.Interrupts
import Uzi.Drivers.Ppuwd

/-!
# The PPU code statement by statement

The console of `ppu/ppu_databuf.c` and the disk driver of `drivers/devppuwd.c` as programs of single
statements, with `handle_vblank` as the handler that may come in between any two of them. Statements
on local variables alone are not steps of their own. Three journals are kept: the descriptors put
into the buffer, the descriptors that `process_ppubuf` has performed with the bytes it fetched for
them, and the chunks that `ppuwd_read` has copied out of `ppu_readbuf`.
-/

namespace Uzi.Ppu
open Interrupts Cmd

/-- The rows that are to be seen. -/
def SCREEN_VIS_ROWS : Nat := 28
/-- The rows of a nametable. -/
def SCREEN_ROWS : Nat := 30
/-- The columns of a row. -/
def SCREEN_COLS : Nat := 32
/-- The characters of a nametable. -/
def SCREEN_SIZE : Nat := SCREEN_ROWS * SCREEN_COLS
/-- The characters that are to be seen. -/
def SCREEN_VIS_SIZE : Nat := SCREEN_VIS_ROWS * SCREEN_COLS
/-- The lines of pixels of a row. -/
def SCREEN_ROW_PX : Nat := 8
/-- The address of the first row that is to be seen. -/
def PPU_FIRST_VIS_ROW : Word := 0x2020
/-- The address of the first nametable. -/
def PPU_TABLE0_ADDR : Word := 0x2000
/-- The address of the second nametable. -/
def PPU_TABLE1_ADDR : Word := 0x2800

/-- The cursor and the scroll position. -/
structure Screen where
  curScreenPtr : Word
  curNametablePos : Nat
  scrollStarted : Bool
  curNametable : Byte
  yScrollCoarse : Byte
  yScrollFine : Nat

/-- A descriptor in the buffer and its payload. -/
structure Entry where
  desc : PpuDesc
  data : List Byte

/-- A descriptor that has been performed: the accesses, and the bytes they fetched. -/
structure Processed where
  ops : List PpuOp
  fetched : List Byte

/-- A pass of `ppuwd_read` that is over: its descriptor, the number of that descriptor in the queue,
and the bytes that the pass has put into the block buffer. -/
structure Copied where
  desc : PpuDesc
  number : Nat
  bytes : List Byte

/-- The variables of the PPU code, with the block buffer `udata.u_buf->bf_data` and the journals.
`eagain` says that `__queue_descriptor` has returned `-EAGAIN`. -/
structure Vars extends Databuf where
  ppuReadbuf : Nat → Byte
  frameWaitSleep : Bool
  screen : Screen
  eagain : Bool
  bfData : Nat → Byte
  queued : List Entry
  processed : List Processed
  copied : List Copied

/-- The variables after `init_ppu`. -/
def booted : Vars where
  ppuDatabuf := fun _ => 0
  databufPos := 0
  ppuReadbufDirty := 0
  ppuLocked := false
  ppuReadbuf := fun _ => 0
  frameWaitSleep := false
  screen := ⟨PPU_FIRST_VIS_ROW, SCREEN_COLS, false, 0, 0, 1⟩
  eagain := false
  bfData := fun _ => 0
  queued := []
  processed := []
  copied := []

/-! ## `handle_vblank` -/

/-- The byte that an access fetches, where `PPU_DATA` delivers `data x` for X = `x`. -/
def PpuOp.fetches (data : Byte → Byte) : PpuOp → Option Byte
  | .fetch x => some (data x)
  | _ => none

/-- `ppu_readbuf` after an access. -/
def PpuOp.readbuf (data : Byte → Byte) (buf : Nat → Byte) : PpuOp → Nat → Byte
  | .fetch x => Function.update buf x.toNat (data x)
  | _ => buf

/-- What one round does to the variables. -/
def Round.perform (data : Byte → Byte) (r : Round) (s : Vars) : Vars :=
  { s with
    ppuReadbuf := r.ops.foldl (PpuOp.readbuf data) s.ppuReadbuf
    processed := s.processed ++ [⟨r.ops, r.ops.filterMap (PpuOp.fetches data)⟩] }

/-- The rounds of one `process_ppubuf`; in the `i`th of them `PPU_DATA` delivers `data i`. -/
def performAll (data : Nat → Byte → Byte) : List Round → Vars → Vars
  | [], s => s
  | r :: rs, s => performAll (fun i => data (i + 1)) rs (r.perform (data 0) s)

/-- `handle_vblank`; `ppu_reset` writes PPU registers only. There is no result if `process_ppubuf`
does not find the end of the buffer. -/
def handleVblank (data : Nat → Byte → Byte) (s : Vars) : Option Vars :=
  if s.ppuLocked then some s
  else
    (processPpubuf s.toDatabuf).map fun p =>
      { performAll data p.1 s with toDatabuf := p.2, frameWaitSleep := false }

/-- A vblank NMI, whatever the PPU delivers. -/
def Vblank (s s' : Vars) : Prop := ∃ data, handleVblank data s = some s'

/-! ## `ppu/ppu.c` and `ppu/ppu_databuf.c` -/

namespace Code

/-- `ppu_lock`. -/
def ppuLock : Cmd Vars :=
  seq (ite (·.ppuLocked) fail skip) (set fun s => { s with ppuLocked := true })

/-- `ppu_unlock`. -/
def ppuUnlock : Cmd Vars := set fun s => { s with ppuLocked := false }

/-- `wait_frame`. -/
def waitFrame : Cmd Vars :=
  seq (set fun s => { s with frameWaitSleep := true }) (loop (·.frameWaitSleep) skip)

/-- `bcopy(src, ppu_databuf + databuf_pos, n)`. -/
def bcopyIn (src : Nat → Byte) (n : Nat) : Cmd Vars :=
  forUp (fun i => set fun s =>
    { s with ppuDatabuf := Function.update s.ppuDatabuf (s.databufPos + i) (src i) }) n

/-- The position in the buffer goes on. -/
def advance (n : Nat) : Cmd Vars := set fun s => { s with databufPos := s.databufPos + n }

/-- The end of `__queue_descriptor`: it unlocks and returns 0 or `-EAGAIN`. -/
def unlockReturn (again : Bool) : Cmd Vars :=
  seq ppuUnlock (set fun s => { s with eagain := again })

/-- The copies of `__queue_descriptor`. The terminator makes the descriptor an entry of the queue. -/
def append (desc : PpuDesc) (data : Nat → Byte) : Cmd Vars :=
  let datalen := (descDatalen desc).toNat
  seq (bcopyIn (fun i => desc.bytes.getD i 0) DESC_SIZE) <|
  seq (advance DESC_SIZE) <|
  seq (if datalen = 0 then skip else seq (bcopyIn data datalen) (advance datalen)) <|
  set fun s => { s with
    ppuDatabuf := Function.update s.ppuDatabuf s.databufPos 0
    queued := s.queued ++ [⟨desc, (List.range datalen).map data⟩] }

/-- `__queue_descriptor`. -/
def tryQueueDescriptor (desc : PpuDesc) (data : Nat → Byte) : Cmd Vars :=
  seq ppuLock <|
  ite (fun s => s.databufPos + DESC_SIZE + (descDatalen desc).toNat + 1 > PPU_BUF_SIZE)
    (unlockReturn true) <|
  look fun s =>
    match calcDescWeight desc s.toDatabuf with
    | .error _ => fail
    | .ok (weight, _) =>
      if weight + BASE_PPU_LOOP_CYCLES > PPU_LOOP_MAX_CYCLES then unlockReturn true
      else seq (append desc data) (unlockReturn false)

/-- `queue_descriptor`. -/
def queueDescriptor (desc : PpuDesc) (data : Nat → Byte) : Cmd Vars :=
  seq (tryQueueDescriptor desc data)
    (loop (·.eagain) (seq waitFrame (tryQueueDescriptor desc data)))

/-- An assignment to the variables of the screen. -/
def onScreen (f : Screen → Screen) : Cmd Vars := set fun s => { s with screen := f s.screen }

/-- `swap_nametable`. -/
def swapNametable : Cmd Vars :=
  seq (onScreen fun t => { t with curNametablePos := 0 }) <|
  ite (fun s => s.screen.curNametable = 0)
    (seq (onScreen fun t => { t with curNametable := 1 })
      (onScreen fun t => { t with curScreenPtr := PPU_TABLE1_ADDR }))
    (seq (onScreen fun t => { t with curNametable := 0 })
      (onScreen fun t => { t with curScreenPtr := PPU_TABLE0_ADDR }))

/-- `write_blank_line_desc`. -/
def writeBlankLineDesc : Cmd Vars :=
  look fun s => queueDescriptor
    { size := BitVec.ofNat 8 SCREEN_COLS
      target := s.screen.curScreenPtr
      flags := PPU_DESC_FLAG_NULL } fun _ => 0

/-- `scroll_one_row`. -/
def scrollOneRow : Cmd Vars :=
  seq writeBlankLineDesc <|
  seq ppuLock <|
  seq (onScreen fun t => { t with yScrollFine := t.yScrollFine + SCREEN_ROW_PX }) <|
  seq (ite (fun s => s.screen.yScrollFine ≥ SCREEN_ROW_PX * SCREEN_ROWS)
    (seq (onScreen fun t => { t with yScrollCoarse := if t.yScrollCoarse ≠ 0 then 0 else 1 })
      (onScreen fun t => { t with yScrollFine := 1 }))
    skip)
  ppuUnlock

/-- The last part of `update_screen_ptrs`, for the column `origX` before the cursor was moved. -/
def scrollIfWrapped (origX : Nat) : Cmd Vars :=
  ite (·.screen.scrollStarted)
    (look fun s =>
      let curX := s.screen.curNametablePos % SCREEN_COLS
      if curX < origX then scrollOneRow
      else if curX = origX ∧ curX = 0 then scrollOneRow
      else skip)
    skip

/-- `update_screen_ptrs`. -/
def updateScreenPtrs (dist : Nat) : Cmd Vars :=
  look fun s =>
    let origNametablePos := s.screen.curNametablePos
    if dist = 0 then skip
    else
      seq (onScreen fun t => { t with curScreenPtr := t.curScreenPtr + BitVec.ofNat 16 dist }) <|
      seq (onScreen fun t => { t with curNametablePos := t.curNametablePos + dist }) <|
      seq (ite (fun s => s.screen.curNametablePos ≥ SCREEN_SIZE) swapNametable skip) <|
      seq (ite (fun s => !s.screen.scrollStarted &&
          s.screen.curNametablePos ≥ SCREEN_VIS_SIZE + SCREEN_COLS)
        (onScreen fun t => { t with scrollStarted := true }) skip) <|
      scrollIfWrapped (origNametablePos % SCREEN_COLS)

/-- `next_line`. -/
def nextLine : Cmd Vars :=
  look fun s => updateScreenPtrs (SCREEN_COLS - s.screen.curScreenPtr.toNat % SCREEN_COLS)

/-- `ppu_putc`; `'\r'` is 13. -/
def ppuPutc (c : Byte) : Cmd Vars :=
  if c = 13 then nextLine
  else
    seq (look fun s => queueDescriptor { size := 1, target := s.screen.curScreenPtr, flags := 0 }
      fun _ => c) <|
    updateScreenPtrs 1

/-! ## `drivers/devppuwd.c` -/

/-- One pass of `ppuwd_read`. -/
def readPass (p : Pass) : Cmd Vars :=
  seq (queueDescriptor p.desc p.data) <|
  seq (loop (fun s => s.ppuReadbufDirty = 0) skip) <|
  seq (forUp (fun i => set fun s =>
    { s with bfData := Function.update s.bfData (p.offset + i) (s.ppuReadbuf i) })
    READ_CHUNK_SIZE) <|
  set fun s => { s with
    ppuReadbufDirty := 0
    copied := s.copied ++ [⟨p.desc, s.queued.length - 1,
      (List.range READ_CHUNK_SIZE).map fun i => s.bfData (p.offset + i)⟩] }

/-- `ppuwd_read`. -/
def ppuwdRead (minor bfBlk : Word) : Cmd Vars := each readPass (Ppu.ppuwdRead minor bfBlk)

/-- One pass of `ppuwd_write`. -/
def writePass (p : Pass) : Cmd Vars := seq (queueDescriptor p.desc p.data) waitFrame

/-- `ppuwd_write`. -/
def ppuwdWrite (minor bfBlk : Word) (bfData : Block) : Cmd Vars :=
  each writePass (Ppu.ppuwdWrite minor bfBlk bfData)

end Code

/-- A call of the console or of the disk driver. -/
inductive Call
  | putc (c : Byte)
  | read (minor bfBlk : Word)
  | write (minor bfBlk : Word) (bfData : Block)

/-- What is run for a call. -/
def Call.code : Call → Cmd Vars
  | .putc c => Code.ppuPutc c
  | .read minor bfBlk => Code.ppuwdRead minor bfBlk
  | .write minor bfBlk bfData => Code.ppuwdWrite minor bfBlk bfData

/-- The block of a disk call lies in the first 256 banks. -/
def Call.LowBank : Call → Prop
  | .putc _ => True
  | .read _ bfBlk | .write _ bfBlk _ => blkBank bfBlk < 256

end Uzi.Ppu
