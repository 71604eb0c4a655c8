import Uzi.Drivers.Picture
import Uzi.Drivers.PpuEnds

/-!
# One PPU for the screen and the disk

Console and disk share one buffer of descriptors, one PPU and its registers. Whatever they are asked for in whatever
order, and wherever a vblank comes, a block reads as it was written last, and the text stands on the screen.
-/

namespace Uzi.Ppu
open Interrupts Cmd FlatFile

/-! ## What calls ask for -/

namespace Call

/-- The blocks after a call, which the two disks share. -/
def share (blocks : Word → Nat → Byte) : Call → Word → Nat → Byte
  | .write _ bfBlk bfData => Function.update blocks bfBlk bfData.byte
  | _ => blocks

/-- The disks after a call, each with blocks of its own. -/
def store (disks : Word → Word → Nat → Byte) : Call → Word → Word → Nat → Byte
  | .write minor bfBlk bfData => Function.update disks minor (Function.update (disks minor) bfBlk bfData.byte)
  | _ => disks

/-- The call does not write the block of this number on the other disk. -/
def Spares (minor blk : Word) : Call → Prop
  | .write minor' bfBlk _ => bfBlk = blk → minor' = minor
  | _ => True

end Call

/-- The text that calls print. -/
def textOf (calls : List Call) : Sheet := Sheet.typed (calls.filterMap Call.char?)

/-- The blocks after calls: a number stands for one block, whatever disk it is written on. -/
def sharedBy (calls : List Call) (blocks : Word → Nat → Byte) : Word → Nat → Byte := calls.foldl Call.share blocks

/-- The disks after calls. -/
def storedBy (calls : List Call) (disks : Word → Word → Nat → Byte) : Word → Word → Nat → Byte :=
  calls.foldl Call.store disks

section Calls

variable {v₀ v : Nat → Byte} {c₀ : Nat → Nat → Byte} {t t' : Console} {sheet : Sheet} {calls : List Call} {c : Call}

/-- The disk driver leaves the nametables alone. -/
lemma vramAfter_disk {rs : List Request} (disk : ∀ r ∈ rs, ¬ r.OnScreen) : vramAfter v rs = v := by
  induction rs generalizing v with
  | nil => rfl
  | cons r rs ih =>
    obtain ⟨first, rest⟩ := List.forall_mem_cons.mp disk
    have same : r.vram v = v := by
      cases r with
      | video => exact absurd trivial first
      | null => exact absurd trivial first
      | read => rfl
      | write => rfl
    show vramAfter (r.vram v) rs = v
    rw [same, ih rest]

/-- Only the screen matters. -/
lemma Shows.congr (h : Shows v₀ t sheet v) (e : t'.screen = t.screen) : Shows v₀ t' sheet v where
  inStep := e ▸ h.inStep
  place := e ▸ h.place
  started := e ▸ h.started
  drum := h.drum

/-- A read does not touch the screen. -/
lemma reads_sound {d : Disk} {blk : Word} (low : blkBank blk < 256) :
    ∀ r ∈ readRequests d.minor blk, r.Sound ∧ ¬ r.OnScreen := by
  intro r hr
  obtain ⟨k, hk, rfl⟩ := List.mem_map.mp hr
  exact ⟨readRequest_sound low (List.mem_range.mp hk), id⟩

/-- A write does not touch the screen. -/
lemma writes_sound {d : Disk} {blk : Word} {data : Block} (low : blkBank blk < 256) :
    ∀ r ∈ writeRequests d.minor blk data, r.Sound ∧ ¬ r.OnScreen := by
  intro r hr
  obtain ⟨k, hk, rfl⟩ := List.mem_map.mp hr
  exact ⟨writeRequest_sound data low (List.mem_range.mp hk), id⟩

/-- The requests `rs` of calls, and what they do. -/
structure Requested (v₀ : Nat → Byte) (c₀ : Nat → Nat → Byte) (calls : List Call) (rs : List Request) : Prop where
  queued : (consoleAfter calls).queued = rs.map Request.entry
  sound : ∀ r ∈ rs, r.Sound
  shows : Shows v₀ (consoleAfter calls) (textOf calls) (vramAfter v₀ rs)
  blocks : ∀ blk, ∀ off < BLOCK_SIZE, blockByte (chrAfter c₀ rs) blk off = sharedBy calls (blockByte c₀) blk off

/-- The shared memory after one call more. -/
lemma sharedBy_append {blocks : Word → Nat → Byte} :
    sharedBy (calls ++ [c]) blocks = c.share (sharedBy calls blocks) := List.foldl_append

/-- A block that is not written on the other disk is as if the disks had blocks of their own. -/
lemma sharedBy_eq_storedBy {blocks : Word → Nat → Byte} {minor blk : Word} (spares : ∀ c ∈ calls, c.Spares minor blk) :
    sharedBy calls blocks blk = storedBy calls (fun _ => blocks) minor blk := by
  induction calls using List.reverseRecOn with
  | nil => rfl
  | append_singleton calls c ih =>
    have before := ih fun c hc => spares c (List.mem_append_left _ hc)
    have stored : storedBy (calls ++ [c]) (fun _ => blocks) = c.store (storedBy calls fun _ => blocks) :=
      List.foldl_append
    have last := spares c (List.mem_append_right _ (List.mem_singleton_self c))
    rw [sharedBy_append, stored]
    cases c with
    | putc b => exact before
    | read minor' blk' => exact before
    | write minor' blk' data =>
      simp only [Call.share, Call.store]
      by_cases here : blk' = blk
      · rw [last here, here, Function.update_self, Function.update_self, Function.update_self]
      · rw [Function.update_of_ne (Ne.symm here), before]
        by_cases own : minor' = minor
        · rw [own, Function.update_self, Function.update_of_ne (Ne.symm here)]
        · rw [Function.update_of_ne (Ne.symm own)]

/-- A disk call more. -/
lemma Requested.disk {rs rs' : List Request} (h : Requested v₀ c₀ calls rs) (disk : ∀ r ∈ rs', r.Sound ∧ ¬ r.OnScreen)
    (console : c.console (consoleAfter calls) = (consoleAfter calls).askAll rs') (char : c.char? = none)
    (blocks : ∀ blk, ∀ off < BLOCK_SIZE, blockByte (chrAfter (chrAfter c₀ rs) rs') blk off =
      sharedBy (calls ++ [c]) (blockByte c₀) blk off) : Requested v₀ c₀ (calls ++ [c]) (rs ++ rs') := by
  obtain ⟨screen, queued⟩ := (consoleAfter calls).askAll_queued rs'
  have text : textOf (calls ++ [c]) = textOf calls := by
    rw [textOf, List.filterMap_append, List.filterMap_cons_none char, List.filterMap_nil, List.append_nil, textOf]
  refine ⟨?_, ?_, ?_, ?_⟩
  · rw [consoleAfter_append, console, queued, h.queued, List.map_append]
  · intro r hr
    obtain hr | hr := List.mem_append.mp hr
    · exact h.sound r hr
    · exact (disk r hr).1
  · rw [consoleAfter_append, console, text, vramAfter_append, vramAfter_disk fun r hr => (disk r hr).2]
    exact h.shows.congr screen
  · rw [chrAfter_append]
    exact blocks

/-- What calls ask for. -/
lemma requested (v₀ : Nat → Byte) (c₀ : Nat → Nat → Byte) (driven : ∀ c ∈ calls, c.Driven) :
    ∃ rs, Requested v₀ c₀ calls rs := by
  induction calls using List.reverseRecOn with
  | nil => exact ⟨[], rfl, nofun, shows_start, fun _ _ _ => rfl⟩
  | append_singleton calls c ih =>
    obtain ⟨rs, h⟩ := ih fun c hc => driven c (List.mem_append_left _ hc)
    have last := driven c (List.mem_append_right _ (List.mem_singleton_self c))
    cases c with
    | putc b =>
      obtain ⟨rs', queued, sound, shows⟩ := h.shows.ppuPutc b
      have text : textOf (calls ++ [.putc b]) = (textOf calls).type b := by
        rw [textOf, List.filterMap_append]
        exact List.foldl_append
      refine ⟨rs ++ rs', ?_, ?_, ?_, fun blk off lt => ?_⟩
      · rw [consoleAfter_append, List.map_append, ← h.queued]
        exact queued
      · intro r hr
        obtain hr | hr := List.mem_append.mp hr
        · exact h.sound r hr
        · exact (sound r hr).1
      · rw [consoleAfter_append, text, vramAfter_append]
        exact shows
      · rw [chrAfter_append, chrAfter_onScreen fun r hr => (sound r hr).2, sharedBy_append]
        exact h.blocks blk off lt
    | read minor blk =>
      obtain ⟨low, d, rfl⟩ := last
      refine ⟨_, h.disk (reads_sound low) rfl rfl fun blk' off lt => ?_⟩
      rw [readRequests, chrAfter_reads, sharedBy_append]
      exact h.blocks blk' off lt
    | write minor blk data =>
      obtain ⟨low, d, rfl⟩ := last
      refine ⟨_, h.disk (writes_sound low) rfl rfl fun blk' off lt => ?_⟩
      rw [blockByte_writes lt, sharedBy_append, Call.share]
      by_cases same : blk' = blk
      · rw [if_pos same, same, Function.update_self]
      · rw [if_neg same, Function.update_of_ne same]
        exact h.blocks blk' off lt

end Calls

/-! ## What is in the memory -/

section Memory

variable {d : Device} {rs rs' : List Request}

/-- The descriptors performed are those of the first requests. -/
lemma map_ops_eq (sound : ∀ r ∈ rs, r.Sound) (low : ∀ r ∈ rs', r.Valid ∧ r.LowBank)
    (e : rs'.map Request.entry = rs.map Request.entry) : rs'.map Request.ops = rs.map Request.ops := by
  induction rs generalizing rs' with
  | nil =>
    rw [List.map_nil, List.map_eq_nil_iff] at e
    rw [e]
  | cons r rs ih =>
    cases rs' with
    | nil => cases e
    | cons r' rs' =>
      obtain ⟨first, rest⟩ := List.cons.inj e
      obtain ⟨sound, sounds⟩ := List.forall_mem_cons.mp sound
      obtain ⟨⟨valid, low⟩, lows⟩ := List.forall_mem_cons.mp low
      rw [List.map_cons, List.map_cons, sound.ops_eq valid low first, ih sounds lows rest]

/-- What one of the descriptors has fetched. -/
lemma Device.Delivers.fetched {ps : List Processed} {p : Processed} {n : Nat} (h : d.Delivers ps)
    (hp : ps[n]? = some p) : p.fetched = (d.run ((ps.take n).flatMap (·.ops))).fetched p.ops := by
  induction ps generalizing d n with
  | nil => cases hp
  | cons q ps ih =>
    cases n with
    | zero =>
      cases hp
      exact h.1
    | succ n =>
      rw [List.take_succ_cons, List.flatMap_cons, run_append]
      exact ih h.2 hp

/-- The requests of calls that are over, those performed and those that wait. -/
lemma Over.requests {calls : List Call} {s : Vars} (h : Over calls s) {v₀ : Nat → Byte} {c₀ : Nat → Nat → Byte}
    (req : Requested v₀ c₀ calls rs) : ∃ done pending, Balanced s done pending ∧
      Holds s.toDatabuf (pending.flatMap Request.stored) ∧ rs.map Request.ops = (done ++ pending).map Request.ops := by
  obtain ⟨-, console, done, pending, b, holds, -⟩ := h
  refine ⟨done, pending, b, holds, (map_ops_eq req.sound b.sound ?_).symm⟩
  rw [← req.queued, ← console]
  exact b.queued.symm

/-- The descriptor of a number that has been performed, and those before it. -/
lemma performed {ops : List (List PpuOp)} {ps : List Processed} {rest : List (List PpuOp)} {n : Nat} {p : Processed}
    (e : ops = ps.map (·.ops) ++ rest) (hp : ps[n]? = some p) :
    ops[n]? = some p.ops ∧ (ops.take n).flatten = (ps.take n).flatMap (·.ops) := by
  obtain ⟨lt, -⟩ := List.getElem?_eq_some_iff.mp hp
  rw [e]
  constructor
  · rw [List.getElem?_append_left (by rwa [List.length_map]), List.getElem?_map, hp]
    rfl
  · rw [List.take_append_of_le_length (by rw [List.length_map]; omega), ← List.map_take]
    rfl

/-- The chunk that a pass has brought is what lies in CHR RAM. -/
lemma Over.chunk {calls : List Call} {minor blk : Word} {s : Vars} (h : Over (calls ++ [.read minor blk]) s)
    (driven : ∀ c ∈ calls ++ [.read minor blk], c.Driven) (ready : d.high = none) (genuine : d.Delivers s.processed)
    {i : Nat} (lt : i < READ_PASSES) : slice s.bfData (READ_CHUNK_SIZE * i) READ_CHUNK_SIZE =
      slice (sharedBy calls (blockByte d.chr) blk) (READ_CHUNK_SIZE * i) READ_CHUNK_SIZE := by
  obtain ⟨before, copied⟩ := h.last calls minor blk rfl
  have hc := List.mem_append_right before
    (Gathered.mem lt : _ ∈ Gathered (consoleAfter calls) minor blk s.bfData READ_PASSES)
  rw [← copied] at hc
  obtain ⟨low, disk, rfl⟩ := driven _ (List.mem_append_right _ (List.mem_singleton_self _))
  have low : blkBank blk < 256 := low
  obtain ⟨rs, req⟩ := requested d.vram d.chr fun c hc => driven c (List.mem_append_left _ hc)
  have whole := req.disk (c := .read disk.minor blk) (reads_sound low) rfl rfl fun blk' off lt => by
    rw [readRequests, chrAfter_reads, sharedBy_append]
    exact req.blocks blk' off lt
  obtain ⟨done, pending, b, -, ops⟩ := h.requests whole
  have journal : (rs ++ readRequests disk.minor blk).map Request.ops =
      s.processed.map (·.ops) ++ pending.map Request.ops := by
    rw [ops, List.map_append, b.processed]
  obtain ⟨p, hp, fetched⟩ := Option.map_eq_some_iff.mp (b.copied _ hc).2
  have place : (consoleAfter calls).queued.length + i = rs.length + i := by
    rw [req.queued, List.length_map]
  have hp : s.processed[rs.length + i]? = some p := place ▸ hp
  -- the descriptor of this pass, and what has been performed before it
  obtain ⟨own, before⟩ := performed journal hp
  have own : (readRequest disk.minor blk i).ops = p.ops := by
    rw [List.map_append, List.getElem?_append_right (by rw [List.length_map]; omega), List.length_map,
      Nat.add_sub_cancel_left, readRequests, List.map_map, List.getElem?_map, List.getElem?_range lt] at own
    exact Option.some.inj own
  have before : (s.processed.take (rs.length + i)).flatMap (·.ops) =
      (rs ++ (List.range i).map (readRequest disk.minor blk)).flatMap Request.ops := by
    rw [← before, ← List.map_take, List.take_length_add_append, readRequests, ← List.map_take, List.take_range,
      Nat.min_eq_left (Nat.le_of_lt lt)]
    rfl
  have sound : ∀ r ∈ rs ++ (List.range i).map (readRequest disk.minor blk), r.Sound := by
    intro r hr
    obtain hr | hr := List.mem_append.mp hr
    · exact req.sound r hr
    · obtain ⟨k, hk, rfl⟩ := List.mem_map.mp hr
      exact readRequest_sound low (Nat.lt_trans (List.mem_range.mp hk) lt)
  obtain ⟨high, -, chr⟩ := run_requests sound ready
  have addr : (blkChunkAddrRd (blk + disk.minor) i).toNat = _ := chunkAddr (i * READ_CHUNK_SIZE) (by
    simp only [READ_PASSES, READ_CHUNK_SIZE, BLOCK_SIZE] at *
    omega)
  refine fetched.symm.trans ?_
  rw [genuine.fetched hp, before, ← own, readRequest,
    Request.fetched_read low (readRequest_sound low lt).aimed high, chr, chrAfter_append, chrAfter_reads, addr,
    Nat.add_sub_cancel_left]
  refine slice_congr fun k hk => ?_
  have hk : k < READ_CHUNK_SIZE := hk
  rw [← req.blocks blk (READ_CHUNK_SIZE * i + k) (by
    simp only [READ_PASSES, READ_CHUNK_SIZE, BLOCK_SIZE] at *
    omega), blockByte]
  exact congrArg _ (by rw [Nat.mul_comm READ_CHUNK_SIZE i, Nat.add_assoc])

end Memory

/-- Whatever the console and the disk driver are asked for, and wherever vblanks come in between, a block that is read
is what was written last under its number, or else what has been there from the start. So it is what was written to it
last, if nothing was written under this number to the other disk. -/
theorem disk_reads {calls : List Call} {minor blk : Word} (driven : ∀ c ∈ calls ++ [.read minor blk], c.Driven)
    {s : Vars} (run : Interrupts.Run Vblank (each Call.code (calls ++ [.read minor blk])) booted skip s) {d : Device}
    (ready : d.high = none) (genuine : d.Delivers s.processed) :
    (∀ off < BLOCK_SIZE, s.bfData off = sharedBy calls (blockByte d.chr) blk off) ∧
      ((∀ c ∈ calls, c.Spares minor blk) →
        ∀ off < BLOCK_SIZE, s.bfData off = storedBy calls (fun _ => blockByte d.chr) minor blk off) := by
  have shared : ∀ off < BLOCK_SIZE, s.bfData off = sharedBy calls (blockByte d.chr) blk off := by
    intro off lt
    have ended := (calls_spec (fun c hc => (driven c hc).1) booted booted_over skip s run).2.2 rfl
    have chunk := ended.chunk driven ready genuine (i := off / READ_CHUNK_SIZE) (by
      simp only [READ_PASSES, READ_CHUNK_SIZE, BLOCK_SIZE] at *
      omega)
    have there : off % READ_CHUNK_SIZE < READ_CHUNK_SIZE := Nat.mod_lt _ (by decide)
    have byte := congrArg (·[off % READ_CHUNK_SIZE]?) chunk
    rw [getElem?_slice, getElem?_slice, if_pos there, if_pos there, Nat.div_add_mod] at byte
    exact Option.some.inj byte
  refine ⟨shared, fun spares off lt => ?_⟩
  rw [shared off lt, sharedBy_eq_storedBy spares]

/-- A character is printed and a block of the root disk read, from a CHR RAM full of sevens. -/
theorem disk_reads_sevens : ∃ s, Interrupts.Run Vblank (each Call.code ([.putc 65] ++ [.read 0 5])) booted skip s ∧
    ∀ off < BLOCK_SIZE, s.bfData off = 7 := by
  let d : Device := { Device.cleared with chr := fun _ _ => 7 }
  have rides : (((each Call.code ([.putc 65] ++ [.read 0 5])).ride (handleVblank fun _ _ => 7)
      (List.replicate 8 300 ++ [135]) booted).map
        fun p => decide (p.1.finished = true ∧ d.Delivers p.2.processed)) = some true := by
    decide +kernel
  obtain ⟨⟨c, s⟩, e, h⟩ := Option.map_eq_some_iff.mp rides
  obtain ⟨finished, genuine⟩ := of_decide_eq_true h
  obtain rfl := Cmd.eq_skip finished
  have run := Interrupts.Run.ride (N := Vblank) (fun s s' e => ⟨_, e⟩) .start e
  have bank : blkBank 5 < 256 := by decide
  have driven : ∀ c ∈ [Call.putc 65] ++ [.read 0 5], c.Driven :=
    List.forall_mem_cons.mpr ⟨⟨trivial, trivial⟩, List.forall_mem_singleton.mpr ⟨bank, .root, rfl⟩⟩
  have spares : ∀ c ∈ [Call.putc 65], c.Spares 0 5 := List.forall_mem_singleton.mpr trivial
  exact ⟨s, run, (disk_reads driven run (d := d) rfl genuine).2 spares⟩

end Uzi.Ppu
