import Uzi.Drivers.ConsoleRuns
import Uzi.Drivers.PpuDisk

/-!
# Calls come to their end

The disk driver waits for its bytes and for vblanks, the console for room in the buffer. As long as the text stays
above the last row every wait can be over; the blanking of a row is never accepted, and who asks for it never returns.
-/

namespace Uzi.Ppu
open Interrupts Cmd

/-! ## The disk driver returns -/

section Disk

variable {t : Console} {d : Disk} {blk : Word} {data : Block} {r : Request}

/-- The retry loop of an admitted request can always be brought to its end. -/
lemma queueDescriptor_returns {Q : Vars → Prop} (firm : Firm Vblank Handshake Q)
    (keep : ∀ s b, Q s → Q { s with eagain := b }) (sound : r.Sound)
    (join : ∀ s s' : Vars, s.console = t → Joined r s' → s'.console = s.console.queueDescriptor r.desc r.payload → Q s')
    {payload : Nat → Byte} (hdata : ∀ i < (descDatalen r.desc).toNat, payload i = r.payload i)
    (admitted : r.entry.Admitted) : Ends Vblank (IdleAt t) (Code.queueDescriptor r.desc payload) := by
  have once := tryQueueDescriptor_spec Ghost.console firm keep sound.valid sound.low join hdata
  have straight := tryQueueDescriptor_straight r.desc payload
  have wait := waitFrame_spec (Ghost.console (t := t))
  refine (Ends.straight straight once).seq once ?_
  refine Ends.loop (Again.firm Ghost.console (Outcome.firm firm)) firm (R := IdleAt t) ?_ (wait.seq once) ?_
    ((waitFrame_ends Ghost.console).seq wait (.straight straight once)) ?_
  · exact fun s hs again => ⟨(hs.1 again).1, hs.2.elim And.right fun no => absurd (no.1.symm.trans again) nofun⟩
  · exact fun s hs done => hs.2.elim (fun yes => absurd (yes.1.symm.trans done) nofun) And.right
  · intro s hs again
    have idle : IdleAt t s := ⟨(hs.1 again).1, hs.2.elim And.right fun no => absurd (no.1.symm.trans again) nofun⟩
    obtain ⟨s₁, waits, empty⟩ := waitFrame_drains idle.2
    obtain ⟨console, idle₁⟩ := (wait s idle _ _ waits).2.2 rfl
    -- the buffer is empty then, and an admitted descriptor not refused
    have ghost : Ghost fun s => s.console = t ∧ s.databufPos = 0 :=
      ⟨fun _ _ int h => ⟨int.console.1.trans h.1, int.console.2 h.2⟩, fun _ _ c p h => ⟨c.trans h.1, p.trans h.2⟩⟩
    have final := tryQueueDescriptor_spec ghost firm keep sound.valid sound.low (fun s s' h => join s s' h.1) hdata
    obtain ⟨s₂, tries⟩ := Ends.straight straight final s₁ ⟨⟨console, empty⟩, idle₁⟩ _ _ .start
    refine ⟨s₂, waits.seqEnd tries, ?_⟩
    have refused := ((final s₁ ⟨⟨console, empty⟩, idle₁⟩ _ _ tries).2.2 rfl).1
    exact Bool.eq_false_iff.mpr fun yes => admitted.not_refused (refused yes).2

/-- A request that fits and is light enough is admitted. -/
lemma Request.admitted {w : Nat} (room : DESC_SIZE + (descDatalen r.desc).toNat + 1 ≤ PPU_BUF_SIZE)
    (weight : ∀ s, calcDescWeight r.desc s = .ok (w, s)) (light : w + BASE_PPU_LOOP_CYCLES ≤ PPU_LOOP_MAX_CYCLES) :
    r.entry.Admitted := by
  intro s empty unlocked
  show ∃ s', Ppu.tryQueueDescriptor r.desc _ s = _
  refine ⟨_, tryQueueDescriptor_ok unlocked ?_ weight (Nat.not_lt_of_le light)⟩
  rw [empty]
  omega

/-- A read of a low block is admitted. -/
lemma readRequest_admitted (low : blkBank blk < 256) (pass : Nat) : (readRequest d.minor blk pass).entry.Admitted := by
  have upper := (bankUpperBits_eq_zero (Nat.lt_trans low (by decide))).mpr low
  have desc : (readRequest d.minor blk pass).desc =
      ⟨64, blkChunkAddrRd (blk + d.minor) pass, 0 ||| PPU_DESC_FLAG_READ⟩ := by
    show PpuDesc.mk _ _ (bankUpperBits _ ||| PPU_DESC_FLAG_READ) = _
    rw [upper]
    rfl
  have datalen : (descDatalen ⟨64, blkChunkAddrRd (blk + d.minor) pass, 0 ||| PPU_DESC_FLAG_READ⟩).toNat = 1 := by
    show (descDatalen ⟨64, 0, 0 ||| PPU_DESC_FLAG_READ⟩).toNat = 1
    decide
  have type : getDescType ⟨64, blkChunkAddrRd (blk + d.minor) pass, 0 ||| PPU_DESC_FLAG_READ⟩ = .read := by
    show getDescType ⟨64, 0, 0 ||| PPU_DESC_FLAG_READ⟩ = .read
    decide
  refine Request.admitted (w := RW_DESC_OVERHEAD_CYCLES + (64 : Byte).toNat * RW_DESC_PERBYTE_CYCLES) ?_
    (fun s => ?_) (by decide)
  · rw [desc, datalen]
    decide
  · rw [desc, calcDescWeight, type]
    rfl

/-- A write of a low block is admitted. -/
lemma writeRequest_admitted (low : blkBank blk < 256) (pass : Nat) :
    (writeRequest d.minor blk data pass).entry.Admitted := by
  have upper := (bankUpperBits_eq_zero (Nat.lt_trans low (by decide))).mpr low
  have desc : (writeRequest d.minor blk data pass).desc =
      ⟨32, blkChunkAddrWr (blk + d.minor) pass, 0 ||| PPU_DESC_FLAG_WRITE⟩ := by
    show PpuDesc.mk (BitVec.ofNat 8 (List.length _)) _ (bankUpperBits _ ||| PPU_DESC_FLAG_WRITE) = _
    rw [upper, FlatFile.length_slice]
    rfl
  have datalen : (descDatalen ⟨32, blkChunkAddrWr (blk + d.minor) pass, 0 ||| PPU_DESC_FLAG_WRITE⟩).toNat = 33 := by
    show (descDatalen ⟨32, 0, 0 ||| PPU_DESC_FLAG_WRITE⟩).toNat = 33
    decide
  have type : getDescType ⟨32, blkChunkAddrWr (blk + d.minor) pass, 0 ||| PPU_DESC_FLAG_WRITE⟩ = .write := by
    show getDescType ⟨32, 0, 0 ||| PPU_DESC_FLAG_WRITE⟩ = .write
    decide
  refine Request.admitted (w := RW_DESC_OVERHEAD_CYCLES + (32 : Byte).toNat * RW_DESC_PERBYTE_CYCLES) ?_
    (fun s => ?_) (by decide)
  · rw [desc, datalen]
    decide
  · rw [desc, calcDescWeight, type]
    rfl

/-- A pass of `ppuwd_write` can always be brought to its end. -/
lemma writePass_ends (low : blkBank blk < 256) {k : Nat} (lt : k < WRITE_PASSES) {p : Pass}
    (desc : p.desc = (writeRequest d.minor blk data k).desc)
    (payload : ∀ i < (descDatalen (writeRequest d.minor blk data k).desc).toNat,
      p.data i = (writeRequest d.minor blk data k).payload i) : Ends Vblank (IdleAt t) (Code.writePass p) := by
  have sound := writeRequest_sound (d := d) data low lt
  rw [Code.writePass, desc]
  refine Ends.seq (R := IdleAt (t.ask (writeRequest d.minor blk data k))) ?_
    (queueDescriptor_at sound.valid sound.low id payload) (waitFrame_ends Ghost.console)
  exact queueDescriptor_returns Idle.firm (fun _ _ => Idle.eagain) sound (fun _ _ _ joined _ => joined.idle id) payload
    (writeRequest_admitted low k)

/-- A pass of `ppuwd_read` can always be brought to its end: the next vblank fetches its bytes. -/
lemma readPass_ends (low : blkBank blk < 256) {k : Nat} (lt : k < READ_PASSES) {p : Pass}
    (desc : p.desc = (readRequest d.minor blk k).desc) (payload : p.data = (readRequest d.minor blk k).payload) :
    Ends Vblank (IdleAt t) (Code.readPass p) := by
  have sound := readRequest_sound (d := d) low lt
  have firm := Waiting.firm (blkBank blk) (blkChunkAddrRd (blk + d.minor) k)
  have queues : Triple Vblank Handshake (IdleAt t) (Code.queueDescriptor (readRequest d.minor blk k).desc
      (readRequest d.minor blk k).payload) (Waiting (readRequest d.minor blk k)) :=
    queueDescriptor_spec Ghost.console firm (fun _ _ => Waiting.eagain) sound.valid sound.low
      (fun _ _ _ joined _ => .inl joined) fun _ _ => rfl
  rw [Code.readPass, desc, payload]
  refine Ends.seq (queueDescriptor_returns firm (fun _ _ => Waiting.eagain) sound (fun _ _ _ joined _ => .inl joined)
    (fun _ _ => rfl) (readRequest_admitted low k)) queues ?_
  have ready : Firm Vblank Handshake (Fetched (readRequest d.minor blk k)) := Fetched.firm
  have leaves : ∀ s, Waiting (readRequest d.minor blk k) s → decide (s.ppuReadbufDirty = 0) = false →
      Fetched (readRequest d.minor blk k) s := by
    intro s hs dirty
    obtain ⟨_, _, -, h, -⟩ | h := hs
    · exact absurd h.clean (of_decide_eq_false dirty)
    · exact h
  refine Ends.seq ?_ (Triple.loop firm ready (fun _ hs _ => hs) (.skip firm) leaves) ?_
  · refine Ends.loop firm ready (R := Waiting (readRequest d.minor blk k)) (fun _ hs _ => hs) (.skip firm) leaves
      (.straight .skip (.skip firm)) fun s hs _ => ?_
    obtain ⟨done, pending, b, h, quiet⟩ | h := hs
    · obtain ⟨dirty, -, e⟩ := b.vblank h fun _ _ => 0
      have int : Vblank s _ := ⟨_, e⟩
      exact ⟨_, Interrupts.Run.start.interrupt int,
        decide_eq_false (Joined.vblank ⟨done, pending, b, h, quiet⟩ int).dirty⟩
    · exact ⟨s, .start, decide_eq_false h.dirty⟩
  · -- the rest are assignments
    have anywhere : Firm Vblank (fun _ => True) (fun _ : Vars => True) := ⟨fun _ _ => trivial, fun _ _ _ _ => trivial⟩
    refine Ends.pre (Ends.straight (J := fun _ => True) (Q := fun _ => True) (.seq (.forUp (fun i => .act) _) .act) ?_)
      fun _ _ => trivial
    exact (Triple.forUp (fun _ _ => True) anywhere fun i _ => .set anywhere anywhere fun _ _ => trivial).seq
      (.set anywhere anywhere fun _ _ => trivial)

/-- `ppuwd_write` comes to its end. -/
lemma ppuwdWrite_ends (low : blkBank blk < 256) : Ends Vblank (IdleAt t) (Code.ppuwdWrite d.minor blk data) := by
  obtain ⟨f, passes, spec⟩ := ppuwdWrite_passes d.minor data low
  rw [Code.ppuwdWrite, passes]
  refine Ends.eachRange (I := fun k => IdleAt (t.askAll ((List.range k).map (writeRequest d.minor blk data))))
    (fun _ => IdleAt.firm) (fun k _ => ?_) fun k lt => writePass_ends low lt (spec k).1 (spec k).2
  rw [t.askAll_range]
  exact writePass_at low (spec k).1 (spec k).2

/-- `ppuwd_read` comes to its end. -/
lemma ppuwdRead_ends (low : blkBank blk < 256) : Ends Vblank (IdleAt t) (Code.ppuwdRead d.minor blk) := by
  obtain ⟨f, passes, spec⟩ := ppuwdRead_passes d.minor blk
  rw [Code.ppuwdRead, passes]
  intro s hs
  refine Ends.eachRange (I := ReadUpTo t s.copied d.minor blk) (fun _ => ReadUpTo.firm) (fun k _ => ?_) (fun k lt => ?_) s
    ⟨hs, (List.append_nil _).symm⟩
  · obtain ⟨desc, payload, offset⟩ := spec k
    exact readPass_at low desc payload offset
  · exact (readPass_ends low lt (spec k).1 (spec k).2.1).pre fun s hs => hs.1

end Disk

/-! ## The blanking is never accepted -/

/-- The descriptors in the queue have passed the test of their weight. -/
def Light (s : Vars) : Prop := ∀ e ∈ s.queued, e.desc.cycles + BASE_PPU_LOOP_CYCLES ≤ PPU_LOOP_MAX_CYCLES

section Light

/-- A vblank leaves the buffer light. -/
lemma Vblank.light {s s' : Vars} (int : Vblank s s') (h : Light s) : Light s' := by
  have queued : s'.queued = s.queued := congrArg Console.queued int.console.1
  unfold Light
  rw [queued]
  exact h

/-- No code of the console and of the disk driver appends others. -/
lemma Call.code_light (c : Call) : Maintains Light c.code := by
  have same : ∀ s s' : Vars, s'.read = s.read → s'.queued = s.queued → Light s → Light s' := by
    intro s s' _ queued h
    unfold Light
    rw [queued]
    exact h
  have queues : ∀ desc payload, Maintains Light (Code.queueDescriptor desc payload) := by
    refine fun desc payload => queueDescriptor_maintains same fun s s' _ queued light h e he => ?_
    rw [queued] at he
    obtain he | he := List.mem_append.mp he
    · exact h e he
    · rw [List.mem_singleton.mp he]
      exact light
  cases c with
  | putc c => exact ppuPutc_maintains same queues c
  | read minor blk =>
    refine .each fun p _ => .seq (queues _ _) (.seq (.loop .skip) (.seq (.forUp (fun i => ?_) _) ?_))
    · exact .set fun _ => id
    · exact .set fun _ => id
  | write minor blk data => exact .each fun p _ => writePass_maintains same queues p

end Light

/-! ## Calls -/

/-- Where the text of calls ends. -/
def textEnd (calls : List Call) : Nat := (calls.filterMap Call.char?).foldl advance SCREEN_COLS

section Calls

variable {calls : List Call} {c : Call} {t : Console} {e : Entry}

/-- The end of the text after one call more. -/
lemma textEnd_append : textEnd (calls ++ [c]) = c.char?.toList.foldl advance (textEnd calls) := by
  unfold textEnd
  rw [List.filterMap_append, List.foldl_append]
  cases c <;> rfl

/-- A disk call leaves the screen alone, and a call leaves in the queue what is there. -/
lemma Call.console_spec (h : t.screen.InStep) : (c.console t).screen.InStep ∧
    (c.char? = none → (c.console t).screen = t.screen) ∧ ∀ e ∈ t.queued, e ∈ (c.console t).queued := by
  have disk : ∀ rs, c.console t = t.askAll rs → (c.console t).screen.InStep ∧
      (c.char? = none → (c.console t).screen = t.screen) ∧ ∀ e ∈ t.queued, e ∈ (c.console t).queued := by
    intro rs e
    obtain ⟨screen, queued⟩ := t.askAll_queued rs
    rw [e, screen, queued]
    exact ⟨h, fun _ => rfl, fun e he => List.mem_append_left _ he⟩
  cases c with
  | putc b =>
    obtain ⟨inStep, advances⟩ := Console.ppuPutc_spec h b
    refine ⟨inStep, nofun, fun e he => ?_⟩
    show e ∈ (t.ppuPutc b).queued
    obtain ⟨-, queued⟩ | ⟨-, queued⟩ := advances
    · rw [queued]
      exact List.mem_append_left _ he
    · rw [queued]
      exact List.mem_append_left _ (List.mem_append_left _ he)
  | read minor blk => exact disk _ rfl
  | write minor blk data => exact disk _ rfl

/-- The console of the calls is in step. -/
lemma consoleAfter_inStep : (consoleAfter calls).screen.InStep := by
  induction calls using List.reverseRecOn with
  | nil => exact Console.start_inStep
  | append_singleton calls c ih =>
    rw [consoleAfter_append]
    exact (Call.console_spec ih).1

/-- Above the last row the console stands where the text ends. -/
lemma consoleAfter_near (near : textEnd calls < SCROLL_POS) : (consoleAfter calls).screen.scrollStarted = false ∧
    (consoleAfter calls).screen.curNametablePos = textEnd calls := by
  induction calls using List.reverseRecOn with
  | nil => exact ⟨rfl, rfl⟩
  | append_singleton calls c ih =>
    rw [consoleAfter_append]
    rw [textEnd_append] at near ⊢
    cases c with
    | putc b =>
      obtain ⟨still, pos⟩ := ih (Nat.lt_trans (lt_advance _ b) near)
      obtain ⟨still', pos', -⟩ := Ppu.ppuPutc_near consoleAfter_inStep still (pos.symm ▸ near)
      exact ⟨still', pos'.trans (pos ▸ rfl)⟩
    | read minor blk =>
      rw [(Call.console_spec consoleAfter_inStep).2.1 rfl]
      exact ih near
    | write minor blk data =>
      rw [(Call.console_spec consoleAfter_inStep).2.1 rfl]
      exact ih near

/-- A text that comes to the last row has a row blanked. -/
lemma consoleAfter_far (far : ¬ textEnd calls < SCROLL_POS) :
    ∃ target data, ⟨⟨BitVec.ofNat 8 SCREEN_COLS, target, PPU_DESC_FLAG_NULL⟩, data⟩ ∈ (consoleAfter calls).queued := by
  induction calls using List.reverseRecOn with
  | nil => exact absurd (show textEnd [] < SCROLL_POS by decide) far
  | append_singleton calls c ih =>
    rw [consoleAfter_append]
    by_cases near : textEnd calls < SCROLL_POS
    · obtain ⟨still, pos⟩ := consoleAfter_near near
      rw [textEnd_append] at far
      cases c with
      | putc b => exact Ppu.ppuPutc_far consoleAfter_inStep still (pos.symm ▸ far)
      | read => exact absurd near far
      | write => exact absurd near far
    · obtain ⟨target, data, blanked⟩ := ih near
      exact ⟨target, data, (Call.console_spec consoleAfter_inStep).2.2 _ blanked⟩

/-- The code of a call above the last row can always be brought to its end. -/
lemma Call.code_ends (driven : c.Driven) (near : textEnd (calls ++ [c]) < SCROLL_POS) :
    Ends Vblank (IdleAt (consoleAfter calls)) c.code := by
  cases c with
  | putc b =>
    rw [textEnd_append] at near
    obtain ⟨still, pos⟩ := consoleAfter_near (Nat.lt_trans (lt_advance _ b) near)
    exact ppuPutc_ends consoleAfter_inStep still (pos.symm ▸ near)
  | read minor blk =>
    obtain ⟨low, d, rfl⟩ := driven
    exact ppuwdRead_ends low
  | write minor blk data =>
    obtain ⟨low, d, rfl⟩ := driven
    exact ppuwdWrite_ends low

/-- The text grows. -/
lemma textEnd_le (is is' : List Call) : textEnd is ≤ textEnd (is ++ is') := by
  unfold textEnd
  rw [List.filterMap_append, List.foldl_append]
  exact advance_le _

/-- The calls come to their end. -/
lemma calls_ends (driven : ∀ c ∈ calls, c.Driven) (near : textEnd calls < SCROLL_POS) :
    Ends Vblank (Over []) (each Call.code calls) := by
  have driven' : ∀ is c is', [] ++ calls = is ++ c :: is' → c.Driven := fun is c is' e =>
    driven c ((show calls = is ++ c :: is' from e) ▸ List.mem_append_right _ List.mem_cons_self)
  refine Ends.eachFrom (I := Over) (fun _ => Over.firm) []
    (fun is c is' e => Call.code_over (driven' is c is' e).1) fun is c is' e =>
      (Call.code_ends (driven' is c is' e) ?_).pre fun s hs => hs.idle
  refine Nat.lt_of_le_of_lt (textEnd_le (is ++ [c]) is') ?_
  rw [List.append_assoc]
  exact (show calls = is ++ c :: is' from e) ▸ near

/-- While the text ends above the last row, calls of the console and of the disk driver can be brought to their end
from wherever a run of them has come. Where it does not, no run of them ends. -/
theorem calls_end (driven : ∀ c ∈ calls, c.Driven) :
    (textEnd calls < SCROLL_POS → ∀ c s, Interrupts.Run Vblank (each Call.code calls) booted c s →
      ∃ s', Interrupts.Run Vblank c s skip s') ∧
    ∀ s, Interrupts.Run Vblank (each Call.code calls) booted skip s → textEnd calls < SCROLL_POS := by
  refine ⟨fun near => calls_ends driven near booted booted_over, fun s run => ?_⟩
  by_contra far
  have console := ((calls_spec (fun c hc => (driven c hc).1) booted booted_over skip s run).2.2 rfl).idle.1
  obtain ⟨target, data, blanked⟩ := consoleAfter_far far
  have maintains : Maintains Light (each Call.code calls) := .each fun c _ => c.code_light
  have light : Light s := (maintains.run (fun _ _ => Vblank.light) run nofun).2
  rw [← console] at blanked
  have weight : PpuDesc.cycles ⟨BitVec.ofNat 8 SCREEN_COLS, target, PPU_DESC_FLAG_NULL⟩ = 2574 := by
    have type : getDescType ⟨BitVec.ofNat 8 SCREEN_COLS, target, PPU_DESC_FLAG_NULL⟩ = .null := by
      show getDescType ⟨0, 0, PPU_DESC_FLAG_NULL⟩ = .null
      decide
    simp only [PpuDesc.cycles, calcDescWeight, type]
    rfl
  have le := light _ blanked
  rw [weight] at le
  exact absurd le (by decide)

/-- A block is written, a character printed and the block read: the run can be brought to its end. -/
theorem calls_end_written : ∃ s, Interrupts.Run Vblank
    (each Call.code [.write 0 5 fun _ => 0x4141, .putc 66, .read 0 5]) booted skip s := by
  have bank : blkBank 5 < 256 := by decide
  have near : textEnd [.write 0 5 fun _ => 0x4141, .putc 66, .read 0 5] < SCROLL_POS := by decide
  have driven : ∀ c ∈ [Call.write 0 5 fun _ => 0x4141, .putc 66, .read 0 5], c.Driven :=
    List.forall_mem_cons.mpr ⟨⟨bank, .root, rfl⟩,
      List.forall_mem_cons.mpr ⟨⟨trivial, trivial⟩, List.forall_mem_singleton.mpr ⟨bank, .root, rfl⟩⟩⟩
  exact (calls_end driven).1 near _ _ .start

end Calls

end Uzi.Ppu
