import Uzi.Drivers.PpuHandshake

/-!
# Whether the console gets through

A character's own descriptor is taken as soon as the buffer has been drained. The NULL descriptor of a
blank line never is, so that `ppu_putc` hangs where the first row is to be blanked.
-/

namespace Uzi.Ppu
open Interrupts Cmd

/-! ## What is admitted -/

/-- `__queue_descriptor` takes the descriptor when the buffer is empty. -/
def Entry.Admitted (e : Entry) : Prop :=
  ∀ s : Databuf, s.databufPos = 0 → s.ppuLocked = false →
    ∃ s', Ppu.tryQueueDescriptor e.desc (fun i => e.data.getD i 0) s = .ok (true, s')

/-- The descriptor of a character is admitted. -/
lemma char_admitted (target : Word) (c : Byte) : Entry.Admitted ⟨⟨1, target, 0⟩, [c]⟩ := by
  intro s empty unlocked
  have len := char_datalen target
  have room : ¬ s.databufPos + DESC_SIZE + (descDatalen ⟨1, target, 0⟩).toNat + 1 > PPU_BUF_SIZE := by
    rw [empty, len]
    decide
  exact ⟨_, tryQueueDescriptor_ok (w := 94) unlocked room (fun _ => rfl) (by decide)⟩

/-- The blanking of a row is not. -/
lemma blanking_not_admitted (target : Word) (data : List Byte) :
    ¬ Entry.Admitted ⟨⟨BitVec.ofNat 8 SCREEN_COLS, target, PPU_DESC_FLAG_NULL⟩, data⟩ := by
  intro admitted
  obtain ⟨s', taken⟩ := admitted idle rfl rfl
  have light := (cycles_le taken).2
  have weight : PpuDesc.cycles ⟨BitVec.ofNat 8 SCREEN_COLS, target, PPU_DESC_FLAG_NULL⟩ = 2574 := by
    have type : getDescType ⟨BitVec.ofNat 8 SCREEN_COLS, target, PPU_DESC_FLAG_NULL⟩ = .null := by
      show getDescType ⟨0, 0, PPU_DESC_FLAG_NULL⟩ = .null
      decide
    simp only [PpuDesc.cycles, calcDescWeight, type]
    rfl
  dsimp only at light
  rw [weight] at light
  exact absurd light (by decide)

/-- An admitted descriptor is not refused by an empty buffer. -/
lemma Entry.Admitted.not_refused {e : Entry} (h : e.Admitted) {t : Console} :
    ¬ Refused (fun s => s.console = t ∧ s.databufPos = 0) e.desc := by
  rintro ⟨s, ⟨-, empty⟩, full | heavy⟩
  · obtain ⟨s', taken⟩ := h idle rfl rfl
    have room := (tryQueueDescriptor_true taken).1
    have zero : idle.databufPos = 0 := rfl
    omega
  · obtain ⟨s', taken⟩ := h idle rfl rfl
    exact absurd (cycles_le taken).2 (Nat.not_le_of_lt heavy)

/-! ## Before the scrolling starts -/

/-- The position at which the first row is scrolled. -/
def SCROLL_POS : Nat := SCREEN_VIS_SIZE + SCREEN_COLS

section Console

variable {t : Console} {dist : Nat} {c : Byte}

/-- Before the scrolling starts the cursor is moved and nothing else. -/
lemma updateScreenPtrs_near (still : t.screen.scrollStarted = false)
    (near : t.screen.curNametablePos + dist < SCROLL_POS) (pos : 0 < dist) :
    t.updateScreenPtrs dist = { t with screen := { t.screen with
      curScreenPtr := t.screen.curScreenPtr + BitVec.ofNat 16 dist
      curNametablePos := t.screen.curNametablePos + dist } } := by
  have inTable : ¬ t.screen.curNametablePos + dist ≥ SCREEN_SIZE := by
    simp only [SCROLL_POS, SCREEN_VIS_SIZE, SCREEN_VIS_ROWS, SCREEN_SIZE, SCREEN_ROWS, SCREEN_COLS] at *
    omega
  have move : t.screen.move dist = { t.screen with
      curScreenPtr := t.screen.curScreenPtr + BitVec.ofNat 16 dist
      curNametablePos := t.screen.curNametablePos + dist } := by
    unfold Screen.move
    dsimp only
    rw [if_neg inTable]
    dsimp only
    rw [if_neg]
    rw [Bool.and_eq_true, decide_eq_true_eq]
    exact fun far => Nat.not_le_of_lt near far.2
  unfold Console.updateScreenPtrs
  rw [if_neg (Nat.ne_of_gt pos), move]
  unfold Console.scrollIfWrapped
  dsimp only
  rw [still, if_neg Bool.false_ne_true]

/-- Where the cursor reaches the last row the scrolling starts with the blanking of that row. -/
lemma updateScreenPtrs_far (still : t.screen.scrollStarted = false)
    (far : t.screen.curNametablePos + dist = SCROLL_POS) (pos : 0 < dist) :
    ∃ target data, (t.updateScreenPtrs dist).queued =
      t.queued ++ [⟨⟨BitVec.ofNat 8 SCREEN_COLS, target, PPU_DESC_FLAG_NULL⟩, data⟩] := by
  have inTable : ¬ SCROLL_POS ≥ SCREEN_SIZE := by decide
  have move : t.screen.move dist = { t.screen with
      curScreenPtr := t.screen.curScreenPtr + BitVec.ofNat 16 dist
      curNametablePos := SCROLL_POS
      scrollStarted := true } := by
    unfold Screen.move
    dsimp only
    rw [far, if_neg inTable]
    dsimp only
    have starts : (!false && decide (SCROLL_POS ≥ SCREEN_VIS_SIZE + SCREEN_COLS)) = true := by decide
    rw [still, if_pos starts]
  have column : SCROLL_POS % SCREEN_COLS = 0 := by decide
  unfold Console.updateScreenPtrs
  rw [if_neg (Nat.ne_of_gt pos), move]
  unfold Console.scrollIfWrapped
  dsimp only
  rw [column, if_pos rfl]
  split
  · exact ⟨_, _, rfl⟩
  · next notBehind =>
    rw [if_pos ⟨(Nat.eq_zero_of_not_pos notBehind).symm, rfl⟩]
    exact ⟨_, _, rfl⟩

/-- A character before the last row. -/
lemma ppuPutc_near (h : t.screen.InStep) (still : t.screen.scrollStarted = false)
    (near : advance t.screen.curNametablePos c < SCROLL_POS) :
    (t.ppuPutc c).screen.scrollStarted = false ∧
      (t.ppuPutc c).screen.curNametablePos = advance t.screen.curNametablePos c ∧
      (t.ppuPutc c).queued = t.queued ++ t.own c := by
  obtain ⟨t', dist, e, screen, queued, pos, moved, -⟩ := Console.ppuPutc_eq h c
  rw [← moved, ← screen] at near
  rw [e, updateScreenPtrs_near (screen ▸ still) near pos, screen, ← moved]
  exact ⟨still, rfl, queued⟩

/-- The character that takes the cursor to the last row. -/
lemma ppuPutc_far (h : t.screen.InStep) (still : t.screen.scrollStarted = false)
    (far : ¬ advance t.screen.curNametablePos c < SCROLL_POS) :
    ∃ target data, ⟨⟨BitVec.ofNat 8 SCREEN_COLS, target, PPU_DESC_FLAG_NULL⟩, data⟩ ∈ (t.ppuPutc c).queued := by
  obtain ⟨t', dist, e, screen, queued, pos, moved, le⟩ := Console.ppuPutc_eq h c
  obtain ⟨-, -, row, -⟩ := h.before still
  have reached : t'.screen.curNametablePos + dist = SCROLL_POS := by
    rw [screen]
    simp only [SCROLL_POS, SCREEN_VIS_SIZE, SCREEN_VIS_ROWS, SCREEN_COLS] at *
    omega
  obtain ⟨target, data, blanked⟩ := updateScreenPtrs_far (screen ▸ still) reached pos
  refine ⟨target, data, ?_⟩
  rw [e, blanked]
  exact List.mem_append_right _ (List.mem_singleton_self _)

end Console

/-! ## The retry loop -/

section Ends

variable {t : Console} {F Q : Vars → Prop} {P : Vars → Prop}

/-- An idle buffer can be drained, and who waits for the frame woken. -/
lemma Idle.vblank {s : Vars} (h : Idle s) : ∃ s', Vblank s s' ∧ s'.frameWaitSleep = false ∧ s'.databufPos = 0 := by
  obtain ⟨done, pending, b, holds, -⟩ := h
  obtain ⟨dirty, -, e⟩ := b.vblank holds fun _ _ => 0
  exact ⟨_, ⟨_, e⟩, rfl, rfl⟩

/-- `wait_frame` comes to its end. -/
lemma waitFrame_ends (ghost : Ghost F) : Ends Vblank (fun s => F s ∧ Idle s) Code.waitFrame := by
  have sleep : Triple Vblank Handshake (fun s => F s ∧ Idle s) (set fun s => { s with frameWaitSleep := true })
      (fun s => F s ∧ Idle s) := by
    refine Triple.set ghost.firm ghost.firm fun s hs => ⟨ghost.other s _ rfl rfl hs.1, ?_⟩
    obtain ⟨-, done, pending, b, h, quiet⟩ := hs
    exact ⟨done, pending, b.congr rfl rfl rfl, h, quiet⟩
  refine (Ends.straight .act sleep).seq sleep ?_
  refine Ends.loop ghost.firm ghost.firm (fun _ hs _ => hs) (.skip ghost.firm) (fun _ hs _ => hs)
    (.straight .skip (.skip ghost.firm)) fun s hs _ => ?_
  obtain ⟨s', int, awake, -⟩ := hs.2.vblank
  exact ⟨s', Interrupts.Run.start.interrupt int, awake⟩

/-- A frame can be waited for in which the buffer is drained. -/
lemma waitFrame_drains {s : Vars} (h : Idle s) :
    ∃ s', Interrupts.Run Vblank Code.waitFrame s skip s' ∧ s'.databufPos = 0 := by
  have sleeping : Idle { s with frameWaitSleep := true } := by
    obtain ⟨done, pending, b, holds, quiet⟩ := h
    exact ⟨done, pending, b.congr rfl rfl rfl, holds, quiet⟩
  obtain ⟨s', int, awake, empty⟩ := sleeping.vblank
  have sleeps : Interrupts.Step (set fun s => { s with frameWaitSleep := true }) s skip
      { s with frameWaitSleep := true } := .act rfl
  refine ⟨s', ?_, empty⟩
  exact (((Interrupts.Run.start.step (.seqL sleeps)).step .seqR).interrupt int).step (.leave awake)

/-- The tries have no loops. -/
lemma tryQueueDescriptor_straight (desc : PpuDesc) (data : Nat → Byte) :
    Straight (Code.tryQueueDescriptor desc data) := by
  have unlock : ∀ b, Straight (Code.unlockReturn b) := fun b => .seq .act .act
  have copy : ∀ src n, Straight (Code.bcopyIn src n) := fun src n => .forUp (fun i => .act) n
  have append : Straight (Code.append desc data) := by
    refine .seq (copy _ _) (.seq .act (.seq ?_ .act))
    split
    · exact .skip
    · exact .seq (copy _ _) .act
  refine .seq (.seq (.ite .act .skip) .act) (.ite (unlock _) (.look fun s => ?_))
  split
  · exact .act
  · split
    · exact unlock _
    · exact .seq append (unlock _)

/-- Where the descriptor is admitted the retry loop can always be brought to its end. -/
lemma queueDescriptor_ends {r : Request} (valid : r.Valid) (low : r.LowBank) (quiet : ¬ r.Reads) {data : Nat → Byte}
    (hdata : ∀ i < (descDatalen r.desc).toNat, data i = r.payload i) (admitted : r.entry.Admitted) :
    Ends Vblank (IdleAt t) (Code.queueDescriptor r.desc data) := by
  have keep : ∀ s b, Idle s → Idle { s with eagain := b } := fun _ _ => Idle.eagain
  have once := tryQueueDescriptor_spec (Ghost.console (t := t)) Idle.firm keep valid low
    (fun _ _ _ joined _ => joined.idle quiet) hdata
  have straight := tryQueueDescriptor_straight r.desc data
  have wait := waitFrame_spec (Ghost.console (t := t))
  refine (Ends.straight straight once).seq once ?_
  refine Ends.loop (Again.firm Ghost.console (Outcome.firm Idle.firm)) Idle.firm (R := IdleAt t) ?_ (wait.seq once) ?_
    ((waitFrame_ends Ghost.console).seq wait (.straight straight once)) ?_
  · exact fun s hs again => ⟨(hs.1 again).1, hs.2.elim And.right fun no => absurd (no.1.symm.trans again) nofun⟩
  · exact fun s hs done => hs.2.elim (fun yes => absurd (yes.1.symm.trans done) nofun) And.right
  · intro s hs again
    have idle : IdleAt t s := ⟨(hs.1 again).1, hs.2.elim And.right fun no => absurd (no.1.symm.trans again) nofun⟩
    obtain ⟨s₁, waits, empty⟩ := waitFrame_drains idle.2
    obtain ⟨console, idle₁⟩ := (wait s idle _ _ waits).2.2 rfl
    -- from here on the buffer is empty, and `__queue_descriptor` has no reason to refuse
    have ghost : Ghost fun s => s.console = t ∧ s.databufPos = 0 :=
      ⟨fun _ _ int h => ⟨int.console.1.trans h.1, int.console.2 h.2⟩, fun _ _ c p h => ⟨c.trans h.1, p.trans h.2⟩⟩
    have final := tryQueueDescriptor_spec ghost Idle.firm keep valid low (fun _ _ _ joined _ => joined.idle quiet) hdata
    obtain ⟨s₂, tries⟩ := Ends.straight straight final s₁ ⟨⟨console, empty⟩, idle₁⟩ _ _ .start
    refine ⟨s₂, waits.seqEnd tries, ?_⟩
    have refused := ((final s₁ ⟨⟨console, empty⟩, idle₁⟩ _ _ tries).2.2 rfl).1
    exact Bool.eq_false_iff.mpr fun yes => admitted.not_refused (refused yes).2

/-! ## Sequences of characters -/

/-- A look at the screen. -/
lemma look_screen_ends {k : Screen → Cmd Vars} (h : Ends Vblank (IdleAt t) (k t.screen)) :
    Ends Vblank (IdleAt t) (look fun s => k s.screen) := by
  refine Ends.look IdleAt.firm fun s hs => ⟨IdleAt t, hs, ?_⟩
  have screen : s.screen = t.screen := congrArg Console.screen hs.1
  rw [screen]
  exact h

/-- An assignment of the screen comes to its end. -/
lemma onScreen_ends {f : Screen → Screen} : Ends Vblank (IdleAt t) (Code.onScreen f) := .straight .act IdleAt.onScreen

/-- A test of the screen that fails, with nothing to do then. -/
lemma skips {p : Screen → Bool} {c : Cmd Vars} (no : p t.screen = false) :
    Triple Vblank Handshake (IdleAt t) (ite (fun s => p s.screen) c skip) (IdleAt t) ∧
      Ends Vblank (IdleAt t) (ite (fun s => p s.screen) c skip) := by
  constructor
  · exact ite_screen (fun _ => And.left) IdleAt.firm (fun yes => absurd (no.symm.trans yes) nofun)
      fun _ => .skip IdleAt.firm
  · apply look_screen_ends (k := fun t => if p t then c else skip)
    rw [no]
    exact .straight .skip (.skip IdleAt.firm)

/-- Before the scrolling starts nothing stands in the way of `update_screen_ptrs`. -/
lemma updateScreenPtrs_ends {dist : Nat} (still : t.screen.scrollStarted = false)
    (near : t.screen.curNametablePos + dist < SCROLL_POS) :
    Ends Vblank (IdleAt t) (Code.updateScreenPtrs dist) := by
  let moved : Console := { t with screen := { t.screen with
    curScreenPtr := t.screen.curScreenPtr + BitVec.ofNat 16 dist
    curNametablePos := t.screen.curNametablePos + dist } }
  have inTable : ¬ t.screen.curNametablePos + dist ≥ SCREEN_SIZE := by
    simp only [SCROLL_POS, SCREEN_VIS_SIZE, SCREEN_VIS_ROWS, SCREEN_SIZE, SCREEN_ROWS, SCREEN_COLS] at *
    omega
  refine Ends.look IdleAt.firm fun s hs => ⟨IdleAt t, hs, ?_⟩
  dsimp only
  split
  · exact .straight .skip (.skip IdleAt.firm)
  · refine onScreen_ends.seq IdleAt.onScreen (onScreen_ends.seq IdleAt.onScreen ?_)
    obtain ⟨swap, swapEnds⟩ := skips (t := moved) (p := fun t => t.curNametablePos ≥ SCREEN_SIZE)
      (c := Code.swapNametable) (decide_eq_false inTable)
    obtain ⟨start, startEnds⟩ := skips (t := moved)
      (p := fun t => !t.scrollStarted && t.curNametablePos ≥ SCREEN_VIS_SIZE + SCREEN_COLS)
      (c := Code.onScreen fun t => { t with scrollStarted := true })
      (by rw [Bool.and_eq_false_iff]; exact .inr (decide_eq_false (Nat.not_le_of_lt near)))
    exact swapEnds.seq swap (startEnds.seq start (skips (t := moved) (p := fun t => t.scrollStarted) still).2)

/-- A character before the last row can always be brought to its end. -/
lemma ppuPutc_ends {c : Byte} (h : t.screen.InStep) (still : t.screen.scrollStarted = false)
    (near : advance t.screen.curNametablePos c < SCROLL_POS) : Ends Vblank (IdleAt t) (Code.ppuPutc c) := by
  unfold advance at near
  unfold Code.ppuPutc
  split
  · next newline =>
    rw [if_pos newline] at near
    apply look_screen_ends (k := fun t => Code.updateScreenPtrs (SCREEN_COLS - t.curScreenPtr.toNat % SCREEN_COLS))
    apply updateScreenPtrs_ends still
    rw [Console.nextLine_column h]
    have column := Nat.mod_lt t.screen.curNametablePos (show 0 < SCREEN_COLS by decide)
    simp only [SCREEN_COLS] at *
    omega
  · next char =>
    rw [if_neg char] at near
    refine Ends.seq ?_ queueChar_spec (updateScreenPtrs_ends still near)
    apply look_screen_ends (k := fun t => Code.queueDescriptor ⟨1, t.curScreenPtr, 0⟩ fun _ => c)
    have entry : (Request.video t.screen.curScreenPtr [c]).entry = ⟨⟨1, t.screen.curScreenPtr, 0⟩, [c]⟩ := by
      show Entry.mk _ ((List.range (descDatalen ⟨1, t.screen.curScreenPtr, 0⟩).toNat).map _) = _
      rw [char_datalen]
      rfl
    exact queueDescriptor_ends (r := .video t.screen.curScreenPtr [c]) (char_valid _ c) trivial id (char_data _ c)
      (entry ▸ char_admitted _ c)

end Ends

/-! ## Sequences of characters -/

/-- The console after the characters, from a console `t`. -/
def Console.type (t : Console) (cs : List Byte) : Console := cs.foldl (fun t c => t.ppuPutc c) t

/-- A console whose scrolling has not started. -/
structure Console.Still (t : Console) : Prop where
  inStep : t.screen.InStep
  still : t.screen.scrollStarted = false
  admitted : ∀ e ∈ t.queued, e.Admitted

section Typing

variable {t : Console} {c : Byte} {cs : List Byte}

/-- One character before the last row. -/
lemma Console.Still.ppuPutc (h : t.Still) (near : advance t.screen.curNametablePos c < SCROLL_POS) :
    (t.ppuPutc c).Still ∧ (t.ppuPutc c).screen.curNametablePos = advance t.screen.curNametablePos c := by
  obtain ⟨still, pos, queued⟩ := ppuPutc_near h.inStep h.still near
  refine ⟨⟨(Console.ppuPutc_spec h.inStep c).1, still, fun e he => ?_⟩, pos⟩
  rw [queued] at he
  obtain old | own := List.mem_append.mp he
  · exact h.admitted e old
  · unfold Console.own at own
    split at own
    · cases own
    · rw [List.mem_singleton.mp own]
      exact char_admitted _ c

/-- A character goes forward. -/
lemma lt_advance (pos : Nat) (c : Byte) : pos < advance pos c := by
  unfold advance
  simp only [SCREEN_COLS]
  split <;> omega

/-- Characters go forward. -/
lemma advance_le (pos : Nat) : pos ≤ cs.foldl advance pos := by
  induction cs generalizing pos with
  | nil => exact Nat.le_refl pos
  | cons c cs ih => exact Nat.le_of_lt (Nat.lt_of_lt_of_le (lt_advance pos c) (ih _))

/-- A text that ends before the last row. -/
lemma Console.Still.type (h : t.Still) (near : cs.foldl advance t.screen.curNametablePos < SCROLL_POS) :
    (t.type cs).Still ∧ Ends Vblank (IdleAt t) (each Code.ppuPutc cs) := by
  induction cs generalizing t with
  | nil => exact ⟨h, .straight .skip (.skip IdleAt.firm)⟩
  | cons c cs ih =>
    have first : advance t.screen.curNametablePos c < SCROLL_POS := Nat.lt_of_le_of_lt (advance_le _) near
    obtain ⟨next, pos⟩ := h.ppuPutc first
    obtain ⟨still, ends⟩ := ih next (pos.symm ▸ near)
    exact ⟨still, (ppuPutc_ends h.inStep h.still first).seq Ppu.ppuPutc_spec ends⟩

/-- What has been queued stays queued. -/
lemma queued_type (e : Entry) (h : t.screen.InStep) (he : e ∈ t.queued) : e ∈ (t.type cs).queued := by
  induction cs generalizing t with
  | nil => exact he
  | cons c cs ih =>
    obtain ⟨inStep, advances⟩ := Console.ppuPutc_spec h c
    apply ih inStep
    obtain ⟨-, queued⟩ | ⟨-, queued⟩ := advances
    · rw [queued]
      exact List.mem_append_left _ he
    · rw [queued]
      exact List.mem_append_left _ (List.mem_append_left _ he)

/-- A text that comes to the last row has it blanked. -/
lemma Console.Still.blanks (h : t.Still) (far : ¬ cs.foldl advance t.screen.curNametablePos < SCROLL_POS)
    (start : t.screen.curNametablePos < SCROLL_POS) : ∃ e ∈ (t.type cs).queued, ¬ e.Admitted := by
  induction cs generalizing t with
  | nil => exact absurd start far
  | cons c cs ih =>
    by_cases near : advance t.screen.curNametablePos c < SCROLL_POS
    · obtain ⟨next, pos⟩ := h.ppuPutc near
      exact ih next (pos.symm ▸ far) (pos.symm ▸ near)
    · obtain ⟨target, data, blanked⟩ := ppuPutc_far h.inStep h.still near
      have inStep := (Console.ppuPutc_spec h.inStep c).1
      exact ⟨_, queued_type (t := t.ppuPutc c) _ inStep blanked, blanking_not_admitted target data⟩

end Typing

/-- Every descriptor of the characters is accepted as soon as the buffer has been drained, and wherever the
run of their `ppu_putc` calls has come, it can be brought to its end. -/
structure GetsThrough (cs : List Byte) : Prop where
  admitted : ∀ e ∈ (Console.typed cs).queued, e.Admitted
  returns : ∀ c s, Interrupts.Run Vblank (each Code.ppuPutc cs) booted c s →
    ∃ s', Interrupts.Run Vblank c s skip s'

/-- At the start the console is still. -/
lemma start_still : Console.start.Still := ⟨Console.start_inStep, rfl, fun _ he => absurd he List.not_mem_nil⟩

/-- The console gets through if and only if the text ends before the last row. -/
theorem getsThrough_iff (cs : List Byte) : GetsThrough cs ↔ cs.foldl advance SCREEN_COLS < SCROLL_POS := by
  constructor
  · intro through
    by_contra far
    obtain ⟨e, queued, refused⟩ := start_still.blanks far (by decide)
    exact refused (through.admitted e queued)
  · intro near
    obtain ⟨still, ends⟩ := start_still.type near
    exact ⟨still.admitted, ends booted ⟨rfl, booted_idle⟩⟩

/-- 28 newlines take the cursor to the last row. -/
theorem not_getsThrough : ¬ ∀ cs, GetsThrough cs := by
  intro all
  have far : ¬ (List.replicate 28 13).foldl advance Console.start.screen.curNametablePos < SCROLL_POS := by decide
  obtain ⟨e, queued, refused⟩ := start_still.blanks far (by decide)
  exact refused ((all _).admitted e queued)

end Uzi.Ppu
