import Uzi.Drivers.PpuMemory
import Uzi.Drivers.ConsoleRuns

/-!
# The text on the screen

A text stands on an endless sheet, row under row. The nametables are a drum of sixty rows under this sheet, the
picture is the part of the drum behind the scroll position. What the console queues keeps the last rows of the sheet
on the drum, and so the picture shows the end of the text.
-/

namespace Uzi.Ppu
open FlatFile

/-! ## The sheet -/

/-- Where the next character goes on the sheet, and the characters on it. -/
structure Sheet where
  pos : Nat
  cell : Nat → Option Byte

namespace Sheet

/-- The sheet before the first character, whose first row is not visible. -/
def blank : Sheet := ⟨SCREEN_COLS, fun _ => none⟩

/-- A character. A carriage return goes to the next row. -/
def type (s : Sheet) (c : Byte) : Sheet :=
  ⟨advance s.pos c, if c = 13 then s.cell else Function.update s.cell s.pos (some c)⟩

/-- The sheet with a text. -/
def typed (cs : List Byte) : Sheet := cs.foldl type blank

/-- The row of the cursor. -/
def row (s : Sheet) : Nat := s.pos / SCREEN_COLS

/-- The row above those that the picture shows. -/
def above (s : Sheet) : Nat := s.row - SCREEN_VIS_ROWS

end Sheet

/-- The address of a place on the sheet: the two nametables in turn. -/
def cellAddr (q : Nat) : Nat :=
  if q % (SCREEN_SIZE * 2) < SCREEN_SIZE then PPU_TABLE0_ADDR.toNat + q % (SCREEN_SIZE * 2)
  else PPU_TABLE1_ADDR.toNat + (q % (SCREEN_SIZE * 2) - SCREEN_SIZE)

/-- The byte that belongs at a place: the character that stands there, or else what has been in the nametables `v`
from the start, or zero in the rows that come when the scrolling has started. -/
def Sheet.shown (s : Sheet) (v : Nat → Byte) (q : Nat) : Byte :=
  (s.cell q).getD (if q / SCREEN_COLS ≤ SCREEN_VIS_ROWS then v (cellAddr q) else 0)

section Addresses

variable {q q' k : Nat}

/-- The address of a cell. -/
lemma cellAddr_eq : cellAddr q = if q % 1920 < 960 then 0x2000 + q % 1920 else 0x2800 + (q % 1920 - 960) := rfl

/-- Different cells have different addresses. -/
lemma cellAddr_inj : cellAddr q = cellAddr q' ↔ q % 1920 = q' % 1920 := by
  rw [cellAddr_eq, cellAddr_eq]
  split <;> split <;> omega

/-- A row lies in one piece. -/
lemma cellAddr_add (lt : q % 32 + k < 32) : cellAddr (q + k) = cellAddr q + k := by
  rw [cellAddr_eq, cellAddr_eq]
  split <;> split <;> omega

/-- The cells are in the nametables. -/
lemma cellAddr_range : 0x2000 ≤ cellAddr q ∧ cellAddr q < 0x2bc0 := by
  rw [cellAddr_eq]
  split <;> omega

/-- The address of a place in a nametable. -/
lemma toNat_base {table : Byte} (h : table = 0 ∨ table = 1) {pos : Nat} (lt : pos < SCREEN_SIZE) :
    (Screen.base table + BitVec.ofNat 16 pos).toNat = cellAddr (SCREEN_SIZE * table.toNat + pos) := by
  have size : SCREEN_SIZE = 960 := rfl
  rw [size] at lt ⊢
  rw [cellAddr_eq, BitVec.toNat_add, BitVec.toNat_ofNat]
  obtain rfl | rfl := h
  · have base : (Screen.base 0).toNat = 0x2000 := rfl
    have zero : (0 : Byte).toNat = 0 := rfl
    rw [base, zero]
    split <;> omega
  · have base : (Screen.base 1).toNat = 0x2800 := rfl
    have one : (1 : Byte).toNat = 1 := rfl
    rw [base, one]
    split <;> omega

end Addresses

/-! ## The place of the cursor -/

/-- The place of the cursor on the drum. -/
def Screen.place (t : Screen) : Nat := SCREEN_SIZE * t.curNametable.toNat + t.curNametablePos

section Place

variable {t : Screen} {dist : Nat}

/-- A scroll leaves the place. -/
lemma Screen.scroll_place : t.scroll.place = t.place ∧ t.scroll.scrollStarted = t.scrollStarted := by
  unfold Screen.scroll
  dsimp only
  split <;> exact ⟨rfl, rfl⟩

/-- The scrolling does not move the cursor. -/
lemma Console.scrollIfWrapped_place (t : Console) (origX : Nat) :
    (t.scrollIfWrapped origX).screen.place = t.screen.place ∧
      (t.scrollIfWrapped origX).screen.scrollStarted = t.screen.scrollStarted := by
  unfold Console.scrollIfWrapped
  split
  · dsimp only
    split
    · exact Screen.scroll_place
    · split
      · exact Screen.scroll_place
      · exact ⟨rfl, rfl⟩
  · exact ⟨rfl, rfl⟩

/-- The cursor goes on by up to a row. -/
lemma Screen.InStep.move_place (h : t.InStep) (le : t.curNametablePos % SCREEN_COLS + dist ≤ SCREEN_COLS) :
    (t.move dist).place = (t.place + dist) % (SCREEN_SIZE * 2) ∧
      ((t.move dist).scrollStarted = true ↔ t.scrollStarted = true ∨ SCROLL_POS ≤ t.place + dist) := by
  have pos := h.pos
  have before := h.before
  have zero : (0 : Byte).toNat = 0 := rfl
  have one : (1 : Byte).toNat = 1 := rfl
  have ne : (1 : Byte) ≠ 0 := by decide
  simp only [SCREEN_SIZE, SCREEN_ROWS, SCREEN_COLS, SCREEN_VIS_ROWS] at pos before le
  unfold move place
  by_cases swaps : t.curNametablePos + dist ≥ SCREEN_SIZE
  · -- the last row is left, and only after the scrolling has started
    have started : t.scrollStarted = true := by
      by_contra no
      have row := (before (Bool.eq_false_iff.mpr no)).2.2.1
      simp only [SCREEN_SIZE, SCREEN_ROWS, SCREEN_COLS] at swaps
      omega
    dsimp only
    rw [if_pos swaps]
    unfold swapNametable
    simp only [SCREEN_SIZE, SCREEN_ROWS, SCREEN_COLS] at swaps ⊢
    obtain table | table := h.table
    · simp only [table, if_true, started, Bool.not_true, Bool.false_and, Bool.false_eq_true, if_false, true_or,
        and_true, zero, one]
      omega
    · simp only [table, ne, if_false, started, Bool.not_true, Bool.false_and, Bool.false_eq_true, if_false, true_or,
        and_true, zero, one]
      omega
  · dsimp only
    rw [if_neg swaps]
    dsimp only
    simp only [SCROLL_POS, SCREEN_VIS_SIZE, SCREEN_VIS_ROWS, SCREEN_SIZE, SCREEN_ROWS, SCREEN_COLS] at swaps ⊢
    have place : 30 * 32 * t.curNametable.toNat + (t.curNametablePos + dist) =
        (30 * 32 * t.curNametable.toNat + t.curNametablePos + dist) % (30 * 32 * 2) := by
      obtain table | table := h.table <;> simp only [table, zero, one] <;> omega
    cases started : t.scrollStarted with
    | true =>
      simp only [Bool.not_true, Bool.false_and, Bool.false_eq_true, if_false, true_or]
      exact ⟨place, trivial⟩
    | false =>
      have table := (before started).1
      rw [table, zero] at place
      by_cases far : t.curNametablePos + dist ≥ 28 * 32 + 32
      · simp only [far, decide_true, Bool.not_false, Bool.and_true, if_true, table, zero]
        exact ⟨place, iff_of_true trivial (.inr (by omega))⟩
      · simp only [far, decide_false, Bool.and_false, Bool.false_eq_true, if_false, table, zero]
        refine ⟨place, iff_of_false id ?_⟩
        rintro (yes | late)
        · exact yes
        · omega

end Place

/-! ## The drum -/

/-- The drum up to the row `r`, after nametables `v₀` at the start: it holds the last rows of the sheet. -/
structure Drum (v₀ : Nat → Byte) (r : Nat) (sheet : Sheet) (v : Nat → Byte) : Prop where
  empty : ∀ q ≥ sheet.pos, sheet.cell q = none
  rows : ∀ q, 0 < q / SCREEN_COLS → q / SCREEN_COLS ≤ max r SCREEN_VIS_ROWS → r < q / SCREEN_COLS + SCREEN_ROWS * 2 →
    v (cellAddr q) = sheet.shown v₀ q
  others : ∀ a, (∀ q, cellAddr q ≠ a) → v a = v₀ a

/-- The console and the nametables stand where the sheet does. -/
structure Shows (v₀ : Nat → Byte) (t : Console) (sheet : Sheet) (v : Nat → Byte) : Prop where
  inStep : t.screen.InStep
  place : t.screen.place = sheet.pos % (SCREEN_SIZE * 2)
  started : t.screen.scrollStarted = true ↔ SCREEN_VIS_ROWS < sheet.row
  drum : Drum v₀ sheet.row sheet v

/-- A request of the console. -/
def Request.OnScreen : Request → Prop
  | .video _ _ | .null _ _ => True
  | _ => False

section Drum

variable {v₀ v : Nat → Byte} {sheet : Sheet} {r : Nat} {c : Byte}

/-- What the characters of a row and its blanking do to other places. -/
lemma overwrite_cell {q p : Nat} {data : List Byte} (inRow : p % 32 + data.length ≤ 32)
    (away : ∀ k < data.length, q % 1920 ≠ (p + k) % 1920) :
    overwrite v (cellAddr p) data (cellAddr q) = v (cellAddr q) := by
  rw [overwrite]
  split
  · next le =>
    rw [List.getElem?_eq_none]
    · rfl
    · by_contra lt
      have lt : cellAddr q - cellAddr p < data.length := Nat.lt_of_not_le lt
      have same : cellAddr q = cellAddr (p + (cellAddr q - cellAddr p)) := by
        rw [cellAddr_add (by omega)]
        omega
      exact away _ lt (cellAddr_inj.mp same)
  · rfl

/-- Nothing but the places of a row is written. -/
lemma overwrite_others {p a : Nat} {data : List Byte} (inRow : p % 32 + data.length ≤ 32)
    (other : ∀ q, cellAddr q ≠ a) : overwrite v (cellAddr p) data a = v a := by
  rw [overwrite]
  split
  · next le =>
    rw [List.getElem?_eq_none]
    · rfl
    · by_contra lt
      refine other (p + (a - cellAddr p)) ?_
      rw [cellAddr_add (by omega)]
      omega
  · rfl

/-- A character in the last row. -/
lemma Drum.put (h : Drum v₀ r sheet v) (row : sheet.row = r) :
    Drum v₀ r ⟨sheet.pos + 1, Function.update sheet.cell sheet.pos (some c)⟩
      (overwrite v (cellAddr sheet.pos) [c]) where
  empty q hq := by
    dsimp only at hq ⊢
    rw [Function.update_of_ne (by omega)]
    exact h.empty q (by omega)
  rows q pos le near := by
    simp only [Sheet.row, SCREEN_COLS, SCREEN_ROWS, SCREEN_VIS_ROWS] at row pos le near
    by_cases here : q = sheet.pos
    · rw [here, Sheet.shown, overwrite, if_pos (Nat.le_refl _), Nat.sub_self]
      dsimp only
      rw [Function.update_self]
      rfl
    · rw [overwrite_cell (by rw [List.length_singleton]; omega), h.rows q pos le near, Sheet.shown, Sheet.shown]
      · dsimp only
        rw [Function.update_of_ne here]
      intro k hk
      rw [List.length_singleton] at hk
      omega
  others a other := by
    rw [overwrite_others (by rw [List.length_singleton]; omega) other, h.others a other]

/-- The rest of a row is left out. -/
lemma Drum.skip (h : Drum v₀ r sheet v) {pos : Nat} (le : sheet.pos ≤ pos) : Drum v₀ r ⟨pos, sheet.cell⟩ v where
  empty q hq := h.empty q (Nat.le_trans le hq)
  rows := h.rows
  others := h.others

/-- A row that is in the picture from the start. -/
lemma Drum.enter (h : Drum v₀ r sheet v) (lt : r < SCREEN_VIS_ROWS) : Drum v₀ (r + 1) sheet v where
  empty := h.empty
  rows q pos le near := h.rows q pos (by omega) (by omega)
  others := h.others

/-- A row that is blanked. -/
lemma Drum.blank (h : Drum v₀ r sheet v) (ge : SCREEN_VIS_ROWS ≤ r) (start : sheet.pos = SCREEN_COLS * (r + 1)) :
    Drum v₀ (r + 1) sheet (overwrite v (cellAddr sheet.pos) (List.replicate SCREEN_COLS 0)) where
  empty := h.empty
  rows q pos le near := by
    simp only [SCREEN_COLS, SCREEN_ROWS, SCREEN_VIS_ROWS] at start ge pos le near
    by_cases here : q / 32 = r + 1
    · have place : cellAddr q = cellAddr sheet.pos + (q - sheet.pos) := by
        rw [← cellAddr_add (by omega)]
        exact congrArg _ (by omega)
      have late : ¬ q / 32 ≤ 28 := by omega
      rw [Sheet.shown, h.empty q (by omega), SCREEN_COLS, SCREEN_VIS_ROWS, if_neg late, place, overwrite,
        if_pos (Nat.le_add_right _ _), Nat.add_sub_cancel_left, List.getElem?_replicate_of_lt (by omega)]
      rfl
    · rw [overwrite_cell (by rw [List.length_replicate, SCREEN_COLS]; omega)]
      · exact h.rows q pos (by simp only [SCREEN_COLS, SCREEN_VIS_ROWS]; omega)
          (by simp only [SCREEN_COLS, SCREEN_ROWS]; omega)
      · intro k hk
        rw [List.length_replicate, SCREEN_COLS] at hk
        omega
  others a other := by
    rw [overwrite_others (by rw [List.length_replicate, start, SCREEN_COLS]; omega) other, h.others a other]

end Drum

section Typing

variable {v₀ v : Nat → Byte} {t : Console} {sheet : Sheet} {c : Byte}

/-- The cursor's address. -/
lemma Shows.ptr (h : Shows v₀ t sheet v) : t.screen.curScreenPtr.toNat = cellAddr sheet.pos := by
  rw [h.inStep.ptr, toNat_base h.inStep.table h.inStep.pos]
  refine cellAddr_inj.mpr ?_
  have place := h.place
  simp only [Screen.place, SCREEN_SIZE, SCREEN_ROWS, SCREEN_COLS] at *
  omega

/-- The cursor's own request. -/
lemma Shows.own (h : Shows v₀ t sheet v) : ∃ rs, t.own c = rs.map Request.entry ∧ (∀ r ∈ rs, r.Sound ∧ r.OnScreen) ∧
    Drum v₀ sheet.row (sheet.type c) (vramAfter v rs) := by
  have ptr := h.ptr
  have range := cellAddr_range (q := sheet.pos)
  unfold Console.own Sheet.type advance
  split
  · refine ⟨[], rfl, nofun, h.drum.skip ?_⟩
    simp only [SCREEN_COLS]
    omega
  · have entry : (Request.video t.screen.curScreenPtr [c]).entry = ⟨t.charDesc, [c]⟩ := by
      show Entry.mk _ ((List.range (descDatalen ⟨1, t.screen.curScreenPtr, 0⟩).toNat).map _) = _
      rw [char_datalen]
      rfl
    refine ⟨[.video t.screen.curScreenPtr [c]], congrArg (fun e => [e]) entry.symm, ?_, ?_⟩
    · refine List.forall_mem_singleton.mpr ⟨⟨char_valid _ c, trivial, ?_, ?_⟩, trivial⟩
      · show _ ≤ _ ∧ _ + [c].length ≤ _
        rw [ptr, List.length_singleton]
        omega
      · rw [Request.stored_length]
        show 4 + (descDatalen ⟨1, t.screen.curScreenPtr, 0⟩).toNat < 256
        rw [char_datalen]
        decide
    · show Drum v₀ sheet.row _ (overwrite v t.screen.curScreenPtr.toNat [c])
      rw [ptr]
      exact h.drum.put rfl

/-- The blanking of a row. -/
lemma blanking_request {s : Screen} (h : s.InStep) (column : s.place % SCREEN_COLS = 0) :
    ∃ r : Request, s.blanking = r.entry ∧ r.Sound ∧ r.OnScreen ∧
      r.vram v = overwrite v (cellAddr s.place) (List.replicate SCREEN_COLS 0) := by
  have start : SCREEN_COLS * (s.curNametablePos / SCREEN_COLS) = s.curNametablePos := by
    simp only [Screen.place, SCREEN_SIZE, SCREEN_ROWS, SCREEN_COLS] at column ⊢
    omega
  have target := toNat_base h.table h.pos
  have range := cellAddr_range (q := s.place)
  have ne : BitVec.ofNat 8 SCREEN_COLS ≠ 0 := by decide
  have size : (BitVec.ofNat 8 SCREEN_COLS).toNat = SCREEN_COLS := rfl
  have empty : (descDatalen ⟨BitVec.ofNat 8 SCREEN_COLS, 0, PPU_DESC_FLAG_NULL⟩).toNat = 0 := by decide
  refine ⟨.null (Screen.base s.curNametable + BitVec.ofNat 16 s.curNametablePos) (BitVec.ofNat 8 SCREEN_COLS), ?_,
    ⟨ne, trivial, ?_, ?_⟩, trivial, ?_⟩
  · rw [Screen.blanking, start]
    show _ = Entry.mk _ ((List.range (descDatalen ⟨BitVec.ofNat 8 SCREEN_COLS, 0, PPU_DESC_FLAG_NULL⟩).toNat).map _)
    rw [empty]
    rfl
  · show _ ≤ _ ∧ _ ≤ _
    rw [target, size, SCREEN_COLS]
    have same : cellAddr (SCREEN_SIZE * s.curNametable.toNat + s.curNametablePos) = cellAddr s.place := rfl
    omega
  · rw [Request.stored_length]
    show 4 + (descDatalen ⟨BitVec.ofNat 8 SCREEN_COLS, 0, PPU_DESC_FLAG_NULL⟩).toNat < 256
    rw [empty]
    decide
  · show overwrite v (BitVec.toNat _) (List.replicate (BitVec.toNat _) 0) = _
    rw [target, size]
    rfl

/-- The cursor goes on by one character. -/
lemma Shows.advances (h : Shows v₀ t sheet v) (c : Byte) :
    (t.ppuPutc c).screen.place = (sheet.type c).pos % (SCREEN_SIZE * 2) ∧
      ((t.ppuPutc c).screen.scrollStarted = true ↔ SCREEN_VIS_ROWS < (sheet.type c).row) ∧
      ∃ dist, (sheet.type c).pos = sheet.pos + dist ∧ 0 < dist ∧ sheet.pos % SCREEN_COLS + dist ≤ SCREEN_COLS := by
  obtain ⟨t', dist, e, screen, -, pos, adv, le⟩ := Console.ppuPutc_eq h.inStep c
  have place := h.place
  have started := h.started
  have onward : (sheet.type c).pos = sheet.pos + dist := by
    show advance sheet.pos c = _
    unfold advance at adv ⊢
    simp only [Screen.place, SCREEN_SIZE, SCREEN_ROWS, SCREEN_COLS] at *
    by_cases newline : c = 13
    · rw [if_pos newline] at adv ⊢
      omega
    · rw [if_neg newline] at adv ⊢
      omega
  have column : t.screen.curNametablePos % SCREEN_COLS = sheet.pos % SCREEN_COLS := by
    simp only [Screen.place, SCREEN_SIZE, SCREEN_ROWS, SCREEN_COLS] at *
    omega
  obtain ⟨moved, starts⟩ := h.inStep.move_place le
  have after : (t.ppuPutc c).screen.place = (t.screen.move dist).place ∧
      (t.ppuPutc c).screen.scrollStarted = (t.screen.move dist).scrollStarted := by
    rw [e, Console.updateScreenPtrs, if_neg (Nat.ne_of_gt pos), screen]
    exact Console.scrollIfWrapped_place _ _
  refine ⟨?_, ?_, dist, onward, pos, column ▸ le⟩
  · rw [after.1, moved, place, onward, Nat.mod_add_mod]
  · rw [after.2, starts, started]
    simp only [Sheet.row, onward, place, SCROLL_POS, SCREEN_VIS_SIZE, SCREEN_SIZE, SCREEN_ROWS, SCREEN_COLS,
      SCREEN_VIS_ROWS]
    omega

/-- One character. -/
lemma Shows.ppuPutc (h : Shows v₀ t sheet v) (c : Byte) :
    ∃ rs, (t.ppuPutc c).queued = t.queued ++ rs.map Request.entry ∧ (∀ r ∈ rs, r.Sound ∧ r.OnScreen) ∧
      Shows v₀ (t.ppuPutc c) (sheet.type c) (vramAfter v rs) := by
  obtain ⟨place, started, dist, onward, pos, le⟩ := h.advances c
  obtain ⟨inStep, advances⟩ := Console.ppuPutc_spec h.inStep c
  obtain ⟨rs, own, sound, drum⟩ := h.own (c := c)
  have row : ∀ s : Screen, s.row = s.place / SCREEN_COLS := by
    intro s
    simp only [Screen.row, Screen.place, SCREEN_SIZE, SCREEN_ROWS, SCREEN_COLS]
    omega
  have old := h.place
  unfold Advances at advances
  rw [row, row, old, place, onward] at advances
  obtain ⟨same, queued⟩ | ⟨next, queued⟩ := advances
  · -- the cursor stays in its row
    have stays : (sheet.type c).row = sheet.row := by
      simp only [Sheet.row, onward, SCREEN_SIZE, SCREEN_ROWS, SCREEN_COLS] at *
      omega
    exact ⟨rs, by rw [queued, own], sound, inStep, place, started, stays.symm ▸ drum⟩
  · have enters : (sheet.type c).row = sheet.row + 1 ∧ (sheet.type c).pos = SCREEN_COLS * (sheet.row + 1) := by
      simp only [Sheet.row, onward, SCREEN_SIZE, SCREEN_ROWS, SCREEN_COLS] at *
      omega
    by_cases scrolls : (t.ppuPutc c).screen.scrollStarted = true
    · -- a row that is scrolled to
      have late := started.mp scrolls
      obtain ⟨r, blanking, soundR, onScreen, blanks⟩ := blanking_request (v := vramAfter v rs) inStep (by
        rw [place, enters.2]
        simp only [SCREEN_SIZE, SCREEN_ROWS, SCREEN_COLS]
        omega)
      refine ⟨rs ++ [r], ?_, ?_, inStep, place, started, ?_⟩
      · rw [queued, if_pos scrolls, own, blanking, List.map_append, List.append_assoc]
        rfl
      · intro q hq
        obtain hq | hq := List.mem_append.mp hq
        · exact sound q hq
        · rw [List.mem_singleton.mp hq]
          exact ⟨soundR, onScreen⟩
      · have there : cellAddr (t.ppuPutc c).screen.place = cellAddr (sheet.type c).pos := by
          rw [place]
          exact cellAddr_inj.mpr (Nat.mod_mod _ _)
        have blanked := drum.blank (by omega) enters.2
        rw [vramAfter_append, enters.1]
        show Drum v₀ _ _ (r.vram (vramAfter v rs))
        rw [blanks, there]
        exact blanked
    · -- a row that has been there from the start
      have early := mt started.mpr scrolls
      refine ⟨rs, ?_, sound, inStep, place, started, ?_⟩
      · rw [queued, if_neg scrolls, List.append_nil, own]
      · rw [enters.1]
        exact drum.enter (by omega)

/-- The start. -/
lemma shows_start : Shows v Console.start Sheet.blank v where
  inStep := Console.start_inStep
  place := by decide
  started := by decide
  drum := by
    refine ⟨fun _ _ => rfl, fun q _ le _ => ?_, fun _ _ => rfl⟩
    have row : q / SCREEN_COLS ≤ SCREEN_VIS_ROWS := le.trans (by decide)
    show _ = if _ then _ else _
    rw [if_pos row]

/-- A text. -/
lemma shows_typed (cs : List Byte) : ∃ rs, (Console.typed cs).queued = rs.map Request.entry ∧
    (∀ r ∈ rs, r.Sound ∧ r.OnScreen) ∧ Shows v (Console.typed cs) (Sheet.typed cs) (vramAfter v rs) := by
  induction cs using List.reverseRecOn with
  | nil => exact ⟨[], rfl, nofun, shows_start⟩
  | append_singleton cs c ih =>
    obtain ⟨rs, queued, sound, shows⟩ := ih
    obtain ⟨rs', queued', sound', shows'⟩ := shows.ppuPutc c
    have text : Sheet.typed (cs ++ [c]) = (Sheet.typed cs).type c := List.foldl_append
    refine ⟨rs ++ rs', ?_, ?_, ?_⟩
    · rw [Console.typed_append, queued', queued, List.map_append]
    · intro r hr
      obtain hr | hr := List.mem_append.mp hr
      · exact sound r hr
      · exact sound' r hr
    · rw [Console.typed_append, text, vramAfter_append]
      exact shows'

/-- The picture is as far behind as the sheet says. -/
lemma Shows.top (h : Shows v₀ t sheet v) (k : Nat) :
    cellAddr (SCREEN_COLS * t.screen.top + k) = cellAddr (SCREEN_COLS * sheet.above + k) := by
  have place := h.place
  have pos := h.inStep.pos
  refine cellAddr_inj.mpr ?_
  cases started : t.screen.scrollStarted with
  | true =>
    have late := h.started.mp started
    have behind : ((t.screen.row : Int) - t.screen.top) % (SCREEN_ROWS * 2) = SCREEN_VIS_ROWS % (SCREEN_ROWS * 2) :=
      h.inStep.behind started
    simp only [Screen.row, Screen.place, Sheet.above, Sheet.row, SCREEN_SIZE, SCREEN_ROWS, SCREEN_COLS,
      SCREEN_VIS_ROWS] at *
    omega
  | false =>
    have early : ¬ SCREEN_VIS_ROWS < sheet.row := mt h.started.mpr (Bool.eq_false_iff.mp started)
    obtain ⟨-, -, -, coarse, fine⟩ := h.inStep.before started
    have top : t.screen.top = 0 := by
      rw [Screen.top, coarse, fine]
      rfl
    have above : sheet.above = 0 := Nat.sub_eq_zero_of_le (Nat.le_of_not_lt early)
    rw [top, above]

/-- What the picture shows. -/
structure Pictured (v₀ : Nat → Byte) (top : Nat) (sheet : Sheet) (v : Nat → Byte) : Prop where
  visible : ∀ j, 1 ≤ j → j ≤ SCREEN_VIS_ROWS → ∀ x < SCREEN_COLS,
    v (cellAddr (SCREEN_COLS * (top + j) + x)) = sheet.shown v₀ (SCREEN_COLS * (sheet.above + j) + x)
  others : ∀ a, (∀ q, cellAddr q ≠ a) → v a = v₀ a

/-- The console leaves the disk alone. -/
lemma chrAfter_onScreen {rs : List Request} (onScreen : ∀ r ∈ rs, r.OnScreen) (c : Nat → Nat → Byte) :
    chrAfter c rs = c := by
  induction rs generalizing c with
  | nil => rfl
  | cons r rs ih =>
    obtain ⟨first, rest⟩ := List.forall_mem_cons.mp onScreen
    have same : r.chr c = c := by
      cases r with
      | video => rfl
      | null => rfl
      | read => rfl
      | write => exact first.elim
    show chrAfter (r.chr c) rs = c
    rw [same, ih rest]

/-- The sheet is the picture. -/
lemma Shows.pictured (h : Shows v₀ t sheet v) : Pictured v₀ t.screen.top sheet v where
  visible j one le x lt := by
    rw [Nat.mul_add, Nat.add_assoc, h.top, ← Nat.add_assoc, ← Nat.mul_add]
    simp only [Sheet.above, SCREEN_COLS, SCREEN_VIS_ROWS] at *
    refine h.drum.rows _ ?_ ?_ ?_ <;> simp only [SCREEN_COLS, SCREEN_ROWS, SCREEN_VIS_ROWS] <;> omega
  others := h.drum.others

end Typing

/-- After every sequence of characters, performing what has been queued for it leaves a picture in which the visible
rows are the last rows of the text, and nothing has been written but rows of the two nametables. -/
theorem typed_pictured (cs : List Byte) (d : Device) (h : d.high = none) :
    Pictured d.vram (Console.typed cs).screen.top (Sheet.typed cs)
        (d.run ((Console.typed cs).queued.flatMap Entry.ops)).vram ∧
      (d.run ((Console.typed cs).queued.flatMap Entry.ops)).chr = d.chr := by
  obtain ⟨rs, queued, sound, shows⟩ := shows_typed (v := d.vram) cs
  obtain ⟨-, vram, chr⟩ := run_requests (fun r hr => (sound r hr).1) h
  rw [queued, entries_ops fun r hr => (sound r hr).1, vram, chr, chrAfter_onScreen fun r hr => (sound r hr).2]
  exact ⟨shows.pictured, rfl⟩

/-- A cleared memory. -/
def Device.cleared : Device := ⟨none, 0, 0, 0, 0, fun _ => 0, fun _ _ => 0⟩

/-- Twenty-nine rows: the second of them is the first that is left in the picture. -/
theorem typed_pictured_rows : (Console.typed (65 :: List.replicate 28 13)).screen.top = 1 ∧
    Pictured (fun _ => 0) 1 (Sheet.typed (65 :: List.replicate 28 13))
      (Device.cleared.run ((Console.typed (65 :: List.replicate 28 13)).queued.flatMap Entry.ops)).vram := by
  have top : (Console.typed (65 :: List.replicate 28 13)).screen.top = 1 := by decide +kernel
  exact ⟨top, top ▸ (typed_pictured (65 :: List.replicate 28 13) Device.cleared rfl).1⟩

end Uzi.Ppu
