import Uzi.Drivers.PpuCode
import Mathlib.Data.Int.ModEq

/-!
# The console

What `ppu_putc` does to the screen variables and which descriptors it queues, `queue_descriptor` being
taken to return. The cursor goes through the sixty rows of the two nametables, the scroll position
through the same rows 28 behind it.
-/

namespace Uzi.Ppu

/-! ## `ppu_putc` -/

namespace Screen

/-- `swap_nametable`. -/
def swapNametable (t : Screen) : Screen :=
  if t.curNametable = 0 then { t with curNametablePos := 0, curNametable := 1, curScreenPtr := PPU_TABLE1_ADDR }
  else { t with curNametablePos := 0, curNametable := 0, curScreenPtr := PPU_TABLE0_ADDR }

/-- The scroll position of `scroll_one_row`. -/
def scroll (t : Screen) : Screen :=
  let fine := t.yScrollFine + SCREEN_ROW_PX
  if fine ≥ SCREEN_ROW_PX * SCREEN_ROWS then
    { t with yScrollCoarse := if t.yScrollCoarse ≠ 0 then 0 else 1, yScrollFine := 1 }
  else { t with yScrollFine := fine }

/-- The first part of `update_screen_ptrs`: the cursor is moved and, where it has come far enough, the
scrolling started. -/
def move (dist : Nat) (t : Screen) : Screen :=
  let t := { t with
    curScreenPtr := t.curScreenPtr + BitVec.ofNat 16 dist
    curNametablePos := t.curNametablePos + dist }
  let t := if t.curNametablePos ≥ SCREEN_SIZE then t.swapNametable else t
  if !t.scrollStarted && t.curNametablePos ≥ SCREEN_VIS_SIZE + SCREEN_COLS then { t with scrollStarted := true }
  else t

end Screen

/-- The screen variables and the descriptors that have been queued. -/
structure Console where
  screen : Screen
  queued : List Entry

/-- The console part of the variables. -/
def Vars.console (s : Vars) : Console := ⟨s.screen, s.queued⟩

namespace Console

/-- The console after `init_ppu`. -/
def start : Console := ⟨⟨PPU_FIRST_VIS_ROW, SCREEN_COLS, false, 0, 0, 1⟩, []⟩

/-- `queue_descriptor`, when it returns. -/
def queueDescriptor (desc : PpuDesc) (data : Nat → Byte) (t : Console) : Console :=
  { t with queued := t.queued ++ [⟨desc, (List.range (descDatalen desc).toNat).map data⟩] }

/-- `write_blank_line_desc`. -/
def writeBlankLineDesc (t : Console) : Console :=
  t.queueDescriptor
    { size := BitVec.ofNat 8 SCREEN_COLS
      target := t.screen.curScreenPtr
      flags := PPU_DESC_FLAG_NULL } fun _ => 0

/-- `scroll_one_row`. -/
def scrollOneRow (t : Console) : Console :=
  let t := t.writeBlankLineDesc
  { t with screen := t.screen.scroll }

/-- The last part of `update_screen_ptrs`, for the column `origX` before the cursor was moved. -/
def scrollIfWrapped (origX : Nat) (t : Console) : Console :=
  if t.screen.scrollStarted then
    let curX := t.screen.curNametablePos % SCREEN_COLS
    if curX < origX then t.scrollOneRow
    else if curX = origX ∧ curX = 0 then t.scrollOneRow
    else t
  else t

/-- `update_screen_ptrs`. -/
def updateScreenPtrs (dist : Nat) (t : Console) : Console :=
  if dist = 0 then t
  else scrollIfWrapped (t.screen.curNametablePos % SCREEN_COLS) { t with screen := t.screen.move dist }

/-- `next_line`. -/
def nextLine (t : Console) : Console :=
  t.updateScreenPtrs (SCREEN_COLS - t.screen.curScreenPtr.toNat % SCREEN_COLS)

/-- The descriptor of a character. -/
def charDesc (t : Console) : PpuDesc := { size := 1, target := t.screen.curScreenPtr, flags := 0 }

/-- `ppu_putc`; `'\r'` is 13. -/
def ppuPutc (c : Byte) (t : Console) : Console :=
  if c = 13 then t.nextLine
  else (t.queueDescriptor t.charDesc fun _ => c).updateScreenPtrs 1

/-- The console after a sequence of characters. -/
def typed (cs : List Byte) : Console := cs.foldl (fun t c => t.ppuPutc c) start

end Console

/-- Where a character takes the cursor if nothing is scrolled. -/
def advance (pos : Nat) (c : Byte) : Nat := if c = 13 then (pos / SCREEN_COLS + 1) * SCREEN_COLS else pos + 1

/-! ## Rows -/

namespace Screen

/-- The address of a nametable. -/
def base (table : Byte) : Word := if table = 0 then PPU_TABLE0_ADDR else PPU_TABLE1_ADDR

/-- The row of the cursor among the rows of both nametables. -/
def row (t : Screen) : Nat := SCREEN_ROWS * t.curNametable.toNat + t.curNametablePos / SCREEN_COLS

/-- The row at the top of the picture. -/
def top (t : Screen) : Nat := SCREEN_ROWS * t.yScrollCoarse.toNat + (t.yScrollFine - 1) / SCREEN_ROW_PX

/-- The cursor and the scroll position are in step. -/
structure InStep (t : Screen) : Prop where
  pos : t.curNametablePos < SCREEN_SIZE
  ptr : t.curScreenPtr = base t.curNametable + BitVec.ofNat 16 t.curNametablePos
  table : t.curNametable = 0 ∨ t.curNametable = 1
  fine : ∃ k < SCREEN_ROWS, t.yScrollFine = 1 + SCREEN_ROW_PX * k
  coarse : t.yScrollCoarse = 0 ∨ t.yScrollCoarse = 1
  before : t.scrollStarted = false → t.curNametable = 0 ∧ 1 ≤ t.curNametablePos / SCREEN_COLS ∧
    t.curNametablePos / SCREEN_COLS ≤ SCREEN_VIS_ROWS ∧ t.yScrollCoarse = 0 ∧ t.yScrollFine = 1
  behind : t.scrollStarted = true → (t.row : Int) - t.top ≡ SCREEN_VIS_ROWS [ZMOD SCREEN_ROWS * 2]

end Screen

/-- The blanking of the row of the cursor. -/
def Screen.blanking (t : Screen) : Entry :=
  ⟨{ size := BitVec.ofNat 8 SCREEN_COLS
     target := Screen.base t.curNametable + BitVec.ofNat 16 (SCREEN_COLS * (t.curNametablePos / SCREEN_COLS))
     flags := PPU_DESC_FLAG_NULL }, []⟩

/-- What a character does to the rows: the cursor stays in its row, or goes to the next one, which is
blanked once if the scrolling has started. Nothing else but the character's `own` descriptor is queued. -/
def Advances (own : List Entry) (t t' : Console) : Prop :=
  t'.screen.row = t.screen.row ∧ t'.queued = t.queued ++ own ∨
    t'.screen.row = (t.screen.row + 1) % (SCREEN_ROWS * 2) ∧
      t'.queued = t.queued ++ own ++ if t'.screen.scrollStarted then [t'.screen.blanking] else []

/-- The descriptor of a character that is no newline. -/
def Console.own (c : Byte) (t : Console) : List Entry := if c = 13 then [] else [⟨t.charDesc, [c]⟩]

namespace Screen

variable {t : Screen} {dist : Nat}

/-- The cursor is moved inside its row. -/
lemma InStep.move_inside (h : t.InStep) (inside : t.curNametablePos % SCREEN_COLS + dist < SCREEN_COLS) :
    t.move dist = { t with
      curScreenPtr := t.curScreenPtr + BitVec.ofNat 16 dist
      curNametablePos := t.curNametablePos + dist } := by
  have pos := h.pos
  have before := h.before
  simp only [SCREEN_SIZE, SCREEN_ROWS, SCREEN_COLS, SCREEN_VIS_ROWS] at *
  have keeps : ¬ t.curNametablePos + dist ≥ SCREEN_SIZE := by
    show ¬ _ ≥ 30 * 32
    omega
  unfold move
  dsimp only
  rw [if_neg keeps, if_neg]
  dsimp only
  intro start
  rw [Bool.and_eq_true, Bool.not_eq_true', decide_eq_true_eq] at start
  obtain ⟨_, _, row, _⟩ := before start.1
  have far : t.curNametablePos + dist ≥ 28 * 32 + 32 := start.2
  omega

/-- The cursor inside its row is in step. -/
lemma InStep.inside (h : t.InStep) (inside : t.curNametablePos % SCREEN_COLS + dist < SCREEN_COLS) :
    (t.move dist).InStep ∧ (t.move dist).row = t.row := by
  have pos := h.pos
  rw [h.move_inside inside]
  have row : (t.curNametablePos + dist) / SCREEN_COLS = t.curNametablePos / SCREEN_COLS := by
    simp only [SCREEN_COLS] at *
    omega
  refine ⟨⟨?_, ?_, h.table, h.fine, h.coarse, ?_, ?_⟩, ?_⟩
  · simp only [SCREEN_SIZE, SCREEN_ROWS, SCREEN_COLS] at *
    omega
  · show _ + _ = _ + _
    rw [h.ptr, BitVec.ofNat_add, BitVec.add_assoc]
  · show _ → _ ∧ 1 ≤ (_ + _) / _ ∧ (_ + _) / _ ≤ _ ∧ _
    rw [row]
    exact h.before
  · unfold Screen.row
    dsimp only
    rw [row]
    exact h.behind
  · unfold Screen.row
    rw [row]

/-- What is left of being in step when the cursor has entered a row that has not been scrolled to. -/
structure Entered (t t' : Screen) : Prop where
  pos : t'.curNametablePos < SCREEN_SIZE
  column : t'.curNametablePos % SCREEN_COLS = 0
  ptr : t'.curScreenPtr = base t'.curNametable + BitVec.ofNat 16 t'.curNametablePos
  table : t'.curNametable = 0 ∨ t'.curNametable = 1
  coarse : t'.yScrollCoarse = t.yScrollCoarse
  fine : t'.yScrollFine = t.yScrollFine
  row : t'.row = (t.row + 1) % (SCREEN_ROWS * 2)
  before : t'.scrollStarted = false → t.scrollStarted = false ∧ t'.curNametable = 0 ∧
    1 ≤ t'.curNametablePos / SCREEN_COLS ∧ t'.curNametablePos / SCREEN_COLS ≤ SCREEN_VIS_ROWS
  behind : t'.scrollStarted = true → (t.row : Int) - t.top ≡ SCREEN_VIS_ROWS [ZMOD SCREEN_ROWS * 2]

/-- The last row of a nametable is left for the first row of the other one. -/
lemma InStep.swapped (h : t.InStep) (past : t.curNametablePos % SCREEN_COLS + dist = SCREEN_COLS)
    (last : t.curNametablePos / SCREEN_COLS = 29) : Entered t (t.move dist) := by
  have pos := h.pos
  have started : t.scrollStarted = true := by
    by_contra no
    have row := (h.before (Bool.eq_false_iff.mpr no)).2.2.1
    rw [last] at row
    exact absurd row (by decide)
  have swap : t.curNametablePos + dist ≥ SCREEN_SIZE := by
    simp only [SCREEN_SIZE, SCREEN_ROWS, SCREEN_COLS] at *
    omega
  have size : 0 < SCREEN_SIZE := by decide
  have wrap0 : SCREEN_ROWS * (1 : Byte).toNat + 0 / SCREEN_COLS =
      (SCREEN_ROWS * (0 : Byte).toNat + 29 + 1) % (SCREEN_ROWS * 2) := by decide
  have wrap1 : SCREEN_ROWS * (0 : Byte).toNat + 0 / SCREEN_COLS =
      (SCREEN_ROWS * (1 : Byte).toNat + 29 + 1) % (SCREEN_ROWS * 2) := by decide
  unfold move
  dsimp only
  rw [if_pos swap]
  unfold swapNametable
  obtain table | table := h.table
  · simp only [table, if_true, started, Bool.not_true, Bool.false_and, Bool.false_eq_true, if_false]
    refine ⟨size, rfl, rfl, .inr rfl, rfl, rfl, ?_, nofun, fun _ => h.behind started⟩
    rw [Screen.row, Screen.row, table, last]
    exact wrap0
  · have other : (1 : Byte) ≠ 0 := by decide
    simp only [table, other, if_false, started, Bool.not_true, Bool.false_and, Bool.false_eq_true]
    refine ⟨size, rfl, rfl, .inl rfl, rfl, rfl, ?_, nofun, fun _ => h.behind started⟩
    rw [Screen.row, Screen.row, table, last]
    exact wrap1

/-- Any other row is left for the next row of its nametable. -/
lemma InStep.nextRow (h : t.InStep) (past : t.curNametablePos % SCREEN_COLS + dist = SCREEN_COLS)
    (more : t.curNametablePos / SCREEN_COLS < 29) : Entered t (t.move dist) := by
  have pos := h.pos
  have stays : ¬ t.curNametablePos + dist ≥ SCREEN_SIZE := by
    simp only [SCREEN_SIZE, SCREEN_ROWS, SCREEN_COLS] at *
    omega
  have row : (t.curNametablePos + dist) / SCREEN_COLS = t.curNametablePos / SCREEN_COLS + 1 := by
    simp only [SCREEN_COLS] at *
    omega
  have column : (t.curNametablePos + dist) % SCREEN_COLS = 0 := by
    simp only [SCREEN_COLS] at *
    omega
  have ptr : t.curScreenPtr + BitVec.ofNat 16 dist =
      base t.curNametable + BitVec.ofNat 16 (t.curNametablePos + dist) := by
    rw [h.ptr, BitVec.ofNat_add, BitVec.add_assoc]
  have rows : SCREEN_ROWS * t.curNametable.toNat + (t.curNametablePos + dist) / SCREEN_COLS =
      (t.row + 1) % (SCREEN_ROWS * 2) := by
    unfold Screen.row
    rw [row]
    obtain table | table := h.table
    · rw [table, Nat.mod_eq_of_lt]
      · rfl
      · have zero : (0 : Byte).toNat = 0 := rfl
        simp only [SCREEN_ROWS, zero] at *
        omega
    · rw [table, Nat.mod_eq_of_lt]
      · rfl
      · have one : (1 : Byte).toNat = 1 := rfl
        simp only [SCREEN_ROWS, one] at *
        omega
  unfold move
  dsimp only
  rw [if_neg stays]
  cases started : t.scrollStarted with
  | true =>
    simp only [Bool.not_true, Bool.false_and, Bool.false_eq_true, if_false]
    exact ⟨Nat.lt_of_not_le stays, column, ptr, h.table, rfl, rfl, rows, nofun, fun _ => h.behind started⟩
  | false =>
    obtain ⟨table, low, high, coarse, fine⟩ := h.before started
    simp only [Bool.not_false, Bool.true_and, decide_eq_true_eq]
    split
    · next far =>
      refine ⟨Nat.lt_of_not_le stays, column, ptr, h.table, rfl, rfl, rows, nofun, fun _ => ?_⟩
      have last : t.curNametablePos / SCREEN_COLS = 28 := by
        simp only [SCREEN_VIS_SIZE, SCREEN_VIS_ROWS, SCREEN_COLS] at *
        omega
      unfold Screen.row top
      rw [table, last, coarse, fine]
      decide
    · next near =>
      refine ⟨Nat.lt_of_not_le stays, column, ptr, h.table, rfl, rfl, rows, fun _ => ⟨started, table, ?_, ?_⟩, nofun⟩
      · rw [row]
        omega
      · simp only [SCREEN_VIS_SIZE, SCREEN_VIS_ROWS, SCREEN_COLS] at *
        omega

/-- A row that is entered. -/
lemma InStep.entered (h : t.InStep) (past : t.curNametablePos % SCREEN_COLS + dist = SCREEN_COLS) :
    Entered t (t.move dist) := by
  have pos := h.pos
  obtain last | more : t.curNametablePos / SCREEN_COLS = 29 ∨ t.curNametablePos / SCREEN_COLS < 29 := by
    simp only [SCREEN_SIZE, SCREEN_ROWS, SCREEN_COLS] at *
    omega
  · exact h.swapped past last
  · exact h.nextRow past more

/-- The scroll position goes on by one row. -/
lemma scroll_spec {k : Nat} (lt : k < SCREEN_ROWS) (fine : t.yScrollFine = 1 + SCREEN_ROW_PX * k)
    (coarse : t.yScrollCoarse = 0 ∨ t.yScrollCoarse = 1) :
    t.scroll.top = (t.top + 1) % (SCREEN_ROWS * 2) ∧
      (∃ k < SCREEN_ROWS, t.scroll.yScrollFine = 1 + SCREEN_ROW_PX * k) ∧
      (t.scroll.yScrollCoarse = 0 ∨ t.scroll.yScrollCoarse = 1) := by
  have zero : (0 : Byte).toNat = 0 := rfl
  have one : (1 : Byte).toNat = 1 := rfl
  have top : t.top = SCREEN_ROWS * t.yScrollCoarse.toNat + k := by
    rw [Screen.top, fine, Nat.add_sub_cancel_left, Nat.mul_div_cancel_left k (by decide)]
  unfold scroll
  dsimp only
  split
  · next wraps =>
    rw [fine] at wraps
    have last : k = 29 := by
      simp only [SCREEN_ROW_PX, SCREEN_ROWS] at *
      omega
    rw [top, last]
    refine ⟨?_, ⟨0, by decide, rfl⟩, ?_⟩
    · obtain coarse | coarse := coarse
      · rw [Screen.top, coarse]
        dsimp only
        decide
      · rw [Screen.top, coarse]
        dsimp only
        decide
    · dsimp only
      split
      · exact .inl rfl
      · exact .inr rfl
  · next inside =>
    rw [fine] at inside
    have more : k + 1 < SCREEN_ROWS := by
      simp only [SCREEN_ROW_PX, SCREEN_ROWS] at *
      omega
    have next : t.yScrollFine + SCREEN_ROW_PX = 1 + SCREEN_ROW_PX * (k + 1) := by
      rw [fine, Nat.mul_succ, Nat.add_assoc]
    refine ⟨?_, ⟨k + 1, more, next⟩, coarse⟩
    rw [top, Screen.top]
    dsimp only
    rw [next, Nat.add_sub_cancel_left, Nat.mul_div_cancel_left (k + 1) (by decide), Nat.add_assoc, Nat.mod_eq_of_lt]
    obtain coarse | coarse := coarse <;>
      simp only [coarse, zero, one, SCREEN_ROWS] at * <;> omega

variable {t' : Screen}

/-- A row that is entered after the scrolling has started is scrolled to. -/
lemma Entered.scroll (e : Entered t t') (h : t.InStep) (started : t'.scrollStarted = true) : t'.scroll.InStep ∧
    t'.scroll.row = t'.row ∧ t'.scroll.scrollStarted = true ∧ t'.scroll.blanking = t'.blanking := by
  obtain ⟨k, lt, fine⟩ := h.fine
  obtain ⟨top, fine', coarse'⟩ := scroll_spec lt (e.fine.trans fine) (e.coarse ▸ h.coarse)
  have frame : t'.scroll = { t' with yScrollCoarse := t'.scroll.yScrollCoarse, yScrollFine := t'.scroll.yScrollFine } := by
    unfold Screen.scroll
    dsimp only
    split <;> rfl
  have row : t'.scroll.row = t'.row := by rw [frame]; rfl
  have started' : t'.scroll.scrollStarted = true := by rw [frame]; exact started
  have sameTop : t'.top = t.top := by rw [Screen.top, Screen.top, e.coarse, e.fine]
  refine ⟨⟨?_, ?_, ?_, fine', coarse', fun no => absurd (started'.symm.trans no) nofun, fun _ => ?_⟩, row, started', ?_⟩
  · rw [frame]
    exact e.pos
  · rw [frame]
    exact e.ptr
  · rw [frame]
    exact e.table
  · have behind := e.behind started
    rw [row, top, sameTop, e.row]
    simp only [Int.ModEq, SCREEN_ROWS, SCREEN_VIS_ROWS] at *
    omega
  · rw [frame]
    rfl

/-- A row that is entered before the scrolling has started. -/
lemma Entered.inStep (e : Entered t t') (h : t.InStep) (still : t'.scrollStarted = false) : t'.InStep := by
  obtain ⟨before, table, low, high⟩ := e.before still
  obtain ⟨-, -, -, coarse, fine⟩ := h.before before
  refine ⟨e.pos, e.ptr, e.table, e.fine ▸ h.fine, e.coarse ▸ h.coarse, fun _ => ?_,
    fun yes => absurd (still.symm.trans yes) nofun⟩
  exact ⟨table, low, high, e.coarse.trans coarse, e.fine.trans fine⟩

/-- The row that has been entered is at the cursor. -/
lemma Entered.target (e : Entered t t') :
    base t'.curNametable + BitVec.ofNat 16 (SCREEN_COLS * (t'.curNametablePos / SCREEN_COLS)) = t'.curScreenPtr := by
  have whole := Nat.div_add_mod t'.curNametablePos SCREEN_COLS
  rw [e.column, Nat.add_zero] at whole
  rw [whole, e.ptr]

end Screen

/-! ## Every sequence of characters -/

namespace Console

variable {t : Console} {dist : Nat}

/-- The row that has been entered is blanked and scrolled to, if the scrolling has started. -/
lemma scrollIfWrapped_entered (h : t.screen.InStep) {t' : Screen} (e : Screen.Entered t.screen t') :
    (scrollIfWrapped (t.screen.curNametablePos % SCREEN_COLS) { t with screen := t' }).screen.InStep ∧
      Advances [] t (scrollIfWrapped (t.screen.curNametablePos % SCREEN_COLS) { t with screen := t' }) := by
  unfold scrollIfWrapped
  dsimp only
  cases started : t'.scrollStarted with
  | false =>
    rw [if_neg Bool.false_ne_true]
    refine ⟨e.inStep h started, .inr ⟨e.row, ?_⟩⟩
    dsimp only
    rw [started, if_neg Bool.false_ne_true, List.append_nil, List.append_nil]
  | true =>
    obtain ⟨inStep, row, started', blanking⟩ := e.scroll h started
    have scrolls : (scrollOneRow { t with screen := t' }).screen.InStep ∧
        Advances [] t (scrollOneRow { t with screen := t' }) := by
      refine ⟨inStep, .inr ⟨row.trans e.row, ?_⟩⟩
      have target := e.target
      show t.queued ++ [_] = t.queued ++ [] ++ if t'.scroll.scrollStarted then [t'.scroll.blanking] else []
      rw [started', if_pos rfl, blanking, List.append_nil, Screen.blanking, target]
      have empty : (descDatalen ⟨BitVec.ofNat 8 SCREEN_COLS, t'.curScreenPtr, PPU_DESC_FLAG_NULL⟩).toNat = 0 := by
        show (descDatalen ⟨BitVec.ofNat 8 SCREEN_COLS, 0, PPU_DESC_FLAG_NULL⟩).toNat = 0
        decide
      dsimp only
      rw [empty]
      rfl
    rw [if_pos rfl, e.column]
    obtain zero | pos := Nat.eq_zero_or_pos (t.screen.curNametablePos % SCREEN_COLS)
    · rw [zero, if_neg (Nat.lt_irrefl 0), if_pos ⟨rfl, rfl⟩]
      exact scrolls
    · rw [if_pos pos]
      exact scrolls

/-- The cursor moves by up to a row. -/
lemma updateScreenPtrs_spec (h : t.screen.InStep) (pos : 0 < dist)
    (le : t.screen.curNametablePos % SCREEN_COLS + dist ≤ SCREEN_COLS) :
    (t.updateScreenPtrs dist).screen.InStep ∧ Advances [] t (t.updateScreenPtrs dist) := by
  unfold updateScreenPtrs
  rw [if_neg (Nat.ne_of_gt pos)]
  obtain inside | past := Nat.lt_or_eq_of_le le
  · obtain ⟨inStep, row⟩ := h.inside inside
    have same : scrollIfWrapped (t.screen.curNametablePos % SCREEN_COLS) { t with screen := t.screen.move dist } =
        { t with screen := t.screen.move dist } := by
      have column : (t.screen.move dist).curNametablePos % SCREEN_COLS =
          t.screen.curNametablePos % SCREEN_COLS + dist := by
        rw [h.move_inside inside]
        simp only [SCREEN_COLS] at *
        omega
      have ahead : ¬ t.screen.curNametablePos % SCREEN_COLS + dist < t.screen.curNametablePos % SCREEN_COLS :=
        Nat.not_lt.mpr (Nat.le_add_right _ _)
      have moved : ¬ (t.screen.curNametablePos % SCREEN_COLS + dist = t.screen.curNametablePos % SCREEN_COLS ∧
          t.screen.curNametablePos % SCREEN_COLS + dist = 0) :=
        fun same => absurd (Nat.add_eq_zero_iff.mp same.2).2 (Nat.ne_of_gt pos)
      unfold scrollIfWrapped
      dsimp only
      rw [column, if_neg ahead, if_neg moved, ite_self]
    rw [same]
    exact ⟨inStep, .inl ⟨row, (List.append_nil _).symm⟩⟩
  · exact scrollIfWrapped_entered h (h.entered past)

/-- The column that `next_line` works out from the address. -/
lemma nextLine_column (h : t.screen.InStep) :
    t.screen.curScreenPtr.toNat % SCREEN_COLS = t.screen.curNametablePos % SCREEN_COLS := by
  have pos := h.pos
  have table : (Screen.base t.screen.curNametable).toNat % 32 = 0 ∧
      (Screen.base t.screen.curNametable).toNat < 2 ^ 15 := by
    obtain table | table := h.table <;> rw [table] <;> decide
  simp only [SCREEN_SIZE, SCREEN_ROWS, SCREEN_COLS] at *
  rw [h.ptr, BitVec.toNat_add, BitVec.toNat_ofNat]
  omega

/-- A character queues its own descriptor and moves the cursor. -/
lemma ppuPutc_eq (h : t.screen.InStep) (c : Byte) : ∃ (t' : Console) (dist : Nat), t.ppuPutc c = t'.updateScreenPtrs dist ∧
    t'.screen = t.screen ∧ t'.queued = t.queued ++ t.own c ∧ 0 < dist ∧
    t.screen.curNametablePos + dist = advance t.screen.curNametablePos c ∧
    t.screen.curNametablePos % SCREEN_COLS + dist ≤ SCREEN_COLS := by
  have column := Nat.mod_lt t.screen.curNametablePos (show 0 < SCREEN_COLS by decide)
  unfold own ppuPutc advance
  split
  · refine ⟨t, _, rfl, rfl, (List.append_nil _).symm, ?_⟩
    rw [nextLine_column h]
    simp only [SCREEN_COLS] at *
    omega
  · have one : (descDatalen t.charDesc).toNat = 1 := by
      show (descDatalen ⟨1, 0, 0⟩).toNat = 1
      decide
    refine ⟨t.queueDescriptor t.charDesc fun _ => c, 1, rfl, rfl, ?_, Nat.one_pos, rfl, column⟩
    unfold queueDescriptor
    rw [one]
    rfl

/-- One character. -/
lemma ppuPutc_spec (h : t.screen.InStep) (c : Byte) :
    (t.ppuPutc c).screen.InStep ∧ Advances (t.own c) t (t.ppuPutc c) := by
  obtain ⟨t', dist, e, screen, queued, pos, -, le⟩ := ppuPutc_eq h c
  rw [← screen] at h le
  obtain ⟨inStep, advances⟩ := updateScreenPtrs_spec h pos le
  unfold Advances at advances ⊢
  rw [queued, screen, List.append_nil] at advances
  rw [e]
  exact ⟨inStep, advances⟩

/-- The screen is in step at the start. -/
lemma start_inStep : start.screen.InStep where
  pos := by decide
  ptr := rfl
  table := .inl rfl
  fine := ⟨0, by decide, rfl⟩
  coarse := .inl rfl
  before _ := by decide
  behind := nofun

/-- One character more. -/
lemma typed_append (cs : List Byte) (c : Byte) : typed (cs ++ [c]) = (typed cs).ppuPutc c := by
  unfold typed
  rw [List.foldl_append]
  rfl

/-- After every sequence of characters the cursor and the scroll position are in step, and the next
character advances the rows by one at most and has a row that it enters blanked. -/
theorem typed_inStep (cs : List Byte) : (typed cs).screen.InStep ∧
    ∀ c, Advances ((typed cs).own c) (typed cs) (typed (cs ++ [c])) := by
  have inStep : (typed cs).screen.InStep := by
    induction cs using List.reverseRecOn with
    | nil => exact start_inStep
    | append_singleton cs c ih =>
      rw [typed_append]
      exact (ppuPutc_spec ih c).1
  refine ⟨inStep, fun c => ?_⟩
  rw [typed_append]
  exact (ppuPutc_spec inStep c).2

end Console

end Uzi.Ppu
