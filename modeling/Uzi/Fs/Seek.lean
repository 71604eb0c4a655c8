import Mathlib.Data.Int.ModEq
import Uzi.Fs.Offset
import Uzi.Fs.OpenFiles

/-!
# Seeking

`_seek` of `kernel/scall1.c`, and where the position of a file is after it. A target of `_seek` is a
number, while the code has a block and a 16-bit offset in it: a step back that leaves the block it starts
in makes the `o_offset` negative, which the loop at the end takes for a large number.
-/

namespace Uzi
open Exec

/-! ## The system call -/

/-- The loop at the end of `_seek`. An `o_offset` that is negative is not below 512 as an `unsigned`. -/
def seekLoop (o : Off) : Off :=
  if 512 ≤ o.oOffset.toNat then seekLoop ⟨o.oBlkno + 1, o.oOffset - 512⟩ else o
termination_by o.oOffset.toNat
decreasing_by
  next more =>
    have := o.oOffset.isLt
    rw [BitVec.toNat_sub, show (512 : Word).toNat = 512 from rfl]
    omega

/-- The `switch` of `_seek`: the new position of a file with position `ptr` and size `size`. -/
def seekSwitch (flag : Word) (ptr size : Off) (offset : Word) : Option Off :=
  match flag.toNat with
  | 0 => some ⟨0, offset⟩
  | 1 => some ⟨ptr.oBlkno, ptr.oOffset + offset⟩
  | 2 => some ⟨size.oBlkno, size.oOffset + offset⟩
  | 3 => some ⟨offset, ptr.oOffset⟩
  | 4 => some ⟨ptr.oBlkno + offset, ptr.oOffset⟩
  | 5 => some ⟨size.oBlkno + offset, ptr.oOffset⟩
  | _ => none

/-- `_seek`. -/
def _seek (file offset flag : Word) : K Word := do
  match ← getinode file with
  | none => pure 0xffff
  | some ino => do
    let s ← get
    if (s.iTab ino).getmode = F_PIPE then do
      setError .espipe
      pure 0xffff
    else
      let oftno := s.udata.ofIndex file
      let ptr := (s.ofTab oftno).oPtr
      let retval := if flag.toInt ≤ 2 then ptr.oOffset else ptr.oBlkno
      match seekSwitch flag ptr (s.iTab ino).cNode.iSize offset with
      | none => do
        setError .einval
        pure 0xffff
      | some o => do
        modifyOft oftno fun f => { f with oPtr := seekLoop o }
        pure retval

/-! ## The target -/

/-- The number that an offset stands for when its `o_offset` is read as the `int16` that it is. -/
def Off.pos (o : Off) : Int := 512 * o.oBlkno.toNat + o.oOffset.toInt

/-- An offset in bounds that stands for `n`, up to the `512 * 2^16` bytes that offsets can tell apart. -/
def Off.At (o : Off) (n : Int) : Prop := o.Norm ∧ (o.val : Int) ≡ n [ZMOD 2 ^ 25]

/-- What the target of a seek is counted from. -/
def seekBase (flag : Word) (ptr size : Off) : Off :=
  match flag.toNat with
  | 0 => ⟨0, 0⟩
  | 1 => ptr
  | 2 => size
  | 3 => ⟨0, ptr.oOffset⟩
  | 4 => ptr
  | _ => ⟨size.oBlkno, ptr.oOffset⟩

/-- The unit that a seek counts in. -/
def seekUnit (flag : Word) : Int := if flag.toNat < 3 then 1 else 512

/-- The number of units of a seek. It is unsigned when they are counted from 0. -/
def seekCount (flag offset : Word) : Int :=
  if flag.toNat = 0 ∨ flag.toNat = 3 then offset.toNat else offset.toInt

/-- Where a seek is to go. -/
def seekTarget (flag : Word) (ptr size : Off) (offset : Word) : Int :=
  (seekBase flag ptr size).pos + seekUnit flag * seekCount flag offset

/-! ## The normalising loop -/

variable {o ptr size : Off} {flag offset : Word}

/-- A position as a number. -/
lemma Off.Norm.pos (h : o.Norm) : o.pos = o.val := by
  have lt : o.oOffset.toNat < 512 := h
  rw [Off.pos, Off.val, toInt_of_lt (by omega)]
  omega

/-- A word, as a signed number and without a sign. -/
lemma toInt_modEq (x : Word) : (x.toNat : Int) ≡ x.toInt [ZMOD 2 ^ 16] := by
  rw [Int.ModEq, BitVec.toInt_eq_toNat_cond]
  split <;> omega

/-- The loop puts the `o_offset` in bounds and leaves the number as it is. -/
lemma seekLoop_spec : (seekLoop o).Norm ∧ (seekLoop o).val = o.val % 2 ^ 25 := by
  -- along the rounds: one of them moves 512 from the `o_offset` to the `o_blkno`
  induction o using seekLoop.induct with
  | case1 o more ih =>
    rw [seekLoop, if_pos more]
    refine ⟨ih.1, ih.2.trans ?_⟩
    have blk := o.oBlkno.isLt
    have lt := o.oOffset.isLt
    simp only [Off.val, BitVec.toNat_add, BitVec.toNat_sub, show (512 : Word).toNat = 512 from rfl,
      show (1 : Word).toNat = 1 from rfl]
    omega
  | case2 o done =>
    have blk := o.oBlkno.isLt
    rw [seekLoop, if_neg done]
    refine ⟨Nat.not_le.mp done, (Nat.mod_eq_of_lt ?_).symm⟩
    unfold Off.val
    omega

/-- The loop of `_seek` is at a position. -/
lemma seekLoop_at {n : Int} : (seekLoop o).At n ↔ (o.val : Int) ≡ n [ZMOD 2 ^ 25] := by
  rw [Off.At, seekLoop_spec.2]
  refine (and_iff_right seekLoop_spec.1).trans ?_
  rw [Int.ModEq, Int.ModEq]
  omega

/-! ## The cases of the switch -/

/-- A seek that counts bytes adds them to the `o_offset` of its base. -/
lemma seek_bytes {b : Off} :
    ((⟨b.oBlkno, b.oOffset + offset⟩ : Off).val : Int) ≡ b.pos + offset.toInt [ZMOD 2 ^ 25] ↔
      0 ≤ b.oOffset.toInt + offset.toInt := by
  have x := b.oOffset.isLt
  have y := offset.isLt
  rw [Int.ModEq, Off.pos, Off.val]
  simp only [BitVec.toNat_add, BitVec.toInt_eq_toNat_cond]
  split <;> split <;> omega

/-- A seek that counts blocks adds them to the `o_blkno`, which goes round with the target. -/
lemma seek_blocks {blk off : Word} {n : Int} (h : off.toNat < 512) (hn : (offset.toNat : Int) ≡ n [ZMOD 2 ^ 16]) :
    ((⟨blk + offset, off⟩ : Off).val : Int) ≡ (⟨blk, off⟩ : Off).pos + 512 * n [ZMOD 2 ^ 25] := by
  have norm : Off.Norm ⟨blk, off⟩ := h
  rw [norm.pos]
  simp only [Int.ModEq, Off.val, BitVec.toNat_add] at hn ⊢
  omega

/-- The new position stands for the target unless the seek counts bytes to before the base's block. -/
lemma seekSwitch_at (norm : ptr.Norm) (hf : flag.toNat ≤ 5) :
    ∃ o, seekSwitch flag ptr size offset = some o ∧
      ((o.val : Int) ≡ seekTarget flag ptr size offset [ZMOD 2 ^ 25] ↔
        (flag.toNat = 1 ∨ flag.toNat = 2 → 0 ≤ (seekBase flag ptr size).oOffset.toInt + offset.toInt)) := by
  unfold seekSwitch seekTarget seekBase seekUnit seekCount
  have signed := toInt_modEq offset
  match flag.toNat, hf with
  | 0, _ =>
    refine ⟨_, rfl, iff_of_true ?_ (by omega)⟩
    show ((512 * 0 + offset.toNat : Nat) : Int) ≡ 0 + 1 * (offset.toNat : Int) [ZMOD 2 ^ 25]
    rw [Nat.mul_zero, Nat.zero_add, one_mul, zero_add]
  | 1, _ =>
    refine ⟨_, rfl, ?_⟩
    show _ ≡ ptr.pos + 1 * offset.toInt [ZMOD 2 ^ 25] ↔ _
    rw [one_mul, seek_bytes]
    exact ⟨fun h _ => h, fun h => h (.inl rfl)⟩
  | 2, _ =>
    refine ⟨_, rfl, ?_⟩
    show _ ≡ size.pos + 1 * offset.toInt [ZMOD 2 ^ 25] ↔ _
    rw [one_mul, seek_bytes]
    exact ⟨fun h _ => h, fun h => h (.inr rfl)⟩
  | 3, _ =>
    refine ⟨_, rfl, iff_of_true ?_ (by omega)⟩
    have moved : ((⟨0 + offset, ptr.oOffset⟩ : Off).val : Int) ≡ _ [ZMOD 2 ^ 25] := seek_blocks norm rfl
    rwa [zero_add] at moved
  | 4, _ => exact ⟨_, rfl, iff_of_true (seek_blocks norm signed) (by omega)⟩
  | 5, _ => exact ⟨_, rfl, iff_of_true (seek_blocks norm signed) (by omega)⟩

/-! ## The call -/

variable {s : Kernel} {file : Word} {ino : Inoptr}

/-- `_seek` of a file. -/
lemma wp_seek {Q : Word → Kernel → Prop} {E : Panic → Prop} (opened : getinode file s = .ok (some ino, s))
    (pipe : (s.iTab ino).getmode ≠ F_PIPE)
    (moves : seekSwitch flag (s.ofTab (s.udata.ofIndex file)).oPtr (s.iTab ino).cNode.iSize offset = some o) :
    wp (_seek file offset flag) Q E s ↔
      Q (if flag.toInt ≤ 2 then (s.ofTab (s.udata.ofIndex file)).oPtr.oOffset
          else (s.ofTab (s.udata.ofIndex file)).oPtr.oBlkno)
        (s.setOft (s.udata.ofIndex file) { s.ofTab (s.udata.ofIndex file) with oPtr := seekLoop o }) := by
  have found : ∀ {P : Option Inoptr → Kernel → Prop}, wp (getinode file) P E s ↔ P (some ino) s := by
    intro P
    unfold wp
    rw [opened]
  unfold _seek
  rw [wp_bind, found, wp_bind, wp_get, wp_ite, if_neg pipe]
  simp only [moves]
  rw [wp_bind, wp_modifyOft, wp_pure]

/-- `_seek` in a regular file goes to the target if and only if a step in bytes does not go back to
before the block of the position or size that it starts from. -/
theorem seek_moves (opened : getinode file s = .ok (some ino, s)) (reg : (s.iTab ino).getmode = F_REG)
    (norm : (s.ofTab (s.udata.ofIndex file)).oPtr.Norm) (hf : flag.toNat ≤ 5) :
    wp (_seek file offset flag)
        (fun _ s' => (s'.ofTab (s.udata.ofIndex file)).oPtr.At
          (seekTarget flag (s.ofTab (s.udata.ofIndex file)).oPtr (s.iTab ino).cNode.iSize offset))
        (fun _ => False) s ↔
      (flag.toNat = 1 ∨ flag.toNat = 2 →
        0 ≤ (seekBase flag (s.ofTab (s.udata.ofIndex file)).oPtr (s.iTab ino).cNode.iSize).oOffset.toInt +
          offset.toInt) := by
  have pipe : (s.iTab ino).getmode ≠ F_PIPE := by
    rw [reg]
    decide
  obtain ⟨o, moves, reach⟩ : ∃ o, seekSwitch flag _ (s.iTab ino).cNode.iSize offset = some o ∧ _ :=
    seekSwitch_at norm hf
  rw [wp_seek opened pipe moves, Kernel.ofTab_setOft, seekLoop_at, reach]

/-- A regular file of 1000 bytes that a process has open at the start of its second block. -/
def atBlock : Kernel :=
  { Kernel.zeroed fun _ _ => Block.zero with
    iTab := fun _ => ⟨CMAGIC, 0, 9, ⟨F_REG, 1, 0, 0, ⟨1, 488⟩, ⟨0, 0⟩, ⟨0, 0⟩, ⟨0, 0⟩, fun _ => 0⟩, 1, false⟩
    ofTab := fun _ => ⟨⟨1, 0⟩, some 0, .rdwr, 1⟩
    udata := { UData.zero with uFiles := fun _ => 0 } }

/-- The descriptor is at the beginning of a block. -/
lemma getinode_atBlock : getinode 0 atBlock = .ok (some 0, atBlock) := rfl

/-- A seek to the block before. -/
theorem seek_moves_atBlock :
    wp (_seek 0 (-1) 4) (fun _ s' => (s'.ofTab 0).oPtr.At 0) (fun _ => False) atBlock := by
  have target : seekTarget 4 (atBlock.ofTab 0).oPtr (atBlock.iTab 0).cNode.iSize (-1) = 0 := by decide
  have moved : wp (_seek 0 (-1) 4) _ _ atBlock ↔ _ :=
    seek_moves getinode_atBlock rfl (by decide : (_ : Nat) < 512) (by decide)
  rw [show atBlock.udata.ofIndex 0 = 0 from rfl, target] at moved
  exact moved.mpr (by decide)

/-- One byte back from the start of the second block is the end of the 129th block. -/
theorem not_seek_moves :
    ¬ wp (_seek 0 (-1) 1) (fun _ s' => (s'.ofTab 0).oPtr.At 511) (fun _ => False) atBlock ∧
      seekTarget 1 (atBlock.ofTab 0).oPtr (atBlock.iTab 0).cNode.iSize (-1) = 511 := by
  refine ⟨fun h => ?_, by decide⟩
  rw [wp_seek getinode_atBlock (by decide) rfl, show atBlock.udata.ofIndex 0 = 0 from rfl, Kernel.ofTab_setOft,
    seekLoop_at] at h
  exact absurd h (by decide)

end Uzi
