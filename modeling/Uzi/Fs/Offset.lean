import Uzi.Fs.Rw

/-!
# File offsets

An `off_t` is a number in base 512 when its `o_offset` is in bounds (`Off.Norm`), and `addoff` adds to it
modulo `512 * 2^16`. The other lemmas say what the arithmetic of `readi` and `writei` comes to on both
targets while its operands are small.
-/

namespace Uzi

/-- The number that an offset stands for. -/
def Off.val (o : Off) : Nat := 512 * o.oBlkno.toNat + o.oOffset.toNat

/-- `o_offset` is in bounds. -/
def Off.Norm (o : Off) : Prop := o.oOffset.toNat < 512

/-- The block of a position. -/
lemma Off.Norm.blkno {o : Off} (h : o.Norm) : o.oBlkno.toNat = o.val / 512 := by
  unfold Off.Norm at h
  unfold Off.val
  omega

/-- The offset in the block of a position. -/
lemma Off.Norm.offset {o : Off} (h : o.Norm) : o.oOffset.toNat = o.val % 512 := by
  unfold Off.Norm at h
  unfold Off.val
  omega

/-- A small word is positive. -/
lemma toInt_of_lt {x : Word} (h : x.toNat < 2 ^ 15) : x.toInt = x.toNat := by
  rw [BitVec.toInt_eq_toNat_of_lt (by omega)]

/-- A large word is negative. -/
lemma toInt_neg_iff {x : Word} : x.toInt < 0 ↔ 2 ^ 15 ≤ x.toNat := by
  rw [BitVec.toInt_neg_iff]
  omega

/-- A small number as a word. -/
lemma toNat_ofInt_natCast {n : Nat} (h : n < 2 ^ 16) : (BitVec.ofInt 16 (n : Int)).toNat = n := by
  rw [BitVec.toNat_ofInt]
  omega

/-- `addoff` of a number that is not negative. -/
lemma addoff_natCast {t : Target} {o : Off} {n : Nat} (h : o.Norm) (hi : n < 2 ^ 16) :
    (addoff t o n).Norm ∧ (addoff t o n).val = (o.val + n) % (512 * 2 ^ 16) := by
  have norm : o.oOffset.toNat < 512 := h
  have rem : (BitVec.ofInt 16 ((n : Int) % 512)).toNat = n % 512 :=
    toNat_ofInt_natCast (n := n % 512) (by omega)
  have quot : (BitVec.ofInt 16 ((n : Int) / 512)).toNat = n / 512 :=
    toNat_ofInt_natCast (n := n / 512) (by omega)
  have blk := o.oBlkno.isLt
  have sum : (o.oOffset + BitVec.ofInt 16 ((n : Int) % 512)).toNat = o.oOffset.toNat + n % 512 := by
    rw [BitVec.toNat_add, rem]
    omega
  have signed := toInt_of_lt (x := o.oOffset + BitVec.ofInt 16 ((n : Int) % 512)) (by omega)
  unfold addoff
  rw [if_pos (by omega)]
  simp only
  split
  · next carry =>
    rw [signed, sum] at carry
    have back : (o.oOffset + BitVec.ofInt 16 ((n : Int) % 512) - 512).toNat =
        o.oOffset.toNat + n % 512 - 512 := by
      rw [BitVec.toNat_sub, sum, show (512 : Word).toNat = 512 from rfl]
      omega
    constructor
    · rw [Off.Norm, back]
      omega
    · rw [Off.val, Off.val, back, BitVec.toNat_add, BitVec.toNat_add, quot,
        show (1 : Word).toNat = 1 from rfl]
      omega
  · next same =>
    rw [signed, sum] at same
    constructor
    · rw [Off.Norm, sum]
      omega
    · rw [Off.val, Off.val, sum, BitVec.toNat_add, quot]
      omega

/-- `addoff` of a negative number. -/
lemma addoff_negCast {t : Target} {o : Off} {n : Nat} (h : o.Norm) (pos : 0 < n) (hi : n < 2 ^ 15) :
    (addoff t o (-n)).Norm ∧ (addoff t o (-n)).val = (o.val + (512 * 2 ^ 16 - n)) % (512 * 2 ^ 16) := by
  have norm : o.oOffset.toNat < 512 := h
  have blk := o.oBlkno.isLt
  have val : o.val = 512 * o.oBlkno.toNat + o.oOffset.toNat := rfl
  have neg : intNeg t (-n) = n := by
    cases t with
    | nes =>
      have small : (BitVec.ofInt 16 (n : Int)).toNat = n := toNat_ofInt_natCast (by omega)
      rw [intNeg, Int.neg_neg, toInt_of_lt (by omega), small]
    | fsutil => exact Int.neg_neg _
  have rem : (BitVec.ofInt 16 ((n : Int).tmod 512)).toNat = n % 512 :=
    toNat_ofInt_natCast (n := n % 512) (by omega)
  have quot : (BitVec.ofInt 16 ((n : Int).tdiv 512)).toNat = n / 512 :=
    toNat_ofInt_natCast (n := n / 512) (by omega)
  have diff : (o.oOffset - BitVec.ofInt 16 ((n : Int).tmod 512)).toNat =
      (o.oOffset.toNat + (2 ^ 16 - n % 512)) % 2 ^ 16 := by
    rw [BitVec.toNat_sub, rem, Nat.add_comm]
  unfold addoff
  rw [if_neg (by omega)]
  simp only [neg]
  split
  · next borrow =>
    rw [toInt_neg_iff, diff] at borrow
    have back : (o.oOffset - BitVec.ofInt 16 ((n : Int).tmod 512) + 512).toNat =
        o.oOffset.toNat + 512 - n % 512 := by
      rw [BitVec.toNat_add, diff, show (512 : Word).toNat = 512 from rfl]
      omega
    constructor
    · rw [Off.Norm, back]
      omega
    · rw [Off.val, val, back, BitVec.toNat_sub, BitVec.toNat_sub, quot,
        show (1 : Word).toNat = 1 from rfl]
      omega
  · next same =>
    rw [toInt_neg_iff, diff] at same
    have back : (o.oOffset - BitVec.ofInt 16 ((n : Int).tmod 512)).toNat =
        o.oOffset.toNat - n % 512 := by
      rw [diff]
      omega
    constructor
    · rw [Off.Norm, back]
      omega
    · rw [Off.val, val, back, BitVec.toNat_sub, quot]
      omega

/-- `addoff` of a negative number that does not lead below the begin. -/
lemma addoff_neg {t : Target} {o : Off} {n : Nat} (h : o.Norm) (pos : 0 < n) (hi : n < 2 ^ 15)
    (le : n ≤ o.val) : (addoff t o (-n)).Norm ∧ (addoff t o (-n)).val = o.val - n := by
  have norm : o.oOffset.toNat < 512 := h
  have blk := o.oBlkno.isLt
  have val : o.val = 512 * o.oBlkno.toNat + o.oOffset.toNat := rfl
  obtain ⟨norm', sum⟩ := addoff_negCast (t := t) h pos hi
  refine ⟨norm', ?_⟩
  rw [sum]
  omega

/-! ## Any amounts -/

/-- A 16-bit amount whose negative is one, too. -/
def Amount (a : Int) : Prop := -2 ^ 15 < a ∧ a < 2 ^ 15

section Amounts

variable {t : Target} {o o' : Off} {a : Int}

/-- A position is below 2^25. -/
lemma Off.val_lt (h : o.Norm) : o.val < 2 ^ 25 := by
  have norm : o.oOffset.toNat < 512 := h
  have blk := o.oBlkno.isLt
  unfold Off.val
  omega

/-- A position in bounds is known by its number. -/
lemma Off.eq_of_val (h : o.Norm) (h' : o'.Norm) (same : o.val = o'.val) : o = o' := by
  have blkno : o.oBlkno = o'.oBlkno := BitVec.eq_of_toNat_eq (by rw [h.blkno, h'.blkno, same])
  have offset : o.oOffset = o'.oOffset := BitVec.eq_of_toNat_eq (by rw [h.offset, h'.offset, same])
  cases o
  cases o'
  cases blkno
  cases offset
  rfl

/-- `addoff` adds any amount. -/
lemma addoff_amount (h : o.Norm) (ha : Amount a) :
    (addoff t o a).Norm ∧ ((addoff t o a).val : Int) = (o.val + a) % 2 ^ 25 := by
  obtain ⟨lo, hi⟩ := ha
  cases Int.lt_or_le a 0 with
  | inl neg =>
    obtain ⟨n, rfl⟩ : ∃ n : Nat, a = -n := ⟨a.natAbs, by omega⟩
    obtain ⟨norm, sum⟩ := addoff_negCast (t := t) (n := n) h (by omega) (by omega)
    refine ⟨norm, ?_⟩
    rw [sum]
    omega
  | inr pos =>
    obtain ⟨n, rfl⟩ : ∃ n : Nat, a = n := ⟨a.natAbs, by omega⟩
    obtain ⟨norm, sum⟩ := addoff_natCast (t := t) (n := n) h (by omega)
    refine ⟨norm, ?_⟩
    rw [sum]
    omega

/-- A sequence of calls of `addoff` adds the sum. -/
lemma addoff_sum {as : List Int} (h : o.Norm) (has : ∀ a ∈ as, Amount a) :
    (as.foldl (addoff t) o).Norm ∧ ((as.foldl (addoff t) o).val : Int) = (o.val + as.sum) % 2 ^ 25 := by
  induction as generalizing o with
  | nil =>
    have lt := Off.val_lt h
    refine ⟨h, ?_⟩
    show (o.val : Int) = (o.val + 0) % 2 ^ 25
    omega
  | cons a as ih =>
    obtain ⟨norm, sum⟩ := addoff_amount (t := t) h (has a List.mem_cons_self)
    obtain ⟨norm', sum'⟩ := ih norm fun b mem => has b (List.mem_cons_of_mem a mem)
    refine ⟨norm', ?_⟩
    rw [List.foldl_cons, sum', sum, List.sum_cons, Int.emod_add_emod, Int.add_assoc]

/-- The amount in the other direction. -/
lemma Amount.neg (h : Amount a) : Amount (-a) := by
  unfold Amount at *
  omega

end Amounts

/-- `addoff` adds in base 512, modulo `2^25`: the position stays in bounds, a sequence of calls depends on the sum of
the amounts alone, and the negative of an amount takes it back. -/
theorem addoff_exact {t : Target} {o : Off} (norm : o.Norm) :
    (∀ a, Amount a → (addoff t o a).Norm ∧ ((addoff t o a).val : Int) = (o.val + a) % 2 ^ 25) ∧
    (∀ as bs : List Int, (∀ a ∈ as, Amount a) → (∀ b ∈ bs, Amount b) → as.sum = bs.sum →
      as.foldl (addoff t) o = bs.foldl (addoff t) o) ∧
    ∀ a, Amount a → addoff t (addoff t o a) (-a) = o := by
  refine ⟨fun a ha => addoff_amount norm ha, fun as bs has hbs same => ?_, fun a ha => ?_⟩
  · obtain ⟨normA, sumA⟩ := addoff_sum (t := t) norm has
    obtain ⟨normB, sumB⟩ := addoff_sum (t := t) norm hbs
    refine Off.eq_of_val normA normB (Int.ofNat_inj.mp ?_)
    rw [sumA, sumB, same]
  · obtain ⟨norm₁, sum₁⟩ := addoff_amount (t := t) norm ha
    obtain ⟨norm₂, sum₂⟩ := addoff_amount (t := t) norm₁ ha.neg
    have lt := Off.val_lt norm
    refine Off.eq_of_val norm₂ norm (Int.ofNat_inj.mp ?_)
    rw [sum₂, sum₁]
    omega

/-- From the last byte of a block, on the machine with 16-bit integers. -/
theorem addoff_exact_last : addoff .nes (addoff .nes ⟨0xffff, 511⟩ 513) (-513) = ⟨0xffff, 511⟩ :=
  have norm : Off.Norm ⟨0xffff, 511⟩ := show (511 : Word).toNat < 512 by decide
  (addoff_exact norm).2.2 513 (by unfold Amount; decide)

/-! ## Small operands -/

/-- A small word as a C integer. -/
lemma cint_of_lt {t : Target} {x : Word} (h : x.toNat < 2 ^ 15) : cint t x = x.toNat := by
  cases t with
  | nes => exact toInt_of_lt h
  | fsutil => rfl

/-- A small word with a minus, as a C integer. -/
lemma cneg_of_lt {t : Target} {x : Word} (h : x.toNat < 2 ^ 15) : cneg t x = -(x.toNat : Int) := by
  cases t with
  | nes =>
    show (-x).toInt = _
    rw [BitVec.toInt_neg_of_ne_intMin, toInt_of_lt h]
    rintro rfl
    exact absurd h (by decide)
  | fsutil => rfl

/-- A round of a transfer moves what is left of the block, or of the transfer. -/
lemma chunk_toNat {t : Target} {n offset : Word} (hn : t = .nes → n.toNat < 2 ^ 15)
    (ho : offset.toNat < 512) : (chunk t n offset).toNat = min n.toNat (512 - offset.toNat) := by
  have lt := n.isLt
  cases t with
  | nes =>
    have room : (512 - offset).toNat = 512 - offset.toNat := by
      rw [BitVec.toNat_sub, show (512 : Word).toNat = 512 from rfl]
      omega
    show (BitVec.ofInt 16 (min n.toInt (512 - offset).toInt)).toNat = _
    rw [toInt_of_lt (hn rfl), toInt_of_lt (by omega), room, BitVec.toNat_ofInt]
    omega
  | fsutil =>
    show (BitVec.ofInt 16 (min (n.toNat : Int) (512 - offset.toInt))).toNat = _
    rw [toInt_of_lt (by omega), BitVec.toNat_ofInt]
    omega

/-- The number of bytes in a pipe. -/
lemma psize_val {t : Target} {o : Off} (h : o.Norm) (hv : o.val < 2 ^ 15) : psize t o = o.val := by
  have norm : o.oOffset.toNat < 512 := h
  have val : o.val = 512 * o.oBlkno.toNat + o.oOffset.toNat := rfl
  cases t with
  | nes =>
    have sum : (512 * o.oBlkno + o.oOffset).toNat = o.val := by
      rw [BitVec.toNat_add, BitVec.toNat_mul, show (512 : Word).toNat = 512 from rfl]
      omega
    show (512 * o.oBlkno + o.oOffset).toInt = _
    rw [toInt_of_lt (by omega), sum]
  | fsutil =>
    show 512 * (o.oBlkno.toNat : Int) + o.oOffset.toInt = _
    rw [toInt_of_lt (by omega), val]
    omega

/-- A write has no room in a pipe with less than `n` bytes left. -/
lemma pipeFull_iff {t : Target} {n : Word} {p : Nat} (hp : p ≤ 16 * 512) :
    pipeFull t n p = true ↔ 16 * 512 < p + n.toNat := by
  cases t with
  | nes =>
    have room : (BitVec.ofInt 16 (16 * 512 - (p : Int))).toNat = 16 * 512 - p := by
      rw [BitVec.toNat_ofInt]
      omega
    show decide ((BitVec.ofInt 16 (16 * 512 - (p : Int))).toNat < n.toNat) = true ↔ _
    rw [decide_eq_true_iff, room]
    omega
  | fsutil =>
    show decide (16 * 512 - (p : Int) < (n.toNat : Int)) = true ↔ _
    rw [decide_eq_true_iff]
    omega

end Uzi
