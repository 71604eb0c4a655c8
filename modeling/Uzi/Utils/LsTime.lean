import Uzi.Unix
import Mathlib.Data.Nat.Bits
import Mathlib.Tactic.Ring

/-!
# The times that `ls` prints

`fsutil_rdtime` packs the fields of the local time into the two words of a `time_t`, from which the `ctime` of
`ls` takes them again.
-/

namespace Uzi.Ls

/-- The fields of C's `struct tm`, with the ranges in which `localtime` keeps them. -/
structure Tm where
  tmSec : Nat
  tmMin : Nat
  tmHour : Nat
  tmMday : Nat
  /-- From 0. -/
  tmMon : Nat
  /-- Since 1900. -/
  tmYear : Nat
  sec_lt : tmSec < 60
  min_lt : tmMin < 60
  hour_lt : tmHour < 24
  mday_pos : 0 < tmMday
  mday_le : tmMday ≤ 31
  mon_lt : tmMon < 12

/-- `fsutil_rdtime`. -/
def fsutilRdtime (tm : Tm) : Time where
  tTime := BitVec.ofNat 16 tm.tmSec >>> 1 ||| BitVec.ofNat 16 tm.tmMin <<< 5 ||| BitVec.ofNat 16 tm.tmHour <<< 11
  tDate := BitVec.ofNat 16 tm.tmMday ||| BitVec.ofNat 16 tm.tmMon <<< 5 ||| BitVec.ofNat 16 tm.tmYear <<< 9

/-- The digit 0. -/
def ZERO : Byte := 0x30
/-- What stands between hours and minutes. -/
def COLON : Byte := 0x3a
/-- What stands between the time and the date. -/
def SPACE : Byte := 0x20
/-- What stands between day and month. -/
def SLASH : Byte := 0x2f

/-- The two characters of `dout`. -/
def dout (n : Word) : List Byte :=
  let n := n.toNat % 100
  [BitVec.ofNat 8 (n / 10) + ZERO, BitVec.ofNat 8 (n % 10) + ZERO]

/-- The mask of the seconds is `0x001f * 2`: the product comes before `&`. -/
def ctime (t : Time) : List Byte :=
  dout ((t.tTime &&& 0xf800) >>> 11) ++ [COLON] ++ dout ((t.tTime &&& 0x07e0) >>> 5) ++ [COLON] ++
    dout (t.tTime &&& 0x001f * 2) ++ [SPACE] ++ dout ((t.tDate &&& 0x01e0) >>> 5) ++ [SLASH] ++
    dout (t.tDate &&& 0x001f) ++ [SLASH] ++ dout ((t.tDate &&& 0xfe00) >>> 9)

/-- What is read from the string. -/
structure Stamp where
  hour : Nat
  minute : Nat
  second : Nat
  month : Nat
  day : Nat
  year : Nat
deriving DecidableEq, Repr

/-- What a digit stands for. -/
def digitOf (c : Byte) : Option Nat := if ZERO ≤ c ∧ c < ZERO + 10 then some (c - ZERO).toNat else none

/-- What two characters stand for. -/
def pairOf (c d : Byte) : Option Nat := do some (10 * (← digitOf c) + (← digitOf d))

/-- A string `hh:mm:ss mm/dd/yy` is read. -/
def readStamp : List Byte → Option Stamp
  | [h, h', c, m, m', c', s, s', b, o, o', l, d, d', l', y, y'] => do
    guard ([c, c', b, l, l'] = [COLON, COLON, SPACE, SLASH, SLASH])
    some {
      hour := ← pairOf h h'
      minute := ← pairOf m m'
      second := ← pairOf s s'
      month := ← pairOf o o'
      day := ← pairOf d d'
      year := ← pairOf y y' }
  | _ => none

/-- The string has the time that was packed, to two seconds, with the last two digits of the year. -/
def ShowsStored (tm : Tm) : Prop :=
  readStamp (ctime (fsutilRdtime tm)) = some {
    hour := tm.tmHour
    minute := tm.tmMin
    second := tm.tmSec / 2 * 2
    month := tm.tmMon
    day := tm.tmMday
    year := tm.tmYear % 100 }

/-! ## The fields of a word -/

section Fields

variable {x a b c : Word} {i j : Nat}

/-- A field under a mask that ends at its lowest bit. -/
lemma field {m : Word} {k n : Nat} (mask : m.toNat >>> k = 2 ^ n - 1) :
    ((x &&& m) >>> k).toNat = x.toNat / 2 ^ k % 2 ^ n := by
  rw [BitVec.toNat_ushiftRight, BitVec.toNat_and, Nat.shiftRight_and_distrib, mask, Nat.and_two_pow_sub_one_eq_mod,
    Nat.shiftRight_eq_div_pow]

/-- Three fields side by side. Of the highest one there is what fits into the word. -/
lemma toNat_pack (ha : a.toNat < 2 ^ i) (hb : b.toNat < 2 ^ j) (le : i + j ≤ 16) :
    (a ||| b <<< i ||| c <<< (i + j)).toNat =
      a.toNat + b.toNat * 2 ^ i + c.toNat % 2 ^ (16 - (i + j)) * 2 ^ (i + j) := by
  have low : b.toNat * 2 ^ i + a.toNat < 2 ^ (i + j) := by
    calc b.toNat * 2 ^ i + a.toNat < b.toNat * 2 ^ i + 2 ^ i := Nat.add_lt_add_left ha _
      _ = (b.toNat + 1) * 2 ^ i := (Nat.succ_mul _ _).symm
      _ ≤ 2 ^ j * 2 ^ i := Nat.mul_le_mul_right _ hb
      _ = 2 ^ (i + j) := by rw [Nat.pow_add, Nat.mul_comm]
  have middle : (b <<< i).toNat = b.toNat * 2 ^ i := by
    rw [BitVec.toNat_shiftLeft, Nat.shiftLeft_eq, Nat.mod_eq_of_lt]
    exact Nat.lt_of_le_of_lt (Nat.le_add_right _ _) (Nat.lt_of_lt_of_le low (Nat.pow_le_pow_right (by decide) le))
  have high : (c <<< (i + j)).toNat = c.toNat % 2 ^ (16 - (i + j)) * 2 ^ (i + j) := by
    rw [BitVec.toNat_shiftLeft, Nat.shiftLeft_eq, ← Nat.mul_mod_mul_right, ← Nat.pow_add, Nat.sub_add_cancel le]
  rw [BitVec.toNat_or, BitVec.toNat_or, middle, high, Nat.or_comm a.toNat, ← Nat.shiftLeft_eq b.toNat,
    ← Nat.shiftLeft_add_eq_or_of_lt ha, Nat.shiftLeft_eq, Nat.or_comm, ← Nat.shiftLeft_eq (c.toNat % _),
    ← Nat.shiftLeft_add_eq_or_of_lt low, Nat.shiftLeft_eq]
  omega

/-- Under the mask of the seconds the lowest bit is lost, and one of the minutes is there. -/
lemma toNat_seconds : (x &&& 0x001f * 2).toNat = 2 * (x.toNat / 2 % 32) := by
  have small : ∀ y < 64, y &&& 62 = 2 * (y / 2) := by decide
  have six : x.toNat &&& 62 = x.toNat % 64 &&& 62 := by
    rw [show 64 = 2 ^ 6 from rfl, ← Nat.and_two_pow_sub_one_eq_mod, Nat.and_assoc]
    rfl
  rw [BitVec.toNat_and]
  show x.toNat &&& 62 = _
  rw [six, small _ (Nat.mod_lt _ (by decide))]
  omega

end Fields

/-! ## What is read -/

/-- The two digits of a number. -/
lemma pairOf_dout : ∀ n < 100, pairOf (BitVec.ofNat 8 (n / 10) + ZERO) (BitVec.ofNat 8 (n % 10) + ZERO) = some n := by
  decide

/-- The fields under the masks, each modulo 100. -/
lemma readStamp_ctime {t : Time} :
    readStamp (ctime t) = some {
      hour := t.tTime.toNat / 2 ^ 11 % 2 ^ 5 % 100
      minute := t.tTime.toNat / 2 ^ 5 % 2 ^ 6 % 100
      second := 2 * (t.tTime.toNat / 2 % 32) % 100
      month := t.tDate.toNat / 2 ^ 5 % 2 ^ 4 % 100
      day := t.tDate.toNat / 2 ^ 0 % 2 ^ 5 % 100
      year := t.tDate.toNat / 2 ^ 9 % 2 ^ 7 % 100 } := by
  have lt : ∀ n : Nat, n % 100 < 100 := fun n => Nat.mod_lt n (by decide)
  have day : t.tDate &&& (0x001f : Word) = (t.tDate &&& 0x001f) >>> 0 := (BitVec.ushiftRight_zero _).symm
  unfold ctime dout
  rw [day, field (n := 5) (by decide), field (n := 6) (by decide), toNat_seconds, field (n := 4) (by decide),
    field (n := 5) (by decide), field (n := 7) (by decide)]
  simp only [List.cons_append, List.nil_append, readStamp, pairOf_dout _ (lt _)]
  rfl

/-- Three fields are taken apart again, the first one of 5 bits. -/
lemma unpack {a b c n : Nat} (ha : a < 32) (hb : b < n) :
    (a + b * 32 + c * (32 * n)) % 32 = a ∧ (a + b * 32 + c * (32 * n)) / 32 % n = b ∧
      (a + b * 32 + c * (32 * n)) / (32 * n) = c := by
  have pos : 0 < n := Nat.zero_lt_of_lt hb
  have split : a + b * 32 + c * (32 * n) = a + 32 * (b + n * c) := by ring
  have upper : (a + 32 * (b + n * c)) / 32 = b + n * c := by
    rw [Nat.add_mul_div_left _ _ (by decide), Nat.div_eq_of_lt ha, Nat.zero_add]
  rw [split]
  refine ⟨?_, ?_, ?_⟩
  · rw [Nat.add_mul_mod_self_left, Nat.mod_eq_of_lt ha]
  · rw [upper, Nat.add_mul_mod_self_left, Nat.mod_eq_of_lt hb]
  · rw [← Nat.div_div_eq_div_mul, upper, Nat.add_mul_div_left _ _ pos, Nat.div_eq_of_lt hb, Nat.zero_add]

/-- The words of a `time_t`. -/
lemma toNat_fsutilRdtime (tm : Tm) :
    (fsutilRdtime tm).tTime.toNat = tm.tmSec / 2 + tm.tmMin * 32 + tm.tmHour * 2048 ∧
      (fsutilRdtime tm).tDate.toNat = tm.tmMday + tm.tmMon * 32 + tm.tmYear % 128 * 512 := by
  have hsec := tm.sec_lt
  have hmin := tm.min_lt
  have hhour := tm.hour_lt
  have hmday := tm.mday_le
  have hmon := tm.mon_lt
  have sec : (BitVec.ofNat 16 tm.tmSec >>> 1).toNat = tm.tmSec / 2 := by
    rw [BitVec.toNat_ushiftRight, toNat_ofNat_of_lt (by omega), Nat.shiftRight_eq_div_pow]
  have min : (BitVec.ofNat 16 tm.tmMin).toNat = tm.tmMin := toNat_ofNat_of_lt (by omega)
  have mday : (BitVec.ofNat 16 tm.tmMday).toNat = tm.tmMday := toNat_ofNat_of_lt (by omega)
  have mon : (BitVec.ofNat 16 tm.tmMon).toNat = tm.tmMon := toNat_ofNat_of_lt (by omega)
  constructor
  · have packed := toNat_pack (a := BitVec.ofNat 16 tm.tmSec >>> 1) (b := BitVec.ofNat 16 tm.tmMin)
      (c := BitVec.ofNat 16 tm.tmHour) (i := 5) (j := 6) (by omega) (by omega) (by decide)
    rw [sec, min, toNat_ofNat_of_lt (by omega)] at packed
    refine packed.trans ?_
    omega
  · have packed := toNat_pack (a := BitVec.ofNat 16 tm.tmMday) (b := BitVec.ofNat 16 tm.tmMon)
      (c := BitVec.ofNat 16 tm.tmYear) (i := 5) (j := 4) (by omega) (by omega) (by decide)
    rw [mday, mon, BitVec.toNat_ofNat] at packed
    refine packed.trans ?_
    omega

/-- The seconds that are shown for `s`, where `p` is the lowest bit of the minute. -/
lemma shown_seconds : ∀ s < 60, ∀ p < 2, 2 * (s / 2 / 2 + p * 16) % 100 = s / 2 * 2 ↔ s < 2 ∧ p = 0 := by decide

/-- The string shows the time that was packed in the first two seconds of every other minute, as the seconds are
taken from the wrong bits; and the last two digits of the year, where 7 bits keep them. -/
theorem showsStored_iff {tm : Tm} :
    ShowsStored tm ↔ tm.tmSec < 2 ∧ tm.tmMin % 2 = 0 ∧ tm.tmYear % 128 % 100 = tm.tmYear % 100 := by
  have hsec := tm.sec_lt
  have hmin := tm.min_lt
  have hhour := tm.hour_lt
  have hpos := tm.mday_pos
  have hmday := tm.mday_le
  have hmon := tm.mon_lt
  obtain ⟨time, date⟩ := toNat_fsutilRdtime tm
  obtain ⟨seconds, minutes, hours⟩ := unpack (c := tm.tmHour) (n := 64) (show tm.tmSec / 2 < 32 by omega)
    (show tm.tmMin < 64 by omega)
  obtain ⟨days, months, years⟩ := unpack (c := tm.tmYear % 128) (n := 16) (show tm.tmMday < 32 by omega)
    (show tm.tmMon < 16 by omega)
  have hour : (fsutilRdtime tm).tTime.toNat / 2 ^ 11 = tm.tmHour := by rw [time]; exact hours
  have minute : (fsutilRdtime tm).tTime.toNat / 2 ^ 5 % 2 ^ 6 = tm.tmMin := by rw [time]; exact minutes
  have second : (fsutilRdtime tm).tTime.toNat / 2 % 32 = tm.tmSec / 2 / 2 + tm.tmMin % 2 * 16 := by
    rw [time]
    omega
  have month : (fsutilRdtime tm).tDate.toNat / 2 ^ 5 % 2 ^ 4 = tm.tmMon := by rw [date]; exact months
  have day : (fsutilRdtime tm).tDate.toNat / 2 ^ 0 % 2 ^ 5 = tm.tmMday := by
    rw [date, Nat.pow_zero, Nat.div_one]
    exact days
  have year : (fsutilRdtime tm).tDate.toNat / 2 ^ 9 = tm.tmYear % 128 := by rw [date]; exact years
  rw [ShowsStored, readStamp_ctime, Option.some.injEq, Stamp.mk.injEq]
  have shown : 2 * (tm.tmSec / 2 / 2 + tm.tmMin % 2 * 16) % 100 = tm.tmSec / 2 * 2 ↔ tm.tmSec < 2 ∧ tm.tmMin % 2 = 0 :=
    shown_seconds _ hsec _ (Nat.mod_lt _ (by decide))
  have kept : tm.tmYear % 128 % 2 ^ 7 = tm.tmYear % 128 := Nat.mod_mod _ _
  have small : tm.tmHour % 2 ^ 5 % 100 = tm.tmHour ∧ tm.tmMin % 100 = tm.tmMin ∧ tm.tmMon % 100 = tm.tmMon ∧
      tm.tmMday % 100 = tm.tmMday := by
    clear hours minutes days months years hour minute second month day year time date
    omega
  rw [hour, minute, second, month, day, year, kept, small.1, small.2.1, small.2.2.1, small.2.2.2, shown]
  constructor
  · rintro ⟨-, -, ⟨first, even⟩, -, -, years⟩
    exact ⟨first, even, years⟩
  · rintro ⟨first, even, years⟩
    exact ⟨rfl, rfl, ⟨first, even⟩, rfl, rfl, years⟩

/-- Half a minute past midnight is shown as 14 seconds past. -/
theorem not_showsStored : ∃ tm : Tm, tm.tmSec = 30 ∧ tm.tmMin = 0 ∧ tm.tmYear = 99 ∧ ¬ ShowsStored tm := by
  refine ⟨⟨30, 0, 0, 1, 0, 99, by decide, by decide, by decide, by decide, by decide, by decide⟩, rfl, rfl, rfl, ?_⟩
  unfold ShowsStored
  decide

end Uzi.Ls
