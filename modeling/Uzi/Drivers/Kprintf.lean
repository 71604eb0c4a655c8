import Uzi.Unix
import Mathlib.Data.Nat.Digits.Lemmas

/-!
# The numbers of `kprintf`

`itob` writes the digits of a number into a buffer, the last one first, and `reverse` turns the buffer round. A buffer
is the list of its bytes; an access outside of it is the failure of the function.
-/

namespace Uzi.Kprintf

/-- The sign of a number. -/
def MINUS : Byte := 0x2d
/-- The digit 0. -/
def ZERO : Byte := 0x30
/-- The digit that stands for ten. -/
def LETTER_A : Byte := 0x61

/-- The size of the buffer of `vsprintf`. -/
def KPRINTF_BUF_SIZE : Nat := 20

/-- `s[i] = c` in a buffer. -/
def store (s : List Byte) (i : Nat) (c : Byte) : Option (List Byte) :=
  if i < s.length then some (s.set i c) else none

/-- `strlen`, in a buffer that may have no end. -/
def strlen : List Byte → Option Nat
  | [] => none
  | c :: s => if c ≠ 0 then (strlen s).map (· + 1) else some 0

/-- The loop of `reverse`, with the rounds to come. -/
def reverseRounds : Nat → Nat → Nat → List Byte → Option (List Byte)
  | 0, _, _, s => some s
  | n + 1, i, j, s => do
    let temp ← s[i]?
    let s ← store s i (← s[j]?)
    let s ← store s j temp
    reverseRounds n (i + 1) (j - 1) s

/-- `reverse`. -/
def reverse (s : List Byte) : Option (List Byte) := do
  let len ← strlen s
  reverseRounds (len / 2) 0 (len - 1) s

/-- The character that `itob` writes for a digit. -/
def digitChar (curDigit : Word) : Byte :=
  (if 9 < curDigit.toNat then curDigit - 10 + LETTER_A.setWidth 16 else curDigit + ZERO.setWidth 16).setWidth 8

/-- The do-while loop of `itob`. A buffer has room for as many rounds as it has bytes. -/
def itobRounds (base : Word) : Nat → Word → Nat → List Byte → Option (Nat × List Byte)
  | 0, _, _, _ => none
  | n + 1, curN, curPos, s => do
    let s ← store s curPos (digitChar (curN % base))
    if 0 < curN / base then itobRounds base n (curN / base) (curPos + 1) s else some (curPos + 1, s)

/-- The cast in `itob` is one of the condition: `-n` is taken of the int, and of -32768 it is itself. -/
def itob (n : Word) (s : List Byte) (b : Word) : Option (List Byte) := do
  let base := if b.toInt < 0 then -b else b
  let curN := if n.toInt < 0 ∧ base = 10 then -n else n
  let (curPos, s) ← itobRounds base s.length curN 0 s
  let (curPos, s) ← if b.toInt < 0 ∧ n.toInt < 0 then do some (curPos + 1, ← store s curPos MINUS) else some (curPos, s)
  reverse (← store s curPos 0)

/-- The conversions of `vsprintf` that print a number. -/
inductive Conversion
  | d
  | o
  | u
  | x
  | b
deriving DecidableEq, Repr

/-- The base that `prt` passes on, with the sign for `%d`. -/
def Conversion.base : Conversion → Word
  | d => -10
  | o => 8
  | u => 10
  | x => 16
  | b => 2

/-- What `prt` leaves in the buffer `s` of `vsprintf`. -/
def prt (conv : Conversion) (arg : Word) : Option (List Byte) :=
  itob arg (List.replicate KPRINTF_BUF_SIZE 0) conv.base

/-- What `strcpy_idx` copies. -/
def text (s : List Byte) : List Byte := s.takeWhile (· ≠ 0)

/-! ## Numerals -/

/-- What a digit stands for. -/
def digitValue (c : Byte) : Option Nat :=
  if ZERO ≤ c ∧ c < ZERO + 10 then some (c - ZERO).toNat
  else if LETTER_A ≤ c ∧ c < LETTER_A + 6 then some ((c - LETTER_A).toNat + 10)
  else none

/-- The number that a nonempty list of digits stands for. -/
def readDigits (base : Nat) (l : List Byte) : Option Nat := do
  let digits ← l.mapM digitValue
  if l ≠ [] ∧ ∀ d ∈ digits, d < base then some (Nat.ofDigits base digits.reverse) else none

/-- The digits behind the sign. -/
def unsigned (l : List Byte) : List Byte := if l.head? = some MINUS then l.tail else l

/-- The number that a numeral with an optional `-` stands for. -/
def readNumeral (base : Nat) (l : List Byte) : Option Int :=
  (readDigits base (unsigned l)).map fun n => if l.head? = some MINUS then -(n : Int) else n

/-- There is no zero before the other digits. -/
def Plain (l : List Byte) : Prop := (unsigned l).head? = some ZERO → (unsigned l).length = 1

namespace Conversion

/-- The base in which the digits are to be read. -/
def radix : Conversion → Nat
  | d => 10
  | o => 8
  | u => 10
  | x => 16
  | b => 2

/-- The number that the argument is, with a sign for `%d` alone. -/
def value (conv : Conversion) (arg : Word) : Int := if conv = d then arg.toInt else arg.toNat

end Conversion

/-- A conversion stays in the buffer and leaves the numeral of the argument there. -/
def PrintsRight (conv : Conversion) (arg : Word) : Prop :=
  ∃ s, prt conv arg = some s ∧ readNumeral conv.radix (text s) = some (conv.value arg) ∧ Plain (text s)

/-! ## `reverse` -/

section Buffers

variable {l m r s : List Byte} {c d : Byte} {base n : Word}

/-- A store behind a text. -/
lemma store_append : store (l ++ c :: r) l.length d = some (l ++ d :: r) := by
  rw [store, if_pos (by rw [List.length_append, List.length_cons]; omega), List.set_append_right _ _ (Nat.le_refl _),
    Nat.sub_self, List.set_cons_zero]

/-- The character behind a text. -/
lemma getElem?_append_cons : (l ++ c :: r)[l.length]? = some c := by
  rw [List.getElem?_append_right (Nat.le_refl _), Nat.sub_self, List.getElem?_cons_zero]

/-- The length of a text with its end. -/
lemma strlen_append (plain : ∀ c ∈ l, c ≠ 0) : strlen (l ++ 0 :: r) = some l.length := by
  induction l with
  | nil => rfl
  | cons c l ih =>
    rw [List.cons_append, strlen, if_pos (plain c List.mem_cons_self),
      ih fun d mem => plain d (List.mem_cons_of_mem c mem)]
    rfl

/-- A round of `reverse` exchanges the two ends of the middle part. -/
lemma reverseRounds_swap {k : Nat} :
    reverseRounds (k + 1) l.length (l ++ c :: m).length (l ++ c :: (m ++ d :: r)) =
      reverseRounds k (l.length + 1) ((l ++ d :: m).length - 1) (l ++ d :: (m ++ c :: r)) := by
  have assoc : ∀ a b : Byte, l ++ a :: (m ++ b :: r) = (l ++ a :: m) ++ b :: r := fun a b => by
    rw [List.append_assoc, List.cons_append]
  have same : (l ++ c :: m).length = (l ++ d :: m).length := by
    rw [List.length_append, List.length_append, List.length_cons, List.length_cons]
  simp only [reverseRounds, getElem?_append_cons, Option.bind_eq_bind, Option.bind_some]
  rw [assoc c d, getElem?_append_cons, Option.bind_some, ← assoc, store_append, Option.bind_some, assoc d d, same,
    store_append, Option.bind_some, ← assoc]

/-- The rounds to come turn the middle part round. -/
lemma reverseRounds_append {k : Nat} (hm : m.length / 2 = k) :
    reverseRounds k l.length (l.length + m.length - 1) (l ++ (m ++ r)) = some (l ++ (m.reverse ++ r)) := by
  induction k generalizing l m r with
  | zero =>
    match m with
    | [] => rfl
    | [_] => rfl
    | _ :: _ :: m =>
      rw [List.length_cons, List.length_cons] at hm
      omega
  | succ k ih =>
    cases m with
    | nil => exact absurd hm (Nat.succ_ne_zero k).symm
    | cons c m =>
      rcases List.eq_nil_or_concat' m with rfl | ⟨m, d, rfl⟩
      · rw [List.length_singleton] at hm
        omega
      have len : (c :: (m ++ [d])).length = m.length + 2 := by
        rw [List.length_cons, List.length_append, List.length_singleton]
      have half : m.length / 2 = k := by omega
      have last : l.length + (c :: (m ++ [d])).length - 1 = (l ++ c :: m).length := by
        rw [len, List.length_append, List.length_cons]
        omega
      have next : (l ++ d :: m).length - 1 = (l ++ [d]).length + m.length - 1 := by
        simp only [List.length_append, List.length_cons, List.length_nil]
        omega
      have rest := ih (l := l ++ [d]) (r := c :: r) half
      calc reverseRounds (k + 1) l.length (l.length + (c :: (m ++ [d])).length - 1) (l ++ (c :: (m ++ [d]) ++ r))
          = reverseRounds (k + 1) l.length (l ++ c :: m).length (l ++ c :: (m ++ d :: r)) := by
            rw [last, List.cons_append, List.append_assoc, List.singleton_append]
        _ = reverseRounds k (l ++ [d]).length ((l ++ [d]).length + m.length - 1) (l ++ [d] ++ (m ++ c :: r)) := by
            rw [reverseRounds_swap, next, List.length_append, List.length_singleton, List.append_assoc,
              List.singleton_append]
        _ = some (l ++ ((c :: (m ++ [d])).reverse ++ r)) := by
            rw [rest, List.reverse_cons, List.reverse_append, List.reverse_singleton]
            simp only [List.append_assoc, List.cons_append, List.nil_append]

/-- A text with its end is turned round. -/
lemma reverse_append (plain : ∀ c ∈ l, c ≠ 0) : reverse (l ++ 0 :: r) = some (l.reverse ++ 0 :: r) := by
  rw [reverse, strlen_append plain, Option.bind_eq_bind, Option.bind_some]
  have whole := reverseRounds_append (l := []) (m := l) (r := 0 :: r) rfl
  rwa [List.length_nil, Nat.zero_add] at whole

/-- The text in a buffer. -/
lemma text_append (plain : ∀ c ∈ l, c ≠ 0) : text (l ++ 0 :: r) = l := by
  rw [text, List.takeWhile_append_of_pos fun c mem => decide_eq_true (plain c mem), List.takeWhile_cons,
    if_neg (by simp), List.append_nil]

end Buffers

/-! ## The digits -/

/-- The digits of a number, the last one first. -/
def numeral (b n : Nat) : List Nat := if n = 0 then [0] else Nat.digits b n

/-- A numeral by its last digit. -/
lemma numeral_rec {b n : Nat} (hb : 1 < b) :
    numeral b n = n % b :: if 0 < n / b then numeral b (n / b) else [] := by
  cases n with
  | zero => rw [numeral, if_pos rfl, Nat.zero_mod, Nat.zero_div, if_neg (Nat.lt_irrefl 0)]
  | succ n =>
    rw [numeral, if_neg (Nat.succ_ne_zero n), Nat.digits_def' hb (Nat.succ_pos n)]
    split
    · next pos => rw [numeral, if_neg (Nat.ne_of_gt pos)]
    · next zero => rw [Nat.eq_zero_of_not_pos zero, Nat.digits_zero]

/-- A numeral has a digit. -/
lemma numeral_ne_nil {b n : Nat} : numeral b n ≠ [] := by
  unfold numeral
  split
  · exact List.cons_ne_nil 0 []
  · next ne => exact Nat.digits_ne_nil_iff_ne_zero.mpr ne

/-- The digits of a numeral are below the base. -/
lemma numeral_lt {b n d : Nat} (hb : 1 < b) (mem : d ∈ numeral b n) : d < b := by
  unfold numeral at mem
  split at mem
  · rw [List.mem_singleton.mp mem]
    exact Nat.zero_lt_of_lt hb
  · exact Nat.digits_lt_base hb mem

/-- A numeral stands for its number. -/
lemma ofDigits_numeral {b n : Nat} : Nat.ofDigits b (numeral b n) = n := by
  unfold numeral
  split
  · next zero => rw [Nat.ofDigits_singleton, zero]
  · exact Nat.ofDigits_digits b n

/-- No zero is written behind the other digits. -/
lemma numeral_last {b n : Nat} (zero : (numeral b n).getLast numeral_ne_nil = 0) : numeral b n = [0] := by
  by_cases hn : n = 0
  · rw [numeral, if_pos hn]
  · have digits : numeral b n = Nat.digits b n := if_neg hn
    simp only [digits] at zero
    exact absurd zero (Nat.getLast_digit_ne_zero b hn)

/-- A numeral fits into the buffer. -/
lemma numeral_length {b : Nat} {n : Word} (hb : 1 < b) : (numeral b n.toNat).length ≤ 16 := by
  unfold numeral
  split
  · exact Nat.succ_le_succ (Nat.zero_le 15)
  · rw [Nat.digits_length_le_iff hb]
    exact Nat.lt_of_lt_of_le n.isLt (Nat.pow_le_pow_left hb 16)

section Digits

variable {l r : List Byte} {base n : Word}

/-- The characters of the digits are written behind `l`. -/
lemma itobRounds_append {k : Nat} (hb : 1 < base.toNat) (room : (numeral base.toNat n.toNat).length ≤ k)
    (free : (numeral base.toNat n.toNat).length ≤ r.length) :
    itobRounds base k n l.length (l ++ r) = some (l.length + (numeral base.toNat n.toNat).length,
      l ++ ((numeral base.toNat n.toNat).map (fun d => digitChar (BitVec.ofNat 16 d)) ++
        r.drop (numeral base.toNat n.toNat).length)) := by
  induction k generalizing l r n with
  | zero => exact absurd (List.length_eq_zero_iff.mp (Nat.le_zero.mp room)) numeral_ne_nil
  | succ k ih =>
    have digits := numeral_rec (n := n.toNat) hb
    have digit : BitVec.ofNat 16 (n.toNat % base.toNat) = n % base := by
      rw [← BitVec.toNat_umod, BitVec.ofNat_toNat, BitVec.setWidth_eq]
    cases r with
    | nil => exact absurd (List.length_eq_zero_iff.mp (Nat.le_zero.mp free)) numeral_ne_nil
    | cons c r =>
      rw [itobRounds, store_append, Option.bind_eq_bind, Option.bind_some]
      by_cases pos : 0 < n.toNat / base.toNat
      · have more : 0 < n / base := by rwa [BitVec.lt_def, BitVec.toNat_udiv]
        rw [if_pos pos] at digits
        rw [digits, List.length_cons] at room free ⊢
        rw [← BitVec.toNat_udiv] at digits room free ⊢
        have rest := ih (l := l ++ [digitChar (n % base)]) (Nat.le_of_succ_le_succ room) (Nat.le_of_succ_le_succ free)
        rw [List.length_append, List.length_singleton, List.append_assoc, List.singleton_append] at rest
        rw [if_pos more, rest, List.map_cons, digit, List.drop_succ_cons, Nat.add_assoc, Nat.add_comm 1,
          List.append_assoc, List.singleton_append, List.cons_append]
      · have done : ¬ 0 < n / base := by rwa [BitVec.lt_def, BitVec.toNat_udiv]
        rw [if_neg pos] at digits
        rw [if_neg done, digits, List.map_singleton, digit, List.length_singleton, List.drop_succ_cons, List.drop_zero,
          List.singleton_append]

end Digits

/-! ## `itob` -/

/-- Every digit is a character of its own. -/
lemma digitValue_digitChar : ∀ d < 16, digitValue (digitChar (BitVec.ofNat 16 d)) = some d := by decide

/-- A digit is not the end of the text and no sign, and only 0 is `0`. -/
lemma digitChar_ne : ∀ d < 16, digitChar (BitVec.ofNat 16 d) ≠ 0 ∧ digitChar (BitVec.ofNat 16 d) ≠ MINUS ∧
    (digitChar (BitVec.ofNat 16 d) = ZERO → d = 0) := by decide

/-- The characters of a number, the first digit first. -/
def digits (b n : Nat) : List Byte := (numeral b n).reverse.map fun d => digitChar (BitVec.ofNat 16 d)

section Itob

variable {b base curN n : Word}

/-- The digits fill the front of the buffer, and leave room for a sign and the null. -/
lemma itobRounds_buffer (curN : Word) (hb : 1 < base.toNat) :
    ∃ r, itobRounds base KPRINTF_BUF_SIZE curN 0 (List.replicate KPRINTF_BUF_SIZE 0) =
      some ((digits base.toNat curN.toNat).reverse.length,
        (digits base.toNat curN.toNat).reverse ++ 0 :: 0 :: r) := by
  have fits : (numeral base.toNat curN.toNat).length ≤ 16 := numeral_length hb
  have room : (numeral base.toNat curN.toNat).length ≤ KPRINTF_BUF_SIZE := Nat.le_trans fits (by decide)
  have rounds := itobRounds_append (l := []) (r := List.replicate KPRINTF_BUF_SIZE 0) hb room
    (by rwa [List.length_replicate])
  rw [List.length_nil, Nat.zero_add, List.nil_append, List.nil_append, List.drop_replicate] at rounds
  obtain ⟨k, left⟩ : ∃ k, KPRINTF_BUF_SIZE - (numeral base.toNat curN.toNat).length = k + 2 := by
    refine ⟨18 - (numeral base.toNat curN.toNat).length, ?_⟩
    rw [KPRINTF_BUF_SIZE]
    omega
  rw [left, List.replicate_succ, List.replicate_succ] at rounds
  refine ⟨List.replicate k 0, ?_⟩
  rw [digits, List.map_reverse, List.reverse_reverse, List.length_map]
  exact rounds

/-- The digits of a number do not end the text. -/
lemma digits_ne {b m : Nat} (hb : 1 < b) (le : b ≤ 16) : ∀ c ∈ digits b m, c ≠ 0 := by
  intro c mem
  obtain ⟨d, inside, rfl⟩ := List.mem_map.mp mem
  exact (digitChar_ne d (Nat.lt_of_lt_of_le (numeral_lt hb (List.mem_reverse.mp inside)) le)).1

/-- `itob` leaves the sign and the digits in the buffer, with a null behind them. -/
lemma itob_eq (hbase : (if b.toInt < 0 then -b else b) = base)
    (hcurN : (if n.toInt < 0 ∧ base = 10 then -n else n) = curN) (hb : 1 < base.toNat) (le : base.toNat ≤ 16) :
    ∃ r, itob n (List.replicate KPRINTF_BUF_SIZE 0) b =
      some ((if b.toInt < 0 ∧ n.toInt < 0 then [MINUS] else []) ++ digits base.toNat curN.toNat ++ 0 :: r) := by
  obtain ⟨r, rounds⟩ := itobRounds_buffer curN hb
  have plain : ∀ c ∈ digits base.toNat curN.toNat, c ≠ 0 := digits_ne hb le
  generalize digits base.toNat curN.toNat = l at rounds plain ⊢
  have turned : ∀ c ∈ l.reverse, c ≠ 0 := fun c mem => plain c (List.mem_reverse.mp mem)
  unfold itob
  simp only [hbase, hcurN, List.length_replicate, rounds, Option.bind_eq_bind, Option.bind_some]
  by_cases sign : b.toInt < 0 ∧ n.toInt < 0
  · have signed : ∀ c ∈ l.reverse ++ [MINUS], c ≠ 0 := by
      intro c mem
      cases List.mem_append.mp mem with
      | inl digit => exact turned c digit
      | inr minus =>
        rw [List.mem_singleton.mp minus]
        decide
    have length : l.reverse.length + 1 = (l.reverse ++ [MINUS]).length := by
      rw [List.length_append, List.length_singleton]
    refine ⟨r, ?_⟩
    rw [if_pos sign, if_pos sign, store_append, Option.bind_some, length, List.append_cons, store_append,
      Option.bind_some, reverse_append signed, List.reverse_append, List.reverse_reverse, List.reverse_singleton]
  · refine ⟨0 :: r, ?_⟩
    rw [if_neg sign, if_neg sign, store_append, Option.bind_some, reverse_append turned, List.reverse_reverse,
      List.nil_append]

end Itob

/-! ## What is printed -/

section Numerals

variable {b m : Nat}

/-- The digits are read again. -/
lemma mapM_digitValue {ds : List Nat} (lt : ∀ d ∈ ds, d < 16) :
    (ds.map fun d => digitChar (BitVec.ofNat 16 d)).mapM digitValue = some ds := by
  induction ds with
  | nil => rfl
  | cons d ds ih =>
    rw [List.map_cons, List.mapM_cons, digitValue_digitChar d (lt d List.mem_cons_self),
      ih fun d mem => lt d (List.mem_cons_of_mem _ mem)]
    rfl

/-- The digits of a number stand for it. -/
lemma readDigits_digits (hb : 1 < b) (le : b ≤ 16) : readDigits b (digits b m) = some m := by
  have lt : ∀ d ∈ (numeral b m).reverse, d < b := fun d mem => numeral_lt hb (List.mem_reverse.mp mem)
  have ne : digits b m ≠ [] := fun nil => numeral_ne_nil (List.reverse_eq_nil_iff.mp (List.map_eq_nil_iff.mp nil))
  rw [readDigits, digits, mapM_digitValue fun d mem => Nat.lt_of_lt_of_le (lt d mem) le, Option.bind_eq_bind,
    Option.bind_some, if_pos ⟨ne, lt⟩, List.reverse_reverse, ofDigits_numeral]

/-- Only the number 0 begins with a 0. -/
lemma digits_cons (hb : 1 < b) (le : b ≤ 16) : ∃ d l, digits b m = digitChar (BitVec.ofNat 16 d) :: l ∧ d < 16 ∧
    (d = 0 → l = []) := by
  have last := (numeral b m).dropLast_append_getLast numeral_ne_nil
  have mem := (numeral b m).getLast_mem numeral_ne_nil
  refine ⟨(numeral b m).getLast numeral_ne_nil,
    (numeral b m).dropLast.reverse.map fun d => digitChar (BitVec.ofNat 16 d), ?_,
    Nat.lt_of_lt_of_le (numeral_lt hb mem) le, fun zero => ?_⟩
  · rw [digits]
    nth_rewrite 1 [← last]
    rw [List.reverse_append, List.reverse_singleton, List.singleton_append, List.map_cons]
  · rw [numeral_last zero]
    rfl

/-- A number without a sign has none. -/
lemma unsigned_digits (hb : 1 < b) (le : b ≤ 16) : (digits b m).head? ≠ some MINUS := by
  obtain ⟨d, l, first, lt, _⟩ := digits_cons (m := m) hb le
  rw [first, List.head?_cons]
  exact fun e => (digitChar_ne d lt).2.1 (Option.some.inj e)

/-- A number that begins with a 0 has one digit. -/
lemma plain_digits (hb : 1 < b) (le : b ≤ 16) (zero : (digits b m).head? = some ZERO) : (digits b m).length = 1 := by
  obtain ⟨d, l, first, lt, last⟩ := digits_cons (m := m) hb le
  rw [first, List.head?_cons] at zero
  rw [first, last ((digitChar_ne d lt).2.2 (Option.some.inj zero)), List.length_singleton]

/-- A numeral of `itob` is read as what it was written for, and has no superfluous zeros. -/
lemma readNumeral_digits (hb : 1 < b) (le : b ≤ 16) (sign : Prop) [Decidable sign] :
    readNumeral b ((if sign then [MINUS] else []) ++ digits b m) = some (if sign then -(m : Int) else m) ∧
      Plain ((if sign then [MINUS] else []) ++ digits b m) := by
  unfold readNumeral Plain unsigned
  by_cases minus : sign
  · simp only [if_pos minus, List.singleton_append, List.head?_cons, if_true, List.tail_cons, readDigits_digits hb le]
    exact ⟨rfl, plain_digits hb le⟩
  · simp only [if_neg minus, List.nil_append, if_neg (unsigned_digits hb le), readDigits_digits hb le]
    exact ⟨rfl, plain_digits hb le⟩

end Numerals

/-- The number whose digits are written. -/
def magnitude (conv : Conversion) (arg : Word) : Word := if arg.toInt < 0 ∧ conv.radix = 10 then -arg else arg

/-- What a conversion prints depends on its base alone. -/
lemma printsRight_iff_value {conv : Conversion} {arg : Word} :
    PrintsRight conv arg ↔ (if conv = .d ∧ arg.toInt < 0 then -((magnitude conv arg).toNat : Int)
      else (magnitude conv arg).toNat) = conv.value arg := by
  have hbase : (if conv.base.toInt < 0 then -conv.base else conv.base) = BitVec.ofNat 16 conv.radix := by
    cases conv <;> decide
  have radix : (BitVec.ofNat 16 conv.radix).toNat = conv.radix := by cases conv <;> decide
  have ten : BitVec.ofNat 16 conv.radix = 10 ↔ conv.radix = 10 := by cases conv <;> decide
  have hcurN : (if arg.toInt < 0 ∧ BitVec.ofNat 16 conv.radix = 10 then -arg else arg) = magnitude conv arg := by
    simp only [ten, magnitude]
  have signed : conv.base.toInt < 0 ↔ conv = .d := by cases conv <;> decide
  have one_lt : 1 < (BitVec.ofNat 16 conv.radix).toNat := by cases conv <;> decide
  have le : (BitVec.ofNat 16 conv.radix).toNat ≤ 16 := by cases conv <;> decide
  obtain ⟨r, left⟩ := itob_eq hbase hcurN one_lt le
  rw [radix] at left one_lt le
  have plain : ∀ c ∈ (if conv = .d ∧ arg.toInt < 0 then [MINUS] else []) ++
      digits conv.radix (magnitude conv arg).toNat, c ≠ 0 := by
    intro c mem
    cases List.mem_append.mp mem with
    | inl sign =>
      split at sign
      · rw [List.mem_singleton.mp sign]
        decide
      · exact absurd sign List.not_mem_nil
    | inr digit => exact digits_ne one_lt le c digit
  simp only [signed] at left
  obtain ⟨reads, zeros⟩ := readNumeral_digits (m := (magnitude conv arg).toNat) one_lt le (conv = .d ∧ arg.toInt < 0)
  constructor
  · rintro ⟨s, ran, value, _⟩
    cases ran.symm.trans left
    rw [text_append plain, reads] at value
    exact Option.some.inj value
  · intro value
    refine ⟨_, left, ?_, ?_⟩
    · rw [text_append plain, reads, value]
    · rw [text_append plain]
      exact zeros

/-- `%d`, `%o`, `%x` and `%b` print every argument right, and `%u` those up to 32768: of the others it prints the
digits of the negative, as `itob` does not look at the sign of the base where it takes the magnitude. -/
theorem printsRight_iff {conv : Conversion} {arg : Word} :
    PrintsRight conv arg ↔ (conv = .u → arg.toNat ≤ 32768) := by
  have lt := arg.isLt
  have int := arg.toInt_eq_toNat_cond
  have neg := arg.toNat_neg
  rw [printsRight_iff_value]
  unfold magnitude Conversion.value
  cases conv with
  | d =>
    refine iff_of_true ?_ fun e => nomatch e
    by_cases sign : arg.toInt < 0
    · rw [if_pos ⟨rfl, sign⟩, if_pos ⟨sign, rfl⟩, if_pos rfl, neg, int]
      split at int <;> omega
    · rw [if_neg fun both => sign both.2, if_neg fun both => sign both.1, if_pos rfl, int]
      split at int <;> omega
  | u =>
    simp only [reduceCtorEq, false_and, if_false, forall_const]
    by_cases sign : arg.toInt < 0
    · rw [if_pos ⟨sign, rfl⟩, neg]
      split at int <;> omega
    · rw [if_neg fun both => sign both.1]
      split at int <;> omega
  | o => exact iff_of_true (by simp [Conversion.radix]) fun e => nomatch e
  | x => exact iff_of_true (by simp [Conversion.radix]) fun e => nomatch e
  | b => exact iff_of_true (by simp [Conversion.radix]) fun e => nomatch e

/-- 65535 is printed as 1. -/
theorem not_printsRight : ¬ PrintsRight .u 65535 := by
  rintro ⟨s, ran, value, _⟩
  have left : prt .u 65535 = some (0x31 :: List.replicate 19 0) := by decide +kernel
  cases left.symm.trans ran
  revert value
  decide +kernel

end Uzi.Kprintf
