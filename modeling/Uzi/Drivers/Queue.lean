import Uzi.Lib.Ring
import Uzi.Unix

/-!
# Character queues

`insq`, `remq` and `uninsq` of `drivers/devio.c` on a `struct s_queue`. A queue behaves as a list that is bounded
by its size; but `uninsq` goes around the buffer one position too soon, so that it may not come to the first
position.
-/

namespace Uzi

/-- `struct s_queue`, and the memory that it points into. `q_wakeup` is left out. -/
structure Queue where
  qBase : Int
  qHead : Int
  qTail : Int
  qSize : Word
  qCount : Word
  mem : Int → Byte

/-- `insq`, which returns whether there was room. -/
def insq (q : Queue) (c : Byte) : Bool × Queue :=
  if q.qCount = q.qSize then (false, q)
  else
    (true,
      { q with
        mem := Function.update q.mem q.qTail c
        qCount := q.qCount + 1
        qTail := if q.qBase + q.qSize.toInt ≤ q.qTail + 1 then q.qBase else q.qTail + 1 })

/-- `remq`, which returns the character at the head. -/
def remq (q : Queue) : Option Byte × Queue :=
  if q.qCount = 0 then (none, q)
  else
    (some (q.mem q.qHead),
      { q with
        qCount := q.qCount - 1
        qHead := if q.qBase + q.qSize.toInt ≤ q.qHead + 1 then q.qBase else q.qHead + 1 })

/-- `uninsq`, which returns the character at the tail. -/
def uninsq (q : Queue) : Option Byte × Queue :=
  if q.qCount = 0 then (none, q)
  else
    let tail := if q.qTail - 1 ≤ q.qBase then q.qBase + q.qSize.toInt - 1 else q.qTail - 1
    (some (q.mem tail), { q with qCount := q.qCount - 1, qTail := tail })

/-! ## Queues as lists -/

/-- The calls. -/
inductive QueueOp
  | insq (c : Byte)
  | remq
  | uninsq
  deriving DecidableEq

namespace QueueOp

/-- A call gives the character that it has entered or removed, or fails. -/
def step : QueueOp → Queue → Option Byte × Queue
  | insq c, q => (if (Uzi.insq q c).1 then some c else none, (Uzi.insq q c).2)
  | remq, q => Uzi.remq q
  | uninsq, q => Uzi.uninsq q

/-- A call on a list of at most `n` characters. -/
def onList (n : Nat) : QueueOp → List Byte → Option Byte × List Byte
  | insq c, l => if l.length < n then (some c, l ++ [c]) else (none, l)
  | remq, l => (l.head?, l.tail)
  | uninsq, l => (l.getLast?, l.dropLast)

/-- What the calls give, and what they leave. -/
def run {σ : Type} (step : QueueOp → σ → Option Byte × σ) : List QueueOp → σ → List (Option Byte) × σ
  | [], s => ([], s)
  | op :: ops, s =>
    let rest := run step ops (step op s).2
    ((step op s).1 :: rest.1, rest.2)

end QueueOp

namespace Queue

/-- The queue has been initialised. -/
structure Empty (q : Queue) : Prop where
  size : 1 ≤ q.qSize.toInt
  count : q.qCount = 0
  head : q.qHead = q.qBase
  tail : q.qTail = q.qBase

/-- The pointers are those of two positions of the buffer. -/
structure Inside (q : Queue) : Prop where
  head : q.qBase ≤ q.qHead ∧ q.qHead < q.qBase + q.qSize.toInt
  tail : q.qBase ≤ q.qTail ∧ q.qTail < q.qBase + q.qSize.toInt

/-- The queue holds the list `l`, from position `h` of the buffer on. -/
structure HoldsAt (q : Queue) (h : Nat) (l : List Byte) : Prop where
  size : 1 ≤ q.qSize.toInt
  room : l.length ≤ q.qSize.toNat
  count : q.qCount.toNat = l.length
  lt : h < q.qSize.toNat
  head : q.qHead = q.qBase + h
  tail : q.qTail = q.qBase + ((h + l.length) % q.qSize.toNat : Nat)
  ring : RingList q.qSize.toNat (fun i => some (q.mem (q.qBase + i))) h l

/-- The queue holds the list `l`. -/
def Holds (q : Queue) (l : List Byte) : Prop := ∃ h, q.HoldsAt h l

/-- The call is an `uninsq` of the character in the first position of the buffer. -/
def ToFirst (q : Queue) (op : QueueOp) : Prop := op = .uninsq ∧ q.qCount ≠ 0 ∧ q.qTail = q.qBase + 1

/-- No call of a run is an `uninsq` of the character in the first position. -/
def Clear : Queue → List QueueOp → Prop
  | _, [] => True
  | q, op :: ops => ¬ q.ToFirst op ∧ (op.step q).2.Clear ops

instance (q : Queue) (op : QueueOp) : Decidable (q.ToFirst op) := inferInstanceAs (Decidable (_ ∧ _ ∧ _))

instance decidableClear : (q : Queue) → (ops : List QueueOp) → Decidable (q.Clear ops)
  | _, [] => .isTrue trivial
  | q, op :: ops => @instDecidableAnd _ _ inferInstance (decidableClear (op.step q).2 ops)

variable {q : Queue} {h : Nat} {l : List Byte} {c : Byte}

/-- A size that is not negative. -/
lemma toInt_size (size : 1 ≤ q.qSize.toInt) : q.qSize.toInt = q.qSize.toNat := by
  rw [BitVec.toInt_eq_toNat_cond] at size ⊢
  split at size
  · next lt => rw [if_pos lt]
  · have lt := q.qSize.isLt
    omega

/-- An empty queue holds nothing. -/
lemma Empty.holds (e : q.Empty) : q.Holds [] := by
  have size := toInt_size e.size
  have one := e.size
  refine ⟨0, e.size, Nat.zero_le _, ?_, by omega, ?_, ?_, .nil⟩
  · rw [e.count]
    rfl
  · rw [e.head]
    omega
  · rw [e.tail, List.length_nil, Nat.zero_mod]
    omega

/-- One position on, around the end of the buffer. -/
lemma next_eq {i : Nat} (size : 1 ≤ q.qSize.toInt) (lt : i < q.qSize.toNat) :
    (if q.qBase + q.qSize.toInt ≤ q.qBase + i + 1 then q.qBase else q.qBase + i + 1) =
      q.qBase + ((i + 1) % q.qSize.toNat : Nat) := by
  have int := toInt_size size
  by_cases last : i + 1 = q.qSize.toNat
  · rw [if_pos (by omega), last, Nat.mod_self]
    omega
  · rw [if_neg (by omega), Nat.mod_eq_of_lt (by omega)]
    omega

/-- The positions of the buffer are inside. -/
lemma HoldsAt.inside (hold : q.HoldsAt h l) : q.Inside := by
  have int := toInt_size hold.size
  have lt := hold.lt
  have mod := Nat.mod_lt (h + l.length) (Nat.lt_of_le_of_lt (Nat.zero_le h) lt)
  refine ⟨?_, ?_⟩
  · rw [hold.head]
    omega
  · rw [hold.tail]
    omega

/-- `insq` appends a character where there is room. -/
lemma HoldsAt.insq (hold : q.HoldsAt h l) :
    (Uzi.insq q c).1 = decide (l.length < q.qSize.toNat) ∧
      (Uzi.insq q c).2.HoldsAt h (if l.length < q.qSize.toNat then l ++ [c] else l) := by
  have full : q.qCount = q.qSize ↔ ¬ l.length < q.qSize.toNat := by
    have room := hold.room
    rw [← BitVec.toNat_inj, hold.count]
    omega
  unfold Uzi.insq
  by_cases room : l.length < q.qSize.toNat
  · have pos : 0 < q.qSize.toNat := Nat.lt_of_le_of_lt (Nat.zero_le h) hold.lt
    have mod := Nat.mod_lt (h + l.length) pos
    rw [if_neg (mt full.mp (not_not.mpr room)), if_pos room]
    refine ⟨(decide_eq_true room).symm, hold.size, ?_, ?_, hold.lt, hold.head, ?_, ?_⟩
    · rw [List.length_append]
      exact room
    · show (q.qCount + 1).toNat = _
      have lt := q.qSize.isLt
      rw [List.length_append, List.length_singleton, BitVec.toNat_add, hold.count]
      exact Nat.mod_eq_of_lt (by show l.length + 1 < 65536; omega)
    · show (if q.qBase + q.qSize.toInt ≤ q.qTail + 1 then q.qBase else q.qTail + 1) = _
      rw [hold.tail, next_eq hold.size mod, Nat.mod_add_mod, List.length_append, List.length_singleton, Nat.add_assoc]
    · refine hold.ring.write room (fun j hj => ?_) fun p lt x apart e => ?_
      · obtain rfl : j = 0 := Nat.lt_one_iff.mp hj
        show some (Function.update q.mem q.qTail c (q.qBase + _)) = _
        rw [Nat.add_zero, hold.tail, Function.update_self]
        rfl
      · have ne := apart 0 (Nat.zero_lt_one)
        rw [Nat.add_zero] at ne
        show some (Function.update q.mem q.qTail c (q.qBase + p)) = _
        rw [hold.tail, Function.update_of_ne, e]
        intro same
        exact ne (by omega)
  · rw [if_pos (full.mpr room), if_neg room]
    exact ⟨(decide_eq_false room).symm, hold⟩

/-- `remq` removes the first character. -/
lemma HoldsAt.remq (hold : q.HoldsAt h l) :
    (Uzi.remq q).1 = l.head? ∧ (Uzi.remq q).2.Holds l.tail := by
  unfold Uzi.remq
  cases l with
  | nil =>
    have zero : q.qCount = 0 := BitVec.eq_of_toNat_eq hold.count
    rw [if_pos zero]
    exact ⟨rfl, h, hold⟩
  | cons c l =>
    have pos : q.qCount ≠ 0 := fun zero => by
      have count := hold.count
      rw [zero] at count
      exact absurd count (Nat.succ_ne_zero _).symm
    have room := hold.room
    rw [List.length_cons] at room
    rw [if_neg pos]
    refine ⟨?_, (h + 1) % q.qSize.toNat, hold.size, Nat.le_of_succ_le room, ?_, ?_, ?_, ?_, ?_⟩
    · have first := hold.ring 0 (Nat.zero_lt_succ _)
      rw [Nat.add_zero, Nat.mod_eq_of_lt hold.lt] at first
      rw [hold.head]
      exact first
    · show (q.qCount - 1).toNat = l.length
      have count := hold.count
      rw [List.length_cons] at count
      have one : (1 : Word).toNat ≤ q.qCount.toNat := by
        show 1 ≤ _
        omega
      rw [BitVec.toNat_sub_of_le one, count]
      rfl
    · exact Nat.mod_lt _ (by omega)
    · show (if q.qBase + q.qSize.toInt ≤ q.qHead + 1 then q.qBase else q.qHead + 1) = _
      rw [hold.head, next_eq hold.size hold.lt]
    · rw [hold.tail, Nat.mod_add_mod, List.length_cons, Nat.add_assoc, Nat.add_comm 1]
      rfl
    · exact hold.ring.drop 1

/-- `uninsq` removes the last character, unless that is in the first position. -/
lemma HoldsAt.uninsq (hold : q.HoldsAt h l) (clear : ¬ q.ToFirst .uninsq) :
    (Uzi.uninsq q).1 = l.getLast? ∧ (Uzi.uninsq q).2.HoldsAt h l.dropLast := by
  unfold Uzi.uninsq
  by_cases empty : l = []
  · subst empty
    have zero : q.qCount = 0 := BitVec.eq_of_toNat_eq hold.count
    rw [if_pos zero]
    exact ⟨rfl, hold⟩
  · have some_length := List.length_pos_iff.mpr empty
    have pos : q.qCount ≠ 0 := fun zero => by
      have count := hold.count
      rw [zero] at count
      exact absurd count (Nat.ne_of_lt some_length)
    have room := hold.room
    have int := toInt_size hold.size
    have mod := Nat.mod_lt (h + l.length) (Nat.lt_of_le_of_lt (Nat.zero_le h) hold.lt)
    -- the position in front of the tail
    have tail : (if q.qTail - 1 ≤ q.qBase then q.qBase + q.qSize.toInt - 1 else q.qTail - 1) =
        q.qBase + ((h + (l.length - 1)) % q.qSize.toNat : Nat) := by
      have ne : q.qTail ≠ q.qBase + 1 := fun e => clear ⟨rfl, pos, e⟩
      have back : (h + (l.length - 1)) % q.qSize.toNat =
          if (h + l.length) % q.qSize.toNat = 0 then q.qSize.toNat - 1 else (h + l.length) % q.qSize.toNat - 1 := by
        have next : h + (l.length - 1) + 1 = h + l.length := by omega
        rw [← next]
        exact RingList.pred_mod (Nat.lt_of_le_of_lt (Nat.zero_le h) hold.lt)
      rw [hold.tail] at ne ⊢
      rw [back]
      split
      · next low =>
        have zero : (h + l.length) % q.qSize.toNat = 0 := by omega
        rw [if_pos zero]
        omega
      · next high =>
        rw [if_neg (by omega)]
        omega
    rw [if_neg pos]
    show some (q.mem _) = _ ∧ _
    rw [tail]
    refine ⟨?_, hold.size, ?_, ?_, hold.lt, hold.head, ?_, ?_⟩
    · rw [List.getLast?_eq_getElem?, List.getElem?_eq_getElem (by omega)]
      exact hold.ring _ _
    · rw [List.length_dropLast]
      exact (Nat.sub_le _ _).trans room
    · show (q.qCount - 1).toNat = _
      have one : (1 : Word).toNat ≤ q.qCount.toNat := by
        rw [hold.count]
        exact some_length
      rw [BitVec.toNat_sub_of_le one, hold.count, List.length_dropLast]
      rfl
    · show _ = _
      rw [List.length_dropLast]
    · exact hold.ring.dropLast

/-- No call moves the buffer. -/
lemma step_buffer (op : QueueOp) : (op.step q).2.qBase = q.qBase ∧ (op.step q).2.qSize = q.qSize := by
  cases op with
  | insq c =>
    show (Uzi.insq q c).2.qBase = _ ∧ (Uzi.insq q c).2.qSize = _
    unfold Uzi.insq
    split
    · exact ⟨rfl, rfl⟩
    · exact ⟨rfl, rfl⟩
  | remq =>
    show (Uzi.remq q).2.qBase = _ ∧ (Uzi.remq q).2.qSize = _
    unfold Uzi.remq
    split
    · exact ⟨rfl, rfl⟩
    · exact ⟨rfl, rfl⟩
  | uninsq =>
    show (Uzi.uninsq q).2.qBase = _ ∧ (Uzi.uninsq q).2.qSize = _
    unfold Uzi.uninsq
    split
    · exact ⟨rfl, rfl⟩
    · exact ⟨rfl, rfl⟩

/-- A call does what it does on the list. -/
lemma Holds.step {op : QueueOp} (hold : q.Holds l) (clear : ¬ q.ToFirst op) :
    (op.step q).1 = (op.onList q.qSize.toNat l).1 ∧ (op.step q).2.Holds (op.onList q.qSize.toNat l).2 := by
  obtain ⟨h, hold⟩ := hold
  cases op with
  | insq c =>
    obtain ⟨result, after⟩ := hold.insq (c := c)
    show (if (Uzi.insq q c).1 then some c else none) =
        (if l.length < q.qSize.toNat then (some c, l ++ [c]) else (none, l)).1 ∧
      (Uzi.insq q c).2.Holds (if l.length < q.qSize.toNat then (some c, l ++ [c]) else (none, l)).2
    rw [result]
    by_cases room : l.length < q.qSize.toNat
    · rw [if_pos room] at after ⊢
      exact ⟨if_pos (decide_eq_true room), h, after⟩
    · rw [if_neg room] at after ⊢
      exact ⟨if_neg (mt of_decide_eq_true room), h, after⟩
  | remq => exact hold.remq
  | uninsq =>
    obtain ⟨result, after⟩ := hold.uninsq clear
    exact ⟨result, h, after⟩

/-- Calls do what they do on the list. -/
lemma Holds.run {ops : List QueueOp} (hold : q.Holds l) (clear : q.Clear ops) :
    (QueueOp.run QueueOp.step ops q).1 = (QueueOp.run (QueueOp.onList q.qSize.toNat) ops l).1 ∧
      (QueueOp.run QueueOp.step ops q).2.Holds (QueueOp.run (QueueOp.onList q.qSize.toNat) ops l).2 ∧
      (QueueOp.run QueueOp.step ops q).2.qBase = q.qBase ∧ (QueueOp.run QueueOp.step ops q).2.qSize = q.qSize := by
  induction ops generalizing q l with
  | nil => exact ⟨rfl, hold, rfl, rfl⟩
  | cons op ops ih =>
    obtain ⟨result, after⟩ := hold.step clear.1
    obtain ⟨base, size⟩ := step_buffer (q := q) op
    obtain ⟨results, afters, bases, sizes⟩ := ih after clear.2
    rw [size] at results afters
    refine ⟨?_, afters, bases.trans base, sizes.trans size⟩
    rw [QueueOp.run, QueueOp.run, result, results]

/-- A list in a queue is not longer than the queue. -/
lemma Holds.length_le (hold : q.Holds l) : l.length ≤ q.qSize.toNat := by
  obtain ⟨h, hold⟩ := hold
  exact hold.room

end Queue

/-- A queue behaves as a list of at most `q_size` characters, as long as no `uninsq` removes a character from the first
position of the buffer: the calls give what they give on the list, the queue holds what the list is then, and the
pointers stay inside the buffer. -/
theorem queue_refines {q : Queue} {ops : List QueueOp} (empty : q.Empty) (clear : q.Clear ops) :
    (QueueOp.run QueueOp.step ops q).1 = (QueueOp.run (QueueOp.onList q.qSize.toNat) ops []).1 ∧
      (QueueOp.run QueueOp.step ops q).2.Holds (QueueOp.run (QueueOp.onList q.qSize.toNat) ops []).2 ∧
      (QueueOp.run (QueueOp.onList q.qSize.toNat) ops []).2.length ≤ q.qSize.toNat ∧
      (QueueOp.run QueueOp.step ops q).2.qBase = q.qBase ∧ (QueueOp.run QueueOp.step ops q).2.qSize = q.qSize ∧
      (QueueOp.run QueueOp.step ops q).2.Inside := by
  obtain ⟨results, hold, base, size⟩ := empty.holds.run clear
  have le := hold.length_le
  rw [size] at le
  obtain ⟨h, at_h⟩ := hold
  exact ⟨results, ⟨h, at_h⟩, le, base, size, at_h.inside⟩

/-- A queue of size 2 at the address 0x300, with nothing in it. -/
def queueOfTwo : Queue := ⟨0x300, 0x300, 0x300, 2, 0, fun _ => 0⟩

/-- The queue of two places is empty. -/
lemma empty_queueOfTwo : queueOfTwo.Empty := ⟨by decide, rfl, rfl, rfl⟩

/-- A character that is removed from the second position comes back. -/
theorem queue_refines_queueOfTwo :
    (QueueOp.run QueueOp.step [.insq 0x61, .insq 0x62, .remq, .uninsq] queueOfTwo).1 =
      [some 0x61, some 0x62, some 0x61, some 0x62] :=
  (queue_refines empty_queueOfTwo (by decide : queueOfTwo.Clear [.insq 0x61, .insq 0x62, .remq, .uninsq])).1

/-- A character that is entered into an empty queue does not come back with `uninsq`. -/
theorem not_queue_refines : queueOfTwo.Empty ∧
    (QueueOp.run QueueOp.step [.insq 0x61, .uninsq] queueOfTwo).1 ≠
      (QueueOp.run (QueueOp.onList queueOfTwo.qSize.toNat) [.insq 0x61, .uninsq] []).1 :=
  ⟨empty_queueOfTwo, by decide⟩

end Uzi
