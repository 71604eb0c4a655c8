import Uzi.Fs.Footprint
import Uzi.Fs.Offset
import Uzi.Lib.Rounds

/-!
# The rounds of a transfer

The loops of `readi` and `writei` round by round. A round of the NES takes the smaller of what is left and
of what is left of the block, as signed numbers: as long as less than `2^15` bytes are left it stays in the
block, and the rounds after it do.
-/

namespace Uzi
open Exec

variable {s s' : Kernel} {ino : Inoptr} {dev : Nat} {p : Bool} {n m : Word}

/-! ## Rounds -/

/-- The end of a round. -/
def roundEnd (ino : Inoptr) (ispipe : Bool) (amount : Word) (grown : Int) : K PUnit := do
  advance amount
  if ispipe then do
    wrapOffset
    addSize ino grown
    wakeup (.inode ino)

/-- The bytes of a block, zeros for a hole. -/
def readBlock (dev : Nat) (pblk : Word) : K Bufptr := if pblk ≠ NULLBLK then breadPtr dev pblk 0 else zerobuf

/-- A round of the loop of `readi`, and what is left to read after it. -/
def readRound (ino : Inoptr) (dev : Nat) (ispipe : Bool) (toread : Word) : K (Option Word) := do
  let pblk ← bmap ino ((← get).udata.uOffset.oBlkno) true
  let bp ← readBlock dev pblk
  let s ← get
  let amount := chunk s.target toread s.udata.uOffset.oOffset
  copyOut bp amount
  brelse bp
  roundEnd ino ispipe amount (cneg s.target amount)
  pure (some (toread - amount))

/-- A round of the loop of `writei`, and what is left to write after it unless there is no space. -/
def writeRound (ino : Inoptr) (dev : Nat) (ispipe : Bool) (towrite : Word) : K (Option Word) := do
  let s ← get
  let amount := chunk s.target towrite s.udata.uOffset.oOffset
  let pblk ← bmap ino s.udata.uOffset.oBlkno false
  if pblk = NULLBLK then pure none
  else do
    let bp ← breadPtr dev pblk (if amount = 512 then 1 else 0)
    copyIn bp amount
    bawrite bp
    roundEnd ino ispipe amount (cint s.target amount)
    pure (some (towrite - amount))

/-- The condition of the loops. -/
def left (n : Word) : Bool := n ≠ 0

/-- The loop of `readi`, as rounds. -/
lemma readLoop_eq {fuel : Nat} : readLoop ino dev p fuel n = rounds left .hang (readRound ino dev p) fuel n := by
  induction fuel generalizing n with
  | zero =>
    rw [readLoop, rounds, left]
    by_cases none : n = 0
    · rw [if_pos none, none]
      rfl
    · rw [if_neg none, if_pos (decide_eq_true none)]
  | succ fuel ih =>
    rw [readLoop, rounds, left]
    by_cases none : n = 0
    · rw [if_pos none, none]
      rfl
    · rw [if_neg none, if_pos (decide_eq_true none), readRound]
      cases p with
      | true => simp only [ih, readBlock, roundEnd, ite_bind, bind_assoc, pure_bind, if_true]
      | false => simp only [ih, readBlock, roundEnd, ite_bind, bind_assoc, pure_bind, Bool.false_eq_true, if_false]

/-- The loop of `writei`, as rounds. -/
lemma writeLoop_eq {fuel : Nat} : writeLoop ino dev p fuel n = rounds left .hang (writeRound ino dev p) fuel n := by
  induction fuel generalizing n with
  | zero =>
    rw [writeLoop, rounds, left]
    by_cases none : n = 0
    · rw [if_pos none, none]
      rfl
    · rw [if_neg none, if_pos (decide_eq_true none)]
  | succ fuel ih =>
    rw [writeLoop, rounds, left]
    by_cases none : n = 0
    · rw [if_pos none, none]
      rfl
    · rw [if_neg none, if_pos (decide_eq_true none), writeRound]
      cases p with
      | true => simp only [ih, roundEnd, ite_bind, bind_assoc, pure_bind, if_true]
      | false => simp only [ih, roundEnd, ite_bind, bind_assoc, pure_bind, Bool.false_eq_true, if_false]

/-! ## What a round does to the position -/

/-- The position is the same, and the place in the memory that the bytes go to or come from. -/
structure SamePlace (s s' : Kernel) : Prop where
  target : s'.target = s.target
  uOffset : s'.udata.uOffset = s.udata.uOffset
  uBase : s'.udata.uBase = s.udata.uBase

instance : Quiet SamePlace where
  refl _ := ⟨rfl, rfl, rfl⟩
  trans _ _ _ h h' := ⟨h'.target.trans h.target, h'.uOffset.trans h.uOffset, h'.uBase.trans h.uBase⟩
  bufs _ _ := ⟨rfl, rfl, rfl⟩
  fsTab _ _ _ _ := ⟨rfl, rfl, rfl⟩
  error _ _ := ⟨rfl, rfl, rfl⟩
  iTab _ _ := ⟨rfl, rfl, rfl⟩
  nexti _ _ := ⟨rfl, rfl, rfl⟩
  woken _ _ := ⟨rfl, rfl, rfl⟩

/-- A transfer of `amount` bytes has moved the position. That of a pipe goes round. -/
structure Kernel.Moved (s s' : Kernel) (ispipe : Bool) (amount : Word) : Prop where
  target : s'.target = s.target
  norm : s'.udata.uOffset.Norm
  base : s'.udata.uBase = s.udata.uBase + amount.toNat
  val : ispipe = false → s'.udata.uOffset.val = (s.udata.uOffset.val + amount.toNat) % (512 * 2 ^ 16)

variable {amount : Word} {bp : Bufptr}

/-- What does not move the place, afterwards. -/
lemma Kernel.Moved.after (h : s.Moved s' p amount) {s'' : Kernel} (same : SamePlace s' s'') : s.Moved s'' p amount :=
  ⟨same.target.trans h.target, same.uOffset ▸ h.norm, same.uBase.trans h.base, fun e => same.uOffset ▸ h.val e⟩

/-- What does not move the place, before. -/
lemma Kernel.Moved.before {s'' : Kernel} (h : s'.Moved s'' p amount) (same : SamePlace s s') : s.Moved s'' p amount :=
  ⟨h.target.trans same.target, h.norm, same.uBase ▸ h.base, same.uOffset ▸ h.val⟩

/-- A small amount moves the place by itself. -/
lemma wp_advance_moved (norm : s.udata.uOffset.Norm) (small : amount.toNat < 2 ^ 15) :
    wp (advance amount) (fun _ s' => s.Moved s' false amount) (fun _ => True) s := by
  have moved := addoff_natCast (t := s.target) norm amount.isLt
  unfold advance
  rw [wp_bind, wp_get, wp_modifyUdata, cint_of_lt small]
  exact ⟨rfl, moved.1, rfl, fun _ => moved.2⟩

/-- The offset stays in its range. -/
lemma wp_wrapOffset_norm (norm : s.udata.uOffset.Norm) :
    wp wrapOffset (fun _ s' => s'.target = s.target ∧ s'.udata.uOffset.Norm ∧ s'.udata.uBase = s.udata.uBase)
      (fun _ => True) s := by
  unfold wrapOffset
  rw [wp_modifyUdata]
  split
  · exact ⟨rfl, norm, rfl⟩
  · exact ⟨rfl, norm, rfl⟩

/-- The end of a round moves the place. -/
lemma wp_roundEnd {x : Int} (norm : s.udata.uOffset.Norm) (small : amount.toNat < 2 ^ 15) :
    wp (roundEnd ino p amount x) (fun _ s' => s.Moved s' p amount) (fun _ => True) s := by
  have grows : Within SamePlace (fun _ => True) (do
      addSize ino x
      wakeup (.inode ino)) := .bind (.bind .get fun _ => Quiet.modifyInode) fun _ => Quiet.wakeup
  unfold roundEnd
  rw [wp_bind]
  refine wp_post (wp_advance_moved norm small) fun _ s₁ moved => ?_
  cases p with
  | false => exact moved
  | true =>
    rw [if_pos rfl, wp_bind]
    refine wp_post (wp_wrapOffset_norm moved.norm) fun _ s₂ wrapped => ?_
    obtain ⟨target, norm₂, base⟩ := wrapped
    have moved₂ : s.Moved s₂ true amount := ⟨target.trans moved.target, norm₂, base.trans moved.base, nofun⟩
    exact wp_post (grows s₂) fun _ s₃ same => moved₂.after same

/-- Bytes that are copied out leave the place. -/
lemma SamePlace.wp_copyOut {s₀ : Kernel} (h : SamePlace s₀ s) :
    wp (copyOut bp amount) (fun _ s' => SamePlace s₀ s') (fun _ => True) s := by
  unfold copyOut
  rw [wp_bind, wp_get, wp_ite]
  split
  · trivial
  · exact ⟨h.target, h.uOffset, h.uBase⟩

/-- Bytes that are copied in leave the place. -/
lemma SamePlace.wp_copyIn {s₀ : Kernel} (h : SamePlace s₀ s) :
    wp (copyIn bp amount) (fun _ s' => SamePlace s₀ s') (fun _ => True) s := by
  have filled : ∀ b, Within SamePlace (fun _ => True) (fill bp b) := fun _ => Quiet.fill
  unfold copyIn
  rw [wp_bind, wp_get, wp_ite]
  split
  · trivial
  · exact wp_post (filled _ s) fun _ s' same => trans_of SamePlace h same

/-- A round of `readi` moves what it takes. -/
lemma wp_readRound (norm : s.udata.uOffset.Norm)
    (small : (chunk s.target n s.udata.uOffset.oOffset).toNat < 2 ^ 15) :
    wp (readRound ino dev p n)
      (fun r s' => r = some (n - chunk s.target n s.udata.uOffset.oOffset) ∧
        s.Moved s' p (chunk s.target n s.udata.uOffset.oOffset)) (fun _ => True) s := by
  have block : Within SamePlace (fun _ => True) (bmap ino s.udata.uOffset.oBlkno true) := Quiet.bmap
  have reads : ∀ b, Within SamePlace (fun _ => True) (readBlock dev b) := fun _ => .ite Quiet.breadPtr Quiet.zerobuf
  have gives : ∀ bp, Within SamePlace (fun _ => True) (brelse bp) := fun _ => Quiet.brelse
  unfold readRound
  rw [wp_bind, wp_get, wp_bind]
  refine wp_post (block s) fun pblk s₁ same₁ => ?_
  rw [wp_bind]
  refine wp_post (reads pblk s₁) fun bp s₂ same₂ => ?_
  have same₂ := trans_of SamePlace same₁ same₂
  rw [wp_bind, wp_get, same₂.target, same₂.uOffset, wp_bind]
  refine wp_post same₂.wp_copyOut fun _ s₃ same₃ => ?_
  rw [wp_bind]
  refine wp_post (gives bp s₃) fun _ s₄ same₄ => ?_
  have same₄ := trans_of SamePlace same₃ same₄
  rw [wp_bind]
  refine wp_post (wp_roundEnd (same₄.uOffset ▸ norm) small) fun _ s₅ moved => ?_
  exact ⟨rfl, moved.before same₄⟩

/-- A round of `writei` moves what it takes, or breaks off and moves nothing. -/
lemma wp_writeRound (norm : s.udata.uOffset.Norm)
    (small : (chunk s.target n s.udata.uOffset.oOffset).toNat < 2 ^ 15) :
    wp (writeRound ino dev p n)
      (fun r s' => r = none ∧ SamePlace s s' ∨ r = some (n - chunk s.target n s.udata.uOffset.oOffset) ∧
        s.Moved s' p (chunk s.target n s.udata.uOffset.oOffset)) (fun _ => True) s := by
  have block : Within SamePlace (fun _ => True) (bmap ino s.udata.uOffset.oBlkno false) := Quiet.bmap
  have reads : ∀ b k, Within SamePlace (fun _ => True) (breadPtr dev b k) := fun _ _ => Quiet.breadPtr
  have gives : ∀ bp, Within SamePlace (fun _ => True) (bawrite bp) := fun _ => Quiet.bawrite
  unfold writeRound
  rw [wp_bind, wp_get, wp_bind]
  refine wp_post (block s) fun pblk s₁ same₁ => ?_
  rw [wp_ite]
  split
  · exact .inl ⟨rfl, same₁⟩
  rw [wp_bind]
  refine wp_post (reads pblk _ s₁) fun bp s₂ same₂ => ?_
  have same₂ := trans_of SamePlace same₁ same₂
  rw [wp_bind]
  refine wp_post same₂.wp_copyIn fun _ s₃ same₃ => ?_
  rw [wp_bind]
  refine wp_post (gives bp s₃) fun _ s₄ same₄ => ?_
  have same₄ := trans_of SamePlace same₃ same₄
  rw [wp_bind]
  refine wp_post (wp_roundEnd (same₄.uOffset ▸ norm) small) fun _ s₅ moved => ?_
  exact .inr ⟨rfl, moved.before same₄⟩

/-! ## All rounds -/

/-- The bytes that the next round copies are there, and in the buffer. -/
def Kernel.InBuffer (s : Kernel) (n : Word) : Prop :=
  let amount := (chunk s.target n s.udata.uOffset.oOffset).toNat
  1 ≤ amount ∧ s.udata.uOffset.oOffset.toInt + amount ≤ 512

/-- A body whose rounds move what they take, or break off. -/
def RoundsMove (p : Bool) (body : Word → K (Option Word)) : Prop :=
  ∀ (s : Kernel) (n : Word), s.udata.uOffset.Norm → (chunk s.target n s.udata.uOffset.oOffset).toNat < 2 ^ 15 →
    wp (body n)
      (fun r s' => r = none ∧ SamePlace s s' ∨ r = some (n - chunk s.target n s.udata.uOffset.oOffset) ∧
        s.Moved s' p (chunk s.target n s.udata.uOffset.oOffset)) (fun _ => True) s

/-- The rounds of `readi` move. -/
lemma readRound_moves : RoundsMove p (readRound ino dev p) := fun _ _ norm small =>
  wp_post (wp_readRound norm small) fun _ _ => .inr

/-- The rounds of `writei` move. -/
lemma writeRound_moves : RoundsMove p (writeRound ino dev p) := fun _ _ norm small => wp_writeRound norm small

/-- After `k` rounds of a transfer of `n` bytes, of which `m` are left. -/
structure Kernel.Underway (s s' : Kernel) (p : Bool) (n m : Word) (k : Nat) : Prop where
  target : s'.target = s.target
  norm : s'.udata.uOffset.Norm
  least : k + m.toNat ≤ n.toNat
  base : s'.udata.uBase + m.toNat = s.udata.uBase + n.toNat
  val : p = false → s'.udata.uOffset.val = (s.udata.uOffset.val + (n.toNat - m.toNat)) % (512 * 2 ^ 16)

/-- What a round takes is there, and in the buffer. -/
lemma chunk_bounds (norm : s.udata.uOffset.Norm) (nes : s.target = .nes → m.toNat < 2 ^ 15) (ne : left m = true) :
    s.InBuffer m ∧ (chunk s.target m s.udata.uOffset.oOffset).toNat ≤ m.toNat := by
  have offset : s.udata.uOffset.oOffset.toNat < 512 := norm
  have pos : m.toNat ≠ 0 := fun zero => of_decide_eq_true ne (BitVec.eq_of_toNat_eq zero)
  unfold Kernel.InBuffer
  rw [chunk_toNat nes offset, toInt_of_lt (by omega)]
  omega

/-- One more round. -/
lemma Kernel.Underway.next {k : Nat} {body : Word → K (Option Word)} (moves : RoundsMove p body)
    (nes : s.target = .nes → n.toNat < 2 ^ 15) (h : s.Underway s' p n m k) (ne : left m = true) :
    wp (body m) (fun r s'' => ∀ m', r = some m' → s.Underway s'' p n m' (k + 1)) (fun _ => True) s' := by
  have fewer := h.least
  have bounds := chunk_bounds h.norm (fun t => by have := nes (h.target ▸ t); omega) ne
  obtain ⟨⟨pos, inside⟩, le⟩ := bounds
  have room : (chunk s'.target m s'.udata.uOffset.oOffset).toNat < 2 ^ 15 := by
    have offset : s'.udata.uOffset.oOffset.toNat < 512 := h.norm
    rw [toInt_of_lt (by omega)] at inside
    omega
  refine wp_post (moves s' m h.norm room) fun r s'' outcome m' given => ?_
  cases outcome with
  | inl broken => exact absurd (broken.1.symm.trans given) nofun
  | inr done =>
    obtain ⟨some, moved⟩ := done
    have rest : m' = m - chunk s'.target m s'.udata.uOffset.oOffset := Option.some.inj (given.symm.trans some)
    have count : m'.toNat = m.toNat - (chunk s'.target m s'.udata.uOffset.oOffset).toNat := by
      rw [rest, BitVec.toNat_sub_of_le le]
    refine ⟨moved.target.trans h.target, moved.norm, by omega, ?_, fun e => ?_⟩
    · have base := h.base
      rw [moved.base]
      omega
    · rw [moved.val e, h.val e]
      omega

/-- The place after some rounds. -/
lemma reaches_underway {k : Nat} {body : Word → K (Option Word)} (moves : RoundsMove p body)
    (nes : s.target = .nes → n.toNat < 2 ^ 15) (norm : s.udata.uOffset.Norm)
    (h : Reaches left body s n k s' m) : s.Underway s' p n m k := by
  have val : s.udata.uOffset.val = (s.udata.uOffset.val + (n.toNat - n.toNat)) % (512 * 2 ^ 16) := by
    have offset : s.udata.uOffset.oOffset.toNat < 512 := norm
    have blk := s.udata.uOffset.oBlkno.isLt
    unfold Off.val
    omega
  refine h.invariant (I := fun k s' m => s.Underway s' p n m k) ?_ fun k s' m before goes => ?_
  · exact ⟨rfl, norm, Nat.le_of_eq (Nat.zero_add _), rfl, fun _ => val⟩
  · exact before.next moves nes goes

/-- The rounds of a transfer of `n` bytes stay in the buffer, and the loop ends when all of them have been
transferred, unless a round breaks it off or does not return. -/
structure Kernel.TransfersInside (s : Kernel) (body : Word → K (Option Word)) (n : Word) : Prop where
  inside : ∀ k s' m, Reaches left body s n k s' m → left m = true → s'.InBuffer m
  ends : wp (rounds left .hang body n.toNat n)
    (fun _ s' => s'.udata.uBase = s.udata.uBase + n.toNat ∨
      ∃ k s'' m, Reaches left body s n k s'' m ∧ left m = true ∧ body m s'' = .ok (none, s'))
    (fun e => ∃ k s'' m, Reaches left body s n k s'' m ∧ left m = true ∧ body m s'' = .error e) s

/-- A small transfer stays inside. -/
lemma transfersInside_of_lt {body : Word → K (Option Word)} (moves : RoundsMove p body)
    (norm : s.udata.uOffset.Norm) (small : n.toNat < 2 ^ 15) : s.TransfersInside body n := by
  have underway : ∀ {k s' m}, Reaches left body s n k s' m → s.Underway s' p n m k :=
    reaches_underway moves (fun _ => small) norm
  refine ⟨fun k s' m reached goes => ?_, wp_mono wp_rounds (fun _ s' => ?_) fun e => ?_⟩
  · have here := underway reached
    have least := here.least
    exact (chunk_bounds here.norm (fun _ => by omega) goes).1
  · intro ⟨k, s'', m, reached, ended⟩
    have here := underway reached
    cases ended with
    | inl done =>
      obtain ⟨none, same⟩ := done
      have zero : m = 0 := not_not.mp (of_decide_eq_false none)
      have base := here.base
      subst same zero
      exact .inl base
    | inr broken => exact .inr ⟨k, s'', m, reached, broken⟩
  · intro ⟨k, s'', m, reached, goes, stopped⟩
    cases stopped with
    | inl error => exact ⟨k, s'', m, reached, goes, error⟩
    | inr out =>
      -- after as many rounds as there were bytes none is left
      have least := (underway reached).least
      have pos : m.toNat ≠ 0 := fun zero => of_decide_eq_true goes (BitVec.eq_of_toNat_eq zero)
      omega

/-- On the NES the first chunk of `2^15` bytes or more is all of them. -/
lemma chunk_of_le {o : Off} (norm : o.Norm) (big : 2 ^ 15 ≤ n.toNat) : chunk .nes n o.oOffset = n := by
  have offset : o.oOffset.toNat < 512 := norm
  have negative := toInt_neg_iff.mpr big
  have room : (512 - o.oOffset).toNat = 512 - o.oOffset.toNat := by
    rw [BitVec.toNat_sub, show (512 : Word).toNat = 512 from rfl]
    omega
  have block : (512 - o.oOffset).toInt = _ := toInt_of_lt (by omega)
  show BitVec.ofInt 16 (min n.toInt (512 - o.oOffset).toInt) = n
  rw [block, min_eq_left (by omega), BitVec.ofInt_toInt]

/-- A count from 2^15 on is not in the buffer. -/
lemma not_inBuffer_of_le (nes : s.target = .nes) (norm : s.udata.uOffset.Norm) (big : 2 ^ 15 ≤ n.toNat) :
    ¬ s.InBuffer n := by
  have offset : s.udata.uOffset.oOffset.toNat < 512 := norm
  intro ⟨_, inside⟩
  have start : s.udata.uOffset.oOffset.toInt = _ := toInt_of_lt (by omega)
  rw [nes, chunk_of_le norm big, start] at inside
  omega

/-- On the NES a transfer stays inside exactly if its count is small. -/
lemma transfersInside_iff {body : Word → K (Option Word)} (moves : RoundsMove p body) (nes : s.target = .nes)
    (norm : s.udata.uOffset.Norm) : s.TransfersInside body n ↔ n.toNat < 2 ^ 15 := by
  refine ⟨fun h => ?_, transfersInside_of_lt moves norm⟩
  by_contra big
  refine not_inBuffer_of_le nes norm (Nat.le_of_not_lt big) (h.inside 0 s n .start ?_)
  refine decide_eq_true fun zero => big ?_
  rw [zero]
  decide

/-! ## The calls -/

/-- The kernel with another `u_count`. -/
def Kernel.withCount (s : Kernel) (n : Word) : Kernel := s.withUdata { s.udata with uCount := n }

/-- The loop that `readi` comes to, if it does: the device, whether it reads a pipe, and `toread`. -/
def Kernel.readEntry (s : Kernel) (ino : Inoptr) : Option (Nat × Bool × Word) :=
  if (s.iTab ino).getmode = F_DIR ∨ (s.iTab ino).getmode = F_REG then
    some ((s.iTab ino).cDev, false,
      readLimit s.target s.udata.uCount (s.iTab ino).cNode.iSize s.udata.uOffset)
  else if (s.iTab ino).getmode = F_PIPE then
    if psize s.target (s.iTab ino).cNode.iSize = 0 ∧ (s.iTab ino).cRefs ≠ 1 then none
    else some ((s.iTab ino).cDev, true,
      BitVec.ofInt 16 (min (cint s.target s.udata.uCount) (psize s.target (s.iTab ino).cNode.iSize)))
  else if (s.iTab ino).getmode = F_BDEV then some (((s.iTab ino).cNode.addr 0).toNat, false, s.udata.uCount)
  else none

/-- The loop that `writei` comes to, if it does: the device, whether it writes a pipe, and `towrite`. -/
def Kernel.writeEntry (s : Kernel) (ino : Inoptr) : Option (Nat × Bool × Word) :=
  if (s.iTab ino).getmode = F_BDEV then some (((s.iTab ino).cNode.addr 0).toNat, false, s.udata.uCount)
  else if (s.iTab ino).getmode = F_DIR ∨ (s.iTab ino).getmode = F_REG then
    some ((s.iTab ino).cDev, false, s.udata.uCount)
  else if (s.iTab ino).getmode = F_PIPE then
    if pipeFull s.target s.udata.uCount (psize s.target (s.iTab ino).cNode.iSize) then none
    else some ((s.iTab ino).cDev, true, s.udata.uCount)
  else none

/-- `readi` is its loop. -/
lemma wp_readi_entry {Q : Progress → Kernel → Prop} {E : Panic → Prop}
    (entry : s.readEntry ino = some (dev, p, n)) :
    wp (readi ino) Q E s ↔
      wp (rounds left .hang (readRound ino dev p) n.toNat n) (fun _ s' => Q .returned s') E (s.withCount n) := by
  rw [← readLoop_eq]
  unfold Kernel.readEntry at entry
  unfold readi
  rw [wp_bind, wp_get, wp_ite]
  split at entry
  · next file =>
    cases entry
    rw [if_pos file, wp_bind, wp_modifyUdata, wp_bind]
    rfl
  · next other =>
    rw [if_neg other, wp_ite]
    split at entry
    · next pipe =>
      split at entry
      · cases entry
      · next awake =>
        cases entry
        rw [if_pos pipe]
        dsimp only
        rw [wp_ite, if_neg awake, wp_bind, wp_modifyUdata, wp_bind]
        rfl
    · next file =>
      split at entry
      · next dev =>
        cases entry
        rw [if_neg file, wp_ite, if_pos dev, wp_bind]
        rfl
      · cases entry

/-- `writei` is its loop, but for the size of a file. -/
lemma wp_writei_entry {Q : Progress → Kernel → Prop} {E : Panic → Prop}
    (entry : s.writeEntry ino = some (dev, p, n)) :
    wp (writei ino) Q E s ↔
      wp (rounds left .hang (writeRound ino dev p) n.toNat n)
        (fun _ s' => wp (if p then pure ⟨⟩ else growSize ino) (fun _ s'' => Q .returned s'') E s') E s := by
  rw [← writeLoop_eq]
  unfold Kernel.writeEntry at entry
  unfold writei
  rw [wp_bind, wp_get, wp_ite]
  split at entry
  · next file =>
    cases entry
    rw [if_pos file, wp_bind]
    simp only [wp_bind, wp_pure, Bool.false_eq_true, if_false]
  · next other =>
    rw [if_neg other, wp_ite]
    split at entry
    · next file =>
      cases entry
      rw [if_pos file, wp_bind]
      simp only [wp_bind, wp_pure, Bool.false_eq_true, if_false]
    · next file =>
      split at entry
      · next pipe =>
        split at entry
        · cases entry
        · next room =>
          cases entry
          rw [if_neg file, wp_ite, if_pos pipe, wp_ite, if_neg room, wp_bind]
          rfl
      · cases entry

/-- Every round of `readi` stays in the buffer, and its loop ends. -/
def Kernel.ReadsInside (s : Kernel) (ino : Inoptr) : Prop :=
  ∀ dev p n, s.readEntry ino = some (dev, p, n) → (s.withCount n).TransfersInside (readRound ino dev p) n

/-- Every round of `writei` stays in the buffer, and its loop ends. -/
def Kernel.WritesInside (s : Kernel) (ino : Inoptr) : Prop :=
  ∀ dev p n, s.writeEntry ino = some (dev, p, n) → s.TransfersInside (writeRound ino dev p) n

/-- The smaller of two signed numbers is not negative if and only if both are not. -/
lemma toNat_min_lt {x : Word} {y : Int} (low : -2 ^ 15 ≤ y) (high : y < 2 ^ 15) :
    (BitVec.ofInt 16 (min x.toInt y)).toNat < 2 ^ 15 ↔ x.toNat < 2 ^ 15 ∧ 0 ≤ y := by
  have lt := x.isLt
  rw [BitVec.toNat_ofInt, BitVec.toInt_eq_toNat_cond]
  split <;> omega

/-- A word as a signed number. -/
lemma toInt_bounds (x : Word) : -2 ^ 15 ≤ x.toInt ∧ x.toInt < 2 ^ 15 := ⟨x.le_toInt, x.toInt_lt⟩

/-- The count is below `2^15`, and the end of the file or the size of the pipe is not before the position. -/
def Kernel.ReadFits (s : Kernel) (ino : Inoptr) : Prop :=
  let size := (s.iTab ino).cNode.iSize
  let off := s.udata.uOffset
  if (s.iTab ino).getmode = F_DIR ∨ (s.iTab ino).getmode = F_REG then
    s.udata.uCount.toNat < 2 ^ 15 ∧ (64 ≤ (size.oBlkno - off.oBlkno).toNat ∨
      0 ≤ (512 * (size.oBlkno - off.oBlkno) + (size.oOffset - off.oOffset)).toInt)
  else if (s.iTab ino).getmode = F_PIPE then
    psize s.target size = 0 ∧ (s.iTab ino).cRefs ≠ 1 ∨ s.udata.uCount.toNat < 2 ^ 15 ∧ 0 ≤ psize s.target size
  else (s.iTab ino).getmode = F_BDEV → s.udata.uCount.toNat < 2 ^ 15

/-- The count is below `2^15`, unless the write does not begin. -/
def Kernel.WriteFits (s : Kernel) (ino : Inoptr) : Prop :=
  let mode := (s.iTab ino).getmode
  if mode = F_PIPE then
    pipeFull s.target s.udata.uCount (psize s.target (s.iTab ino).cNode.iSize) ∨ s.udata.uCount.toNat < 2 ^ 15
  else mode = F_BDEV ∨ mode = F_DIR ∨ mode = F_REG → s.udata.uCount.toNat < 2 ^ 15

section Entries

variable {P : Word → Prop}

/-- One entry. -/
lemma forall_entry : (∀ dev' p' n', some (dev, p, n) = some (dev', p', n') → P n') ↔ P n := by
  refine ⟨fun h => h dev p n rfl, fun h dev' p' n' e => ?_⟩
  cases e
  exact h

/-- No entry. -/
lemma forall_no_entry : (∀ (dev : Nat) (p : Bool) (n : Word), none = some (dev, p, n) → P n) ↔ True :=
  iff_true_intro fun _ _ _ e => absurd e nofun

end Entries

/-- A read fits if its entry has a small count. -/
lemma readFits_iff (nes : s.target = .nes) :
    s.ReadFits ino ↔ ∀ dev p n, s.readEntry ino = some (dev, p, n) → n.toNat < 2 ^ 15 := by
  unfold Kernel.ReadFits Kernel.readEntry
  dsimp only
  split
  · rw [forall_entry, nes]
    unfold readLimit
    dsimp only
    split
    · next far => exact ⟨fun h => h.1, fun h => ⟨h, .inl far⟩⟩
    · next near =>
      obtain ⟨low, high⟩ := toInt_bounds (512 * ((s.iTab ino).cNode.iSize.oBlkno - s.udata.uOffset.oBlkno) +
        ((s.iTab ino).cNode.iSize.oOffset - s.udata.uOffset.oOffset))
      rw [toNat_min_lt low high]
      exact and_congr_right fun _ => or_iff_right near
  · split
    · next pipe =>
      split
      · next asleep =>
        rw [forall_no_entry]
        exact iff_true_intro (.inl asleep)
      · next awake =>
        obtain ⟨low, high⟩ := toInt_bounds
          (512 * (s.iTab ino).cNode.iSize.oBlkno + (s.iTab ino).cNode.iSize.oOffset)
        rw [forall_entry, or_iff_right awake, nes]
        exact (toNat_min_lt low high).symm
    · split
      · next dev => rw [forall_entry, forall_prop_of_true dev]
      · next none => rw [forall_no_entry, forall_prop_of_false none]

/-- A write fits if its entry has a small count. -/
lemma writeFits_iff : s.WriteFits ino ↔ ∀ dev p n, s.writeEntry ino = some (dev, p, n) → n.toNat < 2 ^ 15 := by
  unfold Kernel.WriteFits Kernel.writeEntry
  dsimp only
  by_cases pipe : (s.iTab ino).getmode = F_PIPE
  · have dev : (s.iTab ino).getmode ≠ F_BDEV := pipe ▸ by decide
    have file : ¬ ((s.iTab ino).getmode = F_DIR ∨ (s.iTab ino).getmode = F_REG) := pipe ▸ by decide
    rw [if_pos pipe, if_neg dev, if_neg file, if_pos pipe]
    split
    · next full =>
      rw [forall_no_entry]
      exact iff_true_intro (.inl full)
    · next room =>
      rw [forall_entry]
      exact or_iff_right room
  · rw [if_neg pipe]
    split
    · next dev =>
      rw [forall_entry]
      exact forall_prop_of_true (.inl dev)
    · next dev =>
      split
      · next file =>
        rw [forall_entry]
        exact forall_prop_of_true (.inr file)
      · next file =>
        rw [forall_no_entry]
        exact iff_true_intro fun mode => mode.elim (fun h => absurd h dev) fun h => absurd h file

/-- On the NES all rounds of `readi` and `writei` stay in the buffer, and their loops end with everything
transferred, if and only if the counts that they start with are not negative as signed numbers. -/
theorem transfers_inside (nes : s.target = .nes) (norm : s.udata.uOffset.Norm) :
    (s.ReadsInside ino ↔ s.ReadFits ino) ∧ (s.WritesInside ino ↔ s.WriteFits ino) := by
  constructor
  · rw [readFits_iff nes]
    refine forall_congr' fun dev => forall_congr' fun p => forall_congr' fun n => imp_congr_right fun _ => ?_
    exact transfersInside_iff readRound_moves nes norm
  · rw [writeFits_iff]
    refine forall_congr' fun dev => forall_congr' fun p => forall_congr' fun n => imp_congr_right fun _ => ?_
    exact transfersInside_iff writeRound_moves nes norm

/-- A process at the start of a regular file, about to transfer `n` bytes. -/
def transferring (n : Word) : Kernel :=
  let s := Kernel.zeroed fun _ _ => Block.zero
  { s with
    iTab := fun _ => { s.iTab 0 with cNode := { (s.iTab 0).cNode with iMode := F_REG, iSize := ⟨1, 488⟩ } }
    udata := { s.udata with uCount := n } }

/-- A read and a write of 700 bytes stay inside. -/
theorem transfers_inside_small : (transferring 700).ReadsInside 0 ∧ (transferring 700).WritesInside 0 := by
  have norm : (transferring 700).udata.uOffset.Norm := (by decide : 0 < 512)
  have inside : ((transferring 700).ReadsInside 0 ↔ _) ∧ ((transferring 700).WritesInside 0 ↔ _) :=
    transfers_inside rfl norm
  refine ⟨inside.1.mpr ?_, inside.2.mpr ?_⟩
  · show (_ : Nat) < _ ∧ _
    decide
  · show _ → (_ : Nat) < _
    decide

/-- The first round of a write of 32768 bytes takes all of them. -/
theorem not_transfers_inside :
    (transferring 0x8000).udata.uOffset.Norm ∧ ¬ (transferring 0x8000).WritesInside 0 := by
  have norm : (transferring 0x8000).udata.uOffset.Norm := (by decide : 0 < 512)
  refine ⟨norm, fun h => ?_⟩
  have first := (h 0 false 0x8000 rfl).inside 0 _ _ .start rfl
  exact not_inBuffer_of_le rfl norm (by decide) first

end Uzi
