import Uzi.Fs.InodeTable
import Uzi.Utils.FsckBlocks

/-!
# What pass 1 writes

Every write of `pass1` follows a question that was answered with yes, and changes what the question is about: 64
bytes of the inode table, one entry of an indirect block, or the superblock. This fails for the blocks behind the
double indirect block, which are written to the wrong places.
-/

namespace Uzi
open Exec

namespace Fsck

/-! ## Traces -/

/-- The inode that was read last. -/
def lastInode : List Event → Option (Word × Dinode)
  | [] => none
  | .inode n ino :: _ => some (n, ino)
  | _ :: events => lastInode events

/-- The last question, if the answer was yes. -/
def lastYes : List Event → Option Question
  | [] => none
  | .asked _ q answer :: _ => if answer then some q else none
  | _ :: events => lastYes events

/-- The image after the writes of a trace. -/
def imageAfter (image : Image) : List Event → Image
  | [] => image
  | .wrote _ blk data :: events => Function.update (imageAfter image events) blk data
  | _ :: events => imageAfter image events

/-- The inode that a question of pass 1 is about. -/
def Question.inode : Question → Option Word
  | .incorrectType n _ => some n
  | .offsetTooBig n _ => some n
  | .offsetNegative n _ => some n
  | .singlyOutOfRange n _ _ => some n
  | .singlyPastEnd n _ _ => some n
  | .blockOutOfRange n _ _ => some n
  | _ => none

/-- Two blocks differ in word `j` at most. -/
def OnlyWord (b b' : Block) (j : Nat) : Prop := ∀ k, k ≠ j → b'.word k = b.word k

/-- A write of `data` to block `blk` of the image repairs what the question is about: the 64 bytes of the inode that
was read last, an entry of an indirect block of that inode, or the superblock. -/
inductive Repair (image : Image) : Option (Word × Dinode) → Question → Word → Block → Prop
  | inode {n ino q data} (about : q.inode = some n)
    (own : ∀ k, k < 32 * inodeIdx n ∨ 32 * (inodeIdx n + 1) ≤ k → data.word k = (image (inodeBlk n)).word k) :
    Repair image (some (n, ino)) q (inodeBlk n) data
  | single {n ino bno b data} (ge : 18 ≤ bno.toNat) (lt : bno.toNat < 274)
    (entry : OnlyWord (image (ino.addr 18)) data (bno.toNat - 18)) :
    Repair image (some (n, ino)) (.blockOutOfRange n bno b) (ino.addr 18) data
  | double {n ino bno b data} (ge : 274 ≤ bno.toNat)
    (entry : OnlyWord (image (holder image ino bno)) data ((bno.toNat - 274) % 256)) :
    Repair image (some (n, ino)) (.blockOutOfRange n bno b) (holder image ino bno) data
  | doubly {n ino b value data} (entry : OnlyWord (image (ino.addr 19)) data b) :
    Repair image (some (n, ino)) (.doublyOutOfRange n b value) (ino.addr 19) data
  | super {last tinode should data} : Repair image last (.freeInodeCount tinode should) 1 data

/-- Every write of a trace repairs what was announced, while the inode that was read last was checked. -/
def Repairs : List Event → Prop
  | [] => True
  | .wrote image blk data :: events =>
    (∃ q, lastYes events = some q ∧ Repair image (lastInode events) q blk data) ∧ Repairs events
  | _ :: events => Repairs events

/-- A question of pass 1 about an image, and about the inode that was read last, that does not lead to a wrong place:
the slot of a double indirect block is the number of that block, and a block on the second level is missing or is the
double indirect block itself. -/
def SoundQuestion (ino : Dinode) (image : Image) : Question → Prop
  | .doublyOutOfRange _ b _ => ino.addr 19 = BitVec.ofNat 16 b
  | .blockOutOfRange _ bno _ =>
    bno.toNat < 274 ∨ holder image ino bno = 0 ∨ holder image ino bno = ino.addr 19
  | _ => True

/-- No question that leads to a wrong place is answered with yes. -/
def Sound : List Event → Prop
  | [] => True
  | .asked image q true :: events =>
    (∀ n ino, lastInode events = some (n, ino) → SoundQuestion ino image q) ∧ Sound events
  | _ :: events => Sound events

/-- What a run has made, from the events `past` and the image `image` on: where it was sound it has repaired what was
announced, and `C` holds. -/
def Traced (past : List Event) (image : Image) (C : List Event → Prop) (s : State) : Prop :=
  ∃ events, s.events = events ++ past ∧ s.image = imageAfter image events ∧
    (Sound events → Repairs events ∧ C events)

section Traced

variable {past : List Event} {image : Image} {C C' : List Event → Prop} {s s' : State} {n : Word} {ino : Dinode}
  {q : Question}

namespace Traced

/-- Less is known of the events. -/
lemma mono (h : Traced past image C s) (imp : ∀ events, C events → C' events) : Traced past image C' s := by
  obtain ⟨events, eq, after, sound⟩ := h
  exact ⟨events, eq, after, fun clear => ⟨(sound clear).1, imp _ (sound clear).2⟩⟩

/-- Only the events and the image matter. -/
lemma congr (h : Traced past image C s) (events : s'.events = s.events) (same : s'.image = s.image) :
    Traced past image C s' := by
  obtain ⟨new, eq, after, sound⟩ := h
  exact ⟨new, events.trans eq, same.trans after, sound⟩

/-- At the beginning there are no further events. -/
lemma nil : Traced s.events s.image (fun _ => True) s := ⟨[], rfl, rfl, fun _ => ⟨trivial, trivial⟩⟩

/-- A use of the bitmap. -/
lemma bitmap (h : Traced past image C s) {i : Word} (imp : ∀ events, C events → C' (.bitmap i :: events))
    (events : s'.events = .bitmap i :: s.events) (same : s'.image = s.image) : Traced past image C' s' := by
  obtain ⟨new, eq, after, sound⟩ := h
  exact ⟨.bitmap i :: new, by rw [events, eq]; rfl, same.trans after,
    fun clear => ⟨(sound clear).1, imp _ (sound clear).2⟩⟩

/-- A use of the map of links. -/
lemma linkmap (h : Traced past image C s) {i : Word} (imp : ∀ events, C events → C' (.linkmap i :: events))
    (events : s'.events = .linkmap i :: s.events) (same : s'.image = s.image) : Traced past image C' s' := by
  obtain ⟨new, eq, after, sound⟩ := h
  exact ⟨.linkmap i :: new, by rw [events, eq]; rfl, same.trans after,
    fun clear => ⟨(sound clear).1, imp _ (sound clear).2⟩⟩

/-- A use of the number of blocks. -/
lemma blocks (h : Traced past image C s) {last : Word} (imp : ∀ events, C events → C' (.blocks last :: events))
    (events : s'.events = .blocks last :: s.events) (same : s'.image = s.image) : Traced past image C' s' := by
  obtain ⟨new, eq, after, sound⟩ := h
  exact ⟨.blocks last :: new, by rw [events, eq]; rfl, same.trans after,
    fun clear => ⟨(sound clear).1, imp _ (sound clear).2⟩⟩

/-- An inode is written. -/
lemma inode (h : Traced past image C s) (imp : ∀ events, C events → C' (.inode n ino :: events))
    (events : s'.events = .inode n ino :: s.events) (same : s'.image = s.image) : Traced past image C' s' := by
  obtain ⟨new, eq, after, sound⟩ := h
  exact ⟨.inode n ino :: new, by rw [events, eq]; rfl, same.trans after,
    fun clear => ⟨(sound clear).1, imp _ (sound clear).2⟩⟩

/-- A question is answered. -/
lemma answered (h : Traced past image C s)
    (imp : ∀ events, C events →
      (s.answers 0 = true → ∀ n ino, lastInode events = some (n, ino) → SoundQuestion ino s.image q) →
      C' (.asked s.image q (s.answers 0) :: events)) :
    Traced past image C' (s.answered q) := by
  obtain ⟨new, eq, after, sound⟩ := h
  refine ⟨.asked s.image q (s.answers 0) :: new, by rw [List.cons_append, ← eq]; rfl, after, fun clear => ?_⟩
  cases answer : s.answers 0 with
  | false =>
    rw [answer] at clear
    have clear : Sound new := clear
    rw [← answer]
    exact ⟨(sound clear).1, imp _ (sound clear).2 fun yes => absurd (answer.symm.trans yes) (by decide)⟩
  | true =>
    rw [answer] at clear
    obtain ⟨here, before⟩ := clear
    rw [← answer]
    exact ⟨(sound before).1, imp _ (sound before).2 fun _ => here⟩

/-- A block is written. -/
lemma wrote (h : Traced past image C s) {blk : Word} {data : Block}
    (imp : ∀ events, C events → C' (.wrote s.image blk data :: events) ∧
      ∃ q, lastYes events = some q ∧ Repair s.image (lastInode events) q blk data)
    (events : s'.events = .wrote s.image blk data :: s.events) (same : s'.image = Function.update s.image blk data) :
    Traced past image C' s' := by
  obtain ⟨new, eq, after, sound⟩ := h
  refine ⟨.wrote s.image blk data :: new, by rw [events, eq]; rfl, ?_, fun clear => ?_⟩
  · rw [same, after]
    rfl
  · obtain ⟨there, repair⟩ := imp _ (sound clear).2
    exact ⟨⟨repair, (sound clear).1⟩, there⟩

end Traced

end Traced

/-! ## The parts of pass 1 -/

/-- Inode `n` is checked, which was read as `d`, and `P` holds. -/
def Checking (n : Word) (d : Dinode) (P : Prop) (events : List Event) : Prop := lastInode events = some (n, d) ∧ P

/-- The indirect blocks of an inode are those that were read, unless they have been zapped. -/
def Kin (d ino : Dinode) : Prop := ∀ i, i = 18 ∨ i = 19 → ino.addr i = d.addr i ∨ ino.addr i = 0

/-- A run that has stopped has repaired what was announced, where it was sound. -/
def StoppedTraced (past : List Event) (image : Image) (e : Stop × State) : Prop :=
  Traced past image (fun _ => True) e.2

section Pass1

variable {past : List Event} {image : Image} {C C' : List Event → Prop} {s s' : State} {n : Word} {d ino : Dinode}
  {q : Question} {P : Prop}

/-- What is known of a run that has stopped. -/
lemma Traced.stopped (h : Traced past image C s) : Traced past image (fun _ => True) s := h.mono fun _ _ => trivial

/-- The same inode. -/
lemma Kin.refl : Kin d d := fun _ _ => .inl rfl

/-- Only the addresses matter. -/
lemma Kin.congr {ino' : Dinode} (kin : Kin d ino) (addr : ∀ i, ino'.addr i = ino.addr i) : Kin d ino' := by
  intro i hi
  rw [addr]
  exact kin i hi

/-- An address is zapped. -/
lemma Kin.setAddr (kin : Kin d ino) {b : Nat} : Kin d (ino.setAddr b 0) := by
  intro i hi
  have lt : i < 20 := by
    cases hi with
    | inl e => omega
    | inr e => omega
  rw [addr_setAddr lt]
  split
  · exact .inr rfl
  · exact kin i hi

/-- A use of the map of links, while an inode is looked at. -/
lemma traced_setLinkmap {i v : Word} (h : Traced past image (Checking n d P) s) :
    wp (setLinkmap i v) (fun _ s' => Traced past image (Checking n d P) s') (StoppedTraced past image) s := by
  have used {t : State} (events : t.events = .linkmap i :: s.events) (same : t.image = s.image) :
      Traced past image (Checking n d P) t := h.linkmap (fun _ => id) events same
  rw [wp_setLinkmap]
  split
  · exact used rfl rfl
  · apply Traced.stopped (C := Checking n d P)
    exact used rfl rfl

/-- A use of the bitmap, while an inode is looked at. -/
lemma traced_setBitmap {i : Word} {v : Byte} (h : Traced past image (Checking n d P) s) :
    wp (setBitmap i v)
      (fun _ s' => Traced past image (Checking n d P) s' ∧ s'.image = s.image ∧ s'.readbuf = s.readbuf ∧
        s'.filsys = s.filsys) (StoppedTraced past image) s := by
  have used {t : State} (events : t.events = .bitmap i :: s.events) (same : t.image = s.image) :
      Traced past image (Checking n d P) t := h.bitmap (fun _ => id) events same
  rw [wp_setBitmap]
  split
  · exact ⟨used rfl rfl, rfl, rfl, rfl⟩
  · apply Traced.stopped (C := Checking n d P)
    exact used rfl rfl

/-- The other words of a block. -/
lemma word_setWord_of_ne {b : Block} {j k : Nat} {w : Word} (ne : k ≠ j) : (b.setWord j w).word k = b.word k := by
  by_cases lt : k < 256
  · rw [Block.word_setWord lt, if_neg ne]
  · rw [Block.word, Block.word, dif_neg lt, dif_neg lt]

/-- The rest of the block of an inode is left alone. -/
lemma word_setDinode_of_other {b : Block} {k j : Nat} (other : j < 32 * k ∨ 32 * (k + 1) ≤ j) :
    (b.setDinode k ino).word j = b.word j := by
  by_cases lt : j < 256
  · rw [Block.setDinode, Block.word_ofWords lt, if_neg (by omega)]
  · rw [Block.word, Block.word, dif_neg lt, dif_neg lt]

/-- The inode is written after a question about it. -/
lemma traced_iwrite (h : Traced past image (fun events => Checking n d P events ∧ lastYes events = some q) s)
    (about : q.inode = some n) :
    wp (iwrite n ino) (fun _ s' => Traced past image (fun events => Checking n d P events ∧ lastYes events = some q) s')
      (StoppedTraced past image) s := by
  rw [wp_iwrite]
  refine h.wrote (fun events got => ⟨got, q, got.2, ?_⟩) rfl rfl
  rw [got.1.1]
  exact .inode about fun _ => word_setDinode_of_other

/-- A question that leads to no wrong place, whatever the inode is. -/
lemma traced_answered (h : Traced past image (Checking n d P) s) :
    Traced past image (Checking n d P) (s.answered q) ∧
      (s.answers 0 = true →
        Traced past image (fun events => Checking n d P events ∧ lastYes events = some q) (s.answered q)) := by
  refine ⟨h.answered fun _ got _ => got, fun yes => h.answered fun _ got _ => ⟨got, ?_⟩⟩
  rw [yes]
  rfl

/-- `pass1` zaps an inode of no known type. -/
lemma traced_zapInode (h : Traced past image (Checking n d P) s) :
    wp (zapInode n ino) (fun _ s' => Traced past image (Checking n d P) s') (StoppedTraced past image) s := by
  unfold zapInode
  rw [wp_ite]
  split
  · rw [wp_bind, wp_yes, wp_ite]
    split
    · next yes =>
      rw [wp_bind]
      refine wp_post (traced_iwrite ((traced_answered h).2 yes) rfl) fun _ s' h' => ?_
      exact h'.mono fun _ => And.left
    · exact (traced_answered h).1
  · exact h

/-- `pass1` fixes the offset of an inode. -/
lemma traced_fixBigOffset (h : Traced past image (Checking n d P) s) (kin : Kin d ino) :
    wp (fixBigOffset n ino) (fun ino' s' => Traced past image (Checking n d P) s' ∧ Kin d ino')
      (StoppedTraced past image) s := by
  unfold fixBigOffset
  rw [wp_ite]
  split
  · rw [wp_bind, wp_yes, wp_ite]
    split
    · next yes =>
      rw [wp_bind]
      refine wp_post (traced_iwrite ((traced_answered h).2 yes) rfl) fun _ s' h' => ?_
      exact ⟨h'.mono fun _ => And.left, kin.congr fun _ => rfl⟩
    · exact ⟨(traced_answered h).1, kin⟩
  · exact ⟨h, kin⟩

/-- A negative offset is repaired. -/
lemma traced_fixNegativeOffset (h : Traced past image (Checking n d P) s) (kin : Kin d ino) :
    wp (fixNegativeOffset n ino) (fun ino' s' => Traced past image (Checking n d P) s' ∧ Kin d ino')
      (StoppedTraced past image) s := by
  unfold fixNegativeOffset
  rw [wp_ite]
  split
  · rw [wp_bind, wp_yes, wp_ite]
    split
    · next yes =>
      rw [wp_bind]
      refine wp_post (traced_iwrite ((traced_answered h).2 yes) rfl) fun _ s' h' => ?_
      exact ⟨h'.mono fun _ => And.left, kin.congr fun _ => rfl⟩
    · exact ⟨(traced_answered h).1, kin⟩
  · exact ⟨h, kin⟩

/-- An address is zapped, or stays. -/
lemma traced_zapAddr {b : Nat} {asks : Bool} (h : Traced past image (Checking n d P) s) (kin : Kin d ino)
    (about : q.inode = some n) :
    wp (zapAddr n ino b asks q) (fun ino' s' => Traced past image (Checking n d P) s' ∧ Kin d ino')
      (StoppedTraced past image) s := by
  unfold zapAddr
  rw [wp_ite]
  split
  · rw [wp_bind, wp_yes, wp_ite]
    split
    · next yes =>
      rw [wp_bind]
      refine wp_post (traced_iwrite ((traced_answered h).2 yes) about) fun _ s' h' => ?_
      exact ⟨h'.mono fun _ => And.left, kin.setAddr⟩
    · exact ⟨(traced_answered h).1, kin⟩
  · exact ⟨h, kin⟩

/-- `pass1` checks the address of an indirect block. -/
lemma traced_checkIndirect {b : Nat} (h : Traced past image (Checking n d P) s) (kin : Kin d ino) :
    wp (checkIndirect n ino b) (fun ino' s' => Traced past image (Checking n d P) s' ∧ Kin d ino')
      (StoppedTraced past image) s := by
  unfold checkIndirect
  rw [wp_bind, wp_get, wp_bind]
  refine wp_post (traced_zapAddr h kin rfl) fun ino₁ s₁ got => ?_
  rw [wp_bind]
  refine wp_post (traced_zapAddr got.1 got.2 rfl) fun ino₂ s₂ got => ?_
  rw [wp_ite]
  split
  · rw [wp_bind]
    exact wp_post (traced_setBitmap got.1) fun _ s₃ used => ⟨used.1, got.2⟩
  · exact got

/-- `pass1` zaps an entry of the double indirect block, which is in `readbuf` as long as the run is sound. -/
lemma traced_zapDoubly {b : Nat}
    (h : Traced past image (Checking n d (s.readbuf = s.image (d.addr 19))) s) :
    wp (zapDoubly n b) (fun _ s' => Traced past image (Checking n d (s'.readbuf = s'.image (d.addr 19))) s')
      (StoppedTraced past image) s := by
  unfold zapDoubly
  rw [wp_bind, wp_get, wp_ite]
  split
  · rw [wp_bind, wp_yes, wp_ite]
    split
    · next yes =>
      rw [wp_bind, wp_modifyReadbuf, wp_bind, wp_get, wp_dwrite]
      have asked : Traced past image (fun events =>
          Checking n d (s.readbuf = s.image (d.addr 19)) events ∧
          lastYes events = some (.doublyOutOfRange n b (s.readbuf.word b)) ∧ d.addr 19 = BitVec.ofNat 16 b)
          (s.answered (.doublyOutOfRange n b (s.readbuf.word b))) := by
        refine h.answered fun events got sound => ⟨got, ?_, sound yes n d got.1⟩
        rw [yes]
        rfl
      refine asked.wrote (fun events got => ?_) rfl rfl
      obtain ⟨⟨last, same⟩, question, slot⟩ := got
      have slot : (b : Word) = d.addr 19 := slot.symm
      refine ⟨⟨last, ?_⟩, _, question, ?_⟩
      · show s.readbuf.setWord b 0 = Function.update s.image b (s.readbuf.setWord b 0) (d.addr 19)
        rw [slot, Function.update_self]
      · rw [last, slot]
        refine .doubly fun k ne => ?_
        show (s.readbuf.setWord b 0).word k = (s.image (d.addr 19)).word k
        rw [← same]
        exact word_setWord_of_ne ne
    · exact (traced_answered h).1
  · exact h

/-- A doubly indirect entry is looked at. -/
lemma traced_checkDoubly {b : Nat}
    (h : Traced past image (Checking n d (s.readbuf = s.image (d.addr 19))) s) :
    wp (checkDoubly n b) (fun _ s' => Traced past image (Checking n d (s'.readbuf = s'.image (d.addr 19))) s')
      (StoppedTraced past image) s := by
  unfold checkDoubly
  rw [wp_bind]
  refine wp_post (traced_zapDoubly h) fun _ s₁ h₁ => ?_
  rw [wp_bind, wp_get, wp_ite]
  split
  · refine wp_post (traced_setBitmap h₁) fun _ s₂ used => ?_
    obtain ⟨h₂, same, buf, -⟩ := used
    rw [same, buf]
    exact h₂
  · exact h₁

/-- `pass1` sets a number of an inode to 0. -/
lemma traced_setblkno {bno b : Word}
    (h : Traced past image (fun events => Checking n d P events ∧ lastYes events = some (.blockOutOfRange n bno b) ∧
      SoundQuestion d s.image (.blockOutOfRange n bno b)) s) (kin : Kin d ino) :
    wp (setblkno ino bno 0)
      (fun ino' s' => Traced past image (fun events => Checking n d P events ∧
        lastYes events = some (.blockOutOfRange n bno b)) s' ∧ Kin d ino')
      (StoppedTraced past image) s := by
  by_cases direct : bno.toNat < 18
  · rw [wp_setblkno_direct direct]
    exact ⟨h.mono fun _ got => ⟨got.1, got.2.1⟩, kin.setAddr⟩
  · by_cases single : bno.toNat < 274
    · rw [wp_setblkno_single direct single]
      split
      · exact h.stopped
      · next there =>
        have own : ino.addr 18 = d.addr 18 := (kin 18 (.inl rfl)).resolve_right there
        refine ⟨h.wrote (fun events got => ⟨⟨got.1, got.2.1⟩, _, got.2.1, ?_⟩) rfl rfl, kin⟩
        rw [got.1.1, own]
        exact .single (Nat.le_of_not_lt direct) single fun k => word_setWord_of_ne
    · have double : 274 ≤ bno.toNat := Nat.le_of_not_lt single
      rw [wp_setblkno_double double]
      split
      · exact h.stopped
      · next there =>
        split
        · exact Traced.congr h.stopped rfl rfl
        · next second =>
          have own : ino.addr 19 = d.addr 19 := (kin 19 (.inr rfl)).resolve_right there
          have found : holder s.image ino bno = holder s.image d bno := by
            rw [holder, holder, if_neg single, if_neg single, own]
          refine ⟨h.wrote (fun events got => ⟨⟨got.1, got.2.1⟩, _, got.2.1, ?_⟩) rfl rfl, kin⟩
          obtain ⟨checking, -, sound⟩ := got
          -- the block on the second level is the one on the first
          have same : holder s.image d bno = d.addr 19 :=
            (sound.resolve_left single).resolve_left (found ▸ second)
          rw [checking.1, own, found, ← same]
          exact .double double fun k => word_setWord_of_ne

/-- `pass1` checks a logical block. -/
lemma traced_checkBlock {bno : Word} (h : Traced past image (Checking n d P) s) (kin : Kin d ino) :
    wp (checkBlock n ino bno) (fun ino' s' => Traced past image (Checking n d P) s' ∧ Kin d ino')
      (StoppedTraced past image) s := by
  have zap : ∀ {s : State} {b : Word}, Traced past image (Checking n d P) s →
      wp (zapBlock n ino bno b) (fun ino' s' => Traced past image (Checking n d P) s' ∧ Kin d ino')
        (StoppedTraced past image) s := by
    intro s b h
    unfold zapBlock
    rw [wp_bind, wp_get, wp_ite]
    split
    · rw [wp_bind, wp_yes, wp_ite]
      split
      · next yes =>
        have asked : Traced past image (fun events => Checking n d P events ∧
            lastYes events = some (.blockOutOfRange n bno b) ∧
            SoundQuestion d s.image (.blockOutOfRange n bno b)) (s.answered (.blockOutOfRange n bno b)) := by
          refine h.answered fun events got sound => ⟨got, ?_, sound yes n d got.1⟩
          rw [yes]
          rfl
        rw [wp_bind]
        refine wp_post (traced_setblkno asked kin) fun ino' s₁ set => ?_
        rw [wp_bind]
        refine wp_post (traced_iwrite set.1 rfl) fun _ s₂ h₂ => ?_
        exact ⟨h₂.mono fun _ => And.left, set.2⟩
      · exact ⟨(traced_answered h).1, kin⟩
    · exact ⟨h, kin⟩
  unfold checkBlock
  rw [wp_bind]
  refine wp_mono wp_getblkno (fun b s₁ got => ?_) fun _ => False.elim
  rw [wp_bind]
  refine wp_post (zap (h.congr got.2.events got.2.image)) fun ino' s₂ zapped => ?_
  rw [wp_ite]
  split
  · rw [wp_bind]
    exact wp_post (traced_setBitmap zapped.1) fun _ s₃ used => ⟨used.1, zapped.2⟩
  · exact zapped

/-- `pass1` checks the blocks of an inode. -/
lemma traced_checkBlocks {fuel : Nat} (h : Traced past image (Checking n d True) s) (kin : Kin d ino) :
    wp (checkBlocks fuel n ino) (fun _ s' => Traced past image (Checking n d True) s') (StoppedTraced past image)
      s := by
  have loops : ∀ {s : State} {ino : Dinode}, Traced past image (Checking n d True) s → Kin d ino →
      wp (do
        emit (.blocks ino.iSize.oBlkno)
        let _ ← loop (fun p : Word × Dinode => p.1 ≤ p.2.iSize.oBlkno)
          (fun p => do
            let ino ← checkBlock n p.2 p.1
            pure (p.1 + 1, ino)) (halt .hang) fuel (0, ino))
        (fun _ s' => Traced past image (Checking n d True) s') (StoppedTraced past image) s := by
    intro s ino h kin
    rw [wp_bind, wp_emit, wp_bind]
    have h : Traced past image (Checking n d True) { s with events := .blocks ino.iSize.oBlkno :: s.events } :=
      h.blocks (fun _ => id) rfl rfl
    refine wp_post (wp_loop (fun p s => Traced past image (Checking n d True) s ∧ Kin d p.2) ?_ ?_ ⟨h, kin⟩)
      fun _ s' got => got.1.1
    · intro p s got _
      rw [wp_bind]
      exact wp_post (traced_checkBlock got.1 got.2) fun _ _ => id
    · intro p s got _
      exact got.1.stopped
  unfold checkBlocks
  rw [wp_bind]
  refine wp_post (traced_checkIndirect h kin) fun ino₁ s₁ got => ?_
  rw [wp_bind]
  refine wp_post (traced_checkIndirect got.1 got.2) fun ino₂ s₂ got => ?_
  split
  · next there =>
    have own : ino₂.addr 19 = d.addr 19 := (got.2 19 (.inr rfl)).resolve_right there
    rw [wp_bind, wp_daread, wp_bind]
    have load : Traced past image (Checking n d (s₂.image (ino₂.addr 19) = s₂.image (d.addr 19)))
        { s₂ with readbuf := s₂.image (ino₂.addr 19) } :=
      (got.1.mono fun _ at_n => ⟨at_n.1, by rw [own]⟩).congr rfl rfl
    refine wp_post (wp_each (fun _ s => Traced past image (Checking n d (s.readbuf = s.image (d.addr 19))) s)
      (fun b _ _ s h => traced_checkDoubly h) load) fun _ s₃ h₃ => ?_
    exact loops (h₃.mono fun _ at_n => ⟨at_n.1, trivial⟩) got.2
  · exact loops got.1 got.2

/-- `pass1` checks an inode. -/
lemma traced_checkInode {fuel : Nat} {icount : Word} (h : Traced past image (fun _ => True) s) :
    wp (checkInode fuel n icount) (fun _ s' => Traced past image (fun _ => True) s') (StoppedTraced past image) s := by
  unfold checkInode
  rw [wp_bind, wp_iread]
  have read : ∀ {s' : State} {d : Dinode}, s'.events = .inode n d :: s.events → s'.image = s.image →
      Traced past image (Checking n d True) s' := fun events same => h.inode (fun _ _ => ⟨rfl, trivial⟩) events same
  rw [wp_bind]
  refine wp_post (traced_setLinkmap (read rfl rfl)) fun _ s₁ h₁ => ?_
  rw [wp_ite]
  split
  · exact h₁.stopped
  · rw [wp_bind]
    refine wp_post (traced_zapInode h₁) fun zapped s₂ h₂ => ?_
    rw [wp_ite]
    split
    · exact h₂.stopped
    · rw [wp_bind]
      refine wp_post (traced_setLinkmap h₂) fun _ s₃ h₃ => ?_
      rw [wp_bind]
      refine wp_post (traced_fixBigOffset h₃ .refl) fun ino₁ s₄ got => ?_
      rw [wp_bind]
      refine wp_post (traced_fixNegativeOffset got.1 got.2) fun ino₂ s₅ got => ?_
      split
      · rw [wp_bind]
        exact wp_post (traced_checkBlocks got.1 got.2) fun _ s₆ h₆ => h₆.stopped
      · exact got.1.stopped

/-- `pass1` fixes the count in the superblock. -/
lemma traced_fixTinode {icount : Word} (h : Traced past image (fun _ => True) s) :
    wp (fixTinode icount) (fun _ s' => Traced past image (fun _ => True) s') (StoppedTraced past image) s := by
  unfold fixTinode
  rw [wp_bind, wp_get, wp_ite]
  split
  · rw [wp_bind, wp_yes, wp_ite]
    split
    · next yes =>
      rw [wp_bind, wp_modifyFilsys]
      unfold writeSuper
      rw [wp_bind, wp_get, wp_dwrite]
      let q := Question.freeInodeCount s.filsys.sTinode (inodesEnd s.filsys - ROOTINODE.toNat - icount.toNat)
      have asked : Traced past image (fun events => lastYes events = some q) (s.answered q) := by
        refine h.answered fun events _ _ => ?_
        rw [yes]
        rfl
      exact asked.wrote (fun events got => ⟨trivial, _, got, .super⟩) rfl rfl
    · exact h.answered fun _ _ _ => trivial
  · exact h

end Pass1

/-- What is said of `pass1`: the image is what its writes have made of it, and where the run was sound, each of them
repairs what was announced. -/
def RepairsAnnounced (s s' : State) : Prop :=
  ∃ events, s'.events = events ++ s.events ∧ s'.image = imageAfter s.image events ∧ (Sound events → Repairs events)

/-- As long as no question that leads to a wrong place is answered with yes, `pass1` repairs only what it reports, in
every run and wherever it has come. -/
theorem pass1_repairs {s : State} {fuel : Nat} :
    wp (pass1 fuel) (fun _ s' => RepairsAnnounced s s') (fun e => RepairsAnnounced s e.2) s := by
  have drop : ∀ s', Traced s.events s.image (fun _ => True) s' → RepairsAnnounced s s' :=
    fun _ ⟨events, eq, after, sound⟩ => ⟨events, eq, after, fun clear => (sound clear).1⟩
  refine wp_mono (Q := fun _ s' => Traced s.events s.image (fun _ => True) s') (E := StoppedTraced s.events s.image) ?_
    (fun _ => drop) fun e => drop e.2
  unfold pass1
  rw [wp_bind, wp_get, wp_bind]
  refine wp_post (wp_loop (fun _ s' => Traced s.events s.image (fun _ => True) s') ?_ ?_ .nil) fun p s' got => ?_
  · intro p s' h _
    rw [wp_bind]
    exact wp_post (traced_checkInode h) fun _ _ => id
  · intro p s' h _
    exact h
  · exact traced_fixTinode got.1

/-- A file with a double indirect block, block 100, of which entry 0 is out of range and entry 1 is block 150. -/
def brokenImage : Image :=
  Function.update
    (Function.update (fun _ => Block.zero) 100 ((Block.zero.setWord 0 0xffff).setWord 1 150)) 2
    (Block.zero.setDinode 1 { (inodeWith 19 100) with iMode := F_REG, iSize := ⟨18, 0⟩ })

/-- `fsck` before pass 1. -/
def beforePass1 : State :=
  { State.start brokenImage fun _ => true with
    filsys := { Filesys.ofBlock Block.zero with sMounted := SMOUNTED, sIsize := 3, sFsize := 200 } }

/-- A write after a question about the double indirect block that goes to another block. -/
def misplaced : List Event → Bool
  | [] => false
  | .wrote _ blk _ :: events =>
    (match lastYes events, lastInode events with
      | some (.doublyOutOfRange ..), some (_, ino) => decide (blk ≠ ino.addr 19)
      | _, _ => false) || misplaced events
  | _ :: events => misplaced events

/-- An entry that is written to the wrong block is no repair. -/
lemma not_repairs {events : List Event} (wrong : misplaced events = true) : ¬ Repairs events := by
  induction events with
  | nil => exact absurd wrong (by decide)
  | cons event events ih =>
    cases event with
    | wrote image blk data =>
      intro repairs
      obtain ⟨⟨q, question, repair⟩, rest⟩ := repairs
      rw [misplaced, Bool.or_eq_true, question] at wrong
      cases wrong with
      | inr later => exact ih later rest
      | inl here =>
        generalize lastInode events = last at repair here
        cases repair with
        | inode about own =>
          cases q with
          | doublyOutOfRange n b value => exact absurd about (Option.some_ne_none _).symm
          | _ => exact (Bool.false_ne_true here).elim
        | doubly entry => exact absurd rfl (of_decide_eq_true here)
        | _ => exact (Bool.false_ne_true here).elim
    | _ => exact ih wrong

/-- A run of `pass1` that writes what it has not announced, and changes word `k` of block `blk` so. -/
structure Misplaces (fuel : Nat) (blk : Word) (k : Nat) (s : State) : Prop where
  run : wp (pass1 fuel)
    (fun _ s' => (∃ events, s'.events = events ++ s.events ∧ ¬ Repairs events) ∧
      (s'.image blk).word k ≠ (s.image blk).word k) (fun _ => False) s

/-- A run in which an entry is written to the wrong block. -/
lemma Misplaces.of_run {s : State} {fuel k : Nat} {blk : Word} (start : s.events = [])
    (run : decide (wp (pass1 fuel)
      (fun _ s' => misplaced s'.events = true ∧ (s'.image blk).word k ≠ (s.image blk).word k)
      (fun _ => False) s) = true) : Misplaces fuel blk k s := by
  refine ⟨wp_post (of_decide_eq_true run) fun _ s' got => ⟨⟨s'.events, ?_, not_repairs got.1⟩, got.2⟩⟩
  rw [start, List.append_nil]

/-- The entry that is out of range is zapped in a copy, which is written to block 0. -/
theorem not_pass1_repairs : Misplaces 20 0 1 beforePass1 := Misplaces.of_run rfl (by decide +kernel)

end Fsck
end Uzi
