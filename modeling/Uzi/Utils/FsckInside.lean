import Uzi.Utils.FsckMaps

/-!
# `fsck` stays inside its maps

The five passes, each from what the one before has left.
-/

namespace Uzi
open Exec

namespace Fsck

/-! ## Pass 1 -/

/-- The blocks that are not marked in `bitmap`. -/
def State.unmarked (s : State) (b : Word) : Prop := s.bitmap b = 0

/-- Pass 1 is at inode `n`, which is `ino`, and its indirect blocks in front of address `k` have been checked. -/
structure At (g : Given) (n : Word) (ino : Dinode) (k : Nat) (s : State) : Prop where
  inside : InTable g n
  done : Checked g s.unmarked s.image fun m => m.toNat < n.toNat
  own : inodeAt s.image n = ino
  last : ∃ d, lastInode s.events = some (n, d) ∧ (ino.addr 19 = d.addr 19 ∨ ino.addr 19 = 0)
  held : ∀ i, 18 ≤ i → i < k → Held g s.unmarked (ino.addr i)

/-- Pass 1 has checked inode `n`. -/
def Done (g : Given) (n : Word) (s : State) : Prop :=
  InTable g n ∧ Checked g s.unmarked s.image fun m => m.toNat ≤ n.toNat

section Pass1

variable {g : Given} {C D : State → Prop} {s s' : State} {n b bno : Word} {ino ino' : Dinode} {k : Nat} {x : Byte}
  {q : Question} {past : List Event}

/-- Inode 0 is not read. -/
lemma Harmless.inode {d : Dinode} (h : Harmless g (.inode n d) past) : n ≠ 0 := h

/-- The bitmap after a mark. -/
lemma bitmap_marked : (s.marked b x).bitmap = Function.update s.bitmap b x := rfl

/-- A block that is free after a mark was free before. -/
lemma unmarked_marked (ne : x ≠ 0) {c : Word} (h : (s.marked b x).unmarked c) : s.unmarked c := by
  unfold State.unmarked at h
  rw [bitmap_marked] at h
  by_cases e : c = b
  · rw [e, Function.update_self] at h
    exact absurd h ne
  · exact (Function.update_of_ne e ..).symm.trans h

/-- A block that is marked is not free. -/
lemma not_unmarked (ne : x ≠ 0) : ¬ (s.marked b x).unmarked b := by
  unfold State.unmarked
  rw [bitmap_marked, Function.update_self]
  exact ne

/-- The free blocks are in the bitmap. -/
lemma unmarked_congr (bitmap : s'.bitmap = s.bitmap) : s'.unmarked = s.unmarked := by
  funext b
  unfold State.unmarked
  rw [bitmap]

namespace At

/-- Nothing is written, and blocks are marked at most. -/
lemma congr (h : At g n ino k s) (image : s'.image = s.image) (marks : ∀ b, s'.unmarked b → s.unmarked b)
    (last : lastInode s'.events = lastInode s.events) : At g n ino k s' where
  inside := h.inside
  done := by
    rw [image]
    exact h.done.mono marks
  own := image ▸ h.own
  last := last ▸ h.last
  held i ge lt := (h.held i ge lt).mono marks

/-- The inode is written. -/
lemma put (h : At g n ino k s) (image : s'.image = putInode s.image n ino') (bitmap : s'.bitmap = s.bitmap)
    (last : lastInode s'.events = lastInode s.events) (double : ino'.addr 19 = ino.addr 19 ∨ ino'.addr 19 = 0)
    (held : ∀ i, 18 ≤ i → i < k → ino'.addr i = ino.addr i ∨ ino'.addr i = 0) : At g n ino' k s' where
  inside := h.inside
  done := by
    rw [image, unmarked_congr bitmap]
    exact h.done.iwrite h.inside (fun _ lt _ => lt) fun lt => absurd lt (Nat.lt_irrefl _)
  own := by
    rw [image, inodeAt_putInode, if_pos rfl]
  last := by
    obtain ⟨d, eq, kin⟩ := h.last
    refine ⟨d, last.trans eq, ?_⟩
    cases double with
    | inl same => exact same ▸ kin
    | inr zero => exact .inr zero
  held i ge lt := by
    rw [unmarked_congr bitmap]
    cases held i ge lt with
    | inl same => exact same ▸ h.held i ge lt
    | inr zero => exact .inl zero

/-- The inode has been checked with its blocks, if it has any. -/
lemma finish (h : At g n ino k s) (file : IsFile ino → Tree g s.unmarked s.image ino (ino.iSize.oBlkno.toNat + 1)) :
    Done g n s := by
  refine ⟨h.inside, fun m table le => ?_⟩
  cases Nat.lt_or_eq_of_le le with
  | inl lt => exact h.done m table lt
  | inr eq =>
    rw [BitVec.eq_of_toNat_eq eq, h.own]
    exact file

end At

/-- An inode that is free has no file. -/
lemma not_isFile (free : ino.iMode = 0) : ¬ IsFile ino := by
  unfold IsFile
  rw [free]
  decide

/-- An inode of the table is written. -/
lemma Guarded.save (h : Guarded g (At g n ino k) s) (double : ino'.addr 19 = ino.addr 19 ∨ ino'.addr 19 = 0)
    (held : ∀ i, 18 ≤ i → i < k → ino'.addr i = ino.addr i ∨ ino'.addr i = 0) :
    wp (iwrite n ino') (fun _ s' => Guarded g (At g n ino' k) s') (Stopped g) s := by
  rw [wp_iwrite]
  refine h.step (.wrote s.image (inodeBlk n) ((s.image (inodeBlk n)).setDinode (inodeIdx n) ino'))
    ⟨rfl, rfl, rfl, id, rfl⟩ rfl rfl (fun _ _ => trivial) fun c _ => ?_
  exact c.put rfl rfl rfl double held

/-- A part of pass 1 that asks, and changes the inode where the answer is yes. -/
lemma Guarded.fix (h : Guarded g (At g n ino k) s) (double : ino'.addr 19 = ino.addr 19 ∨ ino'.addr 19 = 0)
    (held : ∀ i, 18 ≤ i → i < k → ino'.addr i = ino.addr i ∨ ino'.addr i = 0) {p : Prop} [Decidable p] :
    wp (if p then do
        if ← yes q then do
          iwrite n ino'
          pure ino'
        else pure ino
      else pure ino)
      (fun r s' => Guarded g (At g n r k) s' ∧ r = if p then ino' else ino) (Stopped g) s := by
  rw [wp_ite]
  split
  · rw [wp_bind, wp_yes, wp_ite, if_pos (h.1.yes 0), wp_bind]
    have asked : Guarded g (At g n ino k) (s.answered q) := h.answered q fun c => c.congr rfl (fun _ => id) rfl
    exact wp_post (asked.save double held) fun _ s' h' => ⟨h', rfl⟩
  · exact ⟨h, rfl⟩

/-- `zapInode` zaps the inode, or leaves it. -/
lemma guarded_zapInode (h : Guarded g (At g n ino k) s) :
    wp (zapInode n ino)
      (fun zapped s' => (zapped = true → Guarded g (Done g n) s') ∧ (zapped = false → Guarded g (At g n ino k) s'))
      (Stopped g) s := by
  unfold zapInode
  rw [wp_ite]
  split
  · rw [wp_bind, wp_yes, wp_ite, if_pos (h.1.yes 0), wp_bind]
    have asked : Guarded g (At g n ino k) (s.answered (.incorrectType n ino.iMode)) :=
      h.answered _ fun c => c.congr rfl (fun _ => id) rfl
    refine wp_post (asked.save (.inl rfl) fun _ _ _ => .inl rfl) fun _ s' h' => ⟨fun _ => h'.mono fun c => ?_, nofun⟩
    exact c.finish fun file => absurd file (not_isFile rfl)
  · exact ⟨nofun, fun _ => h⟩

/-- The offset is repaired. -/
lemma guarded_fixBigOffset (h : Guarded g (At g n ino k) s) :
    wp (fixBigOffset n ino) (fun r s' => Guarded g (At g n r k) s' ∧ r.iMode = ino.iMode) (Stopped g) s := by
  have addr : ∀ i, ({ ino with iSize := carryOffset 64 ino.iSize } : Dinode).addr i = ino.addr i := fun _ => rfl
  unfold fixBigOffset
  refine wp_post (h.fix (.inl (addr 19)) fun i _ _ => .inl (addr i)) fun r s' got => ⟨got.1, ?_⟩
  rw [got.2]
  split <;> rfl

/-- A negative offset is repaired. -/
lemma guarded_fixNegativeOffset (h : Guarded g (At g n ino k) s) :
    wp (fixNegativeOffset n ino) (fun r s' => Guarded g (At g n r k) s' ∧ r.iMode = ino.iMode) (Stopped g) s := by
  have addr : ∀ i, ({ ino with iSize := ⟨ino.iSize.oBlkno, 0⟩ } : Dinode).addr i = ino.addr i := fun _ => rfl
  unfold fixNegativeOffset
  refine wp_post (h.fix (.inl (addr 19)) fun i _ _ => .inl (addr i)) fun r s' got => ⟨got.1, ?_⟩
  rw [got.2]
  split <;> rfl

/-- The address of an indirect block is zapped. -/
lemma guarded_zapAddr {asks : Bool} (h : Guarded g (At g n ino k) s) (lt : k < 20) :
    wp (zapAddr n ino k asks q)
      (fun r s' => Guarded g (At g n r k) s' ∧ r = if asks then ino.setAddr k 0 else ino) (Stopped g) s := by
  have addr : ∀ i < 20, (ino.setAddr k 0).addr i = ino.addr i ∨ (ino.setAddr k 0).addr i = 0 := by
    intro i hi
    rw [addr_setAddr hi]
    split
    · exact .inr rfl
    · exact .inl rfl
  unfold zapAddr
  exact h.fix (addr 19 (by decide)) fun i _ below => addr i (Nat.lt_trans below lt)

/-- The address of an indirect block is checked, and the block marked. -/
lemma guarded_checkIndirect (h : Guarded g (At g n ino k) s) (lt : k < 20) :
    wp (checkIndirect n ino k)
      (fun r s' => Guarded g (At g n r (k + 1)) s' ∧ r.iMode = ino.iMode) (Stopped g) s := by
  have range : outOfRange s.filsys (ino.addr k) = true ↔ ¬ Fits g (ino.addr k) := outOfRange_iff h.1.isize h.1.fsize
  unfold checkIndirect
  rw [wp_bind, wp_get, wp_bind]
  refine wp_post (guarded_zapAddr h lt) fun ino₁ s₁ got₁ => ?_
  rw [wp_bind]
  refine wp_post (guarded_zapAddr got₁.1 lt) fun ino₂ s₂ got₂ => ?_
  have own : ∀ d : Dinode, (d.setAddr k 0).addr k = 0 := fun d => by rw [addr_setAddr lt, if_pos rfl]
  have fits₁ : Fits g (ino₁.addr k) := by
    rw [got₁.2]
    split
    · exact .inl (own _)
    · next inside => exact not_not.mp fun out => inside (range.mpr out)
  have fits₂ : Fits g (ino₂.addr k) := by
    rw [got₂.2]
    split
    · exact .inl (own _)
    · exact fits₁
  have mode : ino₂.iMode = ino.iMode := by
    rw [got₂.2]
    split <;> rw [got₁.2] <;> split <;> rfl
  rw [wp_ite]
  split
  · next there =>
    have data := fits₂.resolve_left there
    rw [wp_bind]
    refine wp_post (got₂.1.setBitmap (D := At g n ino₂ (k + 1)) (fun _ => data.2) fun c => ?_)
      fun _ s₃ h₃ => ⟨h₃, mode⟩
    have c' : At g n ino₂ k (s₂.marked (ino₂.addr k) 1) :=
      c.congr rfl (fun _ => unmarked_marked (by decide)) rfl
    refine ⟨c'.inside, c'.done, c'.own, c'.last, fun i ge lt => ?_⟩
    cases Nat.lt_or_eq_of_le (Nat.le_of_lt_succ lt) with
    | inl before => exact c'.held i ge before
    | inr here =>
      rw [here]
      exact .inr ⟨data, not_unmarked (by decide)⟩
  · next none =>
    refine ⟨got₂.1.mono fun c => ⟨c.inside, c.done, c.own, c.last, fun i ge lt => ?_⟩, mode⟩
    cases Nat.lt_or_eq_of_le (Nat.le_of_lt_succ lt) with
    | inl before => exact c.held i ge before
    | inr here => exact here ▸ .inl (not_not.mp none)

/-- An entry of an indirect block is zapped. -/
lemma At.zap (h : At g n ino k s) {c : Word} {j : Nat} (held : Held g s.unmarked c)
    (out : ¬ Fits g ((s.image c).word j)) (image : s'.image = Function.update s.image c ((s.image c).setWord j 0))
    (bitmap : s'.bitmap = s.bitmap) (last : lastInode s'.events = lastInode s.events) : At g n ino k s' where
  inside := h.inside
  done := by
    rw [image, unmarked_congr bitmap]
    exact h.done.replace held (.inl rfl) fun old => absurd old.fits out
  own := by
    unfold inodeAt
    rw [image, Function.update_of_ne (held.ne_inodeBlk h.inside).symm]
    exact h.own
  last := last ▸ h.last
  held i ge lt := by
    rw [unmarked_congr bitmap]
    exact h.held i ge lt

/-- The entries of the double indirect block in `readbuf` that have been checked, all but those in `left`. -/
structure Entries (g : Given) (n : Word) (ino : Dinode) (left : List Nat) (s : State) : Prop where
  at_n : At g n ino 20 s
  buf : s.readbuf = s.image (ino.addr 19)
  held : ∀ hi < 256, hi ∉ left → Held g s.unmarked (s.readbuf.word hi)

/-- The zap of a doubly indirect entry. -/
lemma guarded_zapDoubly {hi : Nat} {left : List Nat} (h : Guarded g (Entries g n ino left) s) (there : ino.addr 19 ≠ 0)
    (lt : hi < 256) :
    wp (zapDoubly n hi)
      (fun _ s' => Guarded g (fun s' => Entries g n ino left s' ∧ Fits g (s'.readbuf.word hi)) s') (Stopped g) s := by
  have range : outOfRange s.filsys (s.readbuf.word hi) = true ↔ ¬ Fits g (s.readbuf.word hi) :=
    outOfRange_iff h.1.isize h.1.fsize
  unfold zapDoubly
  rw [wp_bind, wp_get, wp_ite]
  split
  · next out =>
    rw [wp_bind, wp_yes, wp_ite, if_pos (h.1.yes 0), wp_bind, wp_modifyReadbuf, wp_bind, wp_get, wp_dwrite]
    have asked : Guarded g (Entries g n ino left) (s.answered (.doublyOutOfRange n hi (s.readbuf.word hi))) :=
      h.answered _ fun c => ⟨c.at_n.congr rfl (fun _ => id) rfl, c.buf, c.held⟩
    refine asked.step (.wrote s.image hi (s.readbuf.setWord hi 0)) ⟨rfl, rfl, rfl, id, rfl⟩ rfl rfl (fun _ _ => trivial)
      fun c harmless => ?_
    -- the block that is written is the double indirect block
    have own : (hi : Word) = ino.addr 19 := by
      obtain ⟨d, last, kin⟩ := c.at_n.last
      have blk : d.addr 19 = hi := harmless n d last
      rw [kin.resolve_right there, blk]
    have held : Held g s.unmarked (ino.addr 19) := c.at_n.held 19 (by decide) (by decide)
    have buf : s.readbuf = s.image (ino.addr 19) := c.buf
    have out : ¬ Fits g ((s.image (ino.addr 19)).word hi) := buf ▸ range.mp out
    refine ⟨⟨c.at_n.zap held out ?_ rfl rfl, ?_, fun k hk mem => ?_⟩, ?_⟩
    · show Function.update s.image (hi : Word) (s.readbuf.setWord hi 0) =
        Function.update s.image (ino.addr 19) ((s.image (ino.addr 19)).setWord hi 0)
      rw [own, buf]
    · show s.readbuf.setWord hi 0 = Function.update s.image (hi : Word) (s.readbuf.setWord hi 0) (ino.addr 19)
      rw [own, Function.update_self]
    · show Held g s.unmarked ((s.readbuf.setWord hi 0).word k)
      rw [Block.word_setWord hk]
      split
      · exact .inl rfl
      · exact c.held k hk mem
    · show Fits g ((s.readbuf.setWord hi 0).word hi)
      rw [Block.word_setWord lt, if_pos rfl]
      exact .inl rfl
  · next inside =>
    rw [wp_pure]
    exact h.mono fun c => ⟨c, not_not.mp fun out => inside (range.mpr out)⟩

/-- A doubly indirect entry is looked at. -/
lemma guarded_checkDoubly {hi : Nat} {left : List Nat} (h : Guarded g (Entries g n ino (hi :: left)) s)
    (there : ino.addr 19 ≠ 0) (lt : hi < 256) :
    wp (checkDoubly n hi) (fun _ s' => Guarded g (Entries g n ino left) s') (Stopped g) s := by
  unfold checkDoubly
  rw [wp_bind]
  refine wp_post (guarded_zapDoubly h there lt) fun _ s₁ h₁ => ?_
  rw [wp_bind, wp_get, wp_ite]
  split
  · next used =>
    refine h₁.setBitmap (fun c => (c.2.resolve_left used).2) fun c => ?_
    have marks : ∀ b, (s₁.marked (s₁.readbuf.word hi) 1).unmarked b → s₁.unmarked b :=
      fun _ => unmarked_marked (by decide)
    refine ⟨c.1.at_n.congr rfl marks rfl, c.1.buf, fun k hk mem => ?_⟩
    by_cases here : k = hi
    · rw [here]
      exact .inr ⟨c.2.resolve_left used, not_unmarked (by decide)⟩
    · exact (c.1.held k hk fun old => mem ((List.mem_cons.mp old).resolve_left here)).mono marks
  · next none =>
    refine h₁.mono fun c => ⟨c.1.at_n, c.1.buf, fun k hk mem => ?_⟩
    by_cases here : k = hi
    · rw [here]
      exact .inl (not_not.mp none)
    · exact c.1.held k hk fun old => mem ((List.mem_cons.mp old).resolve_left here)

/-- The loop over the logical blocks has come to block `bno`. -/
structure Blocks (g : Given) (n : Word) (ino : Dinode) (upto : Nat) (s : State) : Prop where
  at_n : At g n ino 20 s
  tree : Tree g s.unmarked s.image ino upto

/-- The tree grows by a block. -/
lemma Tree.extend {free : Word → Prop} {image : Image} (h : Tree g free image ino bno.toNat)
    (fits : Fits g (blkno image ino bno)) : Tree g free image ino (bno.toNat + 1) where
  single := h.single
  double := h.double
  second := h.second
  blocks m lt := by
    cases Nat.lt_or_eq_of_le (Nat.le_of_lt_succ lt) with
    | inl before => exact h.blocks m before
    | inr here => exact BitVec.eq_of_toNat_eq here ▸ fits

/-- Block `bno` has been zapped, up to the inode. -/
def Zapped (g : Given) (n : Word) (ino : Dinode) (bno b : Word) (s : State) : Prop :=
  At g n ino 20 s ∧ Tree g s.unmarked s.image ino (bno.toNat + 1) ∧
    ∀ data, Harmless g (.wrote s.image (inodeBlk n) data) s.events → b ≠ 0 → b < g.fsize

/-- The inode is written in the loop over its blocks. `R` is what is known where this write goes wrong otherwise. -/
lemma guarded_saveBlocks {R : Prop} {upto : Nat}
    (h : Guarded g (fun s => At g n ino 20 s ∧ Tree g s.unmarked s.image ino' upto ∧
      ∀ data, Harmless g (.wrote s.image (inodeBlk n) data) s.events → R) s)
    (indirect : ∀ i, 18 ≤ i → i < 20 → ino'.addr i = ino.addr i) :
    wp (iwrite n ino') (fun _ s' => Guarded g (fun s' => Blocks g n ino' upto s' ∧ R) s') (Stopped g) s := by
  rw [wp_iwrite]
  refine h.step (.wrote s.image (inodeBlk n) ((s.image (inodeBlk n)).setDinode (inodeIdx n) ino'))
    ⟨rfl, rfl, rfl, id, rfl⟩ rfl rfl (fun _ _ => trivial) fun c harmless => ?_
  obtain ⟨at_n, tree, known⟩ := c
  refine ⟨⟨?_, ?_⟩, known _ harmless⟩
  · exact at_n.put rfl rfl rfl (.inl (indirect 19 (by decide) (by decide))) fun i ge lt => .inl (indirect i ge lt)
  · exact tree.frame fun b held => Function.update_of_ne (held.ne_inodeBlk at_n.inside) _ _

/-- A block number that is out of range is zapped. It is used afterwards. -/
lemma guarded_zapBlock (h : Guarded g (Blocks g n ino bno.toNat) s) (at_b : b = blkno s.image ino bno) :
    wp (zapBlock n ino bno b)
      (fun r s' => Guarded g (fun s' => Blocks g n r (bno.toNat + 1) s' ∧ (b ≠ 0 → b < g.fsize)) s' ∧
        r.iMode = ino.iMode ∧ r.iSize = ino.iSize) (Stopped g) s := by
  have range : outOfRange s.filsys b = true ↔ ¬ Fits g b := outOfRange_iff h.1.isize h.1.fsize
  unfold zapBlock
  rw [wp_bind, wp_get, wp_ite]
  split
  · next out =>
    have out : ¬ Fits g (blkno s.image ino bno) := at_b ▸ range.mp out
    rw [wp_bind, wp_yes, wp_ite, if_pos (h.1.yes 0), wp_bind]
    have asked : Guarded g (Blocks g n ino bno.toNat) (s.answered (.blockOutOfRange n bno b)) :=
      h.answered _ fun c => ⟨c.at_n.congr rfl (fun _ => id) rfl, c.tree⟩
    by_cases direct : bno.toNat < 18
    · rw [wp_setblkno_direct direct, wp_bind]
      have set : blkno s.image (ino.setAddr bno.toNat 0) bno = 0 := by rw [blkno_setAddr direct, if_pos rfl]
      have indirect : ∀ i, 18 ≤ i → i < 20 → (ino.setAddr bno.toNat 0).addr i = ino.addr i := by
        intro i ge lt
        rw [addr_setAddr lt, if_neg (by omega)]
      have tree : Guarded g (fun s' => At g n ino 20 s' ∧
          Tree g s'.unmarked s'.image (ino.setAddr bno.toNat 0) (bno.toNat + 1) ∧
          ∀ data, Harmless g (.wrote s'.image (inodeBlk n) data) s'.events → b ≠ 0 → b < g.fsize)
          (s.answered (.blockOutOfRange n bno b)) :=
        asked.mono fun c =>
          ⟨c.at_n, (c.tree.setAddr direct (.inl rfl)).extend (.inl set), fun _ harmless _ => harmless.2⟩
      exact wp_post (guarded_saveBlocks tree indirect) fun _ s' h' => ⟨h', rfl, rfl⟩
    · by_cases single : bno.toNat < 274
      · rw [wp_setblkno_single direct single]
        split
        · exact asked.stopped
        · next there =>
          rw [wp_bind]
          have entry : blkno s.image ino bno = (s.image (ino.addr 18)).word (bno.toNat - 18) := by
            rw [blkno, if_neg direct, if_pos single, Uzi.entry, if_neg there]
          rw [entry] at out
          have zero : blkno (withEntry s.image (ino.addr 18) (bno.toNat - 18) 0) ino bno = 0 := by
            rw [blkno_withEntry direct single there single, if_pos rfl]
          have set : Guarded g (Zapped g n ino bno b) { s.answered (.blockOutOfRange n bno b) with
              readbuf := (s.image (ino.addr 18)).setWord (bno.toNat - 18) 0
              image := withEntry s.image (ino.addr 18) (bno.toNat - 18) 0
              events := .wrote s.image (ino.addr 18) ((s.image (ino.addr 18)).setWord (bno.toNat - 18) 0) ::
                (s.answered (.blockOutOfRange n bno b)).events } := by
            refine asked.step (.wrote s.image (ino.addr 18) ((s.image (ino.addr 18)).setWord (bno.toNat - 18) 0))
              ⟨rfl, rfl, rfl, id, rfl⟩ rfl rfl (fun _ _ => trivial) fun c harmless => ?_
            have held : Held g s.unmarked (ino.addr 18) := c.at_n.held 18 (by decide) (by decide)
            have tree : Tree g s.unmarked (withEntry s.image (ino.addr 18) (bno.toNat - 18) 0) ino bno.toNat :=
              c.tree.replace (.inl rfl) fun old => absurd old.fits out
            exact ⟨c.at_n.zap held out rfl rfl rfl, tree.extend (.inl zero), fun _ _ _ => harmless.2⟩
          exact wp_post (guarded_saveBlocks set fun _ _ _ => rfl) fun _ s' h' => ⟨h', rfl, rfl⟩
      · rw [wp_setblkno_double (Nat.le_of_not_lt single)]
        split
        · exact asked.stopped
        · split
          · exact asked.1.safe
          · rw [wp_bind]
            -- the block is behind the double indirect block, which has gone wrong
            have set : Guarded g (Zapped g n ino bno b) { s.answered (.blockOutOfRange n bno b) with
                readbuf := (s.image (holder s.image ino bno)).setWord ((bno.toNat - 274) % 256) bno
                image := Function.update s.image (ino.addr 19)
                  ((s.image (holder s.image ino bno)).setWord ((bno.toNat - 274) % 256) bno)
                events := .wrote s.image (ino.addr 19)
                  ((s.image (holder s.image ino bno)).setWord ((bno.toNat - 274) % 256) bno) ::
                    (s.answered (.blockOutOfRange n bno b)).events } :=
              asked.step (.wrote s.image (ino.addr 19)
                ((s.image (holder s.image ino bno)).setWord ((bno.toNat - 274) % 256) bno))
                ⟨rfl, rfl, rfl, id, rfl⟩ rfl rfl (fun _ _ => trivial) fun _ harmless => absurd harmless.1 single
            exact wp_post (guarded_saveBlocks set fun _ _ _ => rfl) fun _ s' h' => ⟨h', rfl, rfl⟩
  · next inside =>
    rw [wp_pure]
    have fits : Fits g b := not_not.mp fun out => inside (range.mpr out)
    refine ⟨h.mono fun c => ⟨⟨c.at_n, c.tree.extend (at_b ▸ fits)⟩, fun ne => (fits.resolve_left ne).2⟩, rfl, rfl⟩

/-- A mark leaves the blocks that have been seen. -/
lemma Blocks.marked {upto : Nat} (h : Blocks g n ino upto s) : Blocks g n ino upto (s.marked b 1) where
  at_n := h.at_n.congr rfl (fun _ => unmarked_marked (by decide)) rfl
  tree := h.tree.mono fun _ => unmarked_marked (by decide)

/-- A logical block is looked at. -/
lemma guarded_checkBlock (h : Guarded g (Blocks g n ino bno.toNat) s) :
    wp (checkBlock n ino bno)
      (fun r s' => Guarded g (Blocks g n r (bno.toNat + 1)) s' ∧ r.iMode = ino.iMode ∧ r.iSize = ino.iSize)
      (Stopped g) s := by
  unfold checkBlock
  rw [wp_bind]
  refine wp_mono wp_getblkno (fun b s₁ got => ?_) fun _ => False.elim
  obtain ⟨at_b, quiet⟩ := got
  have h₁ : Guarded g (Blocks g n ino bno.toNat) s₁ := by
    rw [quiet]
    exact h.quiet ⟨rfl, rfl, rfl, id, rfl⟩ rfl rfl fun c => ⟨c.at_n.congr rfl (fun _ => id) rfl, c.tree⟩
  rw [wp_bind]
  refine wp_post (guarded_zapBlock h₁ (quiet.image ▸ at_b)) fun r s₂ got => ?_
  obtain ⟨h₂, mode, size⟩ := got
  rw [wp_ite]
  split
  · next used =>
    rw [wp_bind]
    exact wp_post (h₂.setBitmap (fun c => c.2 used) fun c => c.1.marked) fun _ s₃ h₃ => ⟨h₃, mode, size⟩
  · exact ⟨h₂.mono And.left, mode, size⟩

/-- A part of the tree. -/
lemma Tree.weaken {free : Word → Prop} {image : Image} {upto upto' : Nat} (h : Tree g free image ino upto)
    (le : upto' ≤ upto) : Tree g free image ino upto' :=
  ⟨h.single, h.double, h.second, fun bno lt => h.blocks bno (Nat.lt_of_lt_of_le lt le)⟩

/-- The counter is one further, or has gone round. -/
lemma toNat_succ_le : (bno + 1).toNat ≤ bno.toNat + 1 := by
  rw [BitVec.toNat_add]
  exact Nat.mod_le ..

/-- The loop over the logical blocks. -/
lemma guarded_blocksLoop {fuel : Nat} (h : Guarded g (Blocks g n ino 0) s) :
    wp (do
        emit (.blocks ino.iSize.oBlkno)
        let _ ← loop (fun p : Word × Dinode => p.1 ≤ p.2.iSize.oBlkno)
          (fun p => do
            let ino ← checkBlock n p.2 p.1
            pure (p.1 + 1, ino)) (halt .hang) fuel (0, ino))
      (fun _ s' => Guarded g (Done g n) s') (Stopped g) s := by
  have begun : Guarded g (Blocks g n ino 0) { s with events := .blocks ino.iSize.oBlkno :: s.events } :=
    h.step (.blocks ino.iSize.oBlkno) ⟨rfl, rfl, rfl, id, rfl⟩ rfl rfl (fun _ _ => trivial)
      fun c _ => ⟨c.at_n.congr rfl (fun _ => id) rfl, c.tree⟩
  rw [wp_bind, wp_emit, wp_bind]
  refine wp_post (wp_loop (fun p s => Guarded g (Blocks g n p.2 p.1.toNat) s) ?_ ?_ begun) fun p s' got => ?_
  · intro p s h _
    rw [wp_bind]
    refine wp_post (guarded_checkBlock h) fun r s' got => got.1.mono fun c => ⟨c.at_n, c.tree.weaken toNat_succ_le⟩
  · intro p s h _
    exact h.stopped
  · have ended : p.2.iSize.oBlkno.toNat + 1 ≤ p.1.toNat := by
      have := of_decide_eq_false got.2
      rw [BitVec.le_def] at this
      omega
    exact got.1.mono fun c => c.at_n.finish fun _ => c.tree.weaken ended

/-- The blocks of an inode are checked. -/
lemma guarded_checkBlocks {fuel : Nat} (h : Guarded g (At g n ino 18) s) :
    wp (checkBlocks fuel n ino) (fun _ s' => Guarded g (Done g n) s') (Stopped g) s := by
  unfold checkBlocks
  rw [wp_bind]
  refine wp_post (guarded_checkIndirect h (by decide)) fun ino₁ s₁ got => ?_
  rw [wp_bind]
  refine wp_post (guarded_checkIndirect got.1 (by decide)) fun ino₂ s₂ got => ?_
  have start : ∀ {s : State}, At g n ino₂ 20 s →
      (ino₂.addr 19 ≠ 0 → ∀ hi < 256, Held g s.unmarked ((s.image (ino₂.addr 19)).word hi)) → Blocks g n ino₂ 0 s :=
    fun at_n second => ⟨at_n, at_n.held 18 (by decide) (by decide), at_n.held 19 (by decide) (by decide), second,
      fun _ lt => absurd lt (Nat.not_lt_zero _)⟩
  split
  · next there =>
    have loaded : Guarded g (Entries g n ino₂ (List.range 256)) { s₂ with readbuf := s₂.image (ino₂.addr 19) } :=
      got.1.quiet ⟨rfl, rfl, rfl, id, rfl⟩ rfl rfl fun c =>
        ⟨c.congr rfl (fun _ => id) rfl, rfl, fun hi lt mem => absurd (List.mem_range.mpr lt) mem⟩
    rw [wp_bind, wp_daread, wp_bind]
    refine wp_post (wp_each (fun left s => Guarded g (Entries g n ino₂ left) s) ?_ loaded) fun _ s₃ h₃ => ?_
    · intro hi left suffix s h
      exact guarded_checkDoubly h there (List.mem_range.mp (suffix.mem List.mem_cons_self))
    · refine guarded_blocksLoop (h₃.mono fun c => start c.at_n fun _ hi lt => ?_)
      exact c.buf ▸ c.held hi lt List.not_mem_nil
  · next none => exact guarded_blocksLoop (got.1.mono fun c => start c fun there => absurd there none)

/-- Pass 1 checks inode `n`. -/
lemma guarded_checkInode {fuel : Nat} {icount : Word}
    (h : Guarded g (fun s => Checked g s.unmarked s.image fun m => m.toNat < n.toNat) s)
    (below : n.toNat < 8 * (g.isize.toNat - 2)) :
    wp (checkInode fuel n icount) (fun _ s' => Guarded g (Done g n) s') (Stopped g) s := by
  unfold checkInode
  rw [wp_bind, wp_iread, wp_bind]
  have read : Guarded g (At g n (inodeAt s.image n) 18) { s with
      readbuf := s.image (inodeBlk n)
      events := .inode n (inodeAt s.image n) :: s.events } := by
    refine h.step (.inode n (inodeAt s.image n)) ⟨rfl, rfl, rfl, id, rfl⟩ rfl rfl (fun _ _ => trivial)
      fun c harmless => ?_
    have pos : 1 ≤ n.toNat := Nat.pos_of_ne_zero fun zero => harmless.inode (BitVec.eq_of_toNat_eq zero)
    exact ⟨⟨pos, below⟩, c, rfl, ⟨_, rfl, .inl rfl⟩, fun i ge lt => absurd ge (Nat.not_le.mpr lt)⟩
  have link : ∀ {s : State} {ino : Dinode} {v : Word}, Guarded g (At g n ino 18) s →
      wp (setLinkmap n v) (fun _ s' => Guarded g (At g n ino 18) s') (Stopped g) s :=
    fun h => h.setLinkmap (fun c => c.inside) fun c => c.congr rfl (fun _ => id) rfl
  refine wp_post (link read) fun _ s₁ h₁ => ?_
  rw [wp_ite]
  split
  · next free => exact h₁.mono fun c => c.finish fun file => absurd file (not_isFile free)
  · rw [wp_bind]
    refine wp_post (guarded_zapInode h₁) fun zapped s₂ got => ?_
    rw [wp_ite]
    split
    · next yes => exact got.1 yes
    · next no =>
      rw [wp_bind]
      refine wp_post (link (got.2 (Bool.not_eq_true _ ▸ no))) fun _ s₃ h₃ => ?_
      rw [wp_bind]
      refine wp_post (guarded_fixBigOffset h₃) fun ino₄ s₄ got₄ => ?_
      rw [wp_bind]
      refine wp_post (guarded_fixNegativeOffset got₄.1) fun ino₅ s₅ got₅ => ?_
      split
      · rw [wp_bind]
        exact wp_post (guarded_checkBlocks got₅.1) fun _ s₆ h₆ => h₆
      · next device =>
        refine got₅.1.mono fun c => c.finish fun file => absurd ?_ device
        unfold IsFile at file
        rw [got₅.2, got₄.2] at file
        exact file

/-- The superblock is written. -/
lemma guarded_writeSuper (h : Guarded g C s)
    (next : ∀ data, C s → D { s with
      image := Function.update s.image 1 data
      events := .wrote s.image 1 data :: s.events }) :
    wp writeSuper (fun _ s' => Guarded g D s') (Stopped g) s := by
  unfold writeSuper
  rw [wp_bind, wp_get, wp_dwrite]
  exact h.step (.wrote s.image 1 (s.fsBlock 0)) ⟨rfl, rfl, rfl, id, rfl⟩ rfl rfl (fun _ _ => trivial)
    fun c _ => next _ c

/-- Pass 1 checks every inode. -/
lemma guarded_pass1 {fuel : Nat} (h : Guarded g (fun _ => True) s) (pos : 3 ≤ g.isize.toNat) :
    wp (pass1 fuel) (fun _ s' => Guarded g (fun s' => Checked g s'.unmarked s'.image fun _ => True) s')
      (Stopped g) s := by
  have isize := h.1.isize
  have start : Guarded g (fun s => Checked g s.unmarked s.image fun m => m.toNat < ROOTINODE.toNat) s :=
    h.mono fun _ m inside lt => absurd inside.1 (Nat.not_le.mpr lt)
  unfold pass1
  rw [wp_bind, wp_get, wp_bind]
  refine wp_post (wp_loop
    (fun p s => Guarded g (fun s => Checked g s.unmarked s.image fun m => m.toNat < p.1.toNat) s) ?_ ?_ start)
    fun p s' got => ?_
  · intro p s h goes
    have below := of_decide_eq_true goes
    rw [inodesEnd, isize] at below
    rw [wp_bind]
    refine wp_post (guarded_checkInode h (by omega)) fun icount s' h' => ?_
    rw [wp_pure]
    exact h'.mono fun c m inside lt => c.2 m inside (Nat.le_of_lt_succ (Nat.lt_of_lt_of_le lt toNat_succ_le))
  · intro p s h _
    exact h.stopped
  · obtain ⟨h', ends⟩ := got
    have ends := of_decide_eq_false ends
    rw [inodesEnd, isize] at ends
    have all : Guarded g (fun s' => Checked g s'.unmarked s'.image fun _ => True) s' := by
      refine h'.mono fun c m inside _ => c m inside ?_
      have := inside.2
      omega
    unfold fixTinode
    rw [wp_bind, wp_get, wp_ite]
    split
    · rw [wp_bind, wp_yes, wp_ite, if_pos (all.1.yes 0), wp_bind, wp_modifyFilsys]
      have counted : ∀ v q, Guarded g (fun s' => Checked g s'.unmarked s'.image fun _ => True)
          { s'.answered q with filsys := { s'.filsys with sTinode := v } } := by
        intro v q
        have asked : Guarded g (fun s' => Checked g s'.unmarked s'.image fun _ => True) (s'.answered q) :=
          all.answered q id
        exact asked.quiet ⟨rfl, rfl, rfl, id, rfl⟩ rfl rfl id
      exact guarded_writeSuper (counted _ _) fun _ c => c.other pos (.inl rfl)
    · exact all

end Pass1

/-! ## Pass 2 -/

/-- The free list holds no block of a file. -/
def Ready (g : Given) (s : State) : Prop :=
  ∃ L, FreeList s.filsys s.image L ∧ Checked g (· ∈ L) s.image fun _ => True

section Pass2

variable {g : Given} {C D : State → Prop} {s s' : State} {j : Word} {fuel : Nat}

/-- What pass 2 keeps, `bitmap` being as pass 1 has left it. -/
def Freeing (g : Given) (bitmap : Word → Byte) (s : State) : Prop :=
  s.bitmap = bitmap ∧ Checked g (fun b => bitmap b = 0) s.image fun _ => True

/-- A free block is put on the list. -/
lemma guarded_freeBlock {bitmap : Word → Byte} (h : Guarded g (Freeing g bitmap) s) (pos : 3 ≤ g.isize.toNat)
    (ge : g.isize ≤ j) (lt : j < g.fsize) :
    wp (freeBlock j) (fun _ s' => Guarded g (Freeing g bitmap) s') (Stopped g) s := by
  unfold freeBlock
  rw [wp_bind]
  refine wp_post (h.bitmapAt (D := fun s₁ => Freeing g bitmap s₁ ∧ s.bitmap = bitmap) (fun _ => lt)
    fun c => ⟨c, c.1⟩) fun x s₁ got => ?_
  obtain ⟨⟨read, -⟩, h₁⟩ := got
  rw [wp_ite]
  split
  · next free =>
    rw [wp_bind, wp_get]
    have count : ∀ {s : State}, Guarded g (Freeing g bitmap) s → wp (modifyFilsys fun fs =>
        { fs.setFree fs.sNfree.toNat j with sTfree := fs.sTfree + 1, sNfree := fs.sNfree + 1 })
        (fun _ s' => Guarded g (Freeing g bitmap) s') (Stopped g) s := by
      intro s h
      rw [wp_modifyFilsys]
      exact h.quiet ⟨rfl, rfl, rfl, id, rfl⟩ rfl rfl id
    split
    · rw [wp_bind, spill, wp_bind, wp_get, wp_bind, wp_dwrite, wp_modifyFilsys]
      refine count ?_
      have wrote : Guarded g (Freeing g bitmap) { s₁ with
          image := Function.update s₁.image j (s₁.fsBlock 3)
          events := .wrote s₁.image j (s₁.fsBlock 3) :: s₁.events } := by
        refine h₁.step (.wrote s₁.image j (s₁.fsBlock 3)) ⟨rfl, rfl, rfl, id, rfl⟩ rfl rfl (fun _ _ => trivial)
          fun c _ => ⟨c.1.1, c.1.2.other pos (.inr ⟨ge, ?_⟩)⟩
        rw [← c.2, ← read]
        exact free
      exact wrote.quiet ⟨rfl, rfl, rfl, id, rfl⟩ rfl rfl id
    · exact count (h₁.mono And.left)
  · exact h₁.mono And.left

/-- Pass 2 builds the free list of the blocks that are not marked. -/
lemma guarded_pass2 (h : Guarded g (fun s => Checked g s.unmarked s.image fun _ => True) s)
    (pos : 3 ≤ g.isize.toNat) (lt : g.isize.toNat < g.fsize.toNat) (enough : 65536 ≤ fuel) :
    wp (pass2 fuel) (fun _ s' => Guarded g (Ready g) s') (Stopped g) s := by
  have isize := h.1.isize
  have fsize := h.1.fsize
  have kept : wp (pass2 fuel) (fun _ s' => Guarded g (Freeing g s.bitmap) s') (Stopped g) s := by
    have start : Guarded g (Freeing g s.bitmap) { s.answered .rebuildFreeList with
        filsys := { s.filsys.setFree 0 0 with sNinode := 0, sNfree := 1, sTfree := 0 } } := by
      have asked : Guarded g (Freeing g s.bitmap) (s.answered .rebuildFreeList) := h.answered _ fun c => ⟨rfl, c⟩
      exact asked.quiet ⟨rfl, rfl, rfl, id, rfl⟩ rfl rfl id
    have top : (s.filsys.sFsize - 1).toNat < g.fsize.toNat := by
      rw [fsize, BitVec.toNat_sub_of_le (BitVec.le_def.mpr (Nat.le_trans (by decide) (Nat.le_trans pos (Nat.le_of_lt lt))))]
      exact Nat.sub_lt (Nat.lt_of_le_of_lt (Nat.zero_le _) lt) Nat.one_pos
    unfold pass2
    rw [wp_bind, wp_yes, wp_ite, if_pos (h.1.yes 0), wp_bind, wp_modifyFilsys, wp_bind, wp_get, wp_bind]
    refine wp_post (wp_loop (fun (j : Word) s' => Guarded g (Freeing g s.bitmap) s' ∧ j.toNat < g.fsize.toNat) ?_ ?_
      ⟨start, top⟩) fun j s' got => guarded_writeSuper got.1.1 fun _ c => ⟨c.1, c.2.other pos (.inl rfl)⟩
    · intro j s' h goes
      have ge : g.isize.toNat ≤ j.toNat := isize ▸ BitVec.le_def.mp (of_decide_eq_true goes)
      rw [wp_bind]
      refine wp_post (guarded_freeBlock h.1 pos (BitVec.le_def.mpr ge) (BitVec.lt_def.mpr h.2)) fun _ s'' h' => ⟨h', ?_⟩
      have one : (1 : Word) ≤ j := BitVec.le_def.mpr (Nat.le_trans (by decide) (Nat.le_trans pos ge))
      rw [BitVec.toNat_sub_of_le one]
      exact Nat.lt_of_le_of_lt (Nat.sub_le ..) h.2
    · intro j s' h _
      exact h.1.stopped
  have safe : ¬ SpillsToSuper s.bitmap s.filsys.sIsize s.filsys.sFsize := by
    intro spills
    rw [isize] at spills
    rw [spills.1] at pos
    exact absurd pos (by decide)
  have rebuilt := wp_pass2 h.1.mounted (h.1.yes 0) (by rw [isize]; omega) (by rw [isize, fsize]; exact lt)
    (Nat.le_trans (Nat.le_trans (Nat.sub_le ..) (Nat.le_of_lt s.filsys.sFsize.isLt)) enough) safe
  refine wp_mono (rebuilt.and kept) (fun _ s' got => got.2.mono fun c => ?_) fun _ => And.right
  refine ⟨_, got.1.list, c.2.mono fun b mem => ?_⟩
  exact ((mem_unused (Nat.le_of_lt s.filsys.sFsize.isLt)).mp mem).2.2

end Pass2

/-! ## Pass 3 -/

/-- Pass 3 is at inode `n`, which is `ino`, and none of `K` is a block of a file. -/
structure Owns (g : Given) (n : Word) (ino : Dinode) (image : Image) (K : List Word) : Prop where
  inside : InTable g n
  file : IsFile ino
  own : inodeAt image n = ino
  checked : Checked g (· ∈ K) image fun _ => True

/-- Pass 3 is at inode `n`, and the free list holds no block of a file. -/
def Unique (g : Given) (n : Word) (ino : Dinode) (s : State) : Prop :=
  ∃ L, FreeList s.filsys s.image L ∧ Owns g n ino s.image L

/-- Block `newno` has left the free list, and is no block of a file. The blocks of the files are those of `before`. -/
def Alloced (g : Given) (n : Word) (ino : Dinode) (before : Image) (newno : Word) (fs : Filesys) (image : Image) :
    Prop :=
  ∃ L, FreeList fs image L ∧ Owns g n ino image (newno :: L) ∧ (g.isize ≤ newno ∧ newno < g.fsize) ∧ newno ∉ L ∧
    ∀ b, Held g (· ∈ newno :: L) b → image b = before b

section Pass3

variable {g : Given} {C D : State → Prop} {s s' : State} {image before : Image} {n bno newno value : Word}
  {ino ino' : Dinode} {k fuel : Nat} {L K : List Word}

/-- The tree of an inode that has its own blocks. -/
lemma Owns.tree (h : Owns g n ino image K) : Tree g (· ∈ K) image ino (ino.iSize.oBlkno.toNat + 1) := by
  have tree := h.checked n h.inside trivial
  rw [h.own] at tree
  exact tree h.file

/-- Fewer blocks to keep apart from. -/
lemma Owns.mono (h : Owns g n ino image K) (sub : ∀ b ∈ L, b ∈ K) : Owns g n ino image L :=
  ⟨h.inside, h.file, h.own, h.checked.mono sub⟩

/-- The superblock or a free block is written. -/
lemma Owns.other (h : Owns g n ino image K) {x : Word} {data : Block} (pos : 3 ≤ g.isize.toNat)
    (other : x = 1 ∨ (g.isize ≤ x ∧ x ∈ K)) : Owns g n ino (Function.update image x data) K where
  inside := h.inside
  file := h.file
  own := by
    have blk := h.inside.blk
    unfold inodeAt
    rw [Function.update_of_ne]
    · exact h.own
    · intro e
      cases other with
      | inl one =>
        rw [e, one] at blk
        exact absurd blk.1 (by decide)
      | inr data => exact absurd blk.2 (Nat.not_lt.mpr (BitVec.le_def.mp (e ▸ data.1)))
  checked := h.checked.other pos other

/-- An entry of an indirect block is replaced. -/
lemma Owns.setEntry (h : Owns g n ino image K) {x : Word} {j : Nat} (held : Held g (· ∈ K) x)
    (fits : Fits g newno) (copy : Held g (· ∈ K) ((image x).word j) →
      Held g (· ∈ K) newno ∧ image newno = image ((image x).word j) ∧ newno ≠ x) :
    Owns g n ino (withEntry image x j newno) K where
  inside := h.inside
  file := h.file
  own := by
    unfold inodeAt withEntry
    rw [Function.update_of_ne (held.ne_inodeBlk h.inside).symm]
    exact h.own
  checked := h.checked.replace held fits copy

/-- The blocks of the list are above the superblock. -/
lemma freeList_writeSuper {fs : Filesys} {data : Block} (h : FreeList fs image L) (isize : fs.sIsize = g.isize)
    (pos : 3 ≤ g.isize.toNat) : FreeList fs (Function.update image 1 data) L := by
  refine h.congr rfl rfl rfl rfl rfl rfl fun b mem => Function.update_of_ne ?_ _ _
  rintro rfl
  have ge := (h.range _ mem).1
  rw [isize, BitVec.le_def] at ge
  exact absurd ge (by show ¬ g.isize.toNat ≤ 1; omega)

/-- What `blk_alloc` takes from the list, from `s_free` or from a full `s_free` on the disk. -/
lemma freeList_taken {fs : Filesys} {cell : Word → Block} {b : Word} (h : FreeList fs cell (b :: L)) :
    (fs.sNfree - 1 ≠ 0 → FreeList { fs with sNfree := fs.sNfree - 1, sTfree := fs.sTfree - 1 } cell L) ∧
      (fs.sNfree - 1 = 0 → FreeList { fs with
        sNfree := (cell b).word 0
        sFree := fun j => (cell b).word (j + 1)
        sTfree := fs.sTfree - 1 } cell L) := by
  have count : fs.freeRec.count - 1 = (fs.sNfree - 1).toNat := h.nfree_sub.symm
  refine ⟨fun more => h.pop rfl rfl rfl rfl (fun _ _ => rfl) ?_, fun last => h.pop rfl rfl rfl rfl (fun _ _ => rfl) ?_⟩
  · have rest := h.chain.pop_rest (by rw [count]; exact fun e => more (BitVec.eq_of_toNat_eq e))
    rwa [count] at rest
  · have rest := h.chain.refill_rest (by rw [count, last]; rfl)
    refine rest.congr rfl (fun i hi => ?_) fun _ _ => ⟨rfl, fun _ _ => rfl⟩
    have lt : i < 50 := Nat.lt_of_lt_of_le hi rest.count_pos.2
    simp only [Filesys.freeRec, Filesys.free, lt, dite_true, Block.freeRec]

/-- The block that `blk_alloc` has found is counted. -/
lemma guarded_blkAllocTake (ne : newno ≠ 0) (pos : 3 ≤ g.isize.toNat)
    (h : Guarded g (fun s =>
      Alloced g n ino before newno { s.filsys with sTfree := s.filsys.sTfree - 1 } s.image) s) :
    wp (do
        modifyFilsys fun fs => { fs with sTfree := fs.sTfree - 1 }
        let fs := (← get).filsys
        if newno < fs.sIsize ∨ fs.sFsize ≤ newno then pure 0
        else do
          writeSuper
          pure newno)
      (fun r s' => (r = 0 → Guarded g (Unique g n ino) s') ∧
        (r ≠ 0 → Guarded g (fun s' => Alloced g n ino before r s'.filsys s'.image) s' ∧
          ∃ image data, s'.events = .wrote image 1 data :: s.events)) (Stopped g) s := by
  have isize := h.1.isize
  have fsize := h.1.fsize
  have counted : Guarded g (fun s => Alloced g n ino before newno s.filsys s.image)
      { s with filsys := { s.filsys with sTfree := s.filsys.sTfree - 1 } } :=
    h.quiet ⟨rfl, rfl, rfl, id, rfl⟩ rfl rfl id
  rw [wp_bind, wp_modifyFilsys, wp_bind, wp_get, wp_ite]
  split
  · next out =>
    refine ⟨fun _ => counted.mono fun c => ?_, fun ne => absurd rfl ne⟩
    obtain ⟨_, -, -, data, -⟩ := c
    rw [isize, fsize, BitVec.lt_def, BitVec.le_def] at out
    have lo := BitVec.le_def.mp data.1
    have hi := BitVec.lt_def.mp data.2
    omega
  · rw [writeSuper, wp_bind, wp_bind, wp_get, wp_dwrite]
    refine ⟨fun zero => absurd zero ne, fun _ => ⟨?_, _, _, rfl⟩⟩
    refine counted.step (.wrote s.image 1 _) ⟨rfl, rfl, rfl, id, rfl⟩ rfl rfl (fun _ _ => trivial) fun c _ => ?_
    obtain ⟨L, list, owns, data, fresh, same⟩ := c
    refine ⟨L, freeList_writeSuper list isize pos, owns.other pos (.inl rfl), data, fresh, fun b held => ?_⟩
    exact (Function.update_of_ne (held.ne_one pos) _ _).trans (same b held)

/-- `blk_alloc` takes a block that is no block of a file. -/
lemma guarded_blkAlloc (h : Guarded g (Unique g n ino) s) (pos : 3 ≤ g.isize.toNat) :
    wp blkAlloc
      (fun r s' => (r = 0 → Guarded g (Unique g n ino) s') ∧
        (r ≠ 0 → Guarded g (fun s' => Alloced g n ino s.image r s'.filsys s'.image) s' ∧
          ∃ image data, s'.events = .wrote image 1 data :: s.events)) (Stopped g) s := by
  unfold blkAlloc
  rw [wp_bind, wp_modifyFilsys, wp_bind, wp_get, wp_ite]
  split
  · exact h.1.safe
  · rw [wp_ite]
    split
    · rw [wp_bind, wp_modifyFilsys]
      refine ⟨fun _ => h.quiet ⟨rfl, rfl, rfl, id, rfl⟩ rfl rfl fun c => ?_, fun ne => absurd rfl ne⟩
      obtain ⟨L, list, owns⟩ := c
      exact ⟨L, list.congr rfl rfl rfl (BitVec.sub_add_cancel ..) rfl rfl fun _ _ => rfl, owns⟩
    · next ne =>
      generalize at_newno : ({ s.filsys with sNfree := s.filsys.sNfree - 1 } : Filesys).free
        (s.filsys.sNfree - 1).toNat = newno at ne ⊢
      -- the block is the first of the list
      have top : ∀ {s : State}, Unique g n ino s → s.filsys.free (s.filsys.sNfree - 1).toNat = newno →
          ∃ L, FreeList s.filsys s.image (newno :: L) ∧ Owns g n ino s.image (newno :: L) := by
        intro s c found
        obtain ⟨L, list, owns⟩ := c
        cases L with
        | nil => exact absurd (found.symm.trans list.top_nil) ne
        | cons b L =>
          have eq : b = newno := list.top_cons.1.symm.trans found
          exact ⟨L, eq ▸ list, eq ▸ owns⟩
      split
      · next last =>
        rw [wp_bind, blkAllocRefill, wp_bind, wp_daread, wp_bind, wp_get, wp_modifyFilsys]
        refine guarded_blkAllocTake ne pos (h.quiet ⟨rfl, rfl, rfl, id, rfl⟩ rfl rfl fun c => ?_)
        obtain ⟨L, list, owns⟩ := top c at_newno
        have range := list.range newno List.mem_cons_self
        rw [h.1.isize, h.1.fsize] at range
        exact ⟨L, (freeList_taken list).2 last, owns, range, (List.nodup_cons.mp list.nodup).1, fun _ _ => rfl⟩
      · next more =>
        refine guarded_blkAllocTake ne pos (h.quiet ⟨rfl, rfl, rfl, id, rfl⟩ rfl rfl fun c => ?_)
        obtain ⟨L, list, owns⟩ := top c at_newno
        have range := list.range newno List.mem_cons_self
        rw [h.1.isize, h.1.fsize] at range
        exact ⟨L, (freeList_taken list).1 more, owns, range, (List.nodup_cons.mp list.nodup).1, fun _ _ => rfl⟩

/-- Block `value` has been copied to a block that was free. -/
def Copied (g : Given) (n : Word) (ino : Dinode) (before : Image) (value newno : Word) (s : State) : Prop :=
  Alloced g n ino before newno s.filsys s.image ∧ s.image newno = s.image value

/-- A block that two files have is copied. -/
lemma guarded_copyBlock (h : Guarded g (Unique g n ino) s) (pos : 3 ≤ g.isize.toNat) :
    wp (copyBlock value)
      (fun r s' => (r = 0 → Guarded g (Unique g n ino) s') ∧
        (r ≠ 0 → Guarded g (Copied g n ino s.image value r) s' ∧
          ∃ image data image' data', s'.events = .wrote image r data :: .wrote image' 1 data' :: s.events))
      (Stopped g) s := by
  unfold copyBlock
  rw [wp_bind]
  refine wp_post (guarded_blkAlloc h pos) fun r s₁ got => ?_
  rw [wp_ite]
  split
  · next zero => exact ⟨fun _ => got.1 zero, fun ne => absurd rfl ne⟩
  · next ne =>
    obtain ⟨h₁, image, data, events⟩ := got.2 ne
    rw [wp_bind, wp_daread, wp_bind, wp_get, wp_bind, wp_dwrite, wp_pure]
    refine ⟨fun zero => absurd zero ne, fun _ => ⟨?_, _, _, image, data, by rw [← events]⟩⟩
    refine h₁.step (.wrote s₁.image r (s₁.image value)) ⟨rfl, rfl, rfl, id, rfl⟩ rfl rfl (fun _ _ => trivial)
      fun c _ => ?_
    obtain ⟨L, list, owns, range, fresh, same⟩ := c
    refine ⟨⟨L, ?_, owns.other pos (.inr ⟨range.1, List.mem_cons_self⟩), range, fresh, fun b held => ?_⟩, ?_⟩
    · refine list.congr rfl rfl rfl rfl rfl rfl fun b mem => Function.update_of_ne ?_ _ _
      exact fun e => fresh (e ▸ mem)
    · refine (Function.update_of_ne ?_ _ _).trans (same b held)
      exact held.ne_free pos range.1 List.mem_cons_self
    · show Function.update s₁.image r (s₁.image value) r = Function.update s₁.image r (s₁.image value) value
      rw [Function.update_self]
      by_cases same : value = r
      · rw [same, Function.update_self]
      · rw [Function.update_of_ne same]

/-- The inode is written, with blocks of its own. -/
lemma guarded_put (h : Guarded g C s)
    (ready : C s → ∃ L ino, FreeList s.filsys s.image L ∧ Owns g n ino s.image L ∧ IsFile ino' ∧
      Tree g (· ∈ L) s.image ino' (ino'.iSize.oBlkno.toNat + 1)) :
    wp (iwrite n ino') (fun _ s' => Guarded g (Unique g n ino') s') (Stopped g) s := by
  have isize := h.1.isize
  rw [wp_iwrite]
  refine h.step (.wrote s.image (inodeBlk n) ((s.image (inodeBlk n)).setDinode (inodeIdx n) ino'))
    ⟨rfl, rfl, rfl, id, rfl⟩ rfl rfl (fun _ _ => trivial) fun c _ => ?_
  obtain ⟨L, ino, list, owns, file, tree⟩ := ready c
  refine ⟨L, ?_, owns.inside, file, ?_, ?_⟩
  · refine list.congr rfl rfl rfl rfl rfl rfl fun b mem => Function.update_of_ne ?_ _ _
    have ge := (list.range b mem).1
    rw [isize] at ge
    rintro rfl
    exact absurd owns.inside.blk.2 (Nat.not_lt.mpr (BitVec.le_def.mp ge))
  · exact inodeAt_putInode.trans (if_pos rfl)
  · exact owns.checked.iwrite owns.inside (fun _ _ _ => trivial) fun _ _ => tree

/-- A copy of an indirect block is entered in the inode. -/
lemma guarded_uniqueIndirect (h : Guarded g (Unique g n ino) s) (pos : 3 ≤ g.isize.toNat)
    (indirect : k = 18 ∨ k = 19) :
    wp (uniqueIndirect n ino k) (fun r s' => Guarded g (Unique g n r) s') (Stopped g) s := by
  have held : ∀ {image : Image} {K : List Word}, Owns g n ino image K → Held g (· ∈ K) (ino.addr k) := by
    intro image K owns
    cases indirect with
    | inl single => exact single ▸ owns.tree.single
    | inr double => exact double ▸ owns.tree.double
  unfold uniqueIndirect
  rw [wp_ite]
  split
  · exact h
  · next there =>
    have below : Unique g n ino s → ino.addr k < g.fsize := by
      intro ⟨L, _, owns⟩
      exact ((held owns).fits.resolve_left there).2
    rw [wp_bind]
    refine wp_post (h.bitmapAt (D := Unique g n ino) below id) fun x s₁ got => ?_
    obtain ⟨-, h₁⟩ := got
    rw [wp_ite]
    split
    · rw [wp_bind]
      exact h₁.setBitmap (D := Unique g n ino) (fun ⟨L, _, owns⟩ => ((held owns).fits.resolve_left there).2) id
    · rw [wp_bind, wp_yes, wp_ite, if_pos (h₁.1.yes 0), wp_bind]
      have asked : Guarded g (Unique g n ino) (s₁.answered (.indirectMultiply k n (ino.addr k))) := h₁.answered _ id
      refine wp_post (guarded_copyBlock asked pos) fun r s₂ copied => ?_
      rw [wp_ite]
      split
      · next zero => exact copied.1 zero
      · next ne =>
        rw [wp_bind]
        refine guarded_put (copied.2 ne).1 fun c => ?_
        obtain ⟨⟨L, list, owns, range, fresh, -⟩, same⟩ := c
        have owns : Owns g n ino s₂.image L := owns.mono fun b mem => List.mem_cons_of_mem _ mem
        exact ⟨L, ino, list, owns, owns.file, owns.tree.setIndirect indirect there (.inr ⟨range, fresh⟩) ne same⟩

/-- A copy of a block is entered where the block was. -/
lemma guarded_uniqueBlock (h : Guarded g (Unique g n ino) s) (pos : 3 ≤ g.isize.toNat)
    (le : bno.toNat ≤ ino.iSize.oBlkno.toNat) :
    wp (uniqueBlock n ino bno) (fun r s' => Guarded g (Unique g n r) s') (Stopped g) s := by
  unfold uniqueBlock
  rw [wp_bind]
  refine wp_mono wp_getblkno (fun b s₁ got => ?_) fun _ => False.elim
  obtain ⟨at_b, quiet⟩ := got
  rw [← quiet.image] at at_b
  have h₁ : Guarded g (Unique g n ino) s₁ := by
    rw [quiet]
    exact h.quiet ⟨rfl, rfl, rfl, id, rfl⟩ rfl rfl id
  rw [wp_ite]
  split
  · exact h₁
  · next there =>
    have below : ∀ {s : State}, b = blkno s.image ino bno → Unique g n ino s → b < g.fsize := by
      rintro s rfl ⟨L, -, owns⟩
      exact ((owns.tree.blocks bno (Nat.lt_succ_of_le le)).resolve_left there).2
    rw [wp_bind]
    refine wp_post (h₁.bitmapAt (D := Unique g n ino) (below at_b) id) fun x s₂ got => ?_
    obtain ⟨⟨-, image⟩, h₂⟩ := got
    rw [← image] at at_b
    rw [wp_ite]
    split
    · rw [wp_bind]
      exact h₂.setBitmap (D := Unique g n ino) (below at_b) id
    · rw [wp_bind, wp_yes, wp_ite, if_pos (h₂.1.yes 0), wp_bind]
      have asked : Guarded g (Unique g n ino) (s₂.answered (.blockMultiply bno n b)) := h₂.answered _ id
      refine wp_post (guarded_copyBlock asked pos) fun r s₃ copied => ?_
      rw [wp_ite]
      split
      · next zero => exact copied.1 zero
      · next ne =>
        obtain ⟨h₃, past⟩ := copied.2 ne
        have owns : ∀ {L : List Word}, Owns g n ino s₃.image (r :: L) → Owns g n ino s₃.image L :=
          fun owns => owns.mono fun b mem => List.mem_cons_of_mem _ mem
        rw [wp_bind]
        by_cases direct : bno.toNat < 18
        · rw [wp_setblkno_direct direct, wp_bind]
          refine guarded_put h₃ fun c => ?_
          obtain ⟨⟨L, list, all, range, -⟩, -⟩ := c
          exact ⟨L, ino, list, owns all, all.file, (owns all).tree.setAddr direct (.inr range)⟩
        · by_cases single : bno.toNat < 274
          · rw [wp_setblkno_single direct single]
            split
            · exact h₃.stopped
            · next two =>
              have entry : b = (s₂.image (ino.addr 18)).word (bno.toNat - 18) := by
                rw [at_b, blkno, if_neg direct, if_pos single, Uzi.entry, if_neg two]
              have set : Guarded g (Unique g n ino) { s₃ with
                  readbuf := (s₃.image (ino.addr 18)).setWord (bno.toNat - 18) r
                  image := withEntry s₃.image (ino.addr 18) (bno.toNat - 18) r
                  events := .wrote s₃.image (ino.addr 18) ((s₃.image (ino.addr 18)).setWord (bno.toNat - 18) r) ::
                    s₃.events } := by
                refine h₃.step (.wrote s₃.image (ino.addr 18) ((s₃.image (ino.addr 18)).setWord (bno.toNat - 18) r))
                  ⟨rfl, rfl, rfl, id, rfl⟩ rfl rfl (fun _ _ => trivial) fun c _ => ?_
                obtain ⟨⟨L, list, all, range, fresh, kept⟩, same⟩ := c
                have held : Held g (· ∈ r :: L) (ino.addr 18) := all.tree.single
                have apart : ino.addr 18 ∉ r :: L := (held.resolve_left two).2
                refine ⟨L, list.congr rfl rfl rfl rfl rfl rfl fun b mem => Function.update_of_ne ?_ _ _, ?_⟩
                · exact fun e => apart (List.mem_cons_of_mem _ (e ▸ mem))
                · refine (owns all).setEntry (held.mono fun b mem => List.mem_cons_of_mem _ mem) (.inr range) fun _ => ?_
                  have kept : s₃.image (ino.addr 18) = s₂.image (ino.addr 18) := kept _ held
                  rw [kept, ← entry]
                  exact ⟨.inr ⟨range, fresh⟩, same, fun e => apart (e ▸ List.mem_cons_self)⟩
              rw [wp_bind]
              refine guarded_put set fun c => ?_
              obtain ⟨L, list, owns⟩ := c
              exact ⟨L, ino, list, owns, owns.file, owns.tree⟩
          · rw [wp_setblkno_double (Nat.le_of_not_lt single)]
            split
            · exact h₃.stopped
            · split
              · exact h₃.1.safe
              · -- the block is behind the double indirect block, which has gone wrong
                have set : Guarded g (fun _ => False) { s₃ with
                    readbuf := (s₃.image (holder s₃.image ino bno)).setWord ((bno.toNat - 274) % 256) bno
                    image := Function.update s₃.image (ino.addr 19)
                      ((s₃.image (holder s₃.image ino bno)).setWord ((bno.toNat - 274) % 256) bno)
                    events := .wrote s₃.image (ino.addr 19)
                      ((s₃.image (holder s₃.image ino bno)).setWord ((bno.toNat - 274) % 256) bno) :: s₃.events } := by
                  refine h₃.step (.wrote s₃.image (ino.addr 19)
                    ((s₃.image (holder s₃.image ino bno)).setWord ((bno.toNat - 274) % 256) bno))
                    ⟨rfl, rfl, rfl, id, rfl⟩ rfl rfl (fun _ _ => trivial) fun _ harmless => ?_
                  obtain ⟨_, _, _, _, events⟩ := past
                  rw [events] at harmless
                  exact single harmless
                rw [wp_bind]
                exact guarded_put set False.elim

/-- Pass 3 checks inode `n`. -/
lemma guarded_uniqueInode (h : Guarded g (Ready g) s) (pos : 3 ≤ g.isize.toNat)
    (below : n.toNat < 8 * (g.isize.toNat - 2)) :
    wp (uniqueInode fuel n) (fun _ s' => Guarded g (Ready g) s') (Stopped g) s := by
  unfold uniqueInode
  rw [wp_bind, wp_iread, wp_ite]
  have read : Guarded g (fun s' => Ready g s' ∧ InTable g n ∧ inodeAt s'.image n = inodeAt s.image n) { s with
      readbuf := s.image (inodeBlk n)
      events := .inode n (inodeAt s.image n) :: s.events } := by
    refine h.step (.inode n (inodeAt s.image n)) ⟨rfl, rfl, rfl, id, rfl⟩ rfl rfl (fun _ _ => trivial)
      fun c harmless => ⟨c, ⟨?_, below⟩, rfl⟩
    exact Nat.pos_of_ne_zero fun zero => harmless.inode (BitVec.eq_of_toNat_eq zero)
  split
  · exact read.mono And.left
  · next file =>
    have start : Guarded g (Unique g n (inodeAt s.image n)) { s with
        readbuf := s.image (inodeBlk n)
        events := .inode n (inodeAt s.image n) :: s.events } := by
      refine read.mono fun c => ?_
      obtain ⟨⟨L, list, checked⟩, inside, own⟩ := c
      refine ⟨L, list, inside, ?_, own, checked⟩
      unfold IsFile
      exact Classical.not_and_iff_not_or_not.mp file |>.imp not_not.mp not_not.mp
    have ready : ∀ {s : State} {ino : Dinode}, Unique g n ino s → Ready g s :=
      fun ⟨L, list, owns⟩ => ⟨L, list, owns.checked⟩
    rw [wp_bind]
    refine wp_post (guarded_uniqueIndirect start pos (.inl rfl)) fun ino₁ s₁ h₁ => ?_
    rw [wp_bind]
    refine wp_post (guarded_uniqueIndirect h₁ pos (.inr rfl)) fun ino₂ s₂ h₂ => ?_
    have begun : Guarded g (Unique g n ino₂) { s₂ with events := .blocks ino₂.iSize.oBlkno :: s₂.events } :=
      h₂.step (.blocks ino₂.iSize.oBlkno) ⟨rfl, rfl, rfl, id, rfl⟩ rfl rfl (fun _ _ => trivial) fun c _ => c
    rw [wp_bind, wp_emit, wp_bind]
    refine wp_post (wp_loop (fun p s => Guarded g (Unique g n p.2) s) ?_ ?_ begun) fun p s' got => got.1.mono ready
    · intro p s h goes
      rw [wp_bind]
      exact wp_post (guarded_uniqueBlock h pos (BitVec.le_def.mp (of_decide_eq_true goes))) fun _ _ h' => h'
    · intro p s h _
      exact h.stopped

/-- Pass 3 finds the blocks that pass 1 has checked. -/
lemma guarded_pass3 (h : Guarded g (Ready g) s) (pos : 3 ≤ g.isize.toNat) :
    wp (pass3 fuel) (fun _ s' => Guarded g (Ready g) s') (Stopped g) s := by
  have isize := h.1.isize
  have fsize := h.1.fsize
  unfold pass3
  rw [wp_bind, wp_get, wp_bind]
  refine wp_post (wp_loop (fun (_ : Word) s => Guarded g (Ready g) s) ?_ ?_ h) fun _ s₁ got => ?_
  · intro b s h goes
    have below : b < g.fsize := fsize ▸ of_decide_eq_true goes
    rw [wp_bind]
    exact wp_post (h.setBitmap (fun _ => below) fun c => c) fun _ s' h' => h'
  · intro b s h _
    exact h.stopped
  · rw [wp_bind]
    refine wp_post (wp_loop (fun (_ : Word) s => Guarded g (Ready g) s) ?_ ?_ got.1) fun _ s₂ got => got.1
    · intro n s h goes
      have below := of_decide_eq_true goes
      rw [inodesEnd, isize] at below
      rw [wp_bind]
      exact wp_post (guarded_uniqueInode h pos (by omega)) fun _ s' h' => h'
    · intro n s h _
      exact h.stopped

end Pass3

end Fsck
end Uzi
