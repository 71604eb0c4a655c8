import Uzi.Utils.FsckFree
import Uzi.Utils.FsckTrace

/-!
# What `fsck` uses of its maps

The indices into `bitmap` and `linkmap` and the paths in `ename`, over whole runs with every question answered yes.
Where a run goes wrong first, it does so in one of a few branches (`Harmless`): up to there, what pass 1 has checked
is what pass 3 finds (`Tree`), and what pass 4 finds in a directory names an inode of the table.
-/

namespace Uzi
open Exec

namespace Fsck

/-- What a run is given: the image, the sizes in its superblock, and the memory behind a local `struct direct`. -/
structure Given where
  image : Image
  isize : Word
  fsize : Word
  stack : List Byte

/-- An inode of the table. -/
def InTable (g : Given) (n : Word) : Prop := 1 ≤ n.toNat ∧ n.toNat < 8 * (g.isize.toNat - 2)

/-- What is used is there: `bitmap` has `s_fsize` entries, `linkmap` is used for the inodes of the table, and a path
fits into `ename` with its end. -/
def InBounds (g : Given) : Event → Prop
  | .bitmap i => i < g.fsize
  | .linkmap i => InTable g i
  | .path ename => ename.length < 150
  | _ => True

/-! ## The branches that go wrong -/

/-- The name is `.` or `..`. -/
def Dots (d : Direct) : Prop := isName d [0x2e] = true ∨ isName d [0x2e, 0x2e] = true

/-- `ckdir`, `depth` calls deep in directory `inum`, which was found from directory `pnum`, goes down into an entry:
it zaps none that is out of range or bogus, and follows none on the lowest level, no `.` or `..`, and none that leads
to one of the two directories. -/
@[mk_iff]
structure GoesDown (g : Given) (linkmap : Word → Word) (depth : Nat) (inum pnum : Word) (d : Direct) : Prop where
  inside : d.dIno.toNat < 8 * g.isize.toNat
  known : linkmap d.dIno ≠ -1
  level : depth < MAXDEPTH
  other : ¬ Dots d
  inum : d.dIno ≠ inum
  pnum : d.dIno ≠ pnum

/-- An entry of the directory with path `name` has no inode number behind the table that the test lets pass, and where
`ckdir` goes down its path fits. -/
@[mk_iff]
structure EntryFits (g : Given) (linkmap : Word → Word) (depth : Nat) (inum pnum : Word) (name : List Byte)
    (d : Direct) : Prop where
  table : d.dIno.toNat < 8 * (g.isize.toNat - 2) ∨ 8 * g.isize.toNat ≤ d.dIno.toNat
  path : GoesDown g linkmap depth inum pnum d → name.length + (catName g.stack d).length + 1 < 150

/-- What is done after `past` takes none of the branches that go wrong: an entry of a double indirect block is zapped
in another block, a block number is used that is not in the file system, a block behind the double indirect block is
zapped or replaced, the count of the inodes goes round, and an entry of a directory does not fit. -/
def Harmless (g : Given) : Event → List Event → Prop
  | .wrote _ blk _, .asked _ (.doublyOutOfRange ..) _ :: past =>
    ∀ n d, lastInode past = some (n, d) → d.addr 19 = blk
  | .wrote .., .asked _ (.blockOutOfRange _ bno b) _ :: _ => bno.toNat < 274 ∧ b < g.fsize
  | .wrote .., .wrote .. :: .wrote .. :: .asked _ (.blockMultiply bno ..) _ :: _ => bno.toNat < 274
  | .inode n _, _ => n ≠ 0
  | .entry linkmap depth inum pnum name d, _ => EntryFits g linkmap depth inum pnum name d
  | _, _ => True

/-- Nothing has gone wrong. -/
def Clear (g : Given) : List Event → Prop
  | [] => True
  | e :: past => Harmless g e past ∧ Clear g past

/-- Everything that is used is there, up to where something has gone wrong. -/
def Safe (g : Given) : List Event → Prop
  | [] => True
  | e :: past => (Clear g (e :: past) → InBounds g e) ∧ Safe g past

/-- Where nothing goes wrong, everything that is used is there. -/
lemma Safe.inside {g : Given} {events : List Event} (h : Safe g events) (clear : Clear g events) :
    ∀ e ∈ events, InBounds g e := by
  induction events with
  | nil => exact fun _ mem => absurd mem List.not_mem_nil
  | cons e past ih =>
    intro e' mem
    cases List.mem_cons.mp mem with
    | inl here => exact here ▸ h.1 clear
    | inr there => exact ih h.2 clear.2 e' there

section Instances

variable {g : Given} {linkmap : Word → Word} {depth : Nat} {inum pnum : Word} {name : List Byte} {d : Direct}

instance : Decidable (Dots d) := inferInstanceAs (Decidable (_ ∨ _))

instance : Decidable (GoesDown g linkmap depth inum pnum d) := decidable_of_iff _ (goesDown_iff ..).symm

instance : Decidable (EntryFits g linkmap depth inum pnum name d) := decidable_of_iff _ (entryFits_iff ..).symm

instance decidableLast {blk : Word} :
    (last : Option (Word × Dinode)) → Decidable (∀ n d, last = some (n, d) → d.addr 19 = blk)
  | none => .isTrue nofun
  | some p => decidable_of_iff (p.2.addr 19 = blk) ⟨fun h n d e => by cases e; exact h, fun h => h p.1 p.2 rfl⟩

instance {e : Event} {past : List Event} : Decidable (Harmless g e past) := by
  unfold Harmless
  split
  all_goals infer_instance

instance decidableClear : (events : List Event) → Decidable (Clear g events)
  | [] => inferInstanceAs (Decidable True)
  | _ :: past =>
    have := decidableClear past
    inferInstanceAs (Decidable (_ ∧ Clear g past))

end Instances

/-! ## Runs -/

/-- A run, as far as it has come. -/
structure Run (g : Given) (s : State) : Prop where
  image : s.image = imageAfter g.image s.events
  isize : s.filsys.sIsize = g.isize
  fsize : s.filsys.sFsize = g.fsize
  mounted : s.filsys.sMounted = SMOUNTED
  yes : ∀ i, s.answers i = true
  stack : s.stack = g.stack
  safe : Safe g s.events

/-- A run in which `C` holds as long as nothing has gone wrong. -/
def Guarded (g : Given) (C : State → Prop) (s : State) : Prop := Run g s ∧ (Clear g s.events → C s)

/-- A run that has stopped. -/
def Stopped (g : Given) (e : Stop × State) : Prop := Safe g e.2.events

/-- What a step leaves alone. -/
structure Alike (s s' : State) : Prop where
  isize : s'.filsys.sIsize = s.filsys.sIsize
  fsize : s'.filsys.sFsize = s.filsys.sFsize
  mounted : s'.filsys.sMounted = s.filsys.sMounted
  yes : (∀ i, s.answers i = true) → ∀ i, s'.answers i = true
  stack : s'.stack = s.stack

/-- The state after `bitmap[i] = x`. -/
def State.marked (s : State) (i : Word) (x : Byte) : State :=
  { s with
    bitmap := Function.update s.bitmap i x
    events := .bitmap i :: s.events }

section Runs

variable {g : Given} {C D : State → Prop} {s s' : State} {i v n : Word} {x : Byte} {e : Event} {past : List Event}

/-- The image after one event more. -/
lemma imageAfter_cons {image : Image} : imageAfter image (e :: past) = imageAfter (imageAfter image past) [e] := by
  cases e <;> rfl

/-- One event more, which is in bounds. -/
lemma Run.step (h : Run g s) (alike : Alike s s') (image : s'.image = imageAfter s.image [e])
    (events : s'.events = e :: s.events) (used : Clear g (e :: s.events) → InBounds g e) : Run g s' where
  image := by
    rw [image, events, h.image]
    exact imageAfter_cons.symm
  isize := alike.isize.trans h.isize
  fsize := alike.fsize.trans h.fsize
  mounted := alike.mounted.trans h.mounted
  yes := alike.yes h.yes
  stack := alike.stack.trans h.stack
  safe := by
    rw [events]
    exact ⟨used, h.safe⟩

namespace Guarded

/-- Less is known. -/
lemma mono (h : Guarded g C s) (imp : C s → D s) : Guarded g D s := ⟨h.1, fun clear => imp (h.2 clear)⟩

/-- A step that is recorded. -/
lemma step (h : Guarded g C s) (e : Event) (alike : Alike s s') (image : s'.image = imageAfter s.image [e])
    (events : s'.events = e :: s.events) (used : C s → Harmless g e s.events → InBounds g e)
    (next : C s → Harmless g e s.events → D s') : Guarded g D s' := by
  refine ⟨h.1.step alike image events fun clear => used (h.2 clear.2) clear.1, fun clear => ?_⟩
  rw [events] at clear
  exact next (h.2 clear.2) clear.1

/-- A step that is not. -/
lemma quiet (h : Guarded g C s) (alike : Alike s s') (image : s'.image = s.image) (events : s'.events = s.events)
    (next : C s → D s') : Guarded g D s' := by
  refine ⟨⟨?_, ?_, ?_, ?_, alike.yes h.1.yes, alike.stack.trans h.1.stack, events ▸ h.1.safe⟩, fun clear => ?_⟩
  · rw [image, events, h.1.image]
  · exact alike.isize.trans h.1.isize
  · exact alike.fsize.trans h.1.fsize
  · exact alike.mounted.trans h.1.mounted
  · rw [events] at clear
    exact next (h.2 clear)

/-- What is known when the run has stopped. -/
lemma stopped (h : Guarded g C s) {r : Stop} : Stopped g (r, s) := h.1.safe

/-- A question, which is answered with yes. -/
lemma answered (h : Guarded g C s) (q : Question)
    (next : C s → D (s.answered q)) : Guarded g D (s.answered q) :=
  h.step (.asked s.image q (s.answers 0)) ⟨rfl, rfl, rfl, fun yes i => yes (i + 1), rfl⟩ rfl rfl (fun _ _ => trivial)
    fun c _ => next c

/-- `bitmap[i] = v`, where there is such an entry. -/
lemma setBitmap (h : Guarded g C s) (below : C s → i < g.fsize)
    (next : C s → D (s.marked i x)) :
    wp (setBitmap i x) (fun _ s' => Guarded g D s') (Stopped g) s := by
  rw [wp_setBitmap]
  split
  · exact h.step (.bitmap i) ⟨rfl, rfl, rfl, id, rfl⟩ rfl rfl (fun c _ => below c) fun c _ => next c
  · have used : Guarded g (fun _ => True) { s with events := .bitmap i :: s.events } :=
      h.step (.bitmap i) ⟨rfl, rfl, rfl, id, rfl⟩ rfl rfl (fun c _ => below c) fun _ _ => trivial
    exact used.stopped

/-- `bitmap[i]`. -/
lemma bitmapAt (h : Guarded g C s) (below : C s → i < g.fsize)
    (next : C s → D { s with events := .bitmap i :: s.events }) :
    wp (bitmapAt i) (fun y s' => (y = s.bitmap i ∧ s'.image = s.image) ∧ Guarded g D s') (Stopped g) s := by
  rw [wp_bitmapAt]
  split
  · exact ⟨⟨rfl, rfl⟩, h.step (.bitmap i) ⟨rfl, rfl, rfl, id, rfl⟩ rfl rfl (fun c _ => below c) fun c _ => next c⟩
  · have used : Guarded g (fun _ => True) { s with events := .bitmap i :: s.events } :=
      h.step (.bitmap i) ⟨rfl, rfl, rfl, id, rfl⟩ rfl rfl (fun c _ => below c) fun _ _ => trivial
    exact used.stopped

/-- `linkmap[i] = v`. -/
lemma setLinkmap (h : Guarded g C s) (inside : C s → InTable g i)
    (next : C s → D { s with linkmap := Function.update s.linkmap i v, events := .linkmap i :: s.events }) :
    wp (setLinkmap i v) (fun _ s' => Guarded g D s') (Stopped g) s := by
  rw [wp_setLinkmap]
  split
  · exact h.step (.linkmap i) ⟨rfl, rfl, rfl, id, rfl⟩ rfl rfl (fun c _ => inside c) fun c _ => next c
  · have used : Guarded g (fun _ => True) { s with events := .linkmap i :: s.events } :=
      h.step (.linkmap i) ⟨rfl, rfl, rfl, id, rfl⟩ rfl rfl (fun c _ => inside c) fun _ _ => trivial
    exact used.stopped

/-- `linkmap[i]`. -/
lemma linkmapAt (h : Guarded g C s) (inside : C s → InTable g i)
    (next : C s → D { s with events := .linkmap i :: s.events }) :
    wp (linkmapAt i) (fun v s' => v = s.linkmap i ∧ Guarded g D s') (Stopped g) s := by
  rw [wp_linkmapAt]
  split
  · refine ⟨rfl, ?_⟩
    exact h.step (.linkmap i) ⟨rfl, rfl, rfl, id, rfl⟩ rfl rfl (fun c _ => inside c) fun c _ => next c
  · have used : Guarded g (fun _ => True) { s with events := .linkmap i :: s.events } :=
      h.step (.linkmap i) ⟨rfl, rfl, rfl, id, rfl⟩ rfl rfl (fun c _ => inside c) fun _ _ => trivial
    exact used.stopped

end Guarded

end Runs

/-! ## The blocks of a file -/

/-- No block, or a block of the data area. -/
def Fits (g : Given) (b : Word) : Prop := b = 0 ∨ g.isize ≤ b ∧ b < g.fsize

/-- No block, or a block of the data area that is not free. -/
def Held (g : Given) (free : Word → Prop) (b : Word) : Prop := b = 0 ∨ (g.isize ≤ b ∧ b < g.fsize) ∧ ¬ free b

/-- The indirect blocks of an inode are not free, and its logical blocks below `upto` are in the data area. -/
structure Tree (g : Given) (free : Word → Prop) (image : Image) (ino : Dinode) (upto : Nat) : Prop where
  single : Held g free (ino.addr 18)
  double : Held g free (ino.addr 19)
  second : ino.addr 19 ≠ 0 → ∀ hi < 256, Held g free ((image (ino.addr 19)).word hi)
  blocks : ∀ bno : Word, bno.toNat < upto → Fits g (blkno image ino bno)

section Trees

variable {g : Given} {free free' : Word → Prop} {image image' : Image} {ino : Dinode} {upto : Nat} {b v : Word}

/-- A block that is held is in range or none. -/
lemma Held.fits (h : Held g free b) : Fits g b := by
  cases h with
  | inl zero => exact .inl zero
  | inr held => exact .inr held.1

/-- Fewer blocks are free. -/
lemma Held.mono (h : Held g free b) (sub : ∀ b, free' b → free b) : Held g free' b := by
  cases h with
  | inl zero => exact .inl zero
  | inr held => exact .inr ⟨held.1, fun mem => held.2 (sub b mem)⟩

/-- Block 1 holds the superblock. -/
lemma Held.ne_one (held : Held g free b) (pos : 3 ≤ g.isize.toNat) : b ≠ 1 := by
  rintro rfl
  have data := (held.resolve_left (by decide)).1.1
  exact absurd (BitVec.le_def.mp data) (by show ¬ g.isize.toNat ≤ 1; omega)

/-- A block that is held is not one that is free. -/
lemma Held.ne_free (held : Held g free b) (pos : 3 ≤ g.isize.toNat) (ge : g.isize ≤ v) (mem : free v) : b ≠ v := by
  rintro rfl
  cases held with
  | inl zero =>
    rw [zero] at ge
    exact absurd (BitVec.le_def.mp ge) (by show ¬ g.isize.toNat ≤ 0; omega)
  | inr data => exact data.2 mem

/-- A number out of range is none of a block. -/
lemma outOfRange_iff {fs : Filesys} (isize : fs.sIsize = g.isize) (fsize : fs.sFsize = g.fsize) :
    outOfRange fs b = true ↔ ¬ Fits g b := by
  unfold outOfRange Fits
  rw [isize, fsize, decide_eq_true_eq, not_or, BitVec.le_def, BitVec.lt_def, BitVec.le_def, BitVec.lt_def]
  exact and_congr Iff.rfl (by omega)

/-- A block of the data area or block 0: an indirect block, or what `getblkno` takes for one. -/
lemma blkno_congr (single : image' (ino.addr 18) = image (ino.addr 18) ∨ ino.addr 18 = 0)
    (double : ino.addr 19 ≠ 0 → image' (ino.addr 19) = image (ino.addr 19) ∧
      ∀ hi < 256, image' ((image (ino.addr 19)).word hi) = image ((image (ino.addr 19)).word hi)) (bno : Word) :
    blkno image' ino bno = blkno image ino bno := by
  have small := bno.isLt
  unfold blkno
  split
  · rfl
  · split
    · unfold entry
      split
      · rfl
      · next there => rw [single.resolve_right there]
    · split
      · rfl
      · next there =>
        obtain ⟨first, second⟩ := double there
        unfold doubly
        rw [first, second _ (by omega)]

namespace Tree

/-- Fewer blocks are free. -/
lemma mono (h : Tree g free image ino upto) (sub : ∀ b, free' b → free b) : Tree g free' image ino upto where
  single := h.single.mono sub
  double := h.double.mono sub
  second there hi lt := (h.second there hi lt).mono sub
  blocks := h.blocks

/-- A write elsewhere: neither to block 0 nor to a block of the data area that is not free. -/
lemma frame (h : Tree g free image ino upto) (same : ∀ b, Held g free b → image' b = image b) :
    Tree g free image' ino upto where
  single := h.single
  double := h.double
  second there hi lt := by
    rw [same _ h.double]
    exact h.second there hi lt
  blocks bno lt := by
    rw [blkno_congr (.inl (same _ h.single)) fun there => ⟨same _ h.double, fun hi lt => same _ (h.second there hi lt)⟩]
    exact h.blocks bno lt

/-- An entry of a block is replaced: one that is out of range, or by a copy of what is there. -/
lemma replace (h : Tree g free image ino upto) {x : Word} {j : Nat} (fits : Fits g v)
    (copy : Held g free ((image x).word j) → Held g free v ∧ image v = image ((image x).word j) ∧ v ≠ x) :
    Tree g free (Function.update image x ((image x).setWord j v)) ino upto := by
  have word : ∀ c k, k < 256 → (Function.update image x ((image x).setWord j v) c).word k =
      if c = x ∧ k = j then v else (image c).word k := by
    intro c k lt
    by_cases own : c = x
    · rw [own, Function.update_self, Block.word_setWord lt]
      simp only [true_and]
    · rw [Function.update_of_ne own, if_neg fun h => own h.1]
  refine ⟨h.single, h.double, fun two hi lt => ?_, fun bno lt => ?_⟩
  · rw [word _ _ lt]
    split
    · next own =>
      have old := h.second two hi lt
      rw [own.1, own.2] at old
      exact (copy old).1
    · exact h.second two hi lt
  · have old := h.blocks bno lt
    have small := bno.isLt
    unfold blkno at old ⊢
    split at old
    · next direct =>
      rw [if_pos direct]
      exact old
    · next direct =>
      rw [if_neg direct]
      split at old
      · next single =>
        rw [if_pos single]
        unfold entry at old ⊢
        split at old
        · next zero =>
          rw [if_pos zero]
          exact old
        · next there =>
          rw [if_neg there, word _ _ (by omega)]
          split
          · exact fits
          · exact old
      · next single =>
        rw [if_neg single]
        split at old
        · next zero =>
          rw [if_pos zero]
          exact old
        · next two =>
          rw [if_neg two]
          have hi : (bno.toNat - 274) / 256 < 256 := by omega
          have lo : (bno.toNat - 274) % 256 < 256 := Nat.mod_lt _ (by decide)
          have held := h.second two _ hi
          unfold doubly at old ⊢
          rw [word _ _ hi]
          split
          · next own =>
            rw [own.1, own.2] at held old
            obtain ⟨-, same, ne⟩ := copy held
            rw [word _ _ lo, if_neg fun h => ne h.1, same]
            exact old
          · rw [word _ _ lo]
            split
            · exact fits
            · exact old

/-- A direct number of the inode is replaced. -/
lemma setAddr (h : Tree g free image ino upto) {bno : Word} (direct : bno.toNat < 18) (fits : Fits g v) :
    Tree g free image (ino.setAddr bno.toNat v) upto := by
  have single : (ino.setAddr bno.toNat v).addr 18 = ino.addr 18 := by
    rw [addr_setAddr (by decide), if_neg (by omega)]
  have double : (ino.setAddr bno.toNat v).addr 19 = ino.addr 19 := by
    rw [addr_setAddr (by decide), if_neg (by omega)]
  refine ⟨?_, ?_, ?_, fun m lt => ?_⟩
  · rw [single]
    exact h.single
  · rw [double]
    exact h.double
  · rw [double]
    exact h.second
  · rw [blkno_setAddr direct]
    split
    · exact fits
    · exact h.blocks m lt

/-- An indirect block is replaced by a copy. -/
lemma setIndirect (h : Tree g free image ino upto) {i : Nat} (indirect : i = 18 ∨ i = 19) (there : ino.addr i ≠ 0)
    (held : Held g free v) (ne : v ≠ 0) (copy : image v = image (ino.addr i)) :
    Tree g free image (ino.setAddr i v) upto := by
  have addr : ∀ k < 20, (ino.setAddr i v).addr k = if k = i then v else ino.addr k := fun k lt => addr_setAddr lt
  have block : ∀ k, k = 18 ∨ k = 19 → image ((ino.setAddr i v).addr k) = image (ino.addr k) ∧
      ((ino.setAddr i v).addr k = 0 ↔ ino.addr k = 0) ∧
        (Held g free (ino.addr k) → Held g free ((ino.setAddr i v).addr k)) := by
    intro k hk
    rw [addr k (by omega)]
    split
    · next own =>
      subst own
      exact ⟨copy, iff_of_false ne there, fun _ => held⟩
    · exact ⟨rfl, Iff.rfl, id⟩
  obtain ⟨single, none, held₁⟩ := block 18 (.inl rfl)
  obtain ⟨double, none', held₂⟩ := block 19 (.inr rfl)
  refine ⟨held₁ h.single, held₂ h.double, fun two => ?_, fun m lt => ?_⟩
  · rw [double]
    exact h.second fun zero => two (none'.mpr zero)
  · have same : blkno image (ino.setAddr i v) m = blkno image ino m := by
      unfold blkno entry doubly
      rw [single, double]
      simp only [none, none']
      split
      · next direct => rw [addr _ (by omega), if_neg (by omega)]
      · rfl
    rw [same]
    exact h.blocks m lt

end Tree

end Trees

/-! ## The table of the inodes -/

/-- The inode in the table. -/
def inodeAt (image : Image) (n : Word) : Dinode := Dinode.ofBlock (image (inodeBlk n)) (inodeIdx n)

/-- The image after `iwrite`. -/
def putInode (image : Image) (n : Word) (ino : Dinode) : Image :=
  Function.update image (inodeBlk n) ((image (inodeBlk n)).setDinode (inodeIdx n) ino)

/-- A file or a directory, which has blocks. -/
def IsFile (ino : Dinode) : Prop := ino.iMode &&& F_MASK = F_REG ∨ ino.iMode &&& F_MASK = F_DIR

/-- The inodes `P` of the table have been checked. -/
def Checked (g : Given) (free : Word → Prop) (image : Image) (P : Word → Prop) : Prop :=
  ∀ n, InTable g n → P n → IsFile (inodeAt image n) →
    Tree g free image (inodeAt image n) ((inodeAt image n).iSize.oBlkno.toNat + 1)

section Table

variable {g : Given} {free free' : Word → Prop} {image image' : Image} {ino : Dinode} {n m b v : Word}
  {P P' : Word → Prop}

/-- The inodes of the table are between the superblock and the data area. -/
lemma InTable.blk (h : InTable g n) : 2 ≤ (inodeBlk n).toNat ∧ (inodeBlk n).toNat < g.isize.toNat := by
  rw [inodeBlk_toNat]
  have := h.2
  omega

/-- A block that is held is not one of the inodes. -/
lemma Held.ne_inodeBlk (held : Held g free b) (h : InTable g n) : b ≠ inodeBlk n := by
  have blk := h.blk
  rintro rfl
  cases held with
  | inl zero =>
    rw [zero] at blk
    exact absurd blk.1 (by decide)
  | inr data => exact absurd blk.2 (Nat.not_lt.mpr (BitVec.le_def.mp data.1.1))

/-- The inodes after one has been written. -/
lemma inodeAt_putInode : inodeAt (putInode image n ino) m = if m = n then ino else inodeAt image m := by
  unfold inodeAt putInode
  by_cases same : m = n
  · rw [if_pos same, same, Function.update_self, Dinode.ofBlock_setDinode inodeIdx_lt]
  · rw [if_neg same]
    by_cases blk : inodeBlk m = inodeBlk n
    · rw [blk, Function.update_self]
      exact Dinode.ofBlock_setDinode_of_ne inodeIdx_lt fun idx => same (inode_inj blk idx)
    · rw [Function.update_of_ne blk]

namespace Checked

/-- Fewer blocks are free. -/
lemma mono (h : Checked g free image P) (sub : ∀ b, free' b → free b) : Checked g free' image P :=
  fun n table done file => (h n table done file).mono sub

/-- The blocks of the inodes and of the files are the same. -/
lemma frame (h : Checked g free image P) (same : ∀ b, Held g free b → image' b = image b)
    (table : ∀ n, InTable g n → image' (inodeBlk n) = image (inodeBlk n)) : Checked g free image' P := by
  intro n inside done
  unfold inodeAt
  rw [table n inside]
  exact fun file => (h n inside done file).frame same

/-- A write to a free block, or to the superblock. -/
lemma other (h : Checked g free image P) {x : Word} {data : Block} (pos : 3 ≤ g.isize.toNat)
    (other : x = 1 ∨ (g.isize ≤ x ∧ free x)) : Checked g free (Function.update image x data) P := by
  refine h.frame (fun b held => Function.update_of_ne ?_ _ _) fun n inside => Function.update_of_ne ?_ _ _
  · cases other with
    | inl one => exact one ▸ held.ne_one pos
    | inr data => exact held.ne_free pos data.1 data.2
  · have blk := inside.blk
    intro e
    cases other with
    | inl one =>
      rw [e, one] at blk
      exact absurd blk.1 (by decide)
    | inr data => exact absurd blk.2 (Nat.not_lt.mpr (BitVec.le_def.mp (e ▸ data.1)))

/-- An inode is written. -/
lemma iwrite (h : Checked g free image P) (inside : InTable g n) (rest : ∀ m, P' m → m ≠ n → P m)
    (own : P' n → IsFile ino → Tree g free image ino (ino.iSize.oBlkno.toNat + 1)) :
    Checked g free (putInode image n ino) P' := by
  have same : ∀ b, Held g free b → putInode image n ino b = image b := fun b held =>
    Function.update_of_ne (held.ne_inodeBlk inside) _ _
  intro m table done
  rw [inodeAt_putInode]
  split
  · next e =>
    subst e
    exact fun file => (own done file).frame same
  · next ne => exact fun file => (h m table (rest m done ne) file).frame same

/-- An entry of an indirect block is replaced. -/
lemma replace (h : Checked g free image P) {x : Word} {j : Nat} (held : Held g free x)
    (fits : Fits g v)
    (copy : Held g free ((image x).word j) → Held g free v ∧ image v = image ((image x).word j) ∧ v ≠ x) :
    Checked g free (Function.update image x ((image x).setWord j v)) P := by
  intro n inside done
  have same : inodeAt (Function.update image x ((image x).setWord j v)) n = inodeAt image n := by
    unfold inodeAt
    rw [Function.update_of_ne (held.ne_inodeBlk inside).symm]
  rw [same]
  exact fun file => (h n inside done file).replace fits copy

end Checked

end Table

end Fsck
end Uzi
