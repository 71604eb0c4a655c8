import Uzi.Utils.FsckEnds
import Uzi.Utils.FsckPaths

/-!
# `fsck` uses its maps within their bounds

Pass 5 looks at the inodes of the table only, and a run keeps within the bounds up to where it goes wrong.
-/

namespace Uzi
open Exec

namespace Fsck

section Pass5

variable {g : Given} {C D : State → Prop} {s : State} {n links : Word} {ino : Dinode} {d : Direct} {j blk : Word}
  {fuel : Nat}

/-- A run in which nothing is known but what it is given. -/
lemma Guarded.forget (h : Guarded g C s) : Guarded g (fun _ => True) s := h.mono fun _ => trivial

/-- A block is written, in a run that is guarded. -/
lemma Guarded.wrote (h : Guarded g C s) {data : Block} : Guarded g (fun _ => True) { s with
    image := Function.update s.image blk data
    events := .wrote s.image blk data :: s.events } :=
  h.step (.wrote s.image blk data) ⟨rfl, rfl, rfl, id, rfl⟩ rfl rfl (fun _ _ => trivial) fun _ _ => trivial

/-- An inode is read, in a run that is guarded. -/
lemma guarded_iread (h : Guarded g C s) (next : C s → n ≠ 0 → D { s with
      readbuf := s.image (inodeBlk n)
      events := .inode n (inodeAt s.image n) :: s.events }) :
    wp (iread n) (fun _ s' => Guarded g D s') (Stopped g) s := by
  rw [wp_iread]
  exact h.step (.inode n (inodeAt s.image n)) ⟨rfl, rfl, rfl, id, rfl⟩ rfl rfl (fun _ _ => trivial)
    fun c harmless => next c harmless.inode

/-- An inode is written, in a run that is guarded. -/
lemma guarded_iwrite (h : Guarded g C s) :
    wp (iwrite n ino) (fun _ s' => Guarded g (fun _ => True) s') (Stopped g) s := by
  rw [wp_iwrite]
  have read : Guarded g (fun _ => True) { s with
      readbuf := (s.image (inodeBlk n)).setDinode (inodeIdx n) ino } :=
    h.quiet ⟨rfl, rfl, rfl, id, rfl⟩ rfl rfl fun _ => trivial
  exact read.wrote

/-- As deep as it is. -/
lemma Guarded.deep (h : Guarded g C s) : Guarded g (Deep s.depth True) s := ⟨h.1, fun _ => ⟨rfl, trivial⟩⟩

/-- `mkentry` uses no map. -/
lemma guarded_mkentryFrom {more : Word → Bool} {depth : Nat} (h : Guarded g (Deep depth True) s) :
    wp (mkentryFrom n ino more fuel j) (fun _ s' => Guarded g (Deep depth True) s') (Stopped g) s := by
  induction fuel generalizing s j with
  | zero =>
    rw [mkentryFrom, wp_ite]
    split
    · exact h.stopped
    · exact h
  | succ fuel ih =>
    rw [mkentryFrom, wp_ite]
    split
    · rw [wp_bind]
      refine wp_post (guarded_dirread h) fun d s₁ h₁ => ?_
      rw [wp_ite]
      split
      · exact guarded_dirwrite h₁
      · exact ih h₁
    · exact h

/-- An inode is put into `lost+found`, in a run that is guarded. -/
lemma guarded_attach (h : Guarded g C s) :
    wp (attach fuel n ino) (fun _ s' => Guarded g (fun _ => True) s') (Stopped g) s := by
  have asked : ∀ q, Guarded g (fun _ => True) (s.answered q) := fun q => h.answered q fun _ => trivial
  unfold attach
  rw [wp_ite]
  split
  · rw [wp_bind, wp_yes, wp_ite, if_pos (h.1.yes 0), wp_bind]
    refine wp_post (guarded_iwrite (asked _)) fun _ s₁ h₁ => ?_
    rw [wp_bind, wp_modifyFilsys]
    have counted : Guarded g (fun _ => True) { s₁ with
        filsys := { s₁.filsys with sTinode := s₁.filsys.sTinode + 1 } } :=
      h₁.quiet ⟨rfl, rfl, rfl, id, rfl⟩ rfl rfl id
    exact guarded_writeSuper counted fun _ => id
  · rw [wp_bind, wp_yes, wp_ite, if_pos (h.1.yes 0), wp_bind]
    refine wp_post (guarded_iwrite (asked _)) fun _ s₁ h₁ => ?_
    unfold mkentry
    rw [wp_bind]
    exact wp_post (guarded_iread (D := fun _ => True) h₁ fun _ _ => trivial) fun _ s₂ h₂ =>
      wp_post (guarded_mkentryFrom h₂.deep) fun _ s₃ h₃ => h₃.forget

/-- A count of links is corrected, in a run that is guarded. -/
lemma guarded_fixLinkCount (h : Guarded g C s) :
    wp (fixLinkCount n ino links) (fun _ s' => Guarded g (fun _ => True) s') (Stopped g) s := by
  unfold fixLinkCount
  rw [wp_ite]
  split
  · rw [wp_bind, wp_yes, wp_ite, if_pos (h.1.yes 0), wp_bind]
    have asked : Guarded g (fun _ => True) (s.answered (.linkCount n ino.iNlink links)) :=
      h.answered _ fun _ => trivial
    exact wp_post (guarded_iwrite asked) fun _ s₁ h₁ => h₁
  · rw [wp_pure]
    exact h.forget

/-- `pass5` looks up the links of an inode of the table. -/
lemma guarded_checkLinks (h : Guarded g (fun _ => True) s) (below : n.toNat < 8 * (g.isize.toNat - 2)) :
    wp (checkLinks fuel n) (fun _ s' => Guarded g (fun _ => True) s') (Stopped g) s := by
  have inside : n ≠ 0 → InTable g n := fun ne =>
    ⟨Nat.pos_of_ne_zero fun zero => ne (BitVec.eq_of_toNat_eq zero), below⟩
  unfold checkLinks
  rw [wp_bind]
  refine wp_post (guarded_iread (D := fun _ => InTable g n) h fun _ ne => inside ne) fun ino s₁ h₁ => ?_
  rw [wp_bind]
  refine wp_post (h₁.linkmapAt (D := fun _ => True) id fun _ => trivial) fun links s₂ got => ?_
  obtain ⟨-, h₂⟩ := got
  rw [wp_ite]
  split
  · rw [wp_ite]
    split
    · exact h₂.stopped
    · rw [wp_pure]
      exact h₂
  · rw [wp_ite]
    split
    · exact h₂.stopped
    · rw [wp_bind]
      refine wp_post (guarded_fixLinkCount h₂) fun ino s₃ h₃ => ?_
      rw [wp_ite]
      split
      · exact guarded_attach h₃
      · rw [wp_pure]
        exact h₃

/-- Pass 5, in a run that is guarded. -/
lemma guarded_pass5 (h : Guarded g (fun _ => True) s) :
    wp (pass5 fuel) (fun _ s' => Guarded g (fun _ => True) s') (Stopped g) s := by
  have isize := h.1.isize
  unfold pass5
  rw [wp_bind, wp_get, wp_bind]
  refine wp_post (wp_loop (fun (_ : Word) s => Guarded g (fun _ => True) s) ?_ ?_ h) fun _ s' got => got.1
  · intro n s' h' goes
    have below := of_decide_eq_true goes
    rw [inodesEnd, isize] at below
    rw [wp_bind]
    exact wp_post (guarded_checkLinks h' (by omega)) fun _ s'' h'' => h''
  · intro n s' h' _
    exact h'.stopped

end Pass5

/-! ## The whole run -/

/-- What a run of `fsck` on an image is given. -/
def given (image : Image) (stack : List Byte) : Given where
  image := image
  isize := (Filesys.ofBlock (image 1)).sIsize
  fsize := (Filesys.ofBlock (image 1)).sFsize
  stack := stack

/-- A run of `fsck` with every question answered yes, however it ends, uses what is there, up to where it has gone
wrong. -/
structure StaysInside (fuel : Nat) (image : Image) (stack : List Byte) : Prop where
  run : wp (main fuel) (fun _ s' => Safe (given image stack) s'.events) (Stopped (given image stack))
    { State.start image (fun _ => true) with stack := stack }

variable {image : Image} {stack : List Byte} {fuel : Nat}

/-- `main` sets the magic number of the superblock that it has read. -/
lemma guarded_fixMagic {g : Given} {s : State} (image : s.image = g.image) (isize : s.filsys.sIsize = g.isize)
    (fsize : s.filsys.sFsize = g.fsize) (yes : ∀ i, s.answers i = true) (stack : s.stack = g.stack)
    (events : s.events = []) :
    wp fixMagic (fun _ s' => Guarded g (fun _ => True) s') (Stopped g) s := by
  unfold fixMagic
  rw [wp_bind, wp_get, wp_ite]
  split
  · rw [wp_bind, wp_yes, wp_ite, if_pos (yes 0)]
    unfold writeSuper
    rw [wp_bind, wp_modifyFilsys, wp_bind, wp_get, wp_dwrite]
    refine ⟨⟨?_, isize, fsize, rfl, fun i => yes (i + 1), stack, ?_⟩, fun _ => trivial⟩
    · show Function.update s.image 1 _ = imageAfter g.image (.wrote s.image 1 _ :: .asked s.image _ _ :: s.events)
      rw [events, ← image]
      rfl
    · show Safe g (.wrote s.image 1 _ :: .asked s.image _ _ :: s.events)
      rw [events]
      exact ⟨fun _ => trivial, fun _ => trivial, trivial⟩
  · next magic =>
    rw [wp_pure]
    refine ⟨⟨?_, isize, fsize, not_not.mp magic, yes, stack, ?_⟩, fun _ => trivial⟩
    · rw [events, image]
      rfl
    · rw [events]
      exact trivial

/-- In every run the maps are used within their bounds, for the inodes of the table, and the paths fit, up to where the
run takes one of the branches that go wrong. -/
theorem main_staysInside (pos : 3 ≤ (Filesys.ofBlock (image 1)).sIsize)
    (lt : (Filesys.ofBlock (image 1)).sIsize < (Filesys.ofBlock (image 1)).sFsize) (enough : 65536 ≤ fuel) :
    StaysInside fuel image stack := by
  have pos : 3 ≤ (given image stack).isize.toNat := BitVec.le_def.mp pos
  have lt : (given image stack).isize.toNat < (given image stack).fsize.toNat := BitVec.lt_def.mp lt
  refine ⟨?_⟩
  rw [main, readSuper, wp_bind, wp_bind, wp_daread, wp_modify, wp_bind]
  refine wp_post (guarded_fixMagic (g := given image stack) rfl rfl rfl (fun _ => rfl) rfl rfl) fun _ s h => ?_
  rw [wp_bind, wp_get, wp_bind, wp_yes, wp_ite, if_pos (h.1.yes 0), wp_bind, wp_modify, wp_bind]
  have asked : Guarded (given image stack) (fun _ => True) (s.answered (.sizes s.filsys.sFsize s.filsys.sIsize)) :=
    h.answered _ id
  have begun : Guarded (given image stack) (fun _ => True) { s.answered (.sizes s.filsys.sFsize s.filsys.sIsize) with
      bitmap := fun _ => 0
      linkmap := fun _ => 0 } := asked.quiet ⟨rfl, rfl, rfl, id, rfl⟩ rfl rfl id
  refine wp_post (guarded_pass1 begun pos) fun _ s₁ h₁ => ?_
  rw [wp_bind]
  refine wp_post (guarded_pass2 h₁ pos lt enough) fun _ s₂ h₂ => ?_
  rw [wp_bind]
  refine wp_post (guarded_pass3 h₂ pos) fun _ s₃ h₃ => ?_
  rw [wp_bind]
  refine wp_post (guarded_pass4 h₃ pos) fun _ s₄ h₄ => ?_
  exact wp_post (guarded_pass5 h₄) fun _ s₅ h₅ => h₅.1.safe

/-- Every use of a map is within the bounds. -/
structure UsesInside (fuel : Nat) (image : Image) (stack : List Byte) : Prop where
  run : wp (main fuel) (fun _ s' => ∀ e ∈ s'.events, InBounds (given image stack) e)
    (fun stop => ∀ e ∈ stop.2.events, InBounds (given image stack) e)
    { State.start image (fun _ => true) with stack := stack }

/-- A run that meets the condition stays inside. -/
lemma usesInside_of_clear {n : Nat} (inside : StaysInside n image stack)
    (clear : decide (wp (main n) (fun _ s' => Clear (given image stack) s'.events) (fun _ => False)
      { State.start image (fun _ => true) with stack := stack }) = true) : UsesInside n image stack :=
  ⟨wp_mono (inside.run.and (of_decide_eq_true clear)) (fun _ _ got => got.1.inside got.2) fun _ got => got.2.elim⟩

/-- A run that repairs a directory and takes none of the branches that go wrong. -/
theorem staysInside_worn : UsesInside 65536 wornImage [] :=
  usesInside_of_clear (main_staysInside (by decide +kernel) (by decide +kernel) (by decide)) (by decide +kernel)

/-! ## A run that does not stay inside -/

/-- The event is a use of an entry that `bitmap` does not have. -/
def outsideBitmap (g : Given) : Event → Bool
  | .bitmap i => g.fsize ≤ i
  | _ => false

/-- A run that does not stay inside. -/
lemma not_usesInside_of_run {n : Nat}
    (run : decide (wp (main n) (fun _ s' => s'.events.any (outsideBitmap (given image stack)) = true)
      (fun stop => stop.2.events.any (outsideBitmap (given image stack)) = true)
      { State.start image (fun _ => true) with stack := stack }) = true) : ¬ UsesInside n image stack := by
  have outside : ∀ events : List Event, events.any (outsideBitmap (given image stack)) = true →
      ¬ ∀ e ∈ events, InBounds (given image stack) e := by
    intro events found inside
    obtain ⟨e, mem, wrong⟩ := List.any_eq_true.mp found
    cases e with
    | bitmap i => exact absurd (of_decide_eq_true wrong) (BitVec.not_le.mpr (inside _ mem))
    | _ => exact Bool.false_ne_true wrong
  rintro ⟨uses⟩
  have both := uses.and (of_decide_eq_true run)
  obtain ⟨_, _, _, never⟩ := (wp_mono both (fun _ _ got => outside _ got.2 got.1) fun _ got =>
    (outside _ got.2 got.1).elim).returns
  exact never

/-- Inode 1 is a file of one block, block 256 of a file system of four blocks. -/
def wildImage : Image :=
  Function.update (Function.update (fun _ => Block.zero) 1 (Mkfs.sbBlock (Mkfs.super 4 3) 0)) 2
    (Block.zero.setDinode 1 { (inodeWith 0 256) with iMode := F_REG, iSize := ⟨0, 1⟩ })

/-- The number of the block is zapped in the inode, and `bitmap` is used for it all the same. -/
theorem not_staysInside : 3 ≤ (Filesys.ofBlock (wildImage 1)).sIsize ∧
    (Filesys.ofBlock (wildImage 1)).sIsize < (Filesys.ofBlock (wildImage 1)).sFsize ∧
    ¬ UsesInside 65536 wildImage [] :=
  ⟨by decide +kernel, by decide +kernel, not_usesInside_of_run (by decide +kernel)⟩

end Fsck
end Uzi
