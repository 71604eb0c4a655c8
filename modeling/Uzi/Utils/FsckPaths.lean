import Uzi.Utils.FsckInside

/-!
# `ckdir` stays inside the table and `ename`

What is asked about an entry replaces the slashes of its name, which leaves the length of the name (`Renamed`), and
sets the inodes of `.` and `..`, which `ckdir` does not follow. So an entry that `ckdir` goes down into is named as it
was when it was read.
-/

namespace Uzi
open Exec

namespace Fsck

/-- An entry with other characters in its name. -/
structure Renamed (stack : List Byte) (d d' : Direct) : Prop where
  inode : d'.dIno = d.dIno
  dots : Dots d → Dots d'
  length : (catName stack d').length = (catName stack d).length

section Entries

variable {g : Given} {d d' d'' : Direct} {stack : List Byte} {c : Nat}

/-- The name `.` as its characters. -/
lemma isName_dot : isName d [0x2e] = true ↔ d.name 0 = 0x2e ∧ d.name 1 = 0 := by
  simp [isName, List.range_succ]

/-- The name `..` as its characters. -/
lemma isName_dotDot : isName d [0x2e, 0x2e] = true ↔ d.name 0 = 0x2e ∧ d.name 1 = 0x2e ∧ d.name 2 = 0 := by
  simp [isName, List.range_succ]

/-- The prefix depends on the predicate within the list only. -/
lemma takeWhile_congr {α : Type} {p q : α → Bool} {l : List α} (same : ∀ a ∈ l, p a = q a) :
    l.takeWhile p = l.takeWhile q := by
  induction l with
  | nil => rfl
  | cons a l ih =>
    rw [List.takeWhile_cons, List.takeWhile_cons, same a List.mem_cons_self,
      ih fun b mem => same b (List.mem_cons_of_mem _ mem)]

/-- The length of a name depends on where its end is. -/
lemma length_catName (same : ∀ i < 14, d'.name i = 0 ↔ d.name i = 0) :
    (catName stack d').length = (catName stack d).length := by
  have chars : (((List.range 14).map d'.name).takeWhile (· ≠ 0)).length =
      (((List.range 14).map d.name).takeWhile (· ≠ 0)).length := by
    rw [List.takeWhile_map, List.takeWhile_map, List.length_map, List.length_map]
    refine congrArg List.length (takeWhile_congr fun i mem => ?_)
    exact decide_eq_decide.mpr (not_congr (same i (List.mem_range.mp mem)))
  unfold catName
  simp only [chars]
  split
  · rw [List.length_append, List.length_append, chars]
  · exact chars

/-- An entry with a slash replaced. -/
def Direct.fixSlash (d : Direct) (c : Nat) : Direct :=
  { d with dName := fun i => if i.val = c then 0x58 else d.dName i }

/-- The characters of an entry with a slash replaced. -/
lemma name_fixSlash {i : Nat} (lt : i < 14) : (Direct.fixSlash d c).name i = if i = c then 0x58 else d.name i := by
  unfold Direct.fixSlash Direct.name
  rw [dif_pos lt, dif_pos lt]

namespace Renamed

/-- An entry as it is. -/
lemma refl : Renamed stack d d := ⟨rfl, id, rfl⟩

/-- One replacement after the other. -/
lemma trans (h : Renamed stack d d') (h' : Renamed stack d' d'') : Renamed stack d d'' :=
  ⟨h'.inode.trans h.inode, fun dots => h'.dots (h.dots dots), h'.length.trans h.length⟩

/-- Neither `.` nor `..` has a slash, and a slash does not end a name. -/
lemma fixSlash (slash : d.name c = SLASH) : Renamed stack d (Direct.fixSlash d c) := by
  have other : ∀ i < 14, d.name i ≠ SLASH → (Direct.fixSlash d c).name i = d.name i := by
    intro i lt ne
    rw [name_fixSlash lt, if_neg fun e : i = c => ne (e ▸ slash)]
  refine ⟨rfl, fun dots => ?_, length_catName fun i lt => ?_⟩
  · cases dots with
    | inl dot =>
      obtain ⟨zero, one⟩ := isName_dot.mp dot
      refine .inl (isName_dot.mpr ⟨?_, ?_⟩)
      · rw [other 0 (by decide) (by rw [zero]; decide), zero]
      · rw [other 1 (by decide) (by rw [one]; decide), one]
    | inr dotDot =>
      obtain ⟨zero, one, two⟩ := isName_dotDot.mp dotDot
      refine .inr (isName_dotDot.mpr ⟨?_, ?_, ?_⟩)
      · rw [other 0 (by decide) (by rw [zero]; decide), zero]
      · rw [other 1 (by decide) (by rw [one]; decide), one]
      · rw [other 2 (by decide) (by rw [two]; decide), two]
  · rw [name_fixSlash lt]
    split
    · next here =>
      rw [here, slash]
      decide
    · exact Iff.rfl

end Renamed

/-- What names neither the directory nor the one above, after `ckdir` has set the inodes of `.` and `..`, is not `.` or
`..`, and is as it was. -/
lemma not_dots {inum pnum : Word}
    (dot : d' = if isName d [0x2e] = true ∧ d.dIno ≠ inum then { d with dIno := inum } else d)
    (dotDot : d'' = if isName d' [0x2e, 0x2e] = true ∧ d'.dIno ≠ pnum then { d' with dIno := pnum } else d')
    (ne : d''.dIno ≠ pnum) (ne' : d''.dIno ≠ inum) : d'' = d ∧ ¬ Dots d := by
  have keep : d'' = d' := by
    rw [dotDot, if_neg]
    intro asks
    rw [dotDot, if_pos asks] at ne
    exact ne rfl
  rw [keep] at ne ne' ⊢
  have keep' : d' = d := by
    rw [dot, if_neg]
    intro asks
    rw [dot, if_pos asks] at ne'
    exact ne' rfl
  refine ⟨keep', fun dots => ?_⟩
  rw [keep'] at ne ne'
  cases dots with
  | inl is =>
    rw [if_pos ⟨is, ne'⟩] at dot
    exact ne' (congrArg Direct.dIno (keep'.symm.trans dot))
  | inr is =>
    rw [keep, keep', if_pos ⟨is, ne⟩] at dotDot
    exact ne (congrArg Direct.dIno dotDot)

/-- An entry that is used and not zapped names an inode of the table. -/
lemma EntryFits.inTable {linkmap : Word → Word} {depth : Nat} {inum pnum : Word} {name : List Byte}
    (h : EntryFits g linkmap depth inum pnum name d) (ne : d.dIno ≠ 0) (below : d.dIno.toNat < 8 * g.isize.toNat) :
    InTable g d.dIno :=
  ⟨Nat.pos_of_ne_zero fun zero => ne (BitVec.eq_of_toNat_eq zero), h.table.resolve_right (Nat.not_le.mpr below)⟩

end Entries

/-! ## Directories -/

/-- `ckdir` is `depth` calls deep, and `P` holds. -/
structure Deep (depth : Nat) (P : Prop) (s : State) : Prop where
  depth : s.depth = depth
  known : P

section Directories

variable {g : Given} {C : State → Prop} {s : State} {inum pnum j : Word} {ino : Dinode} {d : Direct}
  {name : List Byte} {image : Image} {depth fuel : Nat} {P : Prop}

/-- The number of the first block of a file does not depend on the image. -/
lemma blkno_first (lt : j.toNat < 32) : blkno image ino (j / 32) = ino.addr 0 := by
  have zero : (j / 32).toNat = 0 := by
    rw [BitVec.toNat_udiv]
    exact Nat.div_eq_of_lt lt
  rw [blkno, if_pos (by rw [zero]; decide), zero]

/-- `dirread` returns an entry of the first block, or does not return. -/
lemma wp_dirread_first :
    wp (dirread ino j)
      (fun d s' => j.toNat < 32 ∧ ino.addr 0 ≠ 0 ∧ d = (s.image (ino.addr 0)).direct j.toNat ∧ s.Quiet s')
      (fun e => e.2.events = s.events) s := by
  unfold dirread
  rw [wp_bind]
  refine wp_mono wp_getblkno (fun b s' got => ?_) fun _ => False.elim
  obtain ⟨rfl, quiet⟩ := got
  rw [wp_ite]
  split
  · exact quiet.events
  · next there =>
    rw [wp_bind, wp_daread, wp_ite]
    split
    · exact quiet.events
    · have lt : j.toNat < 32 := by omega
      rw [blkno_first lt] at there ⊢
      refine ⟨lt, there, ?_, ?_⟩
      · rw [quiet]
      · rw [quiet]
        rfl

/-- `dirread` reads only. -/
lemma guarded_dirread (h : Guarded g (Deep depth P) s) :
    wp (dirread ino j) (fun _ s' => Guarded g (Deep depth P) s') (Stopped g) s := by
  refine wp_mono wp_dirread_first (fun d s' got => ?_) fun e same => ?_
  · rw [got.2.2.2]
    exact h.quiet ⟨rfl, rfl, rfl, id, rfl⟩ rfl rfl fun c => ⟨c.depth, c.known⟩
  · show Safe g e.2.events
    rw [same]
    exact h.1.safe

/-- An entry of the directory is written. -/
lemma guarded_dirwrite (h : Guarded g (Deep depth P) s) :
    wp (dirwrite ino j d) (fun _ s' => Guarded g (Deep depth P) s') (Stopped g) s := by
  unfold dirwrite
  rw [wp_bind]
  refine wp_mono wp_getblkno (fun b s₁ got => ?_) fun _ => False.elim
  have h₁ : Guarded g (Deep depth P) s₁ := by
    rw [got.2]
    exact h.quiet ⟨rfl, rfl, rfl, id, rfl⟩ rfl rfl fun c => ⟨c.depth, c.known⟩
  rw [wp_ite]
  split
  · exact h₁.stopped
  · rw [wp_bind, wp_daread, wp_ite]
    split
    · exact h₁.1.safe
    · rw [wp_bind, wp_modifyReadbuf, wp_bind, wp_get, wp_dwrite]
      exact h₁.step (.wrote s₁.image b ((s₁.image b).setDirect j.toNat d)) ⟨rfl, rfl, rfl, id, rfl⟩ rfl rfl
        (fun _ _ => trivial) fun c _ => ⟨c.depth, c.known⟩

section Parts

variable {asks : Bool} {q : Question}

/-- A question of `ckdir`. -/
lemma guarded_asked (h : Guarded g (Deep depth P) s) : Guarded g (Deep depth P) (s.answered q) :=
  h.answered q fun c => ⟨c.depth, c.known⟩

/-- The entry is zapped, if `ckdir` asks. -/
lemma guarded_zapEntry (h : Guarded g (Deep depth P) s) :
    wp (zapEntry ino j d asks q)
      (fun zapped s' => (zapped = asks ∧ (asks = false → s' = s)) ∧ Guarded g (Deep depth P) s') (Stopped g) s := by
  unfold zapEntry
  rw [wp_ite]
  split
  · next asked =>
    rw [wp_bind, wp_yes, wp_ite, if_pos (h.1.yes 0), wp_bind]
    refine wp_post (guarded_dirwrite (guarded_asked h)) fun _ s' got => ⟨⟨asked.symm, fun no => ?_⟩, got⟩
    exact absurd (asked.symm.trans no) (by decide)
  · next no => exact ⟨⟨(Bool.not_eq_true _ ▸ no).symm, fun _ => rfl⟩, h⟩

/-- The slashes are replaced. -/
lemma guarded_fixSlashes {count c : Nat} (h : Guarded g (Deep depth P) s) :
    wp (fixSlashes ino j name count c d)
      (fun d' s' => Renamed g.stack d d' ∧ Guarded g (Deep depth P) s') (Stopped g) s := by
  induction count generalizing c d s with
  | zero => exact ⟨.refl, h⟩
  | succ count ih =>
    rw [fixSlashes, wp_ite]
    split
    · exact ⟨.refl, h⟩
    · rw [wp_bind, fixSlash, wp_ite]
      split
      · next slash =>
        rw [wp_bind, wp_yes, wp_ite, if_pos (h.1.yes 0), wp_bind]
        refine wp_post (guarded_dirwrite (guarded_asked h)) fun _ s' got => ?_
        rw [wp_pure]
        exact wp_post (ih got) fun d' s'' got => ⟨.trans (.fixSlash slash) got.1, got.2⟩
      · exact ih h

/-- The inode number of `.` or `..` is set to `i`, where it is another one. -/
lemma guarded_fixDot {i : Word} (h : Guarded g (Deep depth P) s) :
    wp (fixDot ino j d i asks q)
      (fun d' s' => (d' = if asks then { d with dIno := i } else d) ∧ Guarded g (Deep depth P) s') (Stopped g) s := by
  unfold fixDot
  rw [wp_ite]
  split
  · rw [wp_bind, wp_yes, wp_ite, if_pos (h.1.yes 0), wp_bind]
    exact wp_post (guarded_dirwrite (guarded_asked h)) fun _ s' got => ⟨rfl, got⟩
  · exact ⟨rfl, h⟩

/-- The link to an inode of the table is counted. -/
lemma guarded_countLink {i : Word} (inside : P → InTable g i) (h : Guarded g (Deep depth P) s) :
    wp (countLink i) (fun _ s' => Guarded g (Deep depth P) s') (Stopped g) s := by
  unfold countLink
  rw [wp_bind]
  refine wp_post (h.linkmapAt (D := Deep depth P) (fun c => inside c.known) fun c => ⟨c.depth, c.known⟩)
    fun links s₁ got => ?_
  exact got.2.setLinkmap (fun c => inside c.known) fun c => ⟨c.depth, c.known⟩

end Parts

/-- `ckdir` checks an entry, `rec` being `ckdir` for a directory in this one. -/
lemma guarded_ckentry {rec : Word → Word → List Byte → F PUnit} (h : Guarded g (Deep depth P) s)
    (deeper : ∀ {n ename s'}, Guarded g (Deep depth P) s' →
      wp (rec n inum ename) (fun _ s'' => Guarded g (Deep depth P) s'') (Stopped g) s') :
    wp (ckentry rec inum pnum name ino j) (fun _ s' => Guarded g (Deep depth P) s') (Stopped g) s := by
  unfold ckentry
  rw [wp_bind]
  refine wp_post (guarded_dirread h) fun d s₁ h₁ => ?_
  rw [wp_ite]
  split
  · exact h₁
  · next ne =>
    -- what is known of the entry holds as it was read
    have read : Guarded g (Deep depth (EntryFits g s₁.linkmap depth inum pnum name d ∧ P))
        { s₁ with events := .entry s₁.linkmap s₁.depth inum pnum name d :: s₁.events } :=
      h₁.step (.entry s₁.linkmap s₁.depth inum pnum name d) ⟨rfl, rfl, rfl, id, rfl⟩ rfl rfl (fun _ _ => trivial)
        fun c harmless => ⟨c.depth, c.depth ▸ harmless, c.known⟩
    have drop : ∀ {s'}, Guarded g (Deep depth (EntryFits g s₁.linkmap depth inum pnum name d ∧ P)) s' →
        Guarded g (Deep depth P) s' := fun h => h.mono fun c => ⟨c.depth, c.known.2⟩
    rw [wp_bind, wp_get, wp_bind, wp_emit, wp_bind]
    refine wp_post (guarded_zapEntry read) fun zapped s₂ got => ?_
    obtain ⟨⟨eq, same⟩, h₂⟩ := got
    rw [wp_ite]
    split
    · exact drop h₂
    · next no =>
      have no := eq.symm.trans (Bool.not_eq_true _ ▸ no)
      have same := same no
      have below : d.dIno.toNat < 8 * g.isize.toNat := by
        have := of_decide_eq_false no
        rw [h₁.1.isize] at this
        omega
      have inside : EntryFits g s₁.linkmap depth inum pnum name d ∧ P → InTable g d.dIno :=
        fun known => known.1.inTable ne below
      rw [wp_bind, bogus, wp_ite, if_neg ne, wp_bind]
      refine wp_post (h₂.linkmapAt (D := Deep depth (EntryFits g s₁.linkmap depth inum pnum name d ∧ P))
        (fun c => inside c.known) fun c => ⟨c.depth, c.known⟩) fun links s₃ got => ?_
      obtain ⟨at_ino, h₃⟩ := got
      rw [wp_pure, wp_bind]
      refine wp_post (guarded_zapEntry h₃) fun zapped s₄ got => ?_
      obtain ⟨⟨eq, -⟩, h₄⟩ := got
      rw [wp_ite]
      split
      · exact drop h₄
      · next no =>
        have known : s₁.linkmap d.dIno ≠ -1 := by
          have := of_decide_eq_false (eq.symm.trans (Bool.not_eq_true _ ▸ no))
          rw [at_ino, same] at this
          exact this
        rw [wp_bind]
        refine wp_post (guarded_countLink inside h₄) fun _ s₅ h₅ => ?_
        rw [wp_bind]
        refine wp_post (guarded_fixSlashes h₅) fun d₁ s₆ got => ?_
        obtain ⟨renamed, h₆⟩ := got
        rw [wp_bind]
        refine wp_post (guarded_fixDot h₆) fun d₂ s₇ got => ?_
        obtain ⟨dot, h₇⟩ := got
        rw [wp_bind]
        refine wp_post (guarded_fixDot h₇) fun d₃ s₈ got => ?_
        obtain ⟨dotDot, h₈⟩ := got
        rw [wp_bind, wp_get, wp_ite]
        split
        · next goes =>
          simp only [decide_eq_true_eq] at dot dotDot
          obtain ⟨rfl, other⟩ := not_dots dot dotDot goes.1 goes.2.1
          have used : Guarded g (Deep depth P) { s₈ with
              events := .path (name ++ catName s₈.stack d₃ ++ [SLASH]) :: s₈.events } := by
            refine h₈.step (.path (name ++ catName s₈.stack d₃ ++ [SLASH])) ⟨rfl, rfl, rfl, id, rfl⟩ rfl rfl
              (fun c _ => ?_) fun c _ => ⟨c.depth, c.known.2⟩
            have down : GoesDown g s₁.linkmap depth inum pnum d :=
              ⟨below, known, c.depth ▸ goes.2.2, fun dots => other (renamed.dots dots), renamed.inode ▸ goes.2.1,
                renamed.inode ▸ goes.1⟩
            show (name ++ catName s₈.stack d₃ ++ [SLASH]).length < 150
            rw [List.length_append, List.length_append, h₈.1.stack, renamed.length]
            exact c.known.1.path down
          rw [wp_bind, makePath, wp_bind, wp_get, wp_bind, wp_emit, wp_ite]
          split
          · exact deeper used
          · exact used.stopped
        · exact drop h₈

/-- `ckdir` rounds an improper length. -/
lemma guarded_fixLength (h : Guarded g (Deep depth P) s) :
    wp (fixLength inum ino) (fun _ s' => Guarded g (Deep depth P) s') (Stopped g) s := by
  unfold fixLength
  rw [wp_ite]
  split
  · rw [wp_bind, wp_yes, wp_ite, if_pos (h.1.yes 0), wp_bind, wp_iwrite, wp_pure]
    exact (guarded_asked (q := .improperLength) h).step (.wrote _ _ _) ⟨rfl, rfl, rfl, id, rfl⟩ rfl rfl
      (fun _ _ => trivial) fun c _ => ⟨c.depth, c.known⟩
  · exact h

/-- `ckdir` checks a directory, and is as deep afterwards as before. -/
lemma guarded_ckdir {levels : Nat} (h : Guarded g (Deep depth P) s) :
    wp (ckdir fuel levels inum pnum name) (fun _ s' => Guarded g (Deep depth P) s') (Stopped g) s := by
  induction levels generalizing s inum pnum name depth with
  | zero => exact h.stopped
  | succ levels ih =>
    rw [ckdir, wp_bind, wp_iread, wp_ite]
    have read : Guarded g (Deep depth P) { s with
        readbuf := s.image (inodeBlk inum)
        events := .inode inum (inodeAt s.image inum) :: s.events } :=
      h.step (.inode inum (inodeAt s.image inum)) ⟨rfl, rfl, rfl, id, rfl⟩ rfl rfl (fun _ _ => trivial)
        fun c _ => ⟨c.depth, c.known⟩
    split
    · exact read
    · have deep : Guarded g (Deep (depth + 1) P) { s with
          readbuf := s.image (inodeBlk inum)
          depth := s.depth + 1
          events := .inode inum (inodeAt s.image inum) :: s.events } :=
        read.quiet ⟨rfl, rfl, rfl, id, rfl⟩ rfl rfl fun c => ⟨congrArg (· + 1) c.depth, c.known⟩
      rw [wp_bind, wp_modify, wp_bind]
      refine wp_post (guarded_fixLength deep) fun ino s₁ h₁ => ?_
      rw [wp_bind]
      refine wp_post (wp_loop (fun (_ : Word) s₂ => Guarded g (Deep (depth + 1) P) s₂) ?_ ?_ h₁) fun j s₂ got => ?_
      · intro j s₂ h₂ _
        rw [wp_bind]
        exact wp_post (guarded_ckentry h₂ ih) fun _ s₃ h₃ => h₃
      · intro j s₂ h₂ _
        exact h₂.stopped
      · rw [wp_modify]
        refine got.1.quiet ⟨rfl, rfl, rfl, id, rfl⟩ rfl rfl fun c => ⟨?_, c.known⟩
        show s₂.depth - 1 = depth
        rw [c.depth, Nat.add_sub_cancel]

/-- `pass4` begins at the root, which is an inode of the table. -/
lemma guarded_pass4 (h : Guarded g C s) (pos : 3 ≤ g.isize.toNat) :
    wp (pass4 fuel) (fun _ s' => Guarded g (fun _ => True) s') (Stopped g) s := by
  have root : InTable g ROOTINODE := by
    refine ⟨Nat.le_refl 1, ?_⟩
    show 1 < _
    omega
  have there : ROOTINODE.toNat < 8 * s.filsys.sIsize.toNat := by
    rw [h.1.isize]
    show 1 < _
    omega
  have begun : Guarded g (Deep 0 True) { s with
        depth := 0
        linkmap := Function.update s.linkmap ROOTINODE 1
        events := .linkmap ROOTINODE :: s.events } :=
    h.step (.linkmap ROOTINODE) ⟨rfl, rfl, rfl, id, rfl⟩ rfl rfl (fun _ _ => root) fun _ _ => ⟨rfl, trivial⟩
  rw [pass4, wp_bind, wp_modify, wp_bind, wp_setLinkmap, if_pos there, wp_bind]
  refine wp_post (guarded_ckdir begun) fun _ s' h' => ?_
  rw [wp_bind, wp_get, wp_ite]
  split
  · exact h'.stopped
  · rw [wp_pure]
    exact h'.mono fun _ => trivial

end Directories

end Fsck
end Uzi
