import Uzi.Lib.Descent
import Uzi.Utils.FsckPaths

/-!
# The links that `fsck` counts

Pass 4 on an image whose directories form a tree. A directory has 32 entries for each whole block of its size, and
`ckdir` looks at 8.
-/

namespace Uzi
open Exec Descent

namespace Fsck

/-! ## Directory trees -/

/-- The number of entries of a directory. -/
def entriesOf (ino : Dinode) : Nat := 32 * ino.iSize.oBlkno.toNat + ino.iSize.oOffset.toNat / 16

/-- The number of entries of a directory that `ckdir` looks at. -/
def lookedAt (ino : Dinode) : Nat := 8 * ino.iSize.oBlkno.toNat + ino.iSize.oOffset.toNat / 16

/-- The first entries of directory `inum`, as many as `k` says. -/
def firstEntries (image : Image) (k : Dinode → Nat) (inum : Word) : List Direct :=
  (List.range (k (inodeAt image inum))).map (fileEntry image (inodeAt image inum))

/-- A used entry of another directory, which is neither `.` nor `..`. -/
def LeadsDown (image : Image) (d : Direct) : Prop :=
  d.dIno ≠ 0 ∧ ¬ Dots d ∧ (inodeAt image d.dIno).iMode &&& F_MASK = F_DIR

instance {d : Direct} : Decidable (Dots d) := inferInstanceAs (Decidable (_ ∨ _))

instance {image : Image} : DecidablePred (LeadsDown image) := fun _ => inferInstanceAs (Decidable (_ ∧ ¬ _ ∧ _))

/-- The directories below directory `inum`, as its first entries have them. -/
def subdirs (image : Image) (k : Dinode → Nat) (inum : Word) : List Word :=
  ((firstEntries image k inum).filter fun d => LeadsDown image d).map Direct.dIno

/-- The number of the first entries of directory `inum` that are links to inode `n`. -/
def linksIn (image : Image) (k : Dinode → Nat) (n inum : Word) : Nat :=
  (firstEntries image k inum).countP fun d => d.dIno = n

/-- All directories. -/
def directories (image : Image) : List Word := reached (subdirs image entriesOf) MAXDEPTH ROOTINODE

/-- The number of entries in all directories that are links to inode `n`, and one more for the root. -/
def linkCount (image : Image) (n : Word) : Nat :=
  (if n = ROOTINODE then 1 else 0) + ((directories image).map (linksIn image entriesOf n)).sum

/-- An inode of the table that is in use. -/
def Allocated (s : State) (n : Word) : Prop :=
  n ≠ 0 ∧ inodesLeft s.filsys n = true ∧ (inodeAt s.image n).iMode ≠ 0

/-- A used entry of directory `inum`, which was found from directory `pnum`. -/
structure ValidEntry (s : State) (inum pnum : Word) (d : Direct) : Prop where
  allocated : Allocated s d.dIno
  noSlash : ∀ c < 14, d.name c = SLASH → ∃ i < c, d.name i = 0
  dot : isName d [0x2e] = true → d.dIno = inum
  dotDot : isName d [0x2e, 0x2e] = true → d.dIno = pnum

/-- Directory `inum`, which was found from directory `pnum`, has a size in whole entries, no holes and valid entries,
and those that lead to directories lead to such directories, through less than `levels` of them. -/
def ValidTree (s : State) : (levels : Nat) → (inum pnum : Word) → Prop
  | 0, _, _ => False
  | levels + 1, inum, pnum =>
    (inodeAt s.image inum).iMode &&& F_MASK = F_DIR ∧
      ((inodeAt s.image inum).iSize.oOffset.toNat < 512 ∧ (inodeAt s.image inum).iSize.oOffset.toNat % 16 = 0) ∧
      ∀ j < entriesOf (inodeAt s.image inum),
        (inodeAt s.image inum).stored s.image (BitVec.ofNat 16 (j / 32)) ≠ 0 ∧
        ((fileEntry s.image (inodeAt s.image inum) j).dIno ≠ 0 →
          ValidEntry s inum pnum (fileEntry s.image (inodeAt s.image inum) j)) ∧
        (LeadsDown s.image (fileEntry s.image (inodeAt s.image inum) j) →
          ValidTree s levels (fileEntry s.image (inodeAt s.image inum) j).dIno inum)

/-- The directories form a tree, in which none is reached twice, and `linkmap` is as pass 1 leaves it. -/
structure TreeOfDirectories (s : State) : Prop where
  root : Allocated s ROOTINODE
  valid : ValidTree s MAXDEPTH ROOTINODE ROOTINODE
  once : (directories s.image).Nodup
  links : ∀ n, n ≠ 0 → inodesLeft s.filsys n = true → s.linkmap n = if (inodeAt s.image n).iMode = 0 then -1 else 0

/-! ## What `ckdir` does with it -/

/-- The path of an entry of the directory with path `name`. -/
def entryPath (stack name : List Byte) (d : Direct) : List Byte := name ++ catName stack d ++ [SLASH]

/-- The path of an entry fits, with a level left below it, and what `deeper` says of the directory it leads to. -/
def PathFits (stack : List Byte) (image : Image) (deeper : Word → List Byte → Prop) (levels : Nat) (name : List Byte)
    (d : Direct) : Prop :=
  d.dIno ≠ 0 → ¬ Dots d → levels ≠ 0 →
    (entryPath stack name d).length < 150 ∧ (LeadsDown image d → deeper d.dIno (entryPath stack name d))

/-- What `ckdir` looks at of directory `inum` and of those it finds from there lies in the first block of each, and
the paths fit. -/
def PathsFit (stack : List Byte) (image : Image) : (levels : Nat) → (inum : Word) → (name : List Byte) → Prop
  | 0, _, _ => True
  | levels + 1, inum, name =>
    lookedAt (inodeAt image inum) ≤ 32 ∧
      ∀ j < lookedAt (inodeAt image inum),
        PathFits stack image (PathsFit stack image levels) levels name (fileEntry image (inodeAt image inum) j)

/-- The links to inode `n` that `ckdir` counts from directory `inum` on. -/
def seen (image : Image) (levels : Nat) (inum n : Word) : Nat :=
  total (subdirs image lookedAt) (linksIn image lookedAt n) levels inum

/-- The links that are counted for an entry, `below` being those that are counted in the directory it leads to. -/
def entryLinks (image : Image) (below : Word → Word → Nat) (n : Word) (d : Direct) : Nat :=
  (if d.dIno = n then 1 else 0) + if LeadsDown image d then below d.dIno n else 0

/-- Between `s` and `s'` the links `t` have been counted, and nothing has been written. -/
structure Counted (s s' : State) (t : Word → Nat) : Prop where
  image : s'.image = s.image
  filsys : s'.filsys = s.filsys
  stack : s'.stack = s.stack
  depth : s'.depth = s.depth
  links : ∀ n, Allocated s n → (s'.linkmap n).toNat = (s.linkmap n).toNat + t n

section Counting

variable {s s' s'' : State} {t t' : Word → Nat} {n inum pnum j : Word} {ino : Dinode} {d : Direct} {name : List Byte}
  {levels k fuel : Nat}

/-- Only the image and the superblock matter. -/
lemma allocated_congr (image : s'.image = s.image) (filsys : s'.filsys = s.filsys) :
    Allocated s' n ↔ Allocated s n := by
  unfold Allocated
  rw [image, filsys]

namespace Counted

/-- What is counted is allocated as before. -/
lemma allocated (h : Counted s s' t) : Allocated s' n ↔ Allocated s n := allocated_congr h.image h.filsys

/-- Nothing is counted. -/
lemma refl : Counted s s fun _ => 0 := ⟨rfl, rfl, rfl, rfl, fun _ _ => rfl⟩

/-- Counted, twice. -/
lemma trans (h : Counted s s' t) (h' : Counted s' s'' t') : Counted s s'' fun n => t n + t' n where
  image := h'.image.trans h.image
  filsys := h'.filsys.trans h.filsys
  stack := h'.stack.trans h.stack
  depth := h'.depth.trans h.depth
  links n used := by
    rw [h'.links n (h.allocated.mpr used), h.links n used, Nat.add_assoc]

/-- Only the counts of allocated inodes matter. -/
lemma congr (h : Counted s s' t) (same : ∀ n, Allocated s n → t n = t' n) : Counted s s' t' where
  image := h.image
  filsys := h.filsys
  stack := h.stack
  depth := h.depth
  links n used := by rw [h.links n used, same n used]

/-- A step that counts nothing. -/
lemma quiet (image : s'.image = s.image) (filsys : s'.filsys = s.filsys) (stack : s'.stack = s.stack)
    (depth : s'.depth = s.depth) (linkmap : s'.linkmap = s.linkmap) : Counted s s' fun _ => 0 :=
  ⟨image, filsys, stack, depth, fun n _ => by rw [linkmap, Nat.add_zero]⟩

end Counted

/-- An allocated inode is in the table. -/
lemma Allocated.below (h : Allocated s n) : n.toNat < 8 * s.filsys.sIsize.toNat := by
  have := of_decide_eq_true h.2.1
  rw [inodesEnd] at this
  omega

/-! ### One entry -/

/-- There is nothing to fix in a name without slashes. -/
lemma fixSlashes_none {count c : Nat} (noSlash : ∀ c < 14, d.name c = SLASH → ∃ i < c, d.name i = 0)
    (named : ∀ i < c, d.name i ≠ 0) (ends : c + count = 14) : fixSlashes ino j name count c d = pure d := by
  induction count generalizing c with
  | zero => rfl
  | succ count ih =>
    unfold fixSlashes
    split
    · rfl
    · next more =>
      have plain : d.name c ≠ SLASH := by
        intro slash
        obtain ⟨i, lt, zero⟩ := noSlash c (by omega) slash
        exact named i lt zero
      unfold fixSlash
      rw [if_neg plain, pure_bind]
      refine ih (fun i lt => ?_) (by omega)
      cases Nat.lt_succ_iff_lt_or_eq.mp lt with
      | inl before => exact named i before
      | inr own => exact own ▸ more

/-- A question that is not asked. -/
lemma zapEntry_none {q : Question} : zapEntry ino j d false q = pure false := rfl

/-- A right entry is left. -/
lemma fixDot_none {i : Word} {q : Question} : fixDot ino j d i false q = pure d := rfl

/-- `++linkmap[i]`, where there is room. -/
lemma wp_countLink (used : Allocated s n) (room : (s.linkmap n).toNat + 1 ≤ 32767) :
    wp (countLink n) (fun _ s' => Counted s s' fun m => if n = m then 1 else 0) (fun _ => False) s := by
  have below := used.below
  unfold countLink
  rw [wp_bind, wp_linkmapAt, if_pos below, wp_setLinkmap, if_pos below]
  refine ⟨rfl, rfl, rfl, rfl, fun m _ => ?_⟩
  show (Function.update s.linkmap n (s.linkmap n + 1) m).toNat = _
  by_cases own : n = m
  · subst own
    rw [Function.update_self, if_pos rfl, BitVec.toNat_add, show (1 : Word).toNat = 1 from rfl]
    omega
  · rw [Function.update_of_ne (Ne.symm own), if_neg own, Nat.add_zero]

/-- An entry of the first block. -/
lemma fileEntry_first {image : Image} {k : Nat} (lt : k < 32) :
    fileEntry image ino k = (image (ino.addr 0)).direct k := by
  rw [fileEntry_eq, Nat.div_eq_of_lt lt, Nat.mod_eq_of_lt lt]
  rfl

/-- `ckentry` counts the entry, and what `rec` counts. -/
lemma wp_ckentry {rec : Word → Word → List Byte → F PUnit} {below : Word → Word → Nat}
    {deeper : Word → List Byte → Prop} (there : ino.addr 0 ≠ 0) (lt : j.toNat < 32)
    (at_d : fileEntry s.image ino j.toNat = d) (valid : d.dIno ≠ 0 → ValidEntry s inum pnum d)
    (apart : d.dIno ≠ 0 → ¬ Dots d → d.dIno ≠ pnum ∧ d.dIno ≠ inum) (depth : s.depth < MAXDEPTH ↔ levels ≠ 0)
    (bottom : LeadsDown s.image d → levels ≠ 0)
    (room : ∀ n, Allocated s n → (s.linkmap n).toNat + entryLinks s.image below n d ≤ 32767)
    (goesOn : ∀ s', Counted s s' (fun n => if d.dIno = n then 1 else 0) → d.dIno ≠ 0 → ¬ Dots d → levels ≠ 0 →
      wp (rec d.dIno inum (entryPath s.stack name d))
        (fun _ s'' => Counted s' s'' (fun n => if LeadsDown s.image d then below d.dIno n else 0) ∧
          (LeadsDown s.image d → deeper d.dIno (entryPath s.stack name d)))
        (fun _ => LeadsDown s.image d ∧ ¬ deeper d.dIno (entryPath s.stack name d)) s') :
    wp (ckentry rec inum pnum name ino j)
      (fun _ s' => Counted s s' (fun n => entryLinks s.image below n d) ∧
        PathFits s.stack s.image deeper levels name d)
      (fun _ => ¬ PathFits s.stack s.image deeper levels name d) s := by
  have first : blkno s.image ino (j / 32) = ino.addr 0 := blkno_first lt
  unfold ckentry
  rw [wp_bind]
  refine wp_mono (wp_dirread (first ▸ there) lt) (fun r s₁ got => ?_) fun _ => False.elim
  rw [first, ← fileEntry_first lt, at_d] at got
  obtain ⟨rfl, quiet⟩ := got
  have read : Counted s s₁ fun _ => 0 := by
    rw [quiet]
    exact .quiet rfl rfl rfl rfl rfl
  rw [wp_ite]
  split
  · next zero =>
    rw [wp_pure]
    refine ⟨read.congr fun n used => ?_, fun ne => absurd zero ne⟩
    rw [entryLinks, if_neg fun own : r.dIno = n => used.1 (own ▸ zero),
      if_neg fun down : LeadsDown s.image r => down.1 zero]
  · next ne =>
    have entry := valid ne
    have inside := entry.allocated.below
    have asksRange : decide (r.dIno < ROOTINODE ∨ 8 * s₁.filsys.sIsize.toNat ≤ r.dIno.toNat) = false := by
      rw [read.filsys]
      refine decide_eq_false fun out => ?_
      cases out with
      | inl zero => exact ne (BitVec.eq_of_toNat_eq (Nat.lt_one_iff.mp (BitVec.lt_def.mp zero)))
      | inr big => omega
    rw [wp_bind, wp_get, wp_bind, wp_emit, asksRange, zapEntry_none, pure_bind, wp_ite,
      if_neg Bool.false_ne_true, wp_bind, bogus, wp_ite,
      if_neg ne, wp_bind, wp_linkmapAt, if_pos (read.filsys ▸ inside), wp_pure]
    have few := room r.dIno entry.allocated
    rw [entryLinks, if_pos rfl, ← Nat.add_assoc] at few
    have known : s₁.linkmap r.dIno ≠ -1 := by
      have same := read.links r.dIno entry.allocated
      intro bad
      rw [bad, show (-1 : Word).toNat = 65535 from rfl] at same
      omega
    rw [decide_eq_false known, zapEntry_none, pure_bind, wp_ite, if_neg Bool.false_ne_true, wp_bind]
    have looked : Counted s { s₁ with
        events := .linkmap r.dIno :: .entry s₁.linkmap s₁.depth inum pnum name r :: s₁.events } fun _ => 0 :=
      ⟨read.image, read.filsys, read.stack, read.depth, read.links⟩
    have used := looked.allocated.mpr entry.allocated
    have fewer : (s₁.linkmap r.dIno).toNat + 1 ≤ 32767 := by
      rw [read.links r.dIno entry.allocated]
      omega
    refine wp_mono (wp_countLink used fewer) (fun _ s₂ got => ?_) fun _ => False.elim
    have counted : Counted s s₂ fun n => if r.dIno = n then 1 else 0 :=
      (looked.trans got).congr fun n _ => Nat.zero_add _
    have dot : decide (isName r [0x2e] = true ∧ r.dIno ≠ inum) = false :=
      decide_eq_false fun wrong => wrong.2 (entry.dot wrong.1)
    have dotDot : decide (isName r [0x2e, 0x2e] = true ∧ r.dIno ≠ pnum) = false :=
      decide_eq_false fun wrong => wrong.2 (entry.dotDot wrong.1)
    rw [fixSlashes_none entry.noSlash (fun _ lt => absurd lt (Nat.not_lt_zero _)) rfl, pure_bind, dot, fixDot_none,
      pure_bind, dotDot, fixDot_none, pure_bind, wp_bind, wp_get, wp_ite, counted.depth]
    split
    · next goes =>
      have other : ¬ Dots r := by
        rintro (is | is)
        · exact goes.2.1 (entry.dot is)
        · exact goes.1 (entry.dotDot is)
      have level := depth.mp goes.2.2
      rw [wp_bind, makePath, wp_bind, wp_get, wp_bind, wp_emit, counted.stack, wp_ite]
      split
      · next short =>
        have found : Counted s { s₂ with
            stack := s.stack
            events := .path (name ++ catName s.stack r ++ [SLASH]) :: s₂.events } fun n => if r.dIno = n then 1 else 0 :=
          ⟨counted.image, counted.filsys, rfl, counted.depth, counted.links⟩
        rw [wp_pure]
        refine wp_mono (goesOn _ found ne other level) (fun _ s₃ got => ?_) fun e got fits => ?_
        · exact ⟨found.trans got.1, fun _ _ _ => ⟨short, got.2⟩⟩
        · exact got.2 ((fits ne other level).2 got.1)
      · next long => exact fun fits => long (fits ne other level).1
    · next stays =>
      rw [wp_pure]
      have bottomed : Dots r ∨ levels = 0 := by
        by_contra no
        obtain ⟨other, level⟩ := not_or.mp no
        exact stays ⟨(apart ne other).1, (apart ne other).2, depth.mpr level⟩
      have flat : ¬ LeadsDown s.image r := by
        intro down
        cases bottomed with
        | inl is => exact down.2.1 is
        | inr zero => exact bottom down zero
      refine ⟨counted.congr fun n _ => ?_, fun _ other level => ?_⟩
      · rw [entryLinks, if_neg flat, Nat.add_zero]
      · cases bottomed with
        | inl is => exact absurd is other
        | inr zero => exact absurd zero level

/-! ### One directory -/

/-- The links that are counted for the first `k` entries of a directory. -/
def linksUpTo (image : Image) (below : Word → Word → Nat) (n : Word) (ino : Dinode) (k : Nat) : Nat :=
  (((List.range k).map (fileEntry image ino)).map (entryLinks image below n)).sum

section Sums

variable {image : Image} {below : Word → Word → Nat} {k' : Nat}

/-- The links of one entry more. -/
lemma linksUpTo_succ :
    linksUpTo image below n ino (k + 1) =
      linksUpTo image below n ino k + entryLinks image below n (fileEntry image ino k) := by
  unfold linksUpTo
  rw [List.range_succ, List.map_append, List.map_append, List.sum_append, List.map_singleton, List.map_singleton,
    List.sum_singleton]

/-- More entries have more links. -/
lemma linksUpTo_mono (le : k ≤ k') : linksUpTo image below n ino k ≤ linksUpTo image below n ino k' :=
  monotone_nat_of_le_succ (fun k => by rw [linksUpTo_succ]; exact Nat.le_add_right _ _) le

/-- The links in a directory, and those below it. -/
lemma linksUpTo_eq (limit : Dinode → Nat) : linksUpTo image below n (inodeAt image inum) (limit (inodeAt image inum)) =
    linksIn image limit n inum + ((subdirs image limit inum).map fun m => below m n).sum := by
  have parts : ∀ ds : List Direct, (ds.map (entryLinks image below n)).sum =
      ds.countP (fun d => d.dIno = n) +
        (((ds.filter fun d => LeadsDown image d).map Direct.dIno).map fun m => below m n).sum := by
    intro ds
    induction ds with
    | nil => rfl
    | cons d ds ih =>
      rw [List.map_cons, List.sum_cons, ih, List.countP_cons, List.filter_cons, entryLinks]
      by_cases down : LeadsDown image d
      · simp only [down, if_pos, decide_true, List.map_cons, List.sum_cons, decide_eq_true_eq]
        omega
      · simp only [down, if_false, decide_false, Bool.false_eq_true, decide_eq_true_eq]
        omega
  exact parts _

/-- What is counted from a directory on. -/
lemma seen_succ : seen image (levels + 1) inum n =
    linksUpTo image (seen image levels) n (inodeAt image inum) (lookedAt (inodeAt image inum)) := by
  rw [linksUpTo_eq lookedAt]
  exact total_succ

/-- There are no more entries than fit. -/
lemma lookedAt_le : lookedAt ino ≤ entriesOf ino := by
  unfold lookedAt entriesOf
  omega

/-- An entry that leads down leads to one of the directories below. -/
lemma LeadsDown.mem (limit : Dinode → Nat) (down : LeadsDown image (fileEntry image (inodeAt image inum) k))
    (lt : k < limit (inodeAt image inum)) :
    (fileEntry image (inodeAt image inum) k).dIno ∈ subdirs image limit inum := by
  refine List.mem_map_of_mem (List.mem_filter.mpr ⟨?_, decide_eq_true down⟩)
  exact List.mem_map_of_mem (List.mem_range.mpr lt)

end Sums

/-- Only the image and the superblock matter. -/
lemma ValidTree.congr (h : ValidTree s levels inum pnum) (image : s'.image = s.image) (filsys : s'.filsys = s.filsys) :
    ValidTree s' levels inum pnum := by
  induction levels generalizing inum pnum with
  | zero => exact h
  | succ levels ih =>
    obtain ⟨mode, size, entries⟩ := h
    unfold ValidTree
    rw [image]
    refine ⟨mode, size, fun j lt => ?_⟩
    obtain ⟨there, valid, down⟩ := entries j lt
    refine ⟨there, fun ne => ?_, fun leads => ih (down leads)⟩
    have entry := valid ne
    exact ⟨(allocated_congr image filsys).mpr entry.allocated, entry.noSlash, entry.dot, entry.dotDot⟩

/-- A tree has a level. -/
lemma ValidTree.pos (h : ValidTree s levels inum pnum) : levels ≠ 0 := by
  rintro rfl
  exact h

/-- A directory of a tree is reached from itself. -/
lemma ValidTree.reached_self (next : Word → List Word) (h : ValidTree s levels inum pnum) :
    inum ∈ reached next levels inum := by
  cases levels with
  | zero => exact absurd rfl h.pos
  | succ levels => exact self_reached

/-- `ckdir` looks at no more than the inode of what is not a directory. -/
lemma wp_ckdir_other (other : (inodeAt s.image inum).iMode &&& F_MASK ≠ F_DIR) (pos : levels ≠ 0) :
    wp (ckdir fuel levels inum pnum name) (fun _ s' => Counted s s' fun _ => 0) (fun _ => False) s := by
  obtain ⟨levels, rfl⟩ := Nat.exists_eq_succ_of_ne_zero pos
  rw [ckdir, wp_bind, wp_iread, wp_ite]
  refine (if_pos other).mpr ?_
  rw [wp_pure]
  exact .quiet rfl rfl rfl rfl rfl

/-- The length of a directory is a number of entries. -/
lemma fixLength_none (lt : ino.iSize.oOffset.toNat < 512) (whole : ino.iSize.oOffset.toNat % 16 = 0) :
    fixLength inum ino = pure ino := by
  have small : ino.iSize.oOffset.toInt = ino.iSize.oOffset.toNat := by
    rw [BitVec.toInt_eq_toNat_cond, if_pos (by omega)]
  unfold fixLength
  rw [if_neg]
  rw [small]
  exact not_not_intro (Int.tmod_eq_zero_of_dvd (Int.natCast_dvd_natCast.mpr (Nat.dvd_of_mod_eq_zero whole)))

/-- The number of entries that `ckdir` takes from a size. -/
def nentries (ino : Dinode) : Int := 8 * (ino.iSize.oBlkno.toNat : Int) + Int.tdiv ino.iSize.oOffset.toInt 16

/-- It is the number of the entries that are looked at, where the offset is in the block. -/
lemma nentries_eq (lt : ino.iSize.oOffset.toNat < 512) : nentries ino = lookedAt ino := by
  have small : ino.iSize.oOffset.toInt = ino.iSize.oOffset.toNat := by
    rw [BitVec.toInt_eq_toNat_cond, if_pos (by omega)]
  unfold nentries lookedAt
  rw [small, Int.tdiv_eq_ediv_of_nonneg (by omega)]
  omega

/-- `ckdir` comes to directory `inum` of a tree, from directory `pnum`. -/
structure Comes (s : State) (levels : Nat) (inum pnum : Word) : Prop where
  valid : ValidTree s levels inum pnum
  once : (reached (subdirs s.image entriesOf) levels inum).Nodup
  apart : pnum = inum ∨ pnum ∉ reached (subdirs s.image entriesOf) levels inum
  above : (inodeAt s.image pnum).iMode &&& F_MASK = F_DIR
  depth : s.depth + levels = MAXDEPTH
  room : ∀ n, Allocated s n → (s.linkmap n).toNat + seen s.image levels inum n ≤ 32767

/-- `ckdir` has looked at the first `k` entries of directory `inum`, and their paths fit. -/
structure UpTo (inum : Word) (name : List Byte) (levels k : Nat) (s s' : State) : Prop where
  counted : Counted { s with depth := s.depth + 1 } s' fun n =>
    linksUpTo s.image (seen s.image levels) n (inodeAt s.image inum) k
  fits : ∀ i < k, PathFits s.stack s.image (PathsFit s.stack s.image levels) levels name
    (fileEntry s.image (inodeAt s.image inum) i)

/-- A used entry that is neither `.` nor `..` leads elsewhere. -/
lemma Comes.elsewhere (h : Comes s (levels + 1) inum pnum) {k : Nat} (lt : k < entriesOf (inodeAt s.image inum))
    (ne : (fileEntry s.image (inodeAt s.image inum) k).dIno ≠ 0)
    (other : ¬ Dots (fileEntry s.image (inodeAt s.image inum) k)) :
    (fileEntry s.image (inodeAt s.image inum) k).dIno ≠ pnum ∧
      (fileEntry s.image (inodeAt s.image inum) k).dIno ≠ inum := by
  obtain ⟨mode, -, entries⟩ := h.valid
  by_cases dir : (inodeAt s.image (fileEntry s.image (inodeAt s.image inum) k).dIno).iMode &&& F_MASK = F_DIR
  · have down : LeadsDown s.image (fileEntry s.image (inodeAt s.image inum) k) := ⟨ne, other, dir⟩
    have step := down.mem entriesOf lt
    have here := ((entries k lt).2.2 down).reached_self (subdirs s.image entriesOf)
    have own : (fileEntry s.image (inodeAt s.image inum) k).dIno ≠ inum := ne_of_step h.once step here
    refine ⟨?_, own⟩
    cases h.apart with
    | inl same => exact fun e => own (e.trans same)
    | inr away =>
      intro e
      have mem := reached_next step here
      rw [e] at mem
      exact away mem
  · refine ⟨fun e => dir ?_, fun e => dir ?_⟩
    · rw [e]
      exact h.above
    · rw [e]
      exact mode

/-- What has been counted leaves room for the next entry. -/
lemma UpTo.room (h : UpTo inum name levels k s s') (comes : Comes s (levels + 1) inum pnum)
    (lt : k < lookedAt (inodeAt s.image inum)) (used : Allocated s n) :
    (s'.linkmap n).toNat +
      entryLinks s.image (seen s.image levels) n (fileEntry s.image (inodeAt s.image inum) k) ≤ 32767 := by
  have room := comes.room n used
  have more : linksUpTo s.image (seen s.image levels) n (inodeAt s.image inum) (k + 1) ≤ _ :=
    linksUpTo_mono (Nat.succ_le_of_lt lt)
  rw [linksUpTo_succ] at more
  rw [seen_succ] at room
  have links : (s'.linkmap n).toNat = (s.linkmap n).toNat + _ := h.counted.links n used
  rw [links]
  omega

/-- `ckdir` comes to the directories below. -/
lemma Comes.down (h : Comes s (levels + 1) inum pnum) (upTo : UpTo inum name levels k s s')
    (lt : k < lookedAt (inodeAt s.image inum))
    (down : LeadsDown s.image (fileEntry s.image (inodeAt s.image inum) k))
    (counted : Counted s' s'' fun n => if (fileEntry s.image (inodeAt s.image inum) k).dIno = n then 1 else 0) :
    Comes s'' levels (fileEntry s.image (inodeAt s.image inum) k).dIno inum := by
  have image' : s'.image = s.image := upTo.counted.image
  have filsys' : s'.filsys = s.filsys := upTo.counted.filsys
  have image : s''.image = s.image := counted.image.trans image'
  have filsys : s''.filsys = s.filsys := counted.filsys.trans filsys'
  obtain ⟨mode, -, entries⟩ := h.valid
  have inside : k < entriesOf (inodeAt s.image inum) := Nat.lt_of_lt_of_le lt lookedAt_le
  have step := down.mem entriesOf inside
  refine ⟨((entries k inside).2.2 down).congr image filsys, ?_, ?_, ?_, ?_, fun n used => ?_⟩
  · rw [image]
    exact nodup_next h.once step
  · rw [image]
    exact .inr (not_reached_self h.once step)
  · rw [image]
    exact mode
  · have depth : s''.depth = s.depth + 1 := counted.depth.trans upTo.counted.depth
    have whole := h.depth
    omega
  · have used' : Allocated s n := (allocated_congr image filsys).mp used
    have room := upTo.room h lt used'
    rw [entryLinks, if_pos down] at room
    have links := counted.links n ((allocated_congr image' filsys').mpr used')
    rw [links, image]
    omega

/-- A round of `ckdir`, given what `ckdir` does in the directories below. -/
lemma UpTo.round (h : UpTo inum name levels j.toNat s s') (comes : Comes s (levels + 1) inum pnum)
    (more : j.toNat < lookedAt (inodeAt s.image inum)) (lt : j.toNat < 32)
    (deeper : ∀ {s : State} {inum pnum : Word} {name : List Byte}, Comes s levels inum pnum →
      wp (ckdir fuel levels inum pnum name)
        (fun _ s' => Counted s s' (seen s.image levels inum) ∧ PathsFit s.stack s.image levels inum name)
        (fun _ => ¬ PathsFit s.stack s.image levels inum name) s) :
    wp (ckentry (ckdir fuel levels) inum pnum name (inodeAt s.image inum) j)
      (fun _ s'' => UpTo inum name levels (j.toNat + 1) s s'')
      (fun _ => ¬ PathsFit s.stack s.image (levels + 1) inum name) s' := by
  have image : s'.image = s.image := h.counted.image
  have filsys : s'.filsys = s.filsys := h.counted.filsys
  have stack : s'.stack = s.stack := h.counted.stack
  have depth : s'.depth = s.depth + 1 := h.counted.depth
  have inside : j.toNat < entriesOf (inodeAt s.image inum) := Nat.lt_of_lt_of_le more lookedAt_le
  obtain ⟨hole, valid, below⟩ := comes.valid.2.2 j.toNat inside
  rw [Nat.div_eq_of_lt lt] at hole
  have entry : wp (ckentry (ckdir fuel levels) inum pnum name (inodeAt s.image inum) j)
      (fun _ s'' => Counted s' s'' (fun n => entryLinks s'.image (seen s.image levels) n
          (fileEntry s.image (inodeAt s.image inum) j.toNat)) ∧
        PathFits s'.stack s'.image (PathsFit s.stack s.image levels) levels name
          (fileEntry s.image (inodeAt s.image inum) j.toNat))
      (fun _ => ¬ PathFits s'.stack s'.image (PathsFit s.stack s.image levels) levels name
        (fileEntry s.image (inodeAt s.image inum) j.toNat)) s' := by
    refine wp_ckentry hole lt (by rw [image]) (fun ne => ?_) (comes.elsewhere inside) ?_ (fun down => ?_)
      (fun n used => ?_) fun s'' counted ne other pos => ?_
    · have entry := valid ne
      exact ⟨(allocated_congr image filsys).mpr entry.allocated, entry.noSlash, entry.dot, entry.dotDot⟩
    · have whole := comes.depth
      omega
    · rw [image] at down
      exact (below down).pos
    · rw [image]
      exact h.room comes more ((allocated_congr image filsys).mp used)
    · have image' : s''.image = s.image := counted.image.trans image
      have stack' : s''.stack = s.stack := counted.stack.trans stack
      rw [image]
      by_cases down : LeadsDown s.image (fileEntry s.image (inodeAt s.image inum) j.toNat)
      · have child : wp (ckdir fuel levels (fileEntry s.image (inodeAt s.image inum) j.toNat).dIno inum
            (entryPath s'.stack name (fileEntry s.image (inodeAt s.image inum) j.toNat))) _ _ s'' :=
          deeper (comes.down h more down counted)
        rw [image', stack'] at child
        refine wp_mono child (fun _ s₃ got => ⟨got.1.congr fun n _ => ?_, fun _ => got.2⟩) fun e wrong => ⟨down, wrong⟩
        rw [if_pos down]
      · have other : (inodeAt s''.image (fileEntry s.image (inodeAt s.image inum) j.toNat).dIno).iMode &&& F_MASK ≠
            F_DIR := by
          rw [image']
          exact fun dir => down ⟨ne, other, dir⟩
        refine wp_mono (wp_ckdir_other other pos) (fun _ s₃ got => ⟨got.congr fun n _ => ?_, fun yes => absurd yes down⟩)
          fun _ => False.elim
        rw [if_neg down]
  rw [image, stack] at entry
  refine wp_mono entry (fun _ s'' got => ⟨?_, fun i lt => ?_⟩) fun e wrong fits => wrong (fits.2 j.toNat more)
  · exact (h.counted.trans got.1).congr fun n _ => linksUpTo_succ.symm
  · cases Nat.lt_succ_iff_lt_or_eq.mp lt with
    | inl before => exact h.fits i before
    | inr own => exact own ▸ got.2

/-- `ckdir` counts the links in a directory and in those below it, and stops only where an entry or a path does not
fit. -/
lemma wp_ckdir (enough : 65536 ≤ fuel) (comes : Comes s levels inum pnum) :
    wp (ckdir fuel levels inum pnum name)
      (fun _ s' => Counted s s' (seen s.image levels inum) ∧ PathsFit s.stack s.image levels inum name)
      (fun _ => ¬ PathsFit s.stack s.image levels inum name) s := by
  induction levels generalizing s inum pnum name with
  | zero => exact absurd rfl comes.valid.pos
  | succ levels ih =>
    obtain ⟨mode, ⟨small, whole⟩, entries⟩ := comes.valid
    rw [ckdir, wp_bind, wp_iread, wp_ite]
    refine (if_neg (not_not_intro mode)).mpr ?_
    rw [wp_bind, wp_modify]
    show wp (do
      let ino ← fixLength inum (inodeAt s.image inum)
      let _ ← loop (fun j : Word => (j.toNat : Int) < nentries ino) (fun j => do
        ckentry (ckdir fuel levels) inum pnum name ino j
        pure (j + 1)) (halt .hang) fuel 0
      modify fun s => { s with depth := s.depth - 1 }) _ _ _
    rw [fixLength_none small whole, pure_bind, nentries_eq small, wp_bind]
    have start : ∀ s' : State, s' = { s with
        readbuf := s.image (inodeBlk inum)
        depth := s.depth + 1
        events := .inode inum (inodeAt s.image inum) :: s.events } → UpTo inum name levels 0 s s' := by
      rintro s' rfl
      exact ⟨⟨rfl, rfl, rfl, rfl, fun _ _ => rfl⟩, fun i lt => absurd lt (Nat.not_lt_zero i)⟩
    refine wp_post (wp_loop_measure (fun (j : Word) s' => UpTo inum name levels j.toNat s s' ∧
      j.toNat ≤ lookedAt (inodeAt s.image inum) ∧ j.toNat ≤ 32) (fun j => 65536 - j.toNat) (fun j s' h _ => ?_) ?_
      (Nat.le_trans (Nat.sub_le _ _) enough) ⟨start _ rfl, Nat.zero_le _, Nat.zero_le _⟩) fun j s' got => ?_
    · have := j.isLt
      omega
    · intro j s' h more
      have more := Int.ofNat_lt.mp (of_decide_eq_true more)
      rw [wp_bind]
      by_cases lt : j.toNat < 32
      · refine wp_post (h.1.round comes more lt ih) fun _ s'' next => ?_
        have succ : (j + 1).toNat = j.toNat + 1 := by
          rw [BitVec.toNat_add, show (1 : Word).toNat = 1 from rfl]
          omega
        rw [wp_pure, succ]
        exact ⟨⟨next, by omega, by omega⟩, by omega⟩
      · -- the entry lies behind the buffer
        unfold ckentry
        rw [wp_bind]
        refine wp_mono wp_dirread_first (fun _ _ read => absurd read.1 lt) fun _ _ fits => ?_
        have := fits.1
        omega
    · obtain ⟨⟨h, le, few⟩, ends⟩ := got
      have ends := of_decide_eq_false ends
      have all : j.toNat = lookedAt (inodeAt s.image inum) := by omega
      rw [all] at h
      rw [wp_modify]
      refine ⟨⟨h.counted.image, h.counted.filsys, h.counted.stack, ?_, fun n used => ?_⟩, ?_, h.fits⟩
      · show s'.depth - 1 = s.depth
        rw [show s'.depth = s.depth + 1 from h.counted.depth, Nat.add_sub_cancel]
      · rw [seen_succ]
        exact h.counted.links n used
      · omega

end Counting

end Fsck
end Uzi
