import Uzi.Utils.FsckLinks

/-!
# What `ckdir` misses

The links that `ckdir` counts are all there are where it looks at every used entry, and only there. Pass 5 then
changes no link count that was right, and finds no inode detached that is not.
-/

namespace Uzi
open Exec Descent

namespace Fsck

/-! ## The entries that are looked at -/

/-- The used entries of directory `inum` are among those that `ckdir` looks at. -/
def Looked (image : Image) (inum : Word) : Prop :=
  ∀ j < entriesOf (inodeAt image inum), (fileEntry image (inodeAt image inum) j).dIno ≠ 0 →
    j < lookedAt (inodeAt image inum)

/-- `ckdir` looks at every used entry of every directory, these entries and their paths fit, and no inode has more links
than `linkmap` can count. -/
structure AllSeen (s : State) : Prop where
  looked : ∀ inum ∈ directories s.image, Looked s.image inum
  fits : PathsFit s.stack s.image MAXDEPTH ROOTINODE [SLASH]
  few : ∀ n, Allocated s n → linkCount s.image n ≤ 32767

section Looks

variable {image : Image} {s : State} {inum pnum n : Word} {levels : Nat}

/-- The entries that `ckdir` does not look at. -/
def missed (image : Image) (inum : Word) : List Direct :=
  (List.range (entriesOf (inodeAt image inum) - lookedAt (inodeAt image inum))).map fun j =>
    fileEntry image (inodeAt image inum) (lookedAt (inodeAt image inum) + j)

/-- What is not looked at is the first entries that are missed. -/
lemma firstEntries_eq :
    firstEntries image entriesOf inum = firstEntries image lookedAt inum ++ missed image inum := by
  have all : entriesOf (inodeAt image inum) =
      lookedAt (inodeAt image inum) + (entriesOf (inodeAt image inum) - lookedAt (inodeAt image inum)) :=
    (Nat.add_sub_of_le lookedAt_le).symm
  unfold firstEntries missed
  rw [all, List.range_add, List.map_append, List.map_map, Nat.add_sub_cancel_left]
  rfl

/-- All is looked at when no missed entry is in use. -/
lemma looked_iff : Looked image inum ↔ ∀ d ∈ missed image inum, d.dIno = 0 := by
  constructor
  · intro looked d mem
    obtain ⟨j, lt, rfl⟩ := List.mem_map.mp mem
    have lt := List.mem_range.mp lt
    by_contra ne
    have := looked (lookedAt (inodeAt image inum) + j) (by omega) ne
    omega
  · intro none j lt ne
    by_contra ge
    refine ne (none _ (List.mem_map.mpr ⟨j - lookedAt (inodeAt image inum), List.mem_range.mpr (by omega), ?_⟩))
    rw [Nat.add_sub_of_le (Nat.le_of_not_lt ge)]

/-- The links in a directory, with the missed ones. -/
lemma linksIn_eq : linksIn image entriesOf n inum =
    linksIn image lookedAt n inum + (missed image inum).countP fun d => d.dIno = n := by
  unfold linksIn
  rw [firstEntries_eq, List.countP_append]

/-- The directories below, with the missed ones. -/
lemma subdirs_eq : subdirs image entriesOf inum =
    subdirs image lookedAt inum ++ ((missed image inum).filter fun d => LeadsDown image d).map Direct.dIno := by
  unfold subdirs
  rw [firstEntries_eq, List.filter_append, List.map_append]

/-- Where nothing is missed, all links are counted, and all directories found. -/
lemma Looked.subdirs (h : Looked image inum) : subdirs image lookedAt inum = subdirs image entriesOf inum := by
  have none : (missed image inum).filter (fun d => LeadsDown image d) = [] := by
    refine List.filter_eq_nil_iff.mpr fun d mem down => ?_
    exact (of_decide_eq_true down).1 (looked_iff.mp h d mem)
  rw [subdirs_eq, none, List.map_nil, List.append_nil]

/-- Where all is looked at no link is missed. -/
lemma Looked.linksIn (h : Looked image inum) (ne : n ≠ 0) :
    linksIn image lookedAt n inum = linksIn image entriesOf n inum := by
  rw [linksIn_eq, List.countP_eq_zero.mpr, Nat.add_zero]
  intro d mem own
  exact ne ((of_decide_eq_true own).symm.trans (looked_iff.mp h d mem))

/-- The directories of a tree are valid. -/
lemma ValidTree.each (h : ValidTree s levels inum pnum) {m : Word}
    (mem : m ∈ reached (Fsck.subdirs s.image entriesOf) levels inum) : ∃ l p, ValidTree s (l + 1) m p := by
  induction levels generalizing inum pnum with
  | zero => exact absurd rfl h.pos
  | succ levels ih =>
    cases List.mem_cons.mp mem with
    | inl own => exact ⟨levels, pnum, own ▸ h⟩
    | inr later =>
      obtain ⟨k, step, mem⟩ := List.mem_flatMap.mp later
      obtain ⟨d, entry, rfl⟩ := List.mem_map.mp step
      obtain ⟨entry, down⟩ := List.mem_filter.mp entry
      obtain ⟨j, lt, rfl⟩ := List.mem_map.mp entry
      exact ih ((h.2.2 j (List.mem_range.mp lt)).2.2 (of_decide_eq_true down)) mem

/-- Where all links to inodes in use are counted, nothing is missed. -/
lemma ValidTree.looked (h : ValidTree s (levels + 1) inum pnum)
    (all : ∀ n, Allocated s n → Fsck.linksIn s.image lookedAt n inum = Fsck.linksIn s.image entriesOf n inum) :
    Looked s.image inum := by
  intro j lt ne
  by_contra ge
  have entry := (h.2.2 j lt).2.1 ne
  have same := all _ entry.allocated
  rw [linksIn_eq, Nat.left_eq_add, List.countP_eq_zero] at same
  refine same (fileEntry s.image (inodeAt s.image inum) j) ?_ (decide_eq_true rfl)
  refine List.mem_map.mpr ⟨j - lookedAt (inodeAt s.image inum), List.mem_range.mpr (by omega), ?_⟩
  rw [Nat.add_sub_of_le (Nat.le_of_not_lt ge)]

/-- The links from the root on are all links in all directories just where nothing is missed. -/
lemma seen_eq_iff (valid : ValidTree s MAXDEPTH ROOTINODE ROOTINODE) :
    (∀ n, Allocated s n →
      seen s.image MAXDEPTH ROOTINODE n = ((directories s.image).map (Fsck.linksIn s.image entriesOf n)).sum) ↔
      ∀ inum ∈ directories s.image, Looked s.image inum := by
  constructor
  · intro all inum mem
    have sublist : ∀ m, (Fsck.subdirs s.image lookedAt m).Sublist (Fsck.subdirs s.image entriesOf m) := by
      intro m
      rw [subdirs_eq]
      exact List.sublist_append_left _ _
    have each : ∀ m ∈ directories s.image, ∀ n : { n // Allocated s n },
        Fsck.linksIn s.image lookedAt n m = Fsck.linksIn s.image entriesOf n m := by
      refine weight_eq (fun n m => ?_) sublist (fun m mem same => ?_) fun n => all n n.2
      · rw [linksIn_eq]
        exact Nat.le_add_right _ _
      · obtain ⟨l, p, dir⟩ := valid.each mem
        exact (dir.looked fun n used => same ⟨n, used⟩).subdirs
    obtain ⟨l, p, dir⟩ := valid.each mem
    exact dir.looked fun n used => each inum mem ⟨n, used⟩
  · intro looked n used
    exact total_congr fun m mem => ⟨(looked m mem).linksIn used.1, (looked m mem).subdirs⟩

/-- What `ckdir` counts is no more than there is. -/
lemma seen_le :
    seen image levels inum n ≤ total (Fsck.subdirs image entriesOf) (Fsck.linksIn image entriesOf n) levels inum := by
  refine total_le (fun m => ?_) fun m => ?_
  · rw [linksIn_eq]
    exact Nat.le_add_right _ _
  · rw [subdirs_eq]
    exact List.sublist_append_left _ _

end Looks

/-! ## Pass 4 -/

section Pass4

variable {s : State} {n : Word} {fuel : Nat}

/-- The links before `ckdir` begins: one to the root. -/
lemma TreeOfDirectories.begins (h : TreeOfDirectories s) (used : Allocated s n) :
    (Function.update s.linkmap ROOTINODE 1 n).toNat = if n = ROOTINODE then 1 else 0 := by
  split
  · next root =>
    rw [root, Function.update_self]
    rfl
  · next other =>
    rw [Function.update_of_ne other, h.links n used.1 used.2.1, if_neg used.2.2]
    rfl

/-- `pass4` begins at the root. -/
lemma TreeOfDirectories.comes (h : TreeOfDirectories s) (few : ∀ n, Allocated s n → linkCount s.image n ≤ 32767)
    {s' : State} (image : s'.image = s.image) (filsys : s'.filsys = s.filsys) (depth : s'.depth = 0)
    (linkmap : s'.linkmap = Function.update s.linkmap ROOTINODE 1) : Comes s' MAXDEPTH ROOTINODE ROOTINODE := by
  refine ⟨h.valid.congr image filsys, image ▸ h.once, .inl rfl, ?_, ?_, fun n used => ?_⟩
  · rw [image]
    exact h.valid.1
  · rw [depth, Nat.zero_add]
  · have used := (allocated_congr image filsys).mp used
    have room := few n used
    have le : seen s.image MAXDEPTH ROOTINODE n ≤ _ := seen_le
    rw [linkCount] at room
    rw [linkmap, h.begins used, image]
    exact Nat.le_trans (Nat.add_le_add_left le _) room

/-- `pass4` counts the links that `ckdir` sees, and stops only where an entry or a path does not fit. -/
lemma wp_pass4 (h : TreeOfDirectories s) (few : ∀ n, Allocated s n → linkCount s.image n ≤ 32767)
    (enough : 65536 ≤ fuel) :
    wp (pass4 fuel)
      (fun _ s' => (s'.image = s.image ∧ s'.filsys = s.filsys) ∧
        (∀ n, Allocated s n → (s'.linkmap n).toNat =
          (if n = ROOTINODE then 1 else 0) + seen s.image MAXDEPTH ROOTINODE n) ∧
        PathsFit s.stack s.image MAXDEPTH ROOTINODE [SLASH])
      (fun _ => ¬ PathsFit s.stack s.image MAXDEPTH ROOTINODE [SLASH]) s := by
  rw [pass4, wp_bind, wp_modify, wp_bind, wp_setLinkmap, if_pos h.root.below, wp_bind]
  have comes : Comes { s with
      depth := 0
      linkmap := Function.update s.linkmap ROOTINODE 1
      events := .linkmap ROOTINODE :: s.events } MAXDEPTH ROOTINODE ROOTINODE := h.comes few rfl rfl rfl rfl
  refine wp_post (wp_ckdir enough comes) fun _ s' got => ?_
  obtain ⟨counted, fits⟩ := got
  have depth : s'.depth = 0 := counted.depth
  rw [wp_bind, wp_get, wp_ite, if_neg (not_not_intro depth), wp_pure]
  refine ⟨⟨counted.image, counted.filsys⟩, fun n used => ?_, fits⟩
  have links : (s'.linkmap n).toNat = (Function.update s.linkmap ROOTINODE 1 n).toNat + _ := counted.links n used
  rw [links, h.begins used]

end Pass4

/-! ## Pass 5 -/

/-- The event declares inode `n` detached. -/
def Declares (n : Word) : Event → Prop
  | .asked _ (.uselessDetached m ..) _ => m = n
  | .asked _ (.detached m ..) _ => m = n
  | _ => False

/-- Between `s` and `s'` only inodes with `P` have been declared detached, and no links have been counted. -/
structure Declared (P : Word → Prop) (s s' : State) : Prop where
  linkmap : s'.linkmap = s.linkmap
  isize : s'.filsys.sIsize = s.filsys.sIsize
  events : ∃ events, s'.events = events ++ s.events ∧ ∀ e ∈ events, ∀ n, Declares n e → P n

/-- A part of `pass5` that declares only inodes with `P` detached, and says nothing of what it returns. -/
def Declaring (P : Word → Prop) {α : Type} (c : F α) : Prop :=
  ∀ s : State, wp c (fun _ s' => Declared P s s') (fun e => Declared P s e.2) s

namespace Declared

variable {P : Word → Prop} {s s' s'' : State}

/-- Nothing has been declared. -/
lemma refl : Declared P s s := ⟨rfl, rfl, [], rfl, fun _ mem => absurd mem List.not_mem_nil⟩

/-- One after the other. -/
lemma trans (h : Declared P s s') (h' : Declared P s' s'') : Declared P s s'' := by
  obtain ⟨events, more, declared⟩ := h.events
  obtain ⟨events', more', declared'⟩ := h'.events
  refine ⟨h'.linkmap.trans h.linkmap, h'.isize.trans h.isize, events' ++ events, ?_, fun e mem => ?_⟩
  · rw [more', more, List.append_assoc]
  · cases List.mem_append.mp mem with
    | inl mem => exact declared' e mem
    | inr mem => exact declared e mem

/-- One event more. -/
lemma event {e : Event} (linkmap : s'.linkmap = s.linkmap) (isize : s'.filsys.sIsize = s.filsys.sIsize)
    (events : s'.events = e :: s.events) (only : ∀ n, Declares n e → P n) : Declared P s s' := by
  refine ⟨linkmap, isize, [e], events, fun e' mem => ?_⟩
  rw [List.mem_singleton.mp mem]
  exact only

/-- No event. -/
lemma quiet (linkmap : s'.linkmap = s.linkmap) (isize : s'.filsys.sIsize = s.filsys.sIsize)
    (events : s'.events = s.events) : Declared P s s' :=
  ⟨linkmap, isize, [], events, fun _ mem => absurd mem List.not_mem_nil⟩

end Declared

namespace Declaring

variable {P : Word → Prop} {α β : Type} {c d : F α} {f : α → F β}

/-- A value is returned. -/
lemma pure {a : α} : Declaring P (pure a : F α) := fun _ => .refl

/-- One part after the other. -/
lemma bind (hc : Declaring P c) (hf : ∀ a, Declaring P (f a)) : Declaring P (c >>= f) := by
  intro s
  rw [wp_bind]
  refine wp_post (hc s) fun a s' got => ?_
  exact wp_mono (hf a s') (fun _ _ got' => got.trans got') fun _ got' => got.trans got'

/-- Both branches declare no more. -/
lemma ite {p : Prop} [Decidable p] (hc : p → Declaring P c) (hd : ¬ p → Declaring P d) :
    Declaring P (if p then c else d) := by
  split
  · next h => exact hc h
  · next h => exact hd h

/-- The state is read. -/
lemma get : Declaring P (get : F State) := fun _ => .refl

/-- A stop. -/
lemma halt {e : Stop} : Declaring P (halt e : F α) := fun _ => .refl

/-- A question that is allowed. -/
lemma yes {q : Question} (only : ∀ n image a, Declares n (.asked image q a) → P n) : Declaring P (yes q) :=
  fun _ => .event rfl rfl rfl fun n => only n _ _

/-- An inode is read. -/
lemma iread {n : Word} : Declaring P (iread n) := fun _ => .event rfl rfl rfl fun _ => False.elim

/-- An inode is written. -/
lemma iwrite {n : Word} {ino : Dinode} : Declaring P (iwrite n ino) :=
  fun _ => .event rfl rfl rfl fun _ => False.elim

/-- A block is read. -/
lemma daread {blk : Word} : Declaring P (daread blk) := fun _ => .quiet rfl rfl rfl

/-- The buffer is changed. -/
lemma modifyReadbuf {g : Block → Block} : Declaring P (modifyReadbuf g) := fun _ => .quiet rfl rfl rfl

/-- A block is written. -/
lemma dwrite {blk : Word} {data : Block} : Declaring P (dwrite blk data) :=
  fun _ => .event rfl rfl rfl fun _ => False.elim

/-- The superblock in memory is changed, but not the size of the inode area. -/
lemma modifyFilsys {g : Filesys → Filesys} (isize : ∀ fs, (g fs).sIsize = fs.sIsize) :
    Declaring P (modifyFilsys g) := fun _ => .quiet rfl (isize _) rfl

/-- The number of a block is looked up. -/
lemma getblkno {ino : Dinode} {num : Word} : Declaring P (getblkno ino num) := by
  intro s
  refine wp_mono wp_getblkno (fun _ s' got => ?_) fun _ => False.elim
  rw [got.2]
  exact .quiet rfl rfl rfl

/-- A count is read. -/
lemma linkmapAt {i : Word} : Declaring P (linkmapAt i) :=
  .bind (fun _ => .event rfl rfl rfl fun _ => False.elim) fun _ => .bind .get fun _ =>
    .ite (fun _ => .pure) fun _ => .halt

/-- An entry of a directory is read. -/
lemma dirread {ino : Dinode} {j : Word} : Declaring P (dirread ino j) :=
  .bind .getblkno fun _ => .ite (fun _ => .halt) fun _ => .bind .daread fun _ =>
    .ite (fun _ => .halt) fun _ => .bind .get fun _ => .pure

/-- An entry of a directory is written. -/
lemma dirwrite {ino : Dinode} {j : Word} {d : Direct} : Declaring P (dirwrite ino j d) :=
  .bind .getblkno fun _ => .ite (fun _ => .halt) fun _ => .bind .daread fun _ => .ite (fun _ => .halt) fun _ =>
    .bind .modifyReadbuf fun _ => .bind .get fun _ => .dwrite

/-- The search for a slot in `lost+found`. -/
lemma mkentryFrom {n : Word} {ino : Dinode} {more : Word → Bool} {fuel : Nat} {j : Word} :
    Declaring P (mkentryFrom n ino more fuel j) := by
  induction fuel generalizing j with
  | zero => exact .ite (fun _ => .halt) fun _ => .pure
  | succ fuel ih => exact .ite (fun _ => .bind .dirread fun _ => .ite (fun _ => .dirwrite) fun _ => ih) fun _ => .pure

/-- `attach` declares its inode detached. -/
lemma attach {n : Word} {ino : Dinode} {fuel : Nat} (own : P n) : Declaring P (attach fuel n ino) := by
  refine .ite (fun _ => .bind (.yes fun m _ _ same => same ▸ own) fun _ => .ite (fun _ => ?_) fun _ => .pure)
    fun _ => .bind (.yes fun m _ _ same => same ▸ own) fun _ => .ite (fun _ => ?_) fun _ => .pure
  · refine .bind .iwrite fun _ => .bind (.modifyFilsys fun _ => rfl) fun _ => .bind .get fun _ => .dwrite
  · exact .bind .iwrite fun _ => .bind .iread fun _ => .mkentryFrom

/-- A count of links is corrected. -/
lemma fixLinkCount {n links : Word} {ino : Dinode} : Declaring P (fixLinkCount n ino links) :=
  .ite (fun _ => .bind (.yes fun _ _ _ => False.elim) fun _ => .ite (fun _ => .bind .iwrite fun _ => .pure)
    fun _ => .pure) fun _ => .pure

end Declaring

section Pass5

variable {s s' : State} {n : Word} {fuel : Nat}

/-- The count of an inode is read. -/
lemma declared_linkmapAt {P : Word → Prop} :
    wp (linkmapAt n) (fun links s' => links = s.linkmap n ∧ Declared P s s') (fun e => Declared P s e.2) s := by
  rw [wp_linkmapAt]
  split
  · exact ⟨rfl, .event rfl rfl rfl fun _ => False.elim⟩
  · exact .event rfl rfl rfl fun _ => False.elim

/-- `pass5` declares inodes detached to which no link has been counted. -/
lemma declared_checkLinks (h : Declared (s.linkmap · = 0) s s') :
    wp (checkLinks fuel n) (fun _ s'' => Declared (s.linkmap · = 0) s s'')
      (fun e => Declared (s.linkmap · = 0) s e.2) s' := by
  have rest : ∀ ino links, links = s.linkmap n → Declaring (s.linkmap · = 0) (do
      if ino.iMode = 0 then
        if links ≠ -1 then halt .inconsistentLinkmap else pure ⟨⟩
      else if links = -1 then halt .inconsistentLinkmap
      else do
        let ino ← fixLinkCount n ino links
        if links = 0 then attach fuel n ino else pure ⟨⟩) := by
    intro ino links counted
    refine .ite (fun _ => .ite (fun _ => .halt) fun _ => .pure) fun _ => .ite (fun _ => .halt) fun _ => ?_
    exact .bind .fixLinkCount fun _ => .ite (fun none => .attach (counted.symm.trans none)) fun _ => .pure
  unfold checkLinks
  rw [wp_bind]
  refine wp_mono (Declaring.iread s') (fun ino s₁ got => ?_) fun _ got => h.trans got
  have h₁ := h.trans got
  rw [wp_bind]
  refine wp_mono declared_linkmapAt (fun links s₂ got => ?_) fun _ got => h₁.trans got
  have h₂ := h₁.trans got.2
  exact wp_mono (rest ino links (got.1.trans (congrFun h₁.linkmap n)) s₂) (fun _ _ got => h₂.trans got)
    fun _ got => h₂.trans got

/-- Pass 5 declares nothing of inodes that have been counted. -/
lemma declared_pass5 :
    wp (pass5 fuel) (fun _ s' => Declared (s.linkmap · = 0) s s') (fun e => Declared (s.linkmap · = 0) s e.2) s := by
  unfold pass5
  rw [wp_bind, wp_get, wp_bind]
  refine wp_post (wp_loop (fun (_ : Word) s' => Declared (s.linkmap · = 0) s s') ?_ ?_ .refl) fun _ _ got => got.1
  · intro n s' h _
    rw [wp_bind]
    exact wp_post (declared_checkLinks h) fun _ _ got => got
  · exact fun _ _ h _ => h

/-- Every inode in use has the links that were counted, and one at least. -/
structure Right (s : State) : Prop where
  sizes : s.filsys.sIsize.toNat ≤ 8193
  counted : ∀ n, Allocated s n → ((inodeAt s.image n).iNlink.toNat : Int) = (s.linkmap n).toInt ∧ s.linkmap n ≠ 0

/-- `pass5` has changed nothing. -/
structure Unchanged (s s' : State) : Prop where
  image : s'.image = s.image
  linkmap : s'.linkmap = s.linkmap

/-- `pass5` changes no inode that has the links that were counted. -/
lemma unchanged_checkLinks (right : Right s) (ne : n ≠ 0) (goes : inodesLeft s.filsys n = true)
    (h : Unchanged s s') :
    wp (checkLinks fuel n) (fun _ s'' => Unchanged s s'') (fun e => Unchanged s e.2) s' := by
  unfold checkLinks
  rw [wp_bind, wp_iread, wp_bind, wp_linkmapAt]
  have read : Unchanged s { s' with
      readbuf := s'.image (inodeBlk n)
      events := .linkmap n :: .inode n (inodeAt s'.image n) :: s'.events } := ⟨h.image, h.linkmap⟩
  split
  · rw [wp_ite]
    split
    · rw [wp_ite]
      split
      · exact read
      · exact read
    · next mode =>
      rw [wp_ite]
      split
      · exact read
      · have mode : (inodeAt s'.image n).iMode ≠ 0 := mode
        rw [h.image] at mode
        obtain ⟨nlink, linked⟩ := right.counted n ⟨ne, goes, mode⟩
        have asks : ¬ (0 < (s'.linkmap n).toInt ∧
            ((inodeAt s'.image n).iNlink.toNat : Int) ≠ (s'.linkmap n).toInt) := by
          rw [h.image, h.linkmap]
          exact fun wrong => wrong.2 nlink
        have fixed : fixLinkCount n (inodeAt s'.image n) (s'.linkmap n) = pure (inodeAt s'.image n) := if_neg asks
        show wp (do
          let ino ← fixLinkCount n (inodeAt s'.image n) (s'.linkmap n)
          if s'.linkmap n = 0 then attach fuel n ino else pure ⟨⟩) _ _ _
        rw [fixed, pure_bind, if_neg (h.linkmap ▸ linked)]
        exact read
  · exact read

/-- Pass 5 leaves right counts alone. -/
lemma unchanged_pass5 (right : Right s) :
    wp (pass5 fuel) (fun _ s' => Unchanged s s') (fun e => Unchanged s e.2) s := by
  unfold pass5
  rw [wp_bind, wp_get, wp_bind]
  refine wp_post (wp_loop (fun (n : Word) s' => Unchanged s s' ∧ n ≠ 0) ?_ ?_ ⟨⟨rfl, rfl⟩, by decide⟩)
    fun _ _ got => got.1.1
  · intro n s' h goes
    rw [wp_bind]
    refine wp_post (unchanged_checkLinks right h.2 goes h.1) fun _ _ got => ⟨got, fun zero => ?_⟩
    have below := of_decide_eq_true goes
    rw [inodesEnd] at below
    have sizes := right.sizes
    have wraps := congrArg BitVec.toNat zero
    rw [BitVec.toNat_add, show (1 : Word).toNat = 1 from rfl, show (0 : Word).toNat = 0 from rfl] at wraps
    omega
  · exact fun _ _ h _ => h.1

end Pass5

/-! ## Both passes -/

/-- The inodes of the table have 16-bit numbers, and those in use have as many links as there are entries for them,
and one at least. -/
structure Consistent (s : State) : Prop where
  sizes : s.filsys.sIsize.toNat ≤ 8193
  nlink : ∀ n, Allocated s n → (inodeAt s.image n).iNlink.toNat = linkCount s.image n ∧ 0 < linkCount s.image n

/-- Pass 5 has come from `s'` to `s''`, after pass 4 from `s`: no inode with an entry has been declared detached, and
in a consistent file system nothing has been changed. -/
structure KeepsLinks (s s' s'' : State) : Prop where
  attached : ∃ events, s''.events = events ++ s'.events ∧
    ∀ e ∈ events, ∀ n, Declares n e → Allocated s n → linkCount s.image n = 0
  unchanged : Consistent s → s''.image = s.image

/-- Pass 4 counts every link of every inode in use, and pass 5 keeps to it. -/
structure CountsLinks (fuel : Nat) (s : State) : Prop where
  run : wp (pass4 fuel)
    (fun _ s' => (∀ n, Allocated s n → (s'.linkmap n).toInt = linkCount s.image n) ∧
      wp (pass5 fuel) (fun _ s'' => KeepsLinks s s' s'') (fun e => KeepsLinks s s' e.2) s')
    (fun _ => False) s

section Both

variable {s s' : State} {fuel : Nat}

/-- Pass 5 after a pass 4 that has counted every link. -/
lemma keepsLinks_pass5 (image : s'.image = s.image) (filsys : s'.filsys = s.filsys)
    (counted : ∀ n, Allocated s n → (s'.linkmap n).toInt = linkCount s.image n) :
    wp (pass5 fuel) (fun _ s'' => KeepsLinks s s' s'') (fun e => KeepsLinks s s' e.2) s' := by
  have attached : ∀ s'', Declared (s'.linkmap · = 0) s' s'' → ∃ events, s''.events = events ++ s'.events ∧
      ∀ e ∈ events, ∀ n, Declares n e → Allocated s n → linkCount s.image n = 0 := by
    intro s'' h
    obtain ⟨events, more, declared⟩ := h.events
    refine ⟨events, more, fun e mem n declares used => ?_⟩
    have links := counted n used
    rw [declared e mem n declares] at links
    exact Int.ofNat_eq_zero.mp links.symm
  by_cases consistent : Consistent s
  · have right : Right s' := by
      refine ⟨filsys ▸ consistent.sizes, fun n used => ?_⟩
      have used := (allocated_congr image filsys).mp used
      obtain ⟨nlink, linked⟩ := consistent.nlink n used
      have links := counted n used
      refine ⟨?_, fun zero => ?_⟩
      · rw [image, links, nlink]
      · rw [zero] at links
        exact absurd (Int.ofNat_eq_zero.mp links.symm) (Nat.ne_of_gt linked)
    exact wp_mono (declared_pass5.and (unchanged_pass5 right))
      (fun _ s'' got => ⟨attached s'' got.1, fun _ => got.2.image.trans image⟩)
      fun e got => ⟨attached e.2 got.1, fun _ => got.2.image.trans image⟩
  · exact wp_mono declared_pass5 (fun _ s'' got => ⟨attached s'' got, fun yes => absurd yes consistent⟩)
      fun e got => ⟨attached e.2 got, fun yes => absurd yes consistent⟩

/-- A small count is not negative. -/
lemma toInt_of_le {v : Word} (le : v.toNat ≤ 32767) : v.toInt = v.toNat := by
  rw [BitVec.toInt_eq_toNat_cond, if_pos (by omega)]

/-- No count is above 32767. -/
lemma toInt_le {v : Word} : v.toInt ≤ 32767 := by
  have := v.isLt
  rw [BitVec.toInt_eq_toNat_cond]
  split <;> omega

end Both

/-- `fsck` counts every link just where `ckdir` looks at every used entry. -/
theorem countsLinks_iff {s : State} {fuel : Nat} (h : TreeOfDirectories s) (enough : 65536 ≤ fuel) :
    CountsLinks fuel s ↔ AllSeen s := by
  constructor
  · rintro ⟨run⟩
    have few : ∀ n, Allocated s n → linkCount s.image n ≤ 32767 := by
      intro n used
      obtain ⟨_, s', -, counted, -⟩ := run.returns
      have links := counted n used
      have le : (s'.linkmap n).toInt ≤ 32767 := toInt_le
      omega
    have both := run.and (wp_pass4 h few enough)
    obtain ⟨_, s', -, ⟨counted, -⟩, -, counts, fits⟩ := (wp_mono both (fun _ _ => id) fun _ => And.left).returns
    refine ⟨(seen_eq_iff h.valid).mp fun n used => ?_, fits, few⟩
    have links := counted n used
    have count := counts n used
    have room := few n used
    have le : seen s.image MAXDEPTH ROOTINODE n ≤ ((directories s.image).map (linksIn s.image entriesOf n)).sum :=
      seen_le
    rw [linkCount] at room links
    rw [toInt_of_le (by omega)] at links
    omega
  · rintro ⟨looked, fits, few⟩
    refine ⟨wp_mono (wp_pass4 h few enough) (fun _ s' got => ?_) fun _ stops => stops fits⟩
    obtain ⟨⟨image, filsys⟩, counts, -⟩ := got
    have counted : ∀ n, Allocated s n → (s'.linkmap n).toInt = linkCount s.image n := by
      intro n used
      have all := (seen_eq_iff h.valid).mpr looked n used
      have links : (s'.linkmap n).toNat = linkCount s.image n := by
        rw [counts n used, all]
        rfl
      have room := few n used
      rw [toInt_of_le (by omega), links]
    exact ⟨counted, keepsLinks_pass5 image filsys counted⟩

/-- `fsck` after passes that have changed nothing. -/
def beforePass4 (image : Image) : State :=
  { State.start image fun _ => true with
    filsys := Filesys.ofBlock (image 1)
    linkmap := fun n => if (inodeAt image n).iMode = 0 then -1 else 0 }

section Instances

variable {s : State} {n inum pnum : Word} {d : Direct} {levels : Nat}

instance : Decidable (Allocated s n) := inferInstanceAs (Decidable (_ ∧ _ ∧ _))

instance : Decidable (ValidEntry s inum pnum d) :=
  decidable_of_iff (Allocated s d.dIno ∧ (∀ c < 14, d.name c = SLASH → ∃ i < c, d.name i = 0) ∧
    (isName d [0x2e] = true → d.dIno = inum) ∧ (isName d [0x2e, 0x2e] = true → d.dIno = pnum))
    ⟨fun h => ⟨h.1, h.2.1, h.2.2.1, h.2.2.2⟩, fun h => ⟨h.1, h.2, h.3, h.4⟩⟩

instance decidableValidTree : (levels : Nat) → (inum pnum : Word) → Decidable (ValidTree s levels inum pnum)
  | 0, _, _ => .isFalse id
  | levels + 1, inum, _ =>
    have := fun n => decidableValidTree levels n inum
    inferInstanceAs (Decidable (_ ∧ (_ ∧ _) ∧ ∀ j < _, _ ∧ (_ → _) ∧ (_ → _)))

instance {stack name : List Byte} {image : Image} {deeper : Word → List Byte → Prop}
    [∀ n name, Decidable (deeper n name)] : Decidable (PathFits stack image deeper levels name d) :=
  inferInstanceAs (Decidable (_ → ¬ _ → _ → _ ∧ (_ → _)))

instance decidablePathsFit (stack : List Byte) (image : Image) :
    (levels : Nat) → (inum : Word) → (name : List Byte) → Decidable (PathsFit stack image levels inum name)
  | 0, _, _ => .isTrue trivial
  | levels + 1, _, _ =>
    have := decidablePathsFit stack image levels
    inferInstanceAs (Decidable (_ ∧ ∀ j < _, PathFits ..))

instance {image : Image} : Decidable (Looked image inum) := inferInstanceAs (Decidable (∀ j < _, _ → _))

end Instances

/-- The image is a tree of directories. -/
lemma treeOfDirectories_treeImage : TreeOfDirectories (beforePass4 treeImage) where
  root := by decide +kernel
  valid := by decide +kernel
  once := by decide +kernel
  links _ _ _ := rfl

/-- There are few links to each inode. -/
lemma few_of_inodes {s : State} (inodes : inodesEnd s.filsys = 8)
    (few : ∀ k < 8, linkCount s.image (BitVec.ofNat 16 k) ≤ 32767) {n : Word} (used : Allocated s n) :
    linkCount s.image n ≤ 32767 := by
  have below := of_decide_eq_true used.2.1
  rw [inodes] at below
  have own := few n.toNat (by omega)
  rw [BitVec.ofNat_toNat, BitVec.setWidth_eq] at own
  exact own

/-- Two directories, and a file with a name in each. -/
theorem countsLinks_treeImage : CountsLinks 65536 (beforePass4 treeImage) ∧
    directories treeImage = [ROOTINODE, 3] ∧ linkCount treeImage ROOTINODE = 4 ∧ linkCount treeImage 2 = 2 := by
  have two : directories treeImage = [ROOTINODE, 3] := by decide +kernel
  refine ⟨(countsLinks_iff treeOfDirectories_treeImage (by decide)).mpr ⟨fun inum mem => ?_, by decide +kernel,
    fun _ => few_of_inodes (by decide +kernel) (by decide +kernel)⟩, two, by decide +kernel, by decide +kernel⟩
  have both : inum = ROOTINODE ∨ inum = 3 := by
    rw [show (beforePass4 treeImage).image = treeImage from rfl, two] at mem
    simpa using mem
  cases both with
  | inl root =>
    rw [root]
    decide +kernel
  | inr sub =>
    rw [sub]
    decide +kernel

/-- A directory of one whole block, with three entries: `.`, `..` and, behind six free ones, a file. -/
def ninthEntry : Image :=
  Function.update
    (putInode (putInode (mkfs 6 3) 2 { Dinode.ofBlock Block.zero 0 with iMode := F_REG, iNlink := 1 }) ROOTINODE
      { inodeAt (mkfs 6 3) ROOTINODE with iSize := ⟨1, 0⟩ }) 3
    (Mkfs.dirbuf.setDirect 8 { dIno := 2, dName := fun i => if i.val = 0 then 0x61 else 0 })

/-- The entries of that image are a tree, but for the one that is missed. -/
lemma treeOfDirectories_ninthEntry : TreeOfDirectories (beforePass4 ninthEntry) where
  root := by decide +kernel
  valid := by decide +kernel
  once := by decide +kernel
  links _ _ _ := rfl

/-- `ckdir` does not see a link to an inode in use. -/
lemma not_countsLinks_of_seen {s : State} {n : Word} {fuel : Nat} (h : TreeOfDirectories s)
    (few : ∀ n, Allocated s n → linkCount s.image n ≤ 32767) (enough : 65536 ≤ fuel) (used : Allocated s n)
    (ne : n ≠ ROOTINODE) (unseen : seen s.image MAXDEPTH ROOTINODE n = 0) (linked : linkCount s.image n ≠ 0) :
    ¬ CountsLinks fuel s := by
  rintro ⟨run⟩
  have both := run.and (wp_pass4 h few enough)
  obtain ⟨_, s', -, ⟨counted, -⟩, -, counts, -⟩ := (wp_mono both (fun _ _ => id) fun _ => And.left).returns
  have links := counted n used
  have none := counts n used
  rw [if_neg ne, unseen] at none
  rw [toInt_of_le (by omega), none] at links
  exact linked (Int.ofNat_eq_zero.mp links.symm)

/-- The file in the ninth entry is not found. -/
theorem not_countsLinks : TreeOfDirectories (beforePass4 ninthEntry) ∧
    ¬ CountsLinks 65536 (beforePass4 ninthEntry) := by
  have few : ∀ n, Allocated (beforePass4 ninthEntry) n → linkCount (beforePass4 ninthEntry).image n ≤ 32767 :=
    fun _ => few_of_inodes (by decide +kernel) (by decide +kernel)
  have used : Allocated (beforePass4 ninthEntry) 2 := by decide +kernel
  exact ⟨treeOfDirectories_ninthEntry, not_countsLinks_of_seen treeOfDirectories_ninthEntry few (by decide) used
    (by decide) (by decide +kernel) (by decide +kernel)⟩

end Fsck
end Uzi
