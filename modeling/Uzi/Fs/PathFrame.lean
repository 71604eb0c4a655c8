import Uzi.Fs.PathSearch

/-!
# What a path search leaves alone

`n_open` takes an inode from the disk, gives references back and may, for a name that stands for inode 0, take
a new inode. In a kernel whose directories have no such name, and that keeps a reference of its own to every
directory that it starts from (`Kernel.Walkable`), it changes no inode, no block and no entry of the mount table,
whatever is missing or refused.
-/

namespace Uzi
open Exec WriteBack

/-- Device `dev` is mounted, or has inodes with references. -/
def Kernel.Populated (s : Kernel) (dev : Nat) : Prop :=
  (s.fsTab dev).sMounted = SMOUNTED ∨ ∃ i, (s.iTab i).cRefs ≠ 0 ∧ (s.iTab i).cDev = dev

/-- The kernel has references to the directories where a search starts, and to the mount points. Entries with
references are those of inodes, and their counts have room. No directory has a name for inode 0, in the blocks that
`srch_dir` reads. -/
structure Kernel.Walkable (s : Kernel) : Prop where
  cached : s.Cached
  unused : s.Unused
  magic : ∀ i, (s.iTab i).cNum ≠ 0 → (s.iTab i).cMagic = CMAGIC
  num : ∀ i, (s.iTab i).cRefs ≠ 0 → (s.iTab i).cNum ≠ 0
  roomy : s.Roomy
  root : (s.iTab s.root).cRefs ≠ 0
  cwd : (s.iTab s.udata.uCwd).cRefs ≠ 0
  mounts : ∀ dev, s.Populated dev → ∀ i, inoOfRaw (s.fsTab dev).sMntpt = some i →
    (s.iTab i).cRefs ≠ 0 ∧ (s.iTab i).getmode = F_DIR
  isize : ∀ dev, s.Populated dev → 2 ≤ (s.fsTab dev).sIsize
  names : ∀ m, s.Populated m.1 → s.HasInode m → m.2 ≠ 0 → (s.icache.content m).iMode &&& F_MASK = F_DIR →
    ∀ k < (s.icache.content m).nblocks,
      ∀ e ∈ (s.cell m.1 (orNull ((s.icache.content m).stored (s.cell m.1) (BitVec.ofNat 16 k)))).entries,
        e.stem ≠ [] → e.dIno ≠ 0

/-- The search has begun at `s₀` and holds the references in `l`, which are those of inodes of populated devices. -/
structure Kernel.Strolled (s₀ s : Kernel) (l : Multiset Inoptr) : Prop extends s₀.Browsed s l where
  populated : ∀ p ∈ l, s₀.Populated (s.iTab p).cDev

/-- What `n_open` returns when the references in `b` are held: the parent is for a caller that asks for it. -/
structure Kernel.Walked (s₀ : Kernel) (parent : Bool) (b : Multiset Inoptr) (r : Option Inoptr × Option Inoptr)
    (s' : Kernel) : Prop where
  strolled : s₀.Strolled s' (pointers r.1 + pointers r.2 + b)
  parent : parent = false → r.2 = none

/-- `i_open` has returned `r`: an entry is as it was, or has one reference more, or had none and has been taken
over. -/
structure Kernel.Tried (s s' : Kernel) (r : Option Inoptr) : Prop where
  still : s.Undisturbed s'
  entry : ∀ j, s'.iTab j = s.iTab j ∨ s'.iTab j = { s.iTab j with cRefs := (s.iTab j).cRefs + 1 } ∨
    (s.iTab j).cRefs = 0 ∧ (s'.iTab j).cDirty = (s.iTab j).cDirty ∧ (s'.iTab j).cMagic = CMAGIC
  nlink : ∀ i, r = some i → (s'.iTab i).cNode.iNlink ≠ 0

/-- The owner of the reference. -/
lemma eq_some_of_mem {r : Option Inoptr} {q : Inoptr} (mem : q ∈ pointers r) : r = some q := by
  cases r with
  | none => exact absurd mem (Multiset.notMem_zero q)
  | some p => rw [Multiset.mem_singleton.mp mem]

namespace Kernel

variable {s₀ s s' : Kernel} {l b : Multiset Inoptr} {i p wd : Inoptr} {m : Nat × Word} {dev : Nat} {num : Word}

/-! ## Opening an inode -/

/-- The end of `i_open`. -/
lemma wp_iOpenFound_tried {s₁ : Kernel} (still : s.Undisturbed s₁)
    (own : s₁.iTab i = s.iTab i ∨
      (s.iTab i).cRefs = 0 ∧ (s₁.iTab i).cDirty = (s.iTab i).cDirty ∧ (s₁.iTab i).cMagic = CMAGIC)
    (others : ∀ j ≠ i, s₁.iTab j = s.iTab j) :
    wp (iOpenFound i false) (fun r s' => s.Tried s' r) (fun _ => False) s₁ := by
  unfold iOpenFound
  rw [wp_bind, wp_get, wp_ite, if_neg Bool.false_ne_true, wp_ite]
  split
  · refine ⟨still, fun j => ?_, fun _ e => absurd e.symm (Option.some_ne_none _)⟩
    by_cases e : j = i
    · rw [e]
      exact own.imp_right .inr
    · exact .inl (others j e)
  · next node =>
    rw [wp_bind, wp_modifyInode]
    refine ⟨still.trans ⟨rfl, rfl, rfl, rfl, rfl, rfl⟩, fun j => ?_, fun k e => ?_⟩
    · by_cases e : j = i
      · rw [e, iTab_setInode]
        refine .inr (own.imp (fun same => ?_) fun free => ?_)
        · rw [same]
        · exact free
      · rw [iTab_setInode_of_ne e]
        exact .inl (others j e)
    · rw [← Option.some.inj e, iTab_setInode]
      exact (not_not.mp node).1

/-- `i_open` of a number that is not 0. -/
lemma Cached.wp_iOpen_tried (h : s.Cached) (ne : num ≠ 0) :
    wp (iOpen dev num) (fun r s' => s.Tried s' r) (fun _ => True) s := by
  have nothing : s.Tried s none := ⟨.refl, fun _ => .inl rfl, fun _ e => absurd e.symm (Option.some_ne_none _)⟩
  unfold iOpen iOpenAt
  rw [wp_ite]
  split
  · trivial
  · next hdev =>
    have hdev := not_not.mp hdev
    rw [wp_bind, wp_get, wp_ite]
    split
    · exact nothing
    · rw [wp_bind]
      refine wp_mono (wp_iSearch ne) (fun r s₁ got => ?_) fun _ => False.elim
      obtain ⟨⟨k, e⟩, found⟩ := got
      subst e
      have next : s.Undisturbed { s with nexti := k } := ⟨rfl, rfl, rfl, rfl, rfl, rfl⟩
      obtain ⟨b, r⟩ := r
      cases b with
      | true =>
        obtain ⟨i, e, -⟩ := found
        subst e
        exact wp_mono (wp_iOpenFound_tried next (.inl rfl) fun _ _ => rfl) (fun _ _ => id) fun _ => False.elim
      | false =>
        obtain ⟨-, slot, -⟩ := found.whole
        cases r with
        | none =>
          exact ⟨⟨rfl, rfl, rfl, rfl, rfl, rfl⟩, fun _ => .inl rfl, fun _ e => absurd e.symm (Option.some_ne_none _)⟩
        | some i =>
          rw [wp_bind]
          refine wp_mono (wp_breadPtr (s := { s with nexti := k }) h.good hdev) ?_ fun _ _ => trivial
          intro bp s₂ got
          obtain ⟨b₁, e, g₁, idle, hold⟩ := got
          subst e
          rw [wp_bind, wp_get, wp_bind, wp_modifyInode, wp_bind]
          refine wp_mono (wp_brelse_hold g₁ idle hold) (fun _ s₃ got => ?_) fun _ => False.elim
          obtain ⟨b₂, e, g₂, v⟩ := got
          subst e
          rw [wp_bind, wp_modifyInode]
          refine wp_mono (wp_iOpenFound_tried (s := s) ?_ ?_ ?_) (fun _ _ => id) fun _ => False.elim
          · exact ⟨v, rfl, rfl, rfl, rfl, rfl⟩
          · refine .inr ⟨slot i rfl, ?_, ?_⟩
            · simp only [Kernel.setInode, Function.update_self]
            · simp only [iTab_setInode]
          · intro j ne
            simp only [Kernel.setInode, Function.update_of_ne ne]

namespace Strolled

/-- At the beginning of a walk. -/
lemma start (w : s.Walkable) : s.Strolled s 0 :=
  ⟨.start w.cached w.unused w.magic, fun _ h => absurd h (Multiset.notMem_zero _)⟩

/-- What leaves the in-core inodes. -/
lemma same (h : s₀.Strolled s l) (iTab : s'.iTab = s.iTab) (good : s'.bufs.Good) (still : s.Undisturbed s') :
    s₀.Strolled s' l :=
  ⟨h.toBrowsed.same iTab good still, fun p => iTab ▸ h.populated p⟩

/-- What is shown keeps the walk. -/
lemma shown (h : s₀.Strolled s l) (sh : s.Shown s') : s₀.Strolled s' l := by
  have still := sh.still
  obtain ⟨b, rfl, good, -⟩ := sh
  exact h.same rfl good still

/-- An error keeps the walk. -/
lemma error {e : Errno} (h : s₀.Strolled s l) :
    s₀.Strolled { s with udata := { s.udata with uError := e } } l :=
  h.same rfl h.keeps.cached.good ⟨rfl, rfl, rfl, rfl, rfl, rfl⟩

/-- An entry of which the kernel has references is still that of its inode. -/
lemma kept (w : s₀.Walkable) (h : s₀.Strolled s l) (refs : (s₀.iTab p).cRefs ≠ 0) :
    (s.iTab p).cNum ≠ 0 ∧ s₀.Populated (s.iTab p).cDev := by
  rw [h.held p refs]
  exact ⟨w.num p refs, .inr ⟨p, refs, rfl⟩⟩

/-- One more reference to an entry of which the kernel has some. -/
lemma add (w : s₀.Walkable) (h : s₀.Strolled s l) (refs : (s₀.iTab p).cRefs ≠ 0) :
    s₀.Strolled (s.setInode p { s.iTab p with cRefs := (s.iTab p).cRefs + 1 }) (p ::ₘ l) := by
  obtain ⟨num, pop⟩ := h.kept w refs
  refine ⟨h.toBrowsed.add num fun zero => absurd zero refs, fun q mem => ?_⟩
  by_cases e : q = p
  · rw [e, iTab_setInode]
    exact pop
  · rw [iTab_setInode_of_ne e]
    exact h.populated q ((Multiset.mem_cons.mp mem).resolve_left e)

/-- `i_ref` takes a reference. -/
lemma wp_iRef (w : s₀.Walkable) (h : s₀.Strolled s l) (refs : (s₀.iTab p).cRefs ≠ 0) :
    wp (iRef p) (fun _ s' => s₀.Strolled s' (p ::ₘ l)) (fun _ => True) s := by
  unfold iRef
  rw [wp_bind, wp_modifyInode, wp_bind, wp_get, wp_ite]
  split
  · trivial
  · exact h.add w refs

/-- `i_deref` gives a reference back. -/
lemma wp_iDeref (w : s₀.Walkable) (h : s₀.Strolled s (p ::ₘ l)) (few : l.card ≤ 2) :
    wp (iDeref p) (fun _ s' => s₀.Strolled s' l) (fun _ => False) s := by
  refine wp_post (h.toBrowsed.wp_iDeref w.roomy few) fun _ s' got => ⟨got.1, fun q mem => ?_⟩
  have mem : q ∈ p ::ₘ l := Multiset.mem_cons_of_mem mem
  have names := got.2 q (s.node q) ⟨rfl, rfl, (h.live q mem).1⟩
  rw [names.1]
  exact h.populated q mem

/-- `i_open` takes a reference of what it returns. -/
lemma wp_iOpen (w : s₀.Walkable) (h : s₀.Strolled s l) (few : l.card ≤ 2) (pop : s₀.Populated dev) (ne : num ≠ 0) :
    wp (iOpen dev num) (fun r s' => s₀.Strolled s' (pointers r + l)) (fun _ => True) s := by
  have few' : l.card ≤ 3 := few.trans (by decide)
  have isize : 2 ≤ (s.fsTab dev).sIsize := by
    rw [h.still.fsTab]
    exact w.isize dev pop
  have outcome := h.keeps.cached.wp_iOpen (h.unused w.roomy few') ne isize
  have tried : wp (iOpen dev num) (fun r s' => s.Tried s' r) (fun _ => True) s := h.keeps.cached.wp_iOpen_tried ne
  have carries : wp (iOpen dev num) (fun r s' => s₀.Carries s' (pointers r + l)) s₀.Crowded s := h.carries.wp_iOpen
  refine wp_mono ((outcome.and tried).and carries) (fun r s' got => ?_) fun _ _ => trivial
  obtain ⟨⟨outcome, still, entry, nlink⟩, carries⟩ := got
  have keeps : s.Keeps s' ∧ ∀ i, r = some i → (s'.iTab i).Names (dev, num) := by
    cases r with
    | none => exact ⟨outcome.1, fun _ e => absurd e.symm (Option.some_ne_none _)⟩
    | some i => exact ⟨outcome.keeps, fun j e => Option.some.inj e ▸ outcome.names⟩
  obtain ⟨keeps, names⟩ := keeps
  -- an entry that had references has not been taken over
  have used : ∀ j, (s.iTab j).cRefs ≠ 0 → s'.iTab j = { s.iTab j with cRefs := (s'.iTab j).cRefs } := by
    intro j used
    obtain e | e | free := entry j
    · rw [e]
    · rw [e]
    · exact absurd free.1 used
  have inside : ∀ q ∈ l, (s.iTab q).cRefs ≠ 0 := fun q mem zero =>
    ((h.refs_eq_zero w.roomy few').mp zero).2 mem
  have before : ∀ j, (s₀.iTab j).cRefs ≠ 0 → (s.iTab j).cRefs ≠ 0 := fun j refs zero =>
    refs ((h.refs_eq_zero w.roomy few').mp zero).1
  refine ⟨⟨h.keeps.trans keeps, h.still.trans still, carries, fun j refs => ?_, fun j zero => ?_, fun j num => ?_,
    fun q mem => ?_⟩, fun q mem => ?_⟩
  · rw [used j (before j refs), h.held j refs]
  · have clean := h.clean j zero
    obtain e | e | free := entry j
    · rw [e, clean]
    · rw [e, clean]
    · rw [free.2.1, clean]
  · obtain e | e | free := entry j
    · rw [e] at num ⊢
      exact h.magic j num
    · rw [e] at num ⊢
      exact h.magic j num
    · exact free.2.2
  · obtain mem | mem := Multiset.mem_add.mp mem
    · have e := eq_some_of_mem mem
      exact ⟨(names q e).num_ne, fun _ => nlink q e⟩
    · rw [used q (inside q mem)]
      exact h.live q mem
  · obtain mem | mem := Multiset.mem_add.mp mem
    · rw [(names q (eq_some_of_mem mem)).1]
      exact pop
    · rw [used q (inside q mem)]
      exact h.populated q mem

/-! ## The search of a path -/

/-- `srch_dir` goes through the blocks of the directory that are left. -/
lemma wp_srchBlocks {name : Nat → Byte} {c : List Byte} {wraps : Bool} {n k : Nat} (w : s₀.Walkable) (few : l.card ≤ 2)
    (stem_eq : stem name = c.take 14) (ne : c ≠ []) (h : s₀.Strolled s l) (mem : wd ∈ l) (dir : (s.iTab wd).getmode = F_DIR)
    (all : k + n ≤ (s.iTab wd).cNode.nblocks) :
    wp (srchBlocks wd name wraps n (BitVec.ofNat 16 k)) (fun r s' => s₀.Strolled s' (pointers r + l))
      (fun _ => True) s := by
  induction n generalizing s k with
  | zero =>
    unfold srchBlocks
    rw [wp_ite]
    split
    · trivial
    · rwa [wp_pure, pointers_none]
  | succ n ih =>
    have num := (h.live wd mem).1
    have pop := h.populated wd mem
    have own : (s.iTab wd).Names (s.node wd) := ⟨rfl, rfl, num⟩
    have node := h.node_eq own
    have has := h.keeps.cached.inode wd num
    have mode : (s.iTab wd).getmode ≠ F_BDEV := by
      rw [dir]
      decide
    have idle := h.keeps.cached.released
    unfold srchBlocks
    rw [wp_bind]
    refine wp_mono (wp_bmap_read h.keeps.cached.good idle has.1 mode) (fun blk s₁ got => ?_) fun _ => False.elim
    obtain ⟨shown, blk_eq⟩ := got
    have h₁ := h.shown shown
    have iTab₁ : s₁.iTab = s.iTab := by
      obtain ⟨b, rfl, -⟩ := shown
      rfl
    rw [wp_bind, wp_get, wp_bind, iTab₁]
    refine wp_mono (wp_breadPtr h₁.keeps.cached.good has.1) ?_ fun _ _ => trivial
    intro bp s₂ got
    obtain ⟨b, e, g₂, free, hold⟩ := got
    subst e
    have held : b.view.held bp = some ((s.iTab wd).cDev, blk) := by rw [hold, View.held_hold]
    have data : (b.bufpool bp).bfData = s₀.cell (s.iTab wd).cDev blk := by
      rw [g₂.data held, hold, View.content_hold, ← h₁.cell_eq]
      rfl
    have release : wp (brelse bp) (fun _ s' => s₁.Shown s') (fun _ => False) { s₁ with bufs := b } :=
      wp_post (wp_brelse_hold g₂ free hold) fun _ _ got => got
    rw [wp_bind, wp_get]
    have block : (({ s₁ with bufs := b } : Kernel).buf bp).bfData = s₀.cell (s.iTab wd).cDev blk := data
    rw [block]
    cases eq : (s₀.cell (s.iTab wd).cDev blk).findName name with
    | some inum =>
      have ne : inum ≠ 0 := by
        obtain ⟨e, found, named, num_eq⟩ := mem_of_findEntry ((findName_eq stem_eq).symm.trans eq)
        rw [← num_eq]
        rw [h.cell_eq, node] at blk_eq
        rw [Cinode.getmode, node] at dir
        refine w.names (s.node wd) pop (h.keeps.hasInode.mp has) num dir k ?_ e (blk_eq ▸ found) ?_
        · rw [← node]
          omega
        · rw [named]
          exact mt List.take_eq_nil_iff.mp (by simp [ne])
      show wp (brelse bp >>= fun _ => _) _ _ _
      rw [wp_bind]
      refine wp_mono release (fun _ s₃ shown₃ => ?_) fun _ => False.elim
      have iTab₃ : s₃.iTab = s₁.iTab := by
        obtain ⟨b, rfl, -⟩ := shown₃
        rfl
      rw [wp_bind, wp_get, iTab₃, iTab₁]
      exact (h₁.shown shown₃).wp_iOpen w few pop ne
    | none =>
      show wp (brelse bp >>= fun _ => _) _ _ _
      rw [wp_bind]
      refine wp_mono release (fun _ s₃ shown₃ => ?_) fun _ => False.elim
      have iTab₃ : s₃.iTab = s.iTab := by
        obtain ⟨b, rfl, -⟩ := shown₃
        exact iTab₁
      have next : (BitVec.ofNat 16 k + 1 : Word) = BitVec.ofNat 16 (k + 1) := (BitVec.ofNat_add k 1).symm
      rw [next]
      refine ih (h₁.shown shown₃) ?_ ?_
      · rw [iTab₃]
        exact dir
      · rw [iTab₃]
        omega

/-- `srch_dir` takes what it returns. -/
lemma wp_srchDir {name : Nat → Byte} {c : List Byte} (w : s₀.Walkable) (few : l.card ≤ 2)
    (stem_eq : stem name = c.take 14) (ne : c ≠ []) (h : s₀.Strolled s l) (mem : wd ∈ l)
    (dir : (s.iTab wd).getmode = F_DIR) :
    wp (srchDir wd name) (fun r s' => s₀.Strolled s' (pointers r + l)) (fun _ => True) s := by
  unfold srchDir
  rw [wp_bind, wp_get]
  cases s.target with
  | nes =>
    refine h.wp_srchBlocks (k := 0) w few stem_eq ne mem dir ?_
    rw [Nat.zero_add]
    exact Nat.mod_le _ _
  | fsutil => exact h.wp_srchBlocks (k := 0) w few stem_eq ne mem dir (Nat.le_of_eq (Nat.zero_add _))

/-- A mount point is given back for the root of what is mounted there. -/
lemma wp_throughMount {ninode : Option Inoptr} (w : s₀.Walkable) (few : l.card ≤ 2)
    (h : s₀.Strolled s (pointers ninode + l)) :
    wp (throughMount ninode) (fun r s' => s₀.Strolled s' (pointers r + l)) (fun _ => True) s := by
  cases ninode with
  | none => exact h
  | some p =>
    have h₁ := h
    rw [pointers_some] at h₁
    unfold throughMount srchMt
    rw [wp_bind]
    refine wp_mono (h₁.wp_magic (h₁.live p (Multiset.mem_cons_self p _)).1) (fun _ s₁ e => ?_) fun _ => False.elim
    rw [e, wp_bind, wp_get]
    split
    · next j found =>
      have test := List.find?_some found
      have mounted := (of_decide_eq_true test).1
      rw [h.still.fsTab] at mounted
      rw [wp_bind]
      refine wp_mono (h₁.wp_iDeref w few) (fun _ s₂ h₂ => ?_) fun _ => False.elim
      exact h₂.wp_iOpen w few (.inl mounted) (by decide)
    · exact h

/-- The root of a mounted device is given back for its mount point. -/
lemma wp_upMount {name : Nat → Byte} (w : s₀.Walkable) (few : b.card ≤ 1) (h : s₀.Strolled s (wd ::ₘ b))
    (dir : (s.iTab wd).getmode = F_DIR) :
    wp (upMount name wd) (fun r s' => s₀.Strolled s' (r ::ₘ b) ∧ (s'.iTab r).getmode = F_DIR) (fun _ => True) s := by
  unfold upMount
  rw [wp_bind, wp_get, wp_ite]
  split
  · split
    · trivial
    · next temp raw =>
      rw [h.still.fsTab] at raw
      obtain ⟨refs, mode⟩ := w.mounts _ (h.populated wd (Multiset.mem_cons_self wd b)) temp raw
      have h₁ := h.add w refs
      rw [Multiset.cons_swap] at h₁
      rw [wp_bind, wp_modifyInode, wp_bind]
      refine wp_mono (h₁.wp_iDeref w ?_) (fun _ s₂ h₂ => ?_) fun _ => False.elim
      · rw [Multiset.card_cons]
        omega
      · refine ⟨h₂, ?_⟩
        rw [h₂.held temp refs]
        exact mode
  · exact ⟨h, dir⟩

/-- What `n_open` returns. -/
lemma wp_nOpenEnd {parent : Bool} {ninode : Option Inoptr} (w : s₀.Walkable) (few : b.card ≤ 1)
    (h : s₀.Strolled s (pointers ninode + (wd ::ₘ b))) :
    wp (nOpenEnd parent wd ninode) (s₀.Walked parent b) (fun _ => True) s := by
  unfold nOpenEnd
  rw [wp_ite]
  split
  · next asked =>
    rw [wp_pure]
    refine ⟨?_, fun no => absurd (no.symm.trans asked) Bool.false_ne_true⟩
    rw [add_assoc, pointers_some]
    exact h
  · rw [Multiset.add_cons] at h
    have count : (pointers ninode + b).card ≤ 2 := by
      rw [Multiset.card_add]
      have one : (pointers ninode).card ≤ 1 := by
        cases ninode with
        | none => exact Nat.zero_le 1
        | some p => exact Nat.le_refl 1
      omega
    rw [wp_bind]
    refine wp_mono (h.wp_iDeref w count) (fun _ s₁ h₁ => ?_) fun _ => False.elim
    refine wp_when (fun s₂ => s₀.Strolled s₂ (pointers ninode + b)) (fun _ => h₁.error) (fun _ => h₁) fun s₂ h₂ => ?_
    rw [wp_pure]
    refine ⟨?_, fun _ => rfl⟩
    rw [add_assoc, pointers_none]
    exact h₂

/-- A name without a directory gives the reference back. -/
lemma wp_nOpenNodir {parent : Bool} {e : Errno} (w : s₀.Walkable) (few : b.card ≤ 1) (h : s₀.Strolled s (wd ::ₘ b)) :
    wp (do
        setError e
        nOpenNodir wd)
      (s₀.Walked parent b) (fun _ => True) s := by
  unfold nOpenNodir
  rw [wp_bind]
  show wp _ _ _ { s with udata := { s.udata with uError := e } }
  rw [wp_bind]
  refine wp_mono (h.error.wp_iDeref w (few.trans (by decide))) (fun _ s₂ h₂ => ?_) fun _ => False.elim
  rw [wp_pure]
  refine ⟨?_, fun _ => rfl⟩
  rw [add_assoc, pointers_none, pointers_none]
  exact h₂

/-- The loop of `n_open`. -/
lemma wp_nOpenLoop {name : CStr} {parent : Bool} {rounds i : Nat} {ninode : Option Inoptr} (w : s₀.Walkable)
    (few : b.card ≤ 1) (le : i ≤ name.len) (h : s₀.Strolled s (pointers ninode + (wd ::ₘ b))) :
    wp (nOpenLoop name parent rounds wd ninode i) (s₀.Walked parent b) (fun _ => True) s := by
  have two : ∀ p : Inoptr, (p ::ₘ b).card ≤ 2 := fun p => by
    rw [Multiset.card_cons]
    exact Nat.succ_le_succ few
  induction rounds generalizing s wd ninode i with
  | zero => trivial
  | succ rounds ih =>
    have le' := (CStr.skipSlashes_spec le).1
    have noSlash := CStr.chr_skipSlashes le
    unfold nOpenLoop
    rw [wp_bind]
    refine wp_post (h.wp_throughMount w (two wd)) fun ninode s₁ h₁ => ?_
    generalize name.skipSlashes i = k at le' noSlash ⊢
    rw [wp_ite]
    split
    · exact h₁.wp_nOpenEnd w few
    · next ne =>
      cases ninode with
      | none =>
        rw [pointers_none] at h₁
        exact h₁.wp_nOpenNodir w few
      | some p =>
        -- the pointer to the directory takes over the reference of the other
        rw [pointers_some, Multiset.cons_swap] at h₁
        rw [wp_bind]
        refine wp_mono (h₁.wp_iDeref w (two p)) (fun _ s₂ h₂ => ?_) fun _ => False.elim
        rw [wp_bind, wp_get, wp_ite]
        split
        · exact h₂.wp_nOpenNodir w few
        · next dir =>
          rw [wp_ite]
          split
          · exact h₂.wp_nOpenNodir w few
          · have c_ne : name.component k ≠ [] := by
              rw [CStr.component_eq le' ne noSlash]
              exact List.cons_ne_nil _ _
            rw [wp_bind]
            refine wp_post (h₂.wp_upMount w few (not_not.mp dir)) fun wd s₃ got => ?_
            obtain ⟨h₃, dir⟩ := got
            rw [wp_bind]
            have mem := Multiset.mem_cons_self wd b
            refine wp_post (h₃.wp_srchDir w (two wd) (CStr.stem_component le') c_ne mem dir) fun ninode s₄ h₄ => ?_
            exact ih (CStr.skipComponent_spec le').1 h₄

/-- `n_open` takes a reference of each inode that it returns, and changes nothing else. -/
lemma wp_nOpen {name : CStr} {parent : Bool} (w : s₀.Walkable) (few : b.card ≤ 1) (h : s₀.Strolled s b) :
    wp (nOpen name parent) (s₀.Walked parent b) (fun _ => True) s := by
  have refs : (s₀.iTab (if name.chr 0 = SLASH then s.root else s.udata.uCwd)).cRefs ≠ 0 := by
    have cwd : s.udata.uCwd = s₀.udata.uCwd := by rw [h.still.udata]
    split
    · rw [h.still.root]
      exact w.root
    · rw [cwd]
      exact w.cwd
  unfold nOpen
  rw [wp_bind, wp_get, wp_bind]
  refine wp_post (h.wp_iRef w refs) fun _ s₁ h₁ => ?_
  rw [wp_bind]
  refine wp_post (h₁.wp_iRef w refs) fun _ s₂ h₂ => ?_
  rw [← pointers_some] at h₂
  exact h₂.wp_nOpenLoop w few (Nat.zero_le _)

end Strolled

end Kernel

end Uzi
