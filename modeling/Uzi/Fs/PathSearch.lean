import Uzi.Fs.PathRefs
import Uzi.Fs.Resolve
import Mathlib.Data.List.Find

/-!
# The search of a path

`Kernel.Browsed s₀ s l` holds while `n_open` searches: nothing that a path name depends on has changed, and
the references are those that `n_open` carries. The functions that it calls keep it, and find what there is to
be found in the tree of names, so that `n_open` follows the path; but it goes up through a mount point for
other names than `..`.
-/

namespace Uzi
open Exec WriteBack

/-- Nothing has changed but the table of inodes, the buffers and the processes' states. -/
structure Kernel.Undisturbed (s s' : Kernel) : Prop where
  view : s'.bufs.view = s.bufs.view
  fsTab : s'.fsTab = s.fsTab
  root : s'.root = s.root
  rootdev : s'.rootdev = s.rootdev
  target : s'.target = s.target
  udata : s'.udata = { s.udata with uError := s'.udata.uError }

/-- The search has begun at `s₀` and holds the references in `l`. Entries that had references have kept their
inodes, and the others are clean. -/
structure Kernel.Browsed (s₀ s : Kernel) (l : Multiset Inoptr) : Prop where
  keeps : s₀.Keeps s
  still : s₀.Undisturbed s
  carries : s₀.Carries s l
  held : ∀ i, (s₀.iTab i).cRefs ≠ 0 → s.iTab i = { s₀.iTab i with cRefs := (s.iTab i).cRefs }
  clean : ∀ i, (s₀.iTab i).cRefs = 0 → (s.iTab i).cDirty = false
  magic : ∀ i, (s.iTab i).cNum ≠ 0 → (s.iTab i).cMagic = CMAGIC
  live : ∀ p ∈ l, (s.iTab p).cNum ≠ 0 ∧ ((s₀.iTab p).cRefs = 0 → (s.iTab p).cNode.iNlink ≠ 0)

/-- The counts have room for three more references. -/
def Kernel.Roomy (s : Kernel) : Prop := ∀ i, (s.iTab i).cRefs.toNat + 3 < 256

/-- The entries of inodes are still theirs. -/
def Kernel.KeepsNames (s s' : Kernel) : Prop := ∀ i m, (s.iTab i).Names m → (s'.iTab i).Names m

namespace Kernel

variable {s₀ s s' s'' : Kernel} {l : Multiset Inoptr} {i p : Inoptr} {m : Nat × Word}

/-- The same state. -/
lemma Undisturbed.refl : s.Undisturbed s := ⟨rfl, rfl, rfl, rfl, rfl, rfl⟩

/-- Undisturbed, twice. -/
lemma Undisturbed.trans (h : s.Undisturbed s') (h' : s'.Undisturbed s'') : s.Undisturbed s'' where
  view := h'.view.trans h.view
  fsTab := h'.fsTab.trans h.fsTab
  root := h'.root.trans h.root
  rootdev := h'.rootdev.trans h.rootdev
  target := h'.target.trans h.target
  udata := by rw [h'.udata, h.udata]

/-- What is shown is undisturbed. -/
lemma Shown.still (h : s.Shown s') : s.Undisturbed s' := by
  obtain ⟨b, rfl, -, v⟩ := h
  exact ⟨v, rfl, rfl, rfl, rfl, rfl⟩

/-- A reference is given back that is not the last, or one of an entry with links that need not be written. -/
lemma wp_iDeref_kept (magic : (s.iTab p).cMagic = CMAGIC) (used : (s.iTab p).cRefs ≠ 0)
    (links : (s.iTab p).cRefs = 1 → (s.iTab p).cNode.iNlink ≠ 0)
    (clean : (s.iTab p).cRefs = 1 → (s.iTab p).cDirty = false) :
    wp (iDeref p)
      (fun _ s' => s.Undisturbed s' ∧ s'.bufs = s.bufs ∧
        s'.iTab = (s.setInode p { s.iTab p with cRefs := (s.iTab p).cRefs - 1 }).iTab)
      (fun _ => False) s := by
  have last : (s.iTab p).cRefs - 1 = 0 → (s.iTab p).cRefs = 1 := sub_eq_zero.mp
  unfold iDeref Uzi.magic
  rw [wp_bind, wp_bind, wp_get, wp_ite, if_neg (not_not.mpr magic), wp_pure, wp_bind, wp_get, wp_ite, if_neg used,
    wp_bind, wp_get]
  have start : s.Undisturbed s ∧ s.bufs = s.bufs ∧ s.iTab = s.iTab := ⟨.refl, rfl, rfl⟩
  refine wp_when (fun s' => s.Undisturbed s' ∧ s'.bufs = s.bufs ∧ s'.iTab = s.iTab) (fun _ => ?_) (fun _ => start)
    fun s₁ h₁ => ?_
  · exact ⟨⟨rfl, rfl, rfl, rfl, rfl, rfl⟩, rfl, rfl⟩
  · obtain ⟨still, bufs, iTab⟩ := h₁
    have own : (s₁.setInode p { s₁.iTab p with cRefs := (s₁.iTab p).cRefs - 1 }).iTab p =
      { s.iTab p with cRefs := (s.iTab p).cRefs - 1 } := by rw [iTab_setInode, iTab]
    have table : (s₁.setInode p { s₁.iTab p with cRefs := (s₁.iTab p).cRefs - 1 }).iTab =
        (s.setInode p { s.iTab p with cRefs := (s.iTab p).cRefs - 1 }).iTab := by
      simp only [setInode, iTab]
    have still : s.Undisturbed (s₁.setInode p { s₁.iTab p with cRefs := (s₁.iTab p).cRefs - 1 }) :=
      still.trans ⟨rfl, rfl, rfl, rfl, rfl, rfl⟩
    rw [wp_bind, wp_modifyInode, wp_bind, wp_get, own, wp_ite, if_neg fun gone => links (last gone.1) gone.2, wp_bind,
      wp_get, own, wp_ite, if_neg fun dirty => Bool.false_ne_true ((clean (last dirty.1)).symm.trans dirty.2)]
    exact ⟨still, bufs, table⟩

/-- There is room in the table. -/
lemma Navigable.roomy (nav : s.Navigable) : s.Roomy := by
  intro i
  have few := nav.refs i
  have size : 2 * ITABSIZE = 40 := rfl
  omega

namespace Browsed

/-- At the beginning of a search. -/
lemma start (cached : s.Cached) (unused : s.Unused) (magic : ∀ i, (s.iTab i).cNum ≠ 0 → (s.iTab i).cMagic = CMAGIC) :
    s.Browsed s 0 where
  keeps := ⟨cached, fun _ => rfl, fun _ => rfl⟩
  still := .refl
  carries := .start
  held _ _ := rfl
  clean := unused
  magic := magic
  live _ h := absurd h (Multiset.notMem_zero _)

/-- The table is the same, and nothing is shown that is new. -/
lemma same (h : s₀.Browsed s l) (iTab : s'.iTab = s.iTab) (good : s'.bufs.Good) (still : s.Undisturbed s') :
    s₀.Browsed s' l where
  keeps := by
    refine h.keeps.trans (SameInodes.keeps ⟨iTab, ?_, still.target, good, ?_, ?_⟩ h.keeps.cached)
    · exact fun dev => by rw [still.fsTab]
    · rw [still.view]
    · exact fun dev blk _ _ => by rw [still.view]
  still := h.still.trans still
  carries i := iTab ▸ h.carries i
  held i := iTab ▸ h.held i
  clean i := iTab ▸ h.clean i
  magic i := iTab ▸ h.magic i
  live p := iTab ▸ h.live p

/-- What is shown keeps the search. -/
lemma shown (h : s₀.Browsed s l) (sh : s.Shown s') : s₀.Browsed s' l := by
  have still := sh.still
  obtain ⟨b, rfl, good, -⟩ := sh
  exact h.same rfl good still

/-- `setError` keeps the search. -/
lemma wp_setError {e : Errno} (h : s₀.Browsed s l) :
    wp (setError e) (fun _ s' => s₀.Browsed s' l ∧ s.KeepsNames s') (fun _ => False) s :=
  ⟨h.same rfl h.keeps.cached.good ⟨rfl, rfl, rfl, rfl, rfl, rfl⟩, fun _ _ => id⟩

/-- The counts have room for the references of the search. -/
lemma refs_toNat (roomy : s₀.Roomy) (h : s₀.Browsed s l) (few : l.card ≤ 3) :
    (s.iTab i).cRefs.toNat = (s₀.iTab i).cRefs.toNat + l.count i := by
  have room := roomy i
  have count := Multiset.count_le_card i l
  have cast : ((l.count i : Nat) : Byte).toNat = l.count i := by
    rw [BitVec.natCast_eq_ofNat, BitVec.toNat_ofNat]
    exact Nat.mod_eq_of_lt (by omega)
  rw [h.carries i, BitVec.toNat_add, cast]
  exact Nat.mod_eq_of_lt (by omega)

/-- The inodes that are not used. -/
lemma refs_eq_zero (roomy : s₀.Roomy) (h : s₀.Browsed s l) (few : l.card ≤ 3) :
    (s.iTab i).cRefs = 0 ↔ (s₀.iTab i).cRefs = 0 ∧ i ∉ l := by
  have sum := h.refs_toNat roomy few (i := i)
  have zero : ∀ b : Byte, b = 0 ↔ b.toNat = 0 := fun b => BitVec.toNat_inj.symm
  rw [zero, zero, sum, Nat.add_eq_zero_iff, Multiset.count_eq_zero]

/-- What has one reference, and that one of the search, had none. -/
lemma last (roomy : s₀.Roomy) (h : s₀.Browsed s l) (few : l.card ≤ 3) (mem : p ∈ l) (one : (s.iTab p).cRefs = 1) :
    (s₀.iTab p).cRefs = 0 := by
  have sum := h.refs_toNat roomy few (i := p)
  have count := Multiset.one_le_count_iff_mem.mpr mem
  have zero : (s₀.iTab p).cRefs.toNat = 0 := by
    rw [one] at sum
    have one : (1 : Byte).toNat = 1 := rfl
    omega
  exact BitVec.eq_of_toNat_eq zero

/-- An entry without references need not be written. -/
lemma unused (roomy : s₀.Roomy) (h : s₀.Browsed s l) (few : l.card ≤ 3) : s.Unused :=
  fun i zero => h.clean i ((h.refs_eq_zero roomy few).mp zero).1

/-- With one reference held there is an entry left to be taken over. -/
lemma room (nav : s₀.Navigable) (h : s₀.Browsed s l) (few : l.card ≤ 1) : ∃ i, (s.iTab i).cRefs = 0 := by
  obtain ⟨i, j, ne, hi, hj⟩ := nav.room
  have few' : l.card ≤ 3 := few.trans (by decide)
  by_cases mem : i ∈ l
  · refine ⟨j, (h.refs_eq_zero nav.roomy few').mpr ⟨hj, fun mem' => ?_⟩⟩
    have one : l.card = 1 := Nat.le_antisymm few (Multiset.card_pos_iff_exists_mem.mpr ⟨i, mem⟩)
    obtain ⟨x, rfl⟩ := Multiset.card_eq_one.mp one
    exact ne ((Multiset.mem_singleton.mp mem).trans (Multiset.mem_singleton.mp mem').symm)
  · exact ⟨i, (h.refs_eq_zero nav.roomy few').mpr ⟨hi, mem⟩⟩

/-- Only a count changes. -/
lemma counted {l' : Multiset Inoptr} {n : Byte} (h : s₀.Browsed s l)
    (carries : s₀.Carries (s.setInode p { s.iTab p with cRefs := n }) l')
    (live : ∀ q ∈ l', (s.iTab q).cNum ≠ 0 ∧ ((s₀.iTab q).cRefs = 0 → (s.iTab q).cNode.iNlink ≠ 0)) :
    s₀.Browsed (s.setInode p { s.iTab p with cRefs := n }) l' := by
  have own : (s.setInode p { s.iTab p with cRefs := n }).iTab p = { s.iTab p with cRefs := n } := iTab_setInode
  have others : ∀ i ≠ p, (s.setInode p { s.iTab p with cRefs := n }).iTab i = s.iTab i := fun i => iTab_setInode_of_ne
  have keeps := h.keeps.cached.mark (p := p) (c := { s.iTab p with cRefs := n }) ⟨rfl, rfl, rfl⟩ rfl id
  have still : s.Undisturbed (s.setInode p { s.iTab p with cRefs := n }) := ⟨rfl, rfl, rfl, rfl, rfl, rfl⟩
  refine ⟨h.keeps.trans keeps, h.still.trans still, carries, fun i used => ?_, fun i zero => ?_, fun i num => ?_,
    fun q mem => ?_⟩
  · by_cases e : i = p
    · have node := h.held p (e ▸ used)
      rw [e, own, node]
    · rw [others i e]
      exact h.held i used
  · by_cases e : i = p
    · rw [e, own]
      exact h.clean p (e ▸ zero)
    · rw [others i e]
      exact h.clean i zero
  · by_cases e : i = p
    · rw [e, own] at num ⊢
      exact h.magic p num
    · rw [others i e] at num ⊢
      exact h.magic i num
  · by_cases e : q = p
    · rw [e, own]
      exact live p (e ▸ mem)
    · rw [others q e]
      exact live q mem

/-- One more reference. -/
lemma add (h : s₀.Browsed s l) (num : (s.iTab p).cNum ≠ 0)
    (nlink : (s₀.iTab p).cRefs = 0 → (s.iTab p).cNode.iNlink ≠ 0) :
    s₀.Browsed (s.setInode p { s.iTab p with cRefs := (s.iTab p).cRefs + 1 }) (p ::ₘ l) := by
  refine h.counted (h.carries.add rfl) fun q mem => ?_
  cases Multiset.mem_cons.mp mem with
  | inl e =>
    rw [e]
    exact ⟨num, nlink⟩
  | inr mem => exact h.live q mem

/-- A reference more. -/
lemma wp_iRef (nav : s₀.Navigable) (h : s₀.Browsed s l) (few : l.card ≤ 1) (pinned : s₀.Pinned p) :
    wp (iRef p) (fun _ s' => s₀.Browsed s' (p ::ₘ l)) (fun _ => False) s := by
  have same := h.held p pinned.refs
  have num : (s.iTab p).cNum ≠ 0 := by
    rw [same]
    exact pinned.num
  have h₁ := h.add num fun zero => absurd zero pinned.refs
  have sum := h₁.refs_toNat nav.roomy (i := p) (by rw [Multiset.card_cons]; omega)
  have count := Multiset.count_le_card p (p ::ₘ l)
  have room := nav.refs p
  rw [Multiset.card_cons] at count
  unfold iRef
  rw [wp_bind, wp_modifyInode, wp_bind, wp_get, wp_ite, if_neg]
  · exact h₁
  · rw [sum]
    omega

/-- The magic number is there. -/
lemma wp_magic (h : s₀.Browsed s l) (num : (s.iTab p).cNum ≠ 0) :
    wp (Uzi.magic p) (fun _ s' => s' = s) (fun _ => False) s := by
  unfold Uzi.magic
  rw [wp_bind, wp_get, wp_ite, if_neg (not_not.mpr (h.magic p num))]
  rfl

/-- A reference is given back. Nothing is written and nothing freed. -/
lemma wp_iDeref (roomy : s₀.Roomy) (h : s₀.Browsed s (p ::ₘ l)) (few : l.card ≤ 2) :
    wp (iDeref p) (fun _ s' => s₀.Browsed s' l ∧ s.KeepsNames s') (fun _ => False) s := by
  have few' : (p ::ₘ l).card ≤ 3 := by
    rw [Multiset.card_cons]
    exact Nat.succ_le_succ few
  obtain ⟨num, nlink⟩ := h.live p (Multiset.mem_cons_self p l)
  have used : (s.iTab p).cRefs ≠ 0 := fun zero =>
    ((h.refs_eq_zero roomy few').mp zero).2 (Multiset.mem_cons_self p l)
  -- the last reference is one of the search, so that there are links, and nothing to be written
  have last := h.last roomy few' (Multiset.mem_cons_self p l)
  have kept := wp_iDeref_kept (h.magic p num) used (fun one => nlink (last one)) fun one => h.clean p (last one)
  refine wp_post kept fun _ s' got => ?_
  obtain ⟨still, bufs, iTab⟩ := got
  have own : s'.iTab p = { s.iTab p with cRefs := (s.iTab p).cRefs - 1 } := by rw [iTab, iTab_setInode]
  have h₁ : s₀.Browsed (s.setInode p { s.iTab p with cRefs := (s.iTab p).cRefs - 1 }) l :=
    h.counted (h.carries.drop rfl) fun q mem => h.live q (Multiset.mem_cons_of_mem mem)
  refine ⟨h₁.same iTab (bufs ▸ h.keeps.cached.good) ?_, fun i m names => ?_⟩
  · exact ⟨still.view, still.fsTab, still.root, still.rootdev, still.target, still.udata⟩
  · by_cases e : i = p
    · rw [e] at names ⊢
      rw [own]
      exact names
    · rw [iTab, iTab_setInode_of_ne e]
      exact names

end Browsed

/-! ## Opening what a directory names -/

/-- `i_open` has given entry `i` a reference, or taken it over. -/
structure Entered (s s' : Kernel) (i : Inoptr) : Prop where
  still : s.Undisturbed s'
  entry : s'.iTab i = { s.iTab i with cRefs := (s.iTab i).cRefs + 1 } ∨
    (s.iTab i).cRefs = 0 ∧ (s'.iTab i).cDirty = (s.iTab i).cDirty ∧ (s'.iTab i).cMagic = CMAGIC

/-- An inode that is open already. -/
lemma wp_iOpenFound_some (nlink : (s.iTab i).cNode.iNlink ≠ 0) (mode : (s.iTab i).cNode.iMode &&& F_MASK ≠ 0) :
    wp (iOpenFound i false)
      (fun r s' => r = some i ∧ s' = s.setInode i { s.iTab i with cRefs := (s.iTab i).cRefs + 1 }) (fun _ => False) s := by
  unfold iOpenFound
  rw [wp_bind, wp_get, wp_ite, if_neg Bool.false_ne_true, wp_ite, if_neg (not_not.mpr ⟨nlink, mode⟩), wp_bind,
    wp_modifyInode]
  exact ⟨rfl, rfl⟩

/-- `i_open` finds an entry, or reads the inode into one that is free. -/
lemma Cached.wp_iOpen_some (h : s.Cached) (o : s.Openable m) (room : ∃ i, (s.iTab i).cRefs = 0) :
    wp (iOpen m.1 m.2) (fun r s' => ∃ i, r = some i ∧ s.Entered s' i) (fun _ => False) s := by
  have inode : ¬ (m.2 < ROOTINODE ∨ (s.fsTab m.1).inodeEnd s.target ≤ m.2.toNat) := by
    intro bad
    cases bad with
    | inl low =>
      have lt : m.2.toNat < 1 := low
      exact o.num (BitVec.eq_of_toNat_eq (Nat.lt_one_iff.mp lt))
    | inr high => exact absurd o.inode (Nat.not_lt.mpr high)
  have has : s.HasInode m := ⟨o.dev, Filesys.inodeBlk_lt o.isize o.inode⟩
  unfold iOpen iOpenAt
  rw [wp_ite, if_neg (not_not.mpr o.dev), wp_ite, if_neg o.num, wp_bind, wp_get, wp_ite, if_neg inode, wp_bind]
  refine wp_post (wp_iSearch o.num) fun r s₁ got => ?_
  obtain ⟨⟨k, e⟩, found⟩ := got
  subst e
  have next : s.Undisturbed { s with nexti := k } := ⟨rfl, rfl, rfl, rfl, rfl, rfl⟩
  obtain ⟨b, r⟩ := r
  cases b with
  | true =>
    obtain ⟨i, e, names⟩ := found
    subst e
    have node : (s.iTab i).cNode = s.icache.content m :=
      (Cache.content_of_name h.coherent.unique (icache_name.mpr names)).symm
    refine wp_post (wp_iOpenFound_some (s := { s with nexti := k }) ?_ ?_) fun r s₂ got => ?_
    · rw [node]
      exact o.nlink
    · rw [node]
      exact o.mode
    · obtain ⟨e, e'⟩ := got
      subst e'
      exact ⟨i, e, next.trans ⟨rfl, rfl, rfl, rfl, rfl, rfl⟩, .inl iTab_setInode⟩
  | false =>
    obtain ⟨none, slot, full⟩ := found.whole
    cases r with
    | none =>
      obtain ⟨i, zero⟩ := room
      exact absurd zero (full rfl i)
    | some i =>
      rw [wp_bind]
      refine wp_mono (wp_breadPtr (s := { s with nexti := k }) h.good o.dev) ?_ fun _ stop =>
        View.not_stops_of_idle h.released (by decide) stop
      intro bp s₂ got
      obtain ⟨b₁, e, g₁, idle, hold⟩ := got
      subst e
      have held : b₁.view.held bp = some (m.1, inodeBlk m.2) := by rw [hold, View.held_hold]
      have data : Dinode.ofBlock (b₁.bufpool bp).bfData (inodeIdx m.2) = s.icache.content m := by
        rw [g₁.data held, hold, Cache.content_of_forall_ne fun j => mt icache_name.mp (none j), icache_back has]
        rfl
      rw [wp_bind, wp_get, wp_bind, wp_modifyInode, wp_bind]
      refine wp_post (wp_brelse_hold g₁ idle hold) fun _ s₃ got => ?_
      obtain ⟨b₂, e, g₂, v⟩ := got
      subst e
      rw [wp_bind, wp_modifyInode]
      generalize eq : Kernel.setInode _ _ _ = s₄
      have own : s₄.iTab i =
          { s.iTab i with cNode := s.icache.content m, cDev := m.1, cNum := m.2, cMagic := CMAGIC } := by
        rw [← eq, iTab_setInode, ← data]
        simp only [Kernel.setInode, Function.update_self]
        rfl
      have still : s.Undisturbed s₄ := by
        rw [← eq]
        exact ⟨v, rfl, rfl, rfl, rfl, rfl⟩
      refine wp_post (wp_iOpenFound_some ?_ ?_) fun r s₅ got => ?_
      · rw [own]
        exact o.nlink
      · rw [own]
        exact o.mode
      · obtain ⟨e, e'⟩ := got
        subst e'
        refine ⟨i, e, still.trans ⟨rfl, rfl, rfl, rfl, rfl, rfl⟩, .inr ⟨slot i rfl, ?_, ?_⟩⟩
        · rw [iTab_setInode, own]
        · rw [iTab_setInode, own]

namespace Browsed

/-- The search does not change what can be opened. -/
lemma openable (h : s₀.Browsed s l) (o : s₀.Openable m) : s.Openable m := by
  obtain ⟨⟨dev, mounted, isize⟩, num, inode, nlink, mode⟩ := o
  rw [← h.still.fsTab] at mounted isize inode
  rw [← h.still.target] at inode
  rw [← h.keeps.content m] at nlink mode
  exact ⟨⟨dev, mounted, isize⟩, num, inode, nlink, mode⟩

/-- What can be opened is opened, and gets a reference. -/
lemma wp_iOpen (nav : s₀.Navigable) (h : s₀.Browsed s l) (few : l.card ≤ 1) (o : s₀.Openable m) :
    wp (iOpen m.1 m.2) (fun r s' => ∃ i, r = some i ∧ (s'.iTab i).Names m ∧ s₀.Browsed s' (i ::ₘ l))
      (fun _ => False) s := by
  have o' := h.openable o
  have open₁ := h.keeps.cached.wp_iOpen (h.unused nav.roomy (few.trans (by decide))) o.num o'.isize
  refine wp_mono (open₁.and (h.keeps.cached.wp_iOpen_some o' (h.room nav few))) (fun r s' got => ?_) fun _ bad => bad.2
  obtain ⟨outcome, i, e, entered⟩ := got
  subst e
  obtain ⟨names, refs, others, slot, keeps⟩ := outcome
  have same : ∀ j, (s'.iTab j).cRefs = (s.iTab j).cRefs + if j = i then 1 else 0 := by
    intro j
    split
    · next e =>
      rw [e, refs]
      split
      · rfl
      · next new => rw [(slot.resolve_left new).1]
    · next ne => rw [others j ne, add_zero]
  have taken : (s₀.iTab i).cRefs ≠ 0 → s'.iTab i = { s.iTab i with cRefs := (s.iTab i).cRefs + 1 } := by
    intro used
    refine entered.entry.resolve_right fun free => used ?_
    exact ((h.refs_eq_zero nav.roomy (few.trans (by decide))).mp free.1).1
  have dirty : (s'.iTab i).cDirty = (s.iTab i).cDirty := by
    cases entered.entry with
    | inl found => rw [found]
    | inr free => exact free.2.1
  refine ⟨i, rfl, names, h.keeps.trans keeps, h.still.trans entered.still, fun j => ?_, fun j used => ?_,
    fun j zero => ?_, fun j num => ?_, fun q mem => ?_⟩
  · rw [same j, h.carries j, add_assoc]
    congr 1
    split
    · next e => rw [e, Multiset.count_cons_self, Nat.cast_succ]
    · next ne => rw [Multiset.count_cons_of_ne ne, add_zero]
  · by_cases e : j = i
    · rw [e] at used ⊢
      rw [taken used, h.held i used]
    · rw [others j e]
      exact h.held j used
  · by_cases e : j = i
    · rw [e, dirty]
      exact h.clean i (e ▸ zero)
    · rw [others j e]
      exact h.clean j zero
  · by_cases e : j = i
    · rw [e] at num ⊢
      cases entered.entry with
      | inl found =>
        rw [found] at num ⊢
        exact h.magic i num
      | inr free => exact free.2.2
    · rw [others j e] at num ⊢
      exact h.magic j num
  · by_cases e : q = i
    · rw [e]
      have node := Cache.content_of_name keeps.cached.coherent.unique (icache_name.mpr names)
      have content := (keeps.content m).trans (h.keeps.content m)
      refine ⟨fun zero => names.2.2 (names.2.1.symm.trans zero), fun _ => ?_⟩
      have node : s'.icache.content m = (s'.iTab i).cNode := node
      rw [← node, content]
      exact o.nlink
    · rw [others q e]
      refine h.live q ((Multiset.mem_cons.mp mem).resolve_left e)

/-! ## The search of a directory -/

/-- The node of an entry is what its inode has been from the start. -/
lemma node_eq (h : s₀.Browsed s l) (names : (s.iTab p).Names m) : (s.iTab p).cNode = s₀.icache.content m := by
  rw [← h.keeps.content m]
  exact (Cache.content_of_name h.keeps.cached.coherent.unique (icache_name.mpr names)).symm

/-- The blocks are as before. -/
lemma cell_eq (h : s₀.Browsed s l) {dev : Nat} : s.cell dev = s₀.cell dev := by
  funext n
  exact congrArg (fun v => v.content (dev, n)) h.still.view

end Browsed

/-- What is found under a name has been opened. -/
def Opens (s₀ s : Kernel) (l : Multiset Inoptr) (r : Option Inoptr) (s' : Kernel) : Option (Nat × Word) → Prop
  | some m => ∃ i, r = some i ∧ (s'.iTab i).Names m ∧ s₀.Browsed s' (i ::ₘ l)
  | none => r = none ∧ s₀.Browsed s' l ∧ s.KeepsNames s'

/-- What keeps the names, first. -/
lemma Opens.of_keepsNames {s₁ : Kernel} {r : Option Inoptr} {o : Option (Nat × Word)} (kept : s.KeepsNames s₁)
    (h : s₀.Opens s₁ l r s' o) : s₀.Opens s l r s' o := by
  cases o with
  | some m => exact h
  | none => exact ⟨h.1, h.2.1, fun i m names => h.2.2 i m (kept i m names)⟩

namespace Browsed

variable {d : Nat × Word} {wd : Inoptr} {c : List Byte} {name : Nat → Byte}

/-- `srch_dir` goes through the blocks of the directory that are left. -/
lemma wp_srchBlocks (nav : s₀.Navigable) (att : s₀.Attached d) (search : s₀.Searchable d)
    (dir : s₀.tree.isDir d = true) (stem_eq : stem name = c.take 14) (ne : c ≠ []) {n k : Nat}
    (all : k + n = (s₀.icache.content d).nblocks) (h : s₀.Browsed s {wd}) (names : (s.iTab wd).Names d) :
    wp (srchBlocks wd name false n (BitVec.ofNat 16 k))
      (fun r s' => s₀.Opens s {wd} r s'
        ((findEntry ((s₀.icache.content d).entriesFrom (s₀.cell d.1) k n) c).map fun num => (d.1, num)))
      (fun _ => False) s := by
  induction n generalizing s k with
  | zero => exact ⟨rfl, h, fun _ _ => id⟩
  | succ n ih =>
    have lt : k < (s₀.icache.content d).nblocks := by omega
    have dev : (s.iTab wd).cDev = d.1 := names.1
    have node := h.node_eq names
    have mode : (s.iTab wd).getmode ≠ F_BDEV := by
      rw [Cinode.getmode, node, of_decide_eq_true dir]
      decide
    have idle := h.keeps.cached.released
    unfold srchBlocks
    rw [wp_bind]
    refine wp_post (wp_bmap_read h.keeps.cached.good idle (dev ▸ att.dev) mode) fun blk s₁ got => ?_
    obtain ⟨shown, blk_eq⟩ := got
    rw [dev, node, h.cell_eq, orNull, if_neg (search.blocks k lt)] at blk_eq
    have h₁ := h.shown shown
    have iTab₁ : s₁.iTab = s.iTab := by
      obtain ⟨b, rfl, -⟩ := shown
      rfl
    rw [wp_bind, wp_get, wp_bind, iTab₁, dev]
    refine wp_mono (wp_breadPtr h₁.keeps.cached.good att.dev) ?_ fun _ stop =>
      View.not_stops_of_idle h₁.keeps.cached.released (by decide) stop
    intro bp s₂ got
    obtain ⟨b, e, g₂, free, hold⟩ := got
    subst e
    have held : b.view.held bp = some (d.1, blk) := by rw [hold, View.held_hold]
    have data : (b.bufpool bp).bfData = s₀.cell d.1 blk := by
      rw [g₂.data held, hold, View.content_hold, ← h₁.cell_eq]
      rfl
    have found := findName_eq (b := s₀.cell d.1 blk) stem_eq
    rw [wp_bind, wp_get, Dinode.entriesFrom_succ, findEntry_append, ← blk_eq, ← found]
    have release : wp (brelse bp) (fun _ s' => s₁.Shown s') (fun _ => False) { s₁ with bufs := b } :=
      wp_post (wp_brelse_hold g₂ free hold) fun _ _ got => got
    have block : (({ s₁ with bufs := b } : Kernel).buf bp).bfData = s₀.cell d.1 blk := data
    rw [block]
    cases eq : (s₀.cell d.1 blk).findName name with
    | some num =>
      rw [Option.some_or, wp_bind]
      refine wp_post release fun _ s₃ shown₃ => ?_
      have h₃ := h₁.shown shown₃
      have iTab₃ : s₃.iTab = s₁.iTab := by
        obtain ⟨b, rfl, -⟩ := shown₃
        rfl
      -- what the directory names can be opened
      obtain ⟨e, mem, named, num_eq⟩ := mem_of_findEntry (found.symm.trans eq)
      have openable : s₀.Openable (d.1, num) := by
        rw [← num_eq]
        refine search.entries e (List.mem_flatMap.mpr ⟨k, ?_, blk_eq ▸ mem⟩) ?_
        · exact List.mem_range'_1.mpr ⟨Nat.zero_le k, by rwa [Nat.zero_add]⟩
        · rw [named]
          exact mt List.take_eq_nil_iff.mp (by simp [ne])
      rw [wp_bind, wp_get, iTab₃, iTab₁, dev]
      exact h₃.wp_iOpen nav (Nat.le_of_eq (Multiset.card_singleton wd)) openable
    | none =>
      rw [Option.none_or, wp_bind]
      refine wp_post release fun _ s₃ shown₃ => ?_
      have iTab₃ : s₃.iTab = s₁.iTab := by
        obtain ⟨b, rfl, -⟩ := shown₃
        rfl
      have next : (BitVec.ofNat 16 k + 1 : Word) = BitVec.ofNat 16 (k + 1) := (BitVec.ofNat_add k 1).symm
      have kept : s.KeepsNames s₃ := fun i m => by
        rw [iTab₃, iTab₁]
        exact id
      rw [next]
      refine wp_post (ih (by omega) (h₁.shown shown₃) (kept wd d names)) fun r s₄ opens => ?_
      exact opens.of_keepsNames kept

/-- `srch_dir` finds the entry with the name. -/
lemma wp_srchDir (nav : s₀.Navigable) (att : s₀.Attached d) (search : s₀.Searchable d)
    (dir : s₀.tree.isDir d = true) (stem_eq : stem name = c.take 14) (ne : c ≠ []) (h : s₀.Browsed s {wd})
    (names : (s.iTab wd).Names d) :
    wp (srchDir wd name) (fun r s' => s₀.Opens s {wd} r s' (s₀.tree.entry d c)) (fun _ => False) s := by
  have blocks := h.wp_srchBlocks nav att search dir stem_eq ne (Nat.zero_add _) names
  have size := search.size
  have node := h.node_eq names
  unfold srchDir
  rw [wp_bind, wp_get, node]
  cases s.target with
  | nes =>
    show wp (srchBlocks wd name false ((s₀.icache.content d).nblocks % 2 ^ 16) 0) _ _ s
    rw [Nat.mod_eq_of_lt size]
    exact blocks
  | fsutil =>
    show wp (srchBlocks wd name (decide ((s₀.icache.content d).nblocks = 2 ^ 16)) _ 0) _ _ s
    rw [decide_eq_false (Nat.ne_of_lt size)]
    exact blocks

/-! ## Mount points -/

/-- An entry that had references is still the one of its inode. -/
lemma pinned_names (h : s₀.Browsed s l) (pinned : s₀.Pinned p) : (s.iTab p).Names (s₀.node p) := by
  rw [h.held p pinned.refs]
  exact ⟨rfl, rfl, pinned.num⟩

/-- Inodes are compared with the mount points by their entries. -/
lemma mountPoint_iff (nav : s₀.Navigable) (h : s₀.Browsed s l) (names : (s.iTab p).Names m) {j : Nat}
    (hj : j < NDEVS) (mounted : (s₀.fsTab j).sMounted = SMOUNTED) :
    (s₀.fsTab j).sMntpt = p.raw ↔ s₀.mountPoint j = some m := by
  by_cases root : j = s₀.rootdev
  · have none := nav.rootdev
    rw [← root] at none
    refine iff_of_false (fun e => ?_) fun e => ?_
    · rw [inoOfRaw_eq.mpr e] at none
      cases none
    · rw [Kernel.mountPoint, none] at e
      cases e
  · obtain ⟨i, raw, pinned, -⟩ := nav.mounts j hj root mounted
    have names' := h.pinned_names pinned
    rw [Kernel.mountPoint, raw, Option.map_some, Option.some.injEq, ← inoOfRaw_eq, raw, Option.some.injEq]
    constructor
    · intro e
      rw [e] at names' ⊢
      exact Prod.ext (names'.1.symm.trans names.1) (names'.2.1.symm.trans names.2.1)
    · intro e
      rw [e] at names'
      exact h.keeps.cached.coherent.unique (icache_name.mpr names') (icache_name.mpr names)

/-- Nothing is mounted there. -/
lemma through_of_none (found : s₀.mountedOn m = none) : s₀.tree.through m = m := by
  unfold Kernel.tree
  simp only [found]

/-- A device is mounted there. -/
lemma through_of_some {j : Nat} (found : s₀.mountedOn m = some j) : s₀.tree.through m = (j, ROOTINODE) := by
  unfold Kernel.tree
  simp only [found]

/-- The root of a mounted device may be visited. -/
lemma visitable_through (nav : s₀.Navigable) (visit : s₀.Visitable m) : s₀.Visitable (s₀.tree.through m) := by
  cases found : s₀.mountedOn m with
  | none =>
    rw [through_of_none found]
    exact visit
  | some j =>
    obtain ⟨dev, mounted, -⟩ := mountedOn_some found
    rw [through_of_some found]
    exact .inl (nav.tops j dev mounted)

/-- A mount point is given back for the root of what is mounted there. -/
lemma wp_throughMount (nav : s₀.Navigable) (h : s₀.Browsed s (p ::ₘ {wd})) (names : (s.iTab p).Names m) :
    wp (throughMount (some p))
      (fun r s' => ∃ q, r = some q ∧ (s'.iTab q).Names (s₀.tree.through m) ∧ s₀.Browsed s' (q ::ₘ {wd}))
      (fun _ => False) s := by
  have few : Multiset.card {wd} ≤ 1 := Nat.le_of_eq (Multiset.card_singleton wd)
  unfold throughMount srchMt
  rw [wp_bind]
  refine wp_post (h.wp_magic (h.live p (Multiset.mem_cons_self p _)).1) fun _ s₁ e => ?_
  rw [e, wp_bind, wp_get]
  have same : (List.range NDEVS).find? (fun j => decide ((s.fsTab j).sMounted = SMOUNTED ∧
      (s.fsTab j).sMntpt = Inoptr.raw p)) = s₀.mountedOn m := by
    refine List.find?_congr fun j mem => ?_
    rw [decide_eq_decide, h.still.fsTab]
    exact and_congr_right fun mounted => h.mountPoint_iff nav names (List.mem_range.mp mem) mounted
  rw [same]
  cases found : s₀.mountedOn m with
  | none =>
    rw [through_of_none found]
    exact ⟨p, rfl, names, h⟩
  | some j =>
    obtain ⟨dev, mounted, -⟩ := mountedOn_some found
    rw [through_of_some found]
    have top := nav.tops j dev mounted
    show wp (iDeref p >>= fun _ => iOpen j ROOTINODE) _ _ s
    rw [wp_bind]
    refine wp_post (h.wp_iDeref nav.roomy (few.trans (by decide))) fun _ s₂ h₂ => ?_
    exact h₂.1.wp_iOpen nav few top

/-- The directory in which a name is looked up, mount points included. -/
lemma visitable_base (nav : s₀.Navigable) (visit : s₀.Visitable m) (dir : s₀.tree.isDir m = true) {up : List Byte → Bool} :
    s₀.Visitable (s₀.tree.base up m c) ∧ s₀.tree.isDir (s₀.tree.base up m c) = true := by
  have att := visit.attached
  rw [NameTree.base]
  split
  · next above =>
    have top := (Bool.and_eq_true_iff.mp above).1
    obtain ⟨i, raw, pinned, mode⟩ := nav.mounts m.1 att.dev (of_decide_eq_true top).2 att.mounted
    have below : s₀.tree.below m = s₀.node i := by
      show (s₀.mountPoint m.1).getD m = _
      rw [Kernel.mountPoint, raw]
      rfl
    rw [below]
    refine ⟨.inr ⟨i, pinned, rfl⟩, decide_eq_true ?_⟩
    have node := nav.cached.content pinned.num
    rw [Kernel.node, node]
    exact mode
  · exact ⟨visit, dir⟩

/-- The root of a mounted device is given back for its mount point. -/
lemma wp_upMount (nav : s₀.Navigable) (visit : s₀.Visitable m) (h : s₀.Browsed s {wd}) (names : (s.iTab wd).Names m)
    (dot : name 1 = DOT ↔ dotSecond c = true) :
    wp (upMount name wd) (fun r s' => (s'.iTab r).Names (s₀.tree.base dotSecond m c) ∧ s₀.Browsed s' {r})
      (fun _ => False) s := by
  have att := visit.attached
  have cond : ((s.iTab wd).cNum = ROOTINODE ∧ (s.iTab wd).cDev ≠ s.rootdev ∧ name 1 = DOT) ↔
      (s₀.tree.isTop m && dotSecond c) = true := by
    rw [Bool.and_eq_true_iff, ← dot, names.1, names.2.1, h.still.rootdev, ← and_assoc]
    exact and_congr_left fun _ => decide_eq_true_iff.symm
  unfold upMount
  rw [wp_bind, wp_get, wp_ite]
  split
  · next above =>
    have top := (Bool.and_eq_true_iff.mp (cond.mp above)).1
    obtain ⟨i, raw, pinned, -⟩ := nav.mounts m.1 att.dev (of_decide_eq_true top).2 att.mounted
    have base : s₀.tree.base dotSecond m c = s₀.node i := by
      rw [NameTree.base, if_pos (cond.mp above)]
      show (s₀.mountPoint m.1).getD m = _
      rw [Kernel.mountPoint, raw]
      rfl
    rw [names.1, h.still.fsTab, raw, base, wp_bind, wp_modifyInode, wp_bind]
    have h₁ := h.add (h.pinned_names pinned).num_ne fun zero => absurd zero pinned.refs
    rw [show ({wd} : Multiset Inoptr) = wd ::ₘ 0 from rfl, Multiset.cons_swap] at h₁
    refine wp_post (h₁.wp_iDeref nav.roomy (Nat.le_of_lt (Nat.le_refl 2))) fun _ s₂ h₂ => ?_
    exact ⟨h₂.1.pinned_names pinned, h₂.1⟩
  · next stay =>
    rw [NameTree.base, if_neg (mt cond.mpr stay)]
    exact ⟨names, h⟩

end Browsed

end Kernel

end Uzi
