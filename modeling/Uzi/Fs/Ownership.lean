import Uzi.Fs.FreeList
import Uzi.Lib.BlockTree

/-!
# Who owns a block

`blockTree cell l b` are the blocks of the tree of level `l` below `b`, read from the contents `cell`, and
`Dinode.blocks` those of an inode. `freeblk` and `f_trunc` move a tree to the free list, and `bmap`
moves blocks from the free list into the tree of its inode: the sum of both stays.
-/

namespace Uzi
open Exec BlockTree

/-- The blocks of the tree of level `l` below `b`: a data block, or an indirect block and all below. -/
def blockTree (cell : Word → Block) (l : Nat) (b : Word) : Multiset Word :=
  BlockTree.sub 0 256 (fun c j => (cell c).word j) l b

/-- The level of the tree at `i_addr[j]`: direct below 18, indirect at 18, double indirect at 19. -/
def addrLevel (j : Nat) : Nat := j - 17

/-- The blocks of an inode. -/
def Dinode.blocks (cell : Word → Block) (d : Dinode) : Multiset Word :=
  ∑ j ∈ Finset.range 20, blockTree cell (addrLevel j) (d.addr j)

section Trees

variable {cell cell' : Word → Block} {l : Nat} {b : Word}

/-- An empty entry has no tree. -/
@[simp] lemma blockTree_zero : blockTree cell l 0 = 0 := BlockTree.sub_nil

/-- A tree depends on the contents of its blocks only. -/
lemma blockTree_congr (h : ∀ c ∈ blockTree cell l b, cell' c = cell c) :
    blockTree cell' l b = blockTree cell l b :=
  BlockTree.sub_congr fun c hc j _ => congrArg (Block.word · j) (h c hc)

/-- The trees of an inode in the order in which `f_trunc` frees them. -/
lemma Dinode.blocks_eq {d : Dinode} : d.blocks cell = blockTree cell 2 (d.addr 19) +
    blockTree cell 1 (d.addr 18) + ∑ j ∈ Finset.range 18, blockTree cell 0 (d.addr j) := by
  have direct : ∑ j ∈ Finset.range 18, blockTree cell (addrLevel j) (d.addr j) =
      ∑ j ∈ Finset.range 18, blockTree cell 0 (d.addr j) := by
    refine Finset.sum_congr rfl fun j hj => ?_
    rw [addrLevel, Nat.sub_eq_zero_of_le (Nat.le_of_lt_succ (Finset.mem_range.mp hj))]
  rw [blocks, Finset.sum_range_succ, Finset.sum_range_succ, direct, add_assoc, add_comm]
  rw [add_comm (blockTree _ (addrLevel 18) _)]
  rfl

end Trees

/-! ## Freeing a tree -/

/-- `s'` is `s` after blocks of a device have been put on its free list, which is `L` now. The contents of
the blocks on the list may have changed. -/
structure Freed (dev : Nat) (s s' : Kernel) (L : List Word) : Prop where
  eq : s' = s.withFs s'.bufs dev (s'.fsTab dev)
  good : s'.bufs.Good
  recounted : (s.fsTab dev).Recounted (s'.fsTab dev)
  held : s'.bufs.view.held = s.bufs.view.held
  list : FreeList (s'.fsTab dev) (s'.cell dev) L
  content : ∀ n, (n.1 = dev → n.2 ∉ L) → s'.bufs.view.content n = s.bufs.view.content n

namespace Freed

variable {dev : Nat} {s s' s'' : Kernel} {L L' : List Word}

/-- Nothing has been freed. -/
lemma refl (g : s.bufs.Good) (h : FreeList (s.fsTab dev) (s.cell dev) L) : Freed dev s s L where
  eq := Kernel.withFs_self.symm
  good := g
  recounted := .refl
  held := rfl
  list := h
  content _ _ := rfl

/-- More and more blocks are freed. -/
lemma trans (h : Freed dev s s' L) (h' : Freed dev s' s'' L') (sub : ∀ c ∈ L, c ∈ L') :
    Freed dev s s'' L' where
  eq := by
    calc s'' = s'.withFs s''.bufs dev (s''.fsTab dev) := h'.eq
      _ = (s.withFs s'.bufs dev (s'.fsTab dev)).withFs s''.bufs dev (s''.fsTab dev) := by rw [← h.eq]
      _ = s.withFs s''.bufs dev (s''.fsTab dev) := Kernel.withFs_withFs
  good := h'.good
  recounted := h.recounted.trans h'.recounted
  held := h'.held.trans h.held
  list := h'.list
  content n hn := (h'.content n hn).trans (h.content n fun e hm => hn e (sub _ hm))

/-- Blocks are freed while one more buffer is held, and then that is released. -/
lemma of_hold {b₁ b₂ : Bufs} {bp : Bufptr} {n : Nat × Word} (idle : s.bufs.view.held bp = none)
    (v₁ : b₁.view = s.bufs.view.hold bp n) (f : Freed dev { s with bufs := b₁ } s' L)
    (g₂ : b₂.Good) (v₂ : b₂.view = s'.bufs.view.release bp) :
    Freed dev s { s' with bufs := b₂ } L where
  eq := congrArg (fun t : Kernel => { t with bufs := b₂ }) f.eq
  good := g₂
  recounted := f.recounted
  held := by
    have held₁ : s'.bufs.view.held = (s.bufs.view.hold bp n).held := f.held.trans (congrArg View.held v₁)
    rw [← View.release_hold idle (n := n)]
    simp only [v₂, View.release, held₁]
  list := by
    have cells : ({ s' with bufs := b₂ } : Kernel).cell dev = s'.cell dev := by
      funext c
      simp only [Kernel.cell, v₂, View.content_release]
    rw [cells]
    exact f.list
  content m hm := by
    have c₁ := f.content m hm
    simp only [v₁, View.content_hold] at c₁
    simpa only [v₂, View.content_release] using c₁

end Freed

/-- The blocks of a device. -/
def onDev (dev : Nat) (M : Multiset Word) : Set (Nat × Word) := {n | n.1 = dev ∧ n.2 ∈ M}

/-- The number of a data block of a device. -/
def Kernel.DataBlock (s : Kernel) (dev : Nat) (b : Word) : Prop :=
  (s.fsTab dev).sIsize ≤ b ∧ b < (s.fsTab dev).sFsize

/-- Why code stops that frees the blocks `M`: it cannot get hold of them, or one is no data block. -/
def Kernel.FreeStops (s : Kernel) (k dev : Nat) (M : Multiset Word) (e : Panic) : Prop :=
  s.bufs.view.Stops k (onDev dev M) e ∨ e = .validblkInvalidBlk ∧ ∃ c ∈ M, ¬ s.DataBlock dev c

/-- More blocks may be looked at. -/
lemma Kernel.FreeStops.mono {s : Kernel} {k k' dev : Nat} {M M' : Multiset Word} {e : Panic}
    (h : s.FreeStops k dev M e) (hk : k ≤ k') (sub : ∀ c ∈ M, c ∈ M') : s.FreeStops k' dev M' e := by
  cases h with
  | inl st => exact .inl (st.mono hk fun n hn => ⟨hn.1, sub _ hn.2⟩)
  | inr bad =>
    obtain ⟨e, c, hc, out⟩ := bad
    exact .inr ⟨e, c, sub c hc, out⟩

/-- Blocks that have been freed before do not matter. -/
lemma Freed.stops {dev k : Nat} {s s' : Kernel} {L : List Word} {M : Multiset Word} {e : Panic}
    (f : Freed dev s s' L) (h : s'.FreeStops k dev M e) : s.FreeStops k dev M e := by
  cases h with
  | inl st => exact .inl (st.of_held f.held)
  | inr bad =>
    obtain ⟨e, c, hc, out⟩ := bad
    refine .inr ⟨e, c, hc, ?_⟩
    rwa [Kernel.DataBlock, ← f.recounted.isize, ← f.recounted.fsize]

/-- `blk_free` panics when the number is not that of a data block. -/
lemma wp_blkFree_bad {s : Kernel} {dev : Nat} {b : Word} {L : List Word} {Q : PUnit → Kernel → Prop}
    (hdev : dev < NDEVS) (h : FreeList (s.fsTab dev) (s.cell dev) L) (ne : b ≠ 0) (bad : ¬ s.DataBlock dev b) :
    wp (blkFree dev b) Q (fun e => e = .validblkInvalidBlk) s := by
  have mounted : (s.fsTab dev).sMounted ≠ 0 := by
    rw [h.mounted]
    decide
  have out : b < (s.fsTab dev).sIsize ∨ (s.fsTab dev).sFsize ≤ b := by
    rw [Kernel.DataBlock, BitVec.le_def, BitVec.lt_def] at bad
    rw [BitVec.lt_def, BitVec.le_def]
    omega
  have out₀ : b < ((s.fsTab dev).touch s.tod).sIsize ∨ ((s.fsTab dev).touch s.tod).sFsize ≤ b := out
  have mounted₀ : ((s.fsTab dev).touch s.tod).sMounted ≠ 0 := mounted
  have good : baddev ((s.fsTab dev).touch s.tod) = false := (h.touch s.tod).not_baddev
  unfold blkFree validblk
  simp only [wp_ite, ne, if_false, wp_bind, wp_getdev hdev h.mounted, wp_get, Kernel.fsTab_withFs, good,
    Bool.false_eq_true, mounted₀, out₀, if_true, wp_throw]

/-- `blk_free` as a step of freeing. -/
lemma wp_blkFree_freed {s : Kernel} {dev : Nat} {b : Word} {L : List Word} (g : s.bufs.Good)
    (hdev : dev < NDEVS) (h : FreeList (s.fsTab dev) (s.cell dev) L) (ne : b ≠ 0) (fresh : b ∉ L) :
    wp (blkFree dev b) (fun _ s' => Freed dev s s' (b :: L)) (s.FreeStops 0 dev {b}) s := by
  by_cases data : s.DataBlock dev b
  swap
  · exact wp_mono (wp_blkFree_bad hdev h ne data) (fun _ _ => id) fun e bad =>
      .inr ⟨bad, b, Multiset.mem_singleton_self b, data⟩
  refine wp_mono (wp_blkFree g hdev h ne fresh data.1 data.2) ?_ fun e st => .inl (st.mono (Nat.le_refl 0) ?_)
  swap
  · intro n hn
    rw [Set.mem_singleton_iff.mp hn]
    exact ⟨rfl, Multiset.mem_singleton_self b⟩
  rintro _ _ ⟨b', fs', rfl, g', rec, ⟨x, v⟩, list⟩
  refine ⟨?_, g', ?_, ?_, ?_, fun n hn => ?_⟩
  · rw [Kernel.fsTab_withFs, Kernel.bufs_withFs]
  · rwa [Kernel.fsTab_withFs]
  · rw [Kernel.bufs_withFs, v, View.held_put]
  · rwa [Kernel.fsTab_withFs]
  · rw [Kernel.bufs_withFs, v]
    refine View.content_put_of_ne ?_
    rintro rfl
    exact hn rfl (List.mem_cons_self ..)

/-- What `freeblk` does at level `l`: it puts a tree on the free list. -/
def FreesTrees (l dev : Nat) : Prop :=
  ∀ {b : Word} {L : List Word} {s : Kernel}, s.bufs.Good →
    FreeList (s.fsTab dev) (s.cell dev) L → (↑L + blockTree (s.cell dev) l b).Nodup →
    wp (freeblk dev b l)
      (fun _ s' => ∃ L' : List Word, Freed dev s s' L' ∧
        (L' : Multiset Word) = ↑L + blockTree (s.cell dev) l b)
      (s.FreeStops l dev (blockTree (s.cell dev) l b)) s

/-- One more tree is freed. -/
lemma wp_freeblk_next {l dev : Nat} {b : Word} {L : List Word} {s t : Kernel}
    (frees : FreesTrees l dev) (f : Freed dev s t L) (nodup : (↑L + blockTree (s.cell dev) l b).Nodup) :
    wp (freeblk dev b l)
      (fun _ t' => ∃ L' : List Word, Freed dev s t' L' ∧
        (L' : Multiset Word) = ↑L + blockTree (s.cell dev) l b)
      (s.FreeStops l dev (blockTree (s.cell dev) l b)) t := by
  have same : blockTree (t.cell dev) l b = blockTree (s.cell dev) l b :=
    blockTree_congr fun c hc => f.content (dev, c) fun _ hL => notMem_of_nodup nodup hL hc
  refine wp_mono (frees (b := b) f.good f.list ?_) ?_ fun e => ?_
  · rwa [same]
  · rintro _ t' ⟨L', f', new⟩
    rw [same] at new
    refine ⟨L', f.trans f' fun c hc => ?_, new⟩
    exact Multiset.mem_coe.mp (new ▸ Multiset.mem_add.mpr (.inl hc))
  · rw [same]
    exact f.stops

/-- The loops that free the trees below the words `w 0` to `w (n - 1)`. `read` looks the words up: in the
indirect block at hand or in the inode, which are not freed meanwhile. -/
lemma wp_freeblk_loop {l dev n : Nat} {w : Nat → Word} {read : Kernel → Nat → Word} {L : List Word}
    {s t : Kernel} (frees : FreesTrees l dev) (f : Freed dev s t L)
    (nodup : (↑L + ∑ j ∈ Finset.range n, blockTree (s.cell dev) l (w j)).Nodup)
    (same : ∀ t' (L' : List Word), Freed dev s t' L' →
      (∀ c ∈ L', c ∈ (↑L + ∑ j ∈ Finset.range n, blockTree (s.cell dev) l (w j))) →
      ∀ j, read t' j = w j) :
    wp (forDown (fun j => do
        let t ← get
        freeblk dev (read t j) l) n)
      (fun _ t' => ∃ L' : List Word, Freed dev s t' L' ∧
        (L' : Multiset Word) = ↑L + ∑ j ∈ Finset.range n, blockTree (s.cell dev) l (w j))
      (s.FreeStops l dev (∑ j ∈ Finset.range n, blockTree (s.cell dev) l (w j))) t := by
  -- the trees of the rounds to come and the list are together what they were
  let I : Nat → Kernel → Prop := fun k t' => ∃ L' : List Word, Freed dev s t' L' ∧
    (L' : Multiset Word) + ∑ j ∈ Finset.range k, blockTree (s.cell dev) l (w j) =
      ↑L + ∑ j ∈ Finset.range n, blockTree (s.cell dev) l (w j)
  have start : I n t := ⟨L, f, rfl⟩
  refine wp_post (wp_forDown I (fun k hk t' inv => ?_) start) ?_
  · obtain ⟨L', f', sum⟩ := inv
    have word := same t' L' f' (fun c hc => sum ▸ Multiset.mem_add.mpr (.inl hc)) k
    have here : ∀ c ∈ blockTree (s.cell dev) l (w k),
        c ∈ ∑ j ∈ Finset.range n, blockTree (s.cell dev) l (w j) :=
      fun c hc => Multiset.mem_sum.mpr ⟨k, Finset.mem_range.mpr hk, hc⟩
    rw [Finset.sum_range_succ, add_comm _ (blockTree (s.cell dev) l (w k)), ← add_assoc] at sum
    rw [← sum] at nodup
    rw [wp_bind, wp_get, word]
    refine wp_mono (wp_freeblk_next frees f' (Multiset.nodup_add.mp nodup).1) ?_ fun e => ?_
    · rintro _ t'' ⟨L'', f'', new⟩
      exact ⟨L'', f'', by rw [new, sum]⟩
    · exact fun st => st.mono (Nat.le_refl l) here
  · rintro _ t' ⟨L', f', sum⟩
    exact ⟨L', f', by rwa [Finset.range_zero, Finset.sum_empty, add_zero] at sum⟩

/-- `freeblk` puts a tree on the free list. -/
lemma wp_freeblk {l dev : Nat} (hdev : dev < NDEVS) : FreesTrees l dev := by
  induction l with
  | zero =>
    intro b L s g h nodup
    rw [freeblk, wp_ite]
    split
    · next nil =>
      subst nil
      exact ⟨L, .refl g h, by rw [blockTree_zero, add_zero]⟩
    · next ne =>
      have leaf : blockTree (s.cell dev) 0 b = {b} := BlockTree.sub_zero ne
      rw [leaf] at nodup ⊢
      have fresh : b ∉ L := fun hb => notMem_of_nodup nodup hb (Multiset.mem_singleton_self b)
      refine wp_post (wp_blkFree_freed g hdev h ne fresh) fun _ s' f => ⟨_, f, ?_⟩
      rw [← Multiset.cons_coe, ← Multiset.singleton_add, add_comm]
  | succ l ih =>
    intro b L s g h nodup
    rw [freeblk, wp_ite]
    split
    · next nil =>
      subst nil
      exact ⟨L, .refl g h, by rw [blockTree_zero, add_zero]⟩
    · next ne =>
      have node : blockTree (s.cell dev) (l + 1) b = {b} +
          ∑ j ∈ Finset.range 256, blockTree (s.cell dev) l ((s.cell dev b).word j) :=
        BlockTree.sub_succ ne
      rw [node] at nodup ⊢
      rw [add_left_comm] at nodup
      rw [wp_bind]
      refine wp_mono (wp_breadPtr g hdev) ?_ fun e => ?_
      · rintro bp _ ⟨b₁, rfl, g₁, idle, v₁⟩
        have cells : ({ s with bufs := b₁ } : Kernel).cell dev = s.cell dev := by
          funext c
          simp only [Kernel.cell, v₁, View.content_hold]
        have list₁ : FreeList (s.fsTab dev) (({ s with bufs := b₁ } : Kernel).cell dev) L := by rwa [cells]
        have held₁ : b₁.view.held bp = some (dev, b) := by rw [v₁, View.held_hold]
        let read (t : Kernel) (j : Nat) : Word := (t.buf bp).bfData.word j
        have loop := @wp_freeblk_loop l dev 256 (s.cell dev b).word read _ _ _ ih
          (Freed.refl (s := { s with bufs := b₁ }) g₁ list₁)
        rw [cells] at loop
        rw [wp_bind]
        refine wp_mono (loop (Multiset.nodup_add.mp nodup).2.1 ?_) ?_ fun e => ?_
        · intro t L' f sub j
          -- the indirect block is held and not on the list
          have off : b ∉ L' := fun hb =>
            notMem_of_nodup nodup (Multiset.mem_singleton_self b) (sub b hb)
          have data := (f.good.data (by rw [f.held]; exact held₁)).trans (f.content (dev, b) fun _ => off)
          rw [← cells]
          exact congrArg (Block.word · j) data
        · rintro _ t ⟨L', f, sum⟩
          have fresh : b ∉ L' := by
            rw [← sum] at nodup
            exact notMem_of_nodup nodup (Multiset.mem_singleton_self b)
          rw [wp_bind]
          refine wp_mono (wp_brelse f.good) ?_ fun _ => False.elim
          rintro _ _ ⟨b₂, rfl, g₂, v₂⟩
          have f₂ := f.of_hold idle v₁ g₂ v₂
          refine wp_mono (wp_blkFree_freed g₂ hdev f₂.list ne fresh) ?_ fun e => ?_
          · intro _ s' f'
            refine ⟨_, f₂.trans f' fun c hc => List.mem_cons_of_mem b hc, ?_⟩
            rw [← Multiset.cons_coe, ← Multiset.singleton_add, sum, add_left_comm]
          · exact fun st => (f₂.stops st).mono (Nat.zero_le _) fun c hc => Multiset.mem_add.mpr (.inl hc)
        · intro st
          cases st with
          | inl st =>
            rw [v₁] at st
            refine .inl ((st.of_hold idle fun hn => ?_).mono (Nat.le_refl _) ?_)
            · exact notMem_of_nodup nodup (Multiset.mem_singleton_self b) (Multiset.mem_add.mpr (.inr hn.2))
            · exact fun n hn => ⟨hn.1, Multiset.mem_add.mpr (.inr hn.2)⟩
          | inr bad =>
            obtain ⟨e, c, hc, out⟩ := bad
            exact .inr ⟨e, c, Multiset.mem_add.mpr (.inr hc), out⟩
      · refine fun st => .inl (st.mono (Nat.zero_le _) ?_)
        rintro _ rfl
        exact ⟨rfl, Multiset.mem_add.mpr (.inl (Multiset.mem_singleton_self b))⟩

/-! ## Truncating an inode -/

/-- The inode that `f_trunc` leaves. -/
def Cinode.truncated (c : Cinode) : Cinode :=
  { c with cNode := { c.cNode with iAddr := fun _ => 0, iSize := ⟨0, 0⟩ }, cDirty := true }

/-- Nothing happens to the in-core inodes. -/
lemma Freed.iTab {dev : Nat} {s s' : Kernel} {L : List Word} (f : Freed dev s s' L) :
    s'.iTab = s.iTab := by
  rw [f.eq]
  rfl

/-- `f_trunc` puts the blocks of an inode on the free list. -/
lemma wp_fTrunc {ino : Inoptr} {dev : Nat} {L : List Word} {s : Kernel} (g : s.bufs.Good)
    (hdev : dev < NDEVS) (own : (s.iTab ino).cDev = dev) (h : FreeList (s.fsTab dev) (s.cell dev) L)
    (nodup : (↑L + (s.iTab ino).cNode.blocks (s.cell dev)).Nodup) :
    wp (fTrunc ino)
      (fun _ s' => ∃ t L', Freed dev s t L' ∧
        (L' : Multiset Word) = ↑L + (s.iTab ino).cNode.blocks (s.cell dev) ∧
        s' = t.setInode ino (s.iTab ino).truncated)
      (s.FreeStops 2 dev ((s.iTab ino).cNode.blocks (s.cell dev))) s := by
  rw [Dinode.blocks_eq] at nodup ⊢
  rw [← add_assoc, ← add_assoc] at nodup
  have nodup₂ := (Multiset.nodup_add.mp nodup).1
  have nodup₁ := (Multiset.nodup_add.mp nodup₂).1
  unfold fTrunc
  have frees : ∀ l, FreesTrees l dev := fun l => wp_freeblk hdev
  rw [wp_bind, wp_get, wp_bind, wp_get, own, wp_bind]
  refine wp_mono (wp_freeblk_next (frees 2) (.refl g h) nodup₁) ?_ fun e => ?_
  · rintro _ t₁ ⟨L₁, f₁, e₁⟩
    rw [← e₁] at nodup nodup₂
    rw [wp_bind, wp_get, f₁.iTab, wp_bind]
    refine wp_mono (wp_freeblk_next (frees 1) f₁ nodup₂) ?_ fun e => ?_
    · rintro _ t₂ ⟨L₂, f₂, e₂⟩
      rw [← e₂] at nodup
      rw [wp_bind]
      let read (t : Kernel) (j : Nat) : Word := (t.iTab ino).cNode.addr j
      have loop := @wp_freeblk_loop 0 dev 18 (s.iTab ino).cNode.addr read _ _ _ (frees 0) f₂ nodup
        fun t' L' f' _ j => by rw [← f'.iTab]
      refine wp_mono loop ?_ fun e => ?_
      · rintro _ t₃ ⟨L₃, f₃, e₃⟩
        refine ⟨t₃, L₃, f₃, ?_, ?_⟩
        · rw [e₃, e₂, e₁, add_assoc, add_assoc, add_assoc]
        · rw [Kernel.setInode, ← f₃.iTab]
          rfl
      · exact fun st => st.mono (Nat.zero_le 2) fun c hc => Multiset.mem_add.mpr (.inr hc)
    · exact fun st => st.mono (Nat.le_succ 1) fun c hc =>
        Multiset.mem_add.mpr (.inl (Multiset.mem_add.mpr (.inr hc)))
  · exact fun st => st.mono (Nat.le_refl 2) fun c hc =>
      Multiset.mem_add.mpr (.inl (Multiset.mem_add.mpr (.inl hc)))

/-! ## The block map -/

/-- The kernel with another `u_error`. -/
def Kernel.withError (s : Kernel) (e : Errno) : Kernel :=
  { s with udata := { s.udata with uError := e } }

namespace Kernel

variable {s : Kernel} {e e' : Errno}

/-- The last error. -/
@[simp] lemma withError_withError : (s.withError e).withError e' = s.withError e' := rfl

/-- The error is as before. -/
@[simp] lemma withError_self : s.withError s.udata.uError = s := rfl

/-- The error, and a block and a superblock. -/
lemma withFs_withError {b : Bufs} {dev : Nat} {fs : Filesys} :
    (s.withError e).withFs b dev fs = (s.withFs b dev fs).withError e := rfl

end Kernel

/-- `s'` is `s` after blocks have been taken from the free list of a device, which is `L` now. The contents
of the blocks in `T` may have changed, and `u_error` is set when there was no block left. -/
structure Grown (dev : Nat) (s s' : Kernel) (L : List Word) (T : Multiset Word) : Prop where
  eq : s' = (s.withFs s'.bufs dev (s'.fsTab dev)).withError s'.udata.uError
  good : s'.bufs.Good
  recounted : (s.fsTab dev).Recounted (s'.fsTab dev)
  held : s'.bufs.view.held = s.bufs.view.held
  list : FreeList (s'.fsTab dev) (s'.cell dev) L
  content : ∀ n, (n.1 = dev → n.2 ∉ T) → s'.bufs.view.content n = s.bufs.view.content n

namespace Grown

variable {dev : Nat} {s s' s'' : Kernel} {L L' : List Word} {T T' : Multiset Word}

/-- Nothing has been taken, and at most other buffers are in use. -/
lemma of_view {b : Bufs} (g : b.Good) (h : FreeList (s.fsTab dev) (s.cell dev) L)
    (v : b.view = s.bufs.view) : Grown dev s { s with bufs := b } L T where
  eq := by
    rw [Kernel.withFs, Function.update_eq_self]
    rfl
  good := g
  recounted := .refl
  held := congrArg View.held v
  list := by
    have cells : ({ s with bufs := b } : Kernel).cell dev = s.cell dev := by
      funext c
      rw [Kernel.cell, v]
      rfl
    rwa [cells]
  content _ _ := by rw [v]

/-- More and more blocks are taken. -/
lemma trans (h : Grown dev s s' L T) (h' : Grown dev s' s'' L' T') (sub : ∀ c ∈ T', c ∈ T) :
    Grown dev s s'' L' T where
  eq := by
    calc s'' = (s'.withFs s''.bufs dev (s''.fsTab dev)).withError s''.udata.uError := h'.eq
      _ = (((s.withFs s'.bufs dev (s'.fsTab dev)).withError s'.udata.uError).withFs s''.bufs dev
          (s''.fsTab dev)).withError s''.udata.uError := by rw [← h.eq]
      _ = _ := by rw [Kernel.withFs_withError, Kernel.withFs_withFs, Kernel.withError_withError]
  good := h'.good
  recounted := h.recounted.trans h'.recounted
  held := h'.held.trans h.held
  list := h'.list
  content n hn := (h'.content n fun e hm => hn e (sub _ hm)).trans (h.content n hn)

/-- More blocks may have been looked at. -/
lemma mono (h : Grown dev s s' L T) (sub : ∀ c ∈ T, c ∈ T') : Grown dev s s' L T' :=
  { h with content := fun n hn => h.content n fun e hm => hn e (sub _ hm) }

/-- Blocks are taken while one more buffer is held, and then that is released, its block being overwritten
perhaps. -/
lemma of_hold {b₁ b₂ : Bufs} {bp : Bufptr} {n : Nat × Word} {x : Block}
    (idle : s.bufs.view.held bp = none) (v₁ : b₁.view = s.bufs.view.hold bp n)
    (f : Grown dev { s with bufs := b₁ } s' L T) (g₂ : b₂.Good)
    (v₂ : b₂.view = (s'.bufs.view.release bp).put n x) (off : n.1 = dev → n.2 ∉ L)
    (own : x ≠ s'.bufs.view.content n → n.1 = dev ∧ n.2 ∈ T) :
    Grown dev s { s' with bufs := b₂ } L T where
  eq := congrArg (fun t : Kernel => { t with bufs := b₂ }) f.eq
  good := g₂
  recounted := f.recounted
  held := by
    have held₁ : s'.bufs.view.held = (s.bufs.view.hold bp n).held := f.held.trans (congrArg View.held v₁)
    rw [← View.release_hold idle (n := n)]
    simp only [v₂, View.held_put, View.release, held₁]
  list := by
    refine f.list.congr rfl rfl rfl rfl rfl rfl fun c hc => ?_
    simp only [Kernel.cell, v₂]
    exact View.content_put_of_ne fun e => off (by rw [← e]) (by rwa [← e])
  content m hm := by
    have c₁ := f.content m hm
    simp only [v₁, View.content_hold] at c₁
    rw [← c₁]
    show b₂.view.content m = _
    rw [v₂]
    by_cases e : m = n
    · subst e
      rw [View.content_put]
      by_contra ne
      exact hm (own ne).1 (own ne).2
    · rw [View.content_put_of_ne e, View.content_release]

end Grown

/-- `blk_alloc` takes the first block of the list and zeroes it, or gives 0 when the list is empty. -/
lemma wp_blkAlloc {dev : Nat} {L : List Word} {s : Kernel} (g : s.bufs.Good) (hdev : dev < NDEVS)
    (h : FreeList (s.fsTab dev) (s.cell dev) L) :
    wp (blkAlloc dev)
      (fun r s' => ∃ L', Grown dev s s' L' L ∧
        (r = 0 ∧ L' = L ∧ L = [] ∧ s'.bufs.view = s.bufs.view ∧ s'.udata.uError = .enospc ∨
          r ≠ 0 ∧ L = r :: L' ∧ s'.bufs.view = s.bufs.view.put (dev, r) Block.zero ∧
            s'.udata = s.udata))
      (s.bufs.view.Stops 0 (onDev dev L)) s := by
  cases L with
  | nil =>
    refine wp_mono (wp_blkAlloc_nil hdev h) ?_ fun _ => False.elim
    rintro _ _ ⟨rfl, rfl⟩
    refine ⟨[], ⟨?_, g, ?_, rfl, ?_, fun _ _ => rfl⟩, .inl ⟨rfl, rfl, rfl, rfl, rfl⟩⟩
    · show _ = (s.withFs s.bufs dev ((s.withFs s.bufs dev _).fsTab dev)).withError .enospc
      rw [Kernel.fsTab_withFs]
      rfl
    · show (s.fsTab dev).Recounted ((s.withFs s.bufs dev _).fsTab dev)
      rw [Kernel.fsTab_withFs]
      exact ⟨rfl, rfl, rfl, rfl, rfl, rfl, rfl, .inr rfl⟩
    · show FreeList ((s.withFs s.bufs dev _).fsTab dev) (s.cell dev) []
      rw [Kernel.fsTab_withFs]
      exact h.touch s.tod
  | cons b L =>
    refine wp_mono (wp_blkAlloc_cons g hdev h) ?_ fun e st => st.mono (Nat.le_refl 0) ?_
    · rintro r _ ⟨rfl, b', fs', rfl, g', rec, v, list⟩
      have own : (s.withFs b' dev fs').fsTab dev = fs' := Kernel.fsTab_withFs
      refine ⟨L, ⟨?_, g', ?_, ?_, ?_, fun n hn => ?_⟩, .inr ⟨h.top_cons.2, rfl, v, rfl⟩⟩
      · rw [own]
        rfl
      · rwa [own]
      · rw [Kernel.bufs_withFs, v, View.held_put]
      · rwa [own]
      · rw [Kernel.bufs_withFs, v]
        refine View.content_put_of_ne ?_
        rintro rfl
        exact hn rfl (List.mem_cons_self ..)
    · rintro _ rfl
      exact ⟨rfl, List.mem_cons_self ..⟩

/-- The indices of block `bn` in the indirect blocks that `bmap` goes through. -/
def mapPath (bn : Word) : (rounds sh : Nat) → List Nat
  | 0, _ => []
  | rounds + 1, sh => (bn >>> sh &&& 0xff).toNat :: mapPath bn rounds (sh - 8)

/-- The length of a path. -/
@[simp] lemma length_mapPath {bn : Word} {rounds sh : Nat} : (mapPath bn rounds sh).length = rounds := by
  induction rounds generalizing sh with
  | zero => rfl
  | succ r ih => exact congrArg Nat.succ ih

/-- An index is below 256. -/
lemma mapIndex_lt {bn : Word} {sh : Nat} : (bn >>> sh &&& 0xff).toNat < 256 := by
  rw [BitVec.toNat_and]
  exact Nat.lt_of_le_of_lt Nat.and_le_right (by decide)

/-- The indices of a path are below 256. -/
lemma mapPath_lt {bn : Word} {rounds sh : Nat} : ∀ j ∈ mapPath bn rounds sh, j < 256 := by
  induction rounds generalizing sh with
  | zero => exact nofun
  | succ r ih =>
    intro j hj
    cases List.mem_cons.mp hj with
    | inl e => exact e ▸ mapIndex_lt
    | inr hj => exact ih j hj

/-- The number that the indices `is` lead to from `b`, or 0. -/
def pathTo (cell : Word → Block) (is : List Nat) (b : Word) : Word :=
  BlockTree.walk 0 (fun c j => (cell c).word j) is b

/-- A block that names no block ends every path. -/
lemma mem_of_pathTo_fresh {cell : Word → Block} {bn c x : Word} {rounds sh : Nat} {L : List Word} (ne : c ≠ 0)
    (fresh : ∀ j < 256, (cell c).word j = 0) (e : x = pathTo cell (mapPath bn rounds sh) c) (x_ne : x ≠ 0) :
    x ∈ c :: L := by
  cases rounds with
  | zero => exact e ▸ List.mem_cons_self ..
  | succ r =>
    rw [mapPath, pathTo, walk_cons ne, fresh _ mapIndex_lt, walk_nil] at e
    exact absurd e x_ne

/-- The kernel shows what it showed, in other buffers perhaps. -/
def Kernel.Shown (s s' : Kernel) : Prop := ∃ b, s' = { s with bufs := b } ∧ b.Good ∧ b.view = s.bufs.view

/-- What has become of the path `is` from `b`, where `b'` is now: it has been read, or filled with blocks of
the free list `L`, which is `L'` now. -/
structure Kernel.Resolved (s s' : Kernel) (dev : Nat) (rwflg : Bool) (L L' : List Word) (is : List Nat)
    (b b' res : Word) : Prop where
  same : pathTo (s.cell dev) is b ≠ 0 ∨ rwflg = true → b' = b ∧ s.Shown s'
  read : rwflg = true → res = if pathTo (s.cell dev) is b = 0 then NULLBLK else pathTo (s.cell dev) is b
  fill : rwflg = false → ∃ r : Option Word, res = r.getD NULLBLK ∧
    (∀ x, r = some x → x ≠ 0 ∧ (x = pathTo (s.cell dev) is b ∨ x ∈ L)) ∧
    Fill 0 256 (fun c j => (s.cell dev c).word j) (fun c j => (s'.cell dev c).word j) L.length L'.length is b b' r
  error : rwflg = false →
    s'.udata.uError = if pathTo (s'.cell dev) is b' = 0 then .enospc else s.udata.uError

/-- What `bmap` does at level `rounds`: it goes through the tree below `nb`, which may get blocks from the
free list. -/
def MapsTrees (rounds sh dev : Nat) (rwflg : Bool) (bn : Word) : Prop :=
  ∀ {nb : Word} {L : List Word} {s : Kernel}, s.bufs.Good → FreeList (s.fsTab dev) (s.cell dev) L → nb ≠ 0 →
    (↑L + blockTree (s.cell dev) rounds nb).Nodup →
    wp (bmapRounds dev rwflg bn rounds sh nb)
      (fun res s' => ∃ L' : List Word, Grown dev s s' L' (↑L + blockTree (s.cell dev) rounds nb) ∧
        ↑L' + blockTree (s'.cell dev) rounds nb = ↑L + blockTree (s.cell dev) rounds nb ∧
        s.Resolved s' dev rwflg L L' (mapPath bn rounds sh) nb nb res)
      (s.bufs.view.Stops 1 (onDev dev (↑L + blockTree (s.cell dev) rounds nb))) s

/-- The trees of a block at other indices than `i` have no block in common with the tree there and `L`. -/
lemma notMem_of_ne {cell : Word → Block} {L : List Word} {nb c : Word} {r i j : Nat} (ne : nb ≠ 0)
    (nodup : (↑L + blockTree cell (r + 1) nb).Nodup) (hi : i < 256) (hj : j < 256) (ji : j ≠ i)
    (hc : c ∈ blockTree cell r ((cell nb).word j)) :
    c ≠ nb ∧ c ∉ ↑L + blockTree cell r ((cell nb).word i) := by
  have node : blockTree cell (r + 1) nb = {nb} + ∑ j ∈ Finset.range 256, blockTree cell r ((cell nb).word j) :=
    sub_succ ne
  have split := Finset.add_sum_erase _ (fun j => blockTree cell r ((cell nb).word j)) (Finset.mem_range.mpr hi)
  rw [node, ← split] at nodup
  have rest : c ∈ ∑ k ∈ (Finset.range 256).erase i, blockTree cell r ((cell nb).word k) :=
    Multiset.mem_sum.mpr ⟨j, Finset.mem_erase.mpr ⟨ji, Finset.mem_range.mpr hj⟩, hc⟩
  constructor
  · rintro rfl
    exact notMem_of_nodup (Multiset.nodup_add.mp nodup).2.1 (Multiset.mem_singleton_self c)
      (Multiset.mem_add.mpr (.inr rest))
  · intro hm
    cases Multiset.mem_add.mp hm with
    | inl hL => exact notMem_of_nodup nodup hL (Multiset.mem_add.mpr (.inr (Multiset.mem_add.mpr (.inr rest))))
    | inr hT =>
      have part := (Multiset.nodup_add.mp (Multiset.nodup_add.mp nodup).2.1).2.1
      exact notMem_of_nodup part hT rest

section Rounds

variable {r sh dev i : Nat} {rwflg : Bool} {bn nb : Word} {L : List Word} {s : Kernel}

/-- The next number on the path is there. -/
lemma wp_bmapRounds_below (ih : MapsTrees r (sh - 8) dev rwflg bn) (h : FreeList (s.fsTab dev) (s.cell dev) L)
    (ne : nb ≠ 0) (nodup : (↑L + blockTree (s.cell dev) (r + 1) nb).Nodup) {b₂ : Bufs} (g₂ : b₂.Good)
    (v : b₂.view = s.bufs.view) (index : i < 256) (hi : (bn >>> sh &&& 0xff).toNat = i)
    (below : (s.cell dev nb).word i ≠ 0) :
    wp (bmapRounds dev rwflg bn r (sh - 8) ((s.cell dev nb).word i))
      (fun res s' => ∃ L' : List Word, Grown dev s s' L' (↑L + blockTree (s.cell dev) (r + 1) nb) ∧
        ↑L' + blockTree (s'.cell dev) (r + 1) nb = ↑L + blockTree (s.cell dev) (r + 1) nb ∧
        s.Resolved s' dev rwflg L L' (mapPath bn (r + 1) sh) nb nb res)
      (s.bufs.view.Stops 1 (onDev dev (↑L + blockTree (s.cell dev) (r + 1) nb))) { s with bufs := b₂ } := by
  have child : {nb} + blockTree (s.cell dev) r ((s.cell dev nb).word i) ≤
      blockTree (s.cell dev) (r + 1) nb := BlockTree.child_le ne index
  have cells : ({ s with bufs := b₂ } : Kernel).cell dev = s.cell dev := Kernel.cell_of_view v
  have nodup₂ := Multiset.nodup_of_le (add_le_add_right child (↑L : Multiset Word)) nodup
  rw [add_left_comm] at nodup₂
  have list₂ : FreeList (s.fsTab dev) (({ s with bufs := b₂ } : Kernel).cell dev) L := by rwa [cells]
  have rest := ih (s := { s with bufs := b₂ }) g₂ list₂ below
    (by rw [cells]; exact (Multiset.nodup_add.mp nodup₂).2.1)
  have off : ∀ c ∈ ↑L + blockTree (s.cell dev) r ((s.cell dev nb).word i), c ≠ nb := by
    rintro c hc rfl
    exact notMem_of_nodup nodup₂ (Multiset.mem_singleton_self c) hc
  have inside : ∀ c ∈ ↑L + blockTree (s.cell dev) r ((s.cell dev nb).word i),
      c ∈ ↑L + blockTree (s.cell dev) (r + 1) nb := fun c hc =>
    Multiset.mem_of_le (add_le_add_right child (↑L : Multiset Word))
      (add_left_comm (↑L : Multiset Word) {nb} _ ▸ Multiset.mem_add.mpr (.inr hc))
  rw [cells, v] at rest
  refine wp_mono rest ?_ fun e st => st.mono (Nat.le_refl 1) fun n hn => ⟨hn.1, inside _ hn.2⟩
  rintro res t ⟨L', f, sum, resolved⟩
  have same : ∀ c, c ∉ ↑L + blockTree (s.cell dev) r ((s.cell dev nb).word i) →
      t.cell dev c = s.cell dev c := fun c hc => by
    rw [← cells]
    exact f.content (dev, c) fun _ => hc
  have root : t.cell dev nb = s.cell dev nb := same nb fun hm => off nb hm rfl
  refine ⟨L', (Grown.of_view g₂ h v).trans f inside, ?_, ?_⟩
  · refine sub_set ne index nodup (fun j _ _ => by rw [root])
      (fun c _ hc k _ => congrArg (Block.word · k) (same c hc)) ?_
    rwa [root]
  · have path : ∀ cell : Word → Block, pathTo cell (mapPath bn (r + 1) sh) nb =
        pathTo cell (mapPath bn r (sh - 8)) ((cell nb).word i) := by
      intro cell
      rw [mapPath, hi]
      exact walk_cons ne
    have same' := resolved.same
    have read' := resolved.read
    have fill' := resolved.fill
    rw [cells] at same' read' fill'
    refine ⟨fun found => ?_, fun mode => ?_, fun mode => ?_, fun mode => ?_⟩
    · rw [path] at found
      obtain ⟨b, e, g, v'⟩ := (same' found).2
      exact ⟨rfl, b, e, g, v'.trans v⟩
    · rw [path]
      exact read' mode
    · obtain ⟨x, e, from', fill⟩ := fill' mode
      refine ⟨x, e, fun y hy => ?_, ?_⟩
      · rw [path]
        exact from' y hy
      · rw [mapPath, hi]
        refine .down ne ?_ (fun j _ _ => by rw [root]) fun j hj ji c hc k _ => ?_
        · rw [root]
          exact fill
        · rw [length_mapPath] at hc
          rw [same c (notMem_of_ne ne nodup index hj ji hc).2]
    · rw [path, root]
      exact resolved.error mode

/-- The next number on the path is missing, and a new block has been entered there. -/
lemma wp_bmapRounds_new {c : Word} {s₃ : Kernel} (ih : MapsTrees r (sh - 8) dev false bn)
    (h : (c :: L).Nodup) (ne : nb ≠ 0) (c_ne : c ≠ 0)
    (nodup : (↑(c :: L) + blockTree (s.cell dev) (r + 1) nb).Nodup) (index : i < 256)
    (hi : (bn >>> sh &&& 0xff).toNat = i) (hole : (s.cell dev nb).word i = 0)
    (f : Grown dev s s₃ L (↑(c :: L) + blockTree (s.cell dev) (r + 1) nb)) (error₃ : s₃.udata = s.udata)
    (cell₃ : ∀ d, s₃.cell dev d = if d = nb then (s.cell dev nb).setWord i c else
      if d = c then Block.zero else s.cell dev d) :
    wp (bmapRounds dev false bn r (sh - 8) c)
      (fun res s' => ∃ L' : List Word, Grown dev s s' L' (↑(c :: L) + blockTree (s.cell dev) (r + 1) nb) ∧
        ↑L' + blockTree (s'.cell dev) (r + 1) nb = ↑(c :: L) + blockTree (s.cell dev) (r + 1) nb ∧
        s.Resolved s' dev false (c :: L) L' (mapPath bn (r + 1) sh) nb nb res)
      (s.bufs.view.Stops 1 (onDev dev (↑(c :: L) + blockTree (s.cell dev) (r + 1) nb))) s₃ := by
  have nb_off : nb ∉ (↑(c :: L) : Multiset Word) := fun hm => notMem_of_nodup nodup hm (BlockTree.self_mem ne)
  have c_nb : nb ≠ c := fun e => nb_off (e ▸ Multiset.mem_coe.mpr (List.mem_cons_self ..))
  have zero : s₃.cell dev c = Block.zero := by rw [cell₃, if_neg c_nb.symm, if_pos rfl]
  have leaf : blockTree (s₃.cell dev) r c = {c} := by
    refine BlockTree.sub_leaf c_ne fun j _ => ?_
    rw [zero, Block.word_zero]
  have total : ↑L + blockTree (s₃.cell dev) r c = ↑(c :: L) := by
    rw [leaf, add_comm, Multiset.singleton_add, Multiset.cons_coe]
  have rest := ih f.good f.list c_ne (total ▸ Multiset.coe_nodup.mpr h)
  rw [total] at rest
  refine wp_mono rest ?_ fun e st => (st.of_held f.held).mono (Nat.le_refl 1)
    fun n hn => ⟨hn.1, Multiset.mem_add.mpr (.inl hn.2)⟩
  rintro res t ⟨L', f', sum, resolved⟩
  refine ⟨L', f.trans f' fun d hd => Multiset.mem_add.mpr (.inl hd), ?_, ?_⟩
  all_goals
    have off : ∀ d, d ∉ (↑(c :: L) : Multiset Word) → t.cell dev d = s₃.cell dev d :=
      fun d hd => f'.content (dev, d) fun _ => hd
    have root : t.cell dev nb = (s.cell dev nb).setWord i c := by
      rw [off nb nb_off, cell₃, if_pos rfl]
    have others : ∀ d, d ≠ nb → d ∉ (↑(c :: L) : Multiset Word) → t.cell dev d = s.cell dev d := by
      intro d hd hd'
      rw [off d hd', cell₃, if_neg hd, if_neg]
      rintro rfl
      exact hd' (List.mem_cons_self ..)
  · refine sub_set ne index nodup (fun j hj hji => ?_)
      (fun d hd hL k _ => congrArg (Block.word · k) ?_) ?_
    · rw [root, Block.word_setWord hj, if_neg hji]
    · exact others d hd fun hm => hL (Multiset.mem_add.mpr (.inl hm))
    · rw [root, Block.word_setWord index, if_pos rfl, hole, sub_nil, add_zero]
      exact sum
  · have path : pathTo (s.cell dev) (mapPath bn (r + 1) sh) nb = 0 := by
      rw [mapPath, hi, pathTo, walk_cons ne, hole, walk_nil]
    refine ⟨fun found => ?_, nofun, fun mode => ?_, fun mode => ?_⟩
    · cases found with
      | inl found => exact absurd path found
      | inr mode => cases mode
    · obtain ⟨x, e, from', fill⟩ := resolved.fill rfl
      have new : ∀ j < 256, (s₃.cell dev c).word j = 0 := fun j _ => by rw [zero, Block.word_zero]
      refine ⟨x, e, fun y hy => ?_, ?_⟩
      · obtain ⟨y_ne, y_from⟩ := from' y hy
        refine ⟨y_ne, .inr ?_⟩
        cases y_from with
        | inr mem => exact List.mem_cons_of_mem c mem
        | inl e => exact mem_of_pathTo_fresh c_ne new e y_ne
      · rw [mapPath, hi]
        refine .down ne ?_ (fun j hj ji => ?_) fun j hj ji d hd k _ => ?_
        · rw [root, Block.word_setWord index, if_pos rfl, hole]
          exact .new c_ne new mapPath_lt fill
        · rw [root, Block.word_setWord hj, if_neg ji]
        · rw [length_mapPath] at hd
          have out := notMem_of_ne ne nodup index hj ji hd
          rw [others d out.1 fun hm => out.2 (Multiset.mem_add.mpr (.inl hm))]
    · rw [mapPath, hi, pathTo, walk_cons ne, root, Block.word_setWord index, if_pos rfl, ← error₃]
      exact resolved.error rfl

end Rounds

/-- `bmap` goes through the tree of level `rounds` below `nb`. -/
lemma wp_bmapRounds {rounds sh dev : Nat} {rwflg : Bool} {bn : Word} (hdev : dev < NDEVS) :
    MapsTrees rounds sh dev rwflg bn := by
  induction rounds generalizing sh with
  | zero =>
    intro nb L s g h ne nodup
    refine ⟨L, .of_view g h rfl, rfl, fun _ => ⟨rfl, s.bufs, rfl, g, rfl⟩, fun _ => (if_neg ne).symm, fun _ => ?_,
      fun _ => (if_neg ne).symm⟩
    refine ⟨some nb, rfl, fun x hx => ?_, ?_⟩
    · cases hx
      exact ⟨ne, .inl rfl⟩
    · exact .leaf ne
  | succ r ih =>
    intro nb L s g h ne nodup
    have nb_in : nb ∈ blockTree (s.cell dev) (r + 1) nb := BlockTree.self_mem ne
    have nb_off : nb ∉ (L : Multiset Word) := fun hm => notMem_of_nodup nodup hm nb_in
    have index : (bn >>> sh &&& 0xff).toNat < 256 := mapIndex_lt
    generalize bi : (bn >>> sh &&& 0xff).toNat = i at index
    unfold bmapRounds
    rw [wp_bind]
    refine wp_mono (wp_breadPtr g hdev) ?_ fun e => ?_
    · rintro bp _ ⟨b₁, rfl, g₁, idle, v₁⟩
      have data : (b₁.bufpool bp).bfData = s.cell dev nb := by
        rw [g₁.data (n := (dev, nb)) (by rw [v₁, View.held_hold]), v₁]
        rfl
      simp only [bi, wp_bind, wp_get, Kernel.buf, data, wp_ite]
      split
      · next below =>
        refine wp_mono (wp_brelse_hold g₁ idle v₁) ?_ fun _ => False.elim
        rintro _ _ ⟨b₂, rfl, g₂, v⟩
        exact wp_bmapRounds_below ih h ne nodup g₂ v index bi below
      · next hole =>
        rw [not_not] at hole
        have path : pathTo (s.cell dev) (mapPath bn (r + 1) sh) nb = 0 := by
          rw [mapPath, bi, pathTo, walk_cons ne, hole, walk_nil]
        cases rwflg with
        | true =>
          rw [if_pos rfl]
          refine wp_mono (wp_brelse_hold g₁ idle v₁) ?_ fun _ => False.elim
          rintro _ _ ⟨b₂, rfl, g₂, v⟩
          refine ⟨L, .of_view g₂ h v, by rw [Kernel.cell_of_view v], ?_, fun _ => ?_, Bool.noConfusion,
            Bool.noConfusion⟩
          · exact fun _ => ⟨rfl, b₂, rfl, g₂, v⟩
          · rw [path, if_pos rfl]
        | false =>
          have list₁ : FreeList (s.fsTab dev) (({ s with bufs := b₁ } : Kernel).cell dev) L :=
            h.congr rfl rfl rfl rfl rfl rfl fun c _ => by simp only [Kernel.cell, v₁, View.content_hold]
          rw [if_neg Bool.false_ne_true]
          refine wp_mono (wp_blkAlloc (s := { s with bufs := b₁ }) g₁ hdev list₁) ?_ fun e => ?_
          · rintro c t ⟨L', f, (⟨rfl, rfl, L_nil, v, full⟩ | ⟨c_ne, rfl, v, same⟩)⟩
            · rw [if_pos rfl]
              refine wp_mono (wp_brelse_hold f.good idle (v.trans v₁)) ?_ fun _ => False.elim
              rintro _ _ ⟨b₂, rfl, g₂, v₂⟩
              have back : b₂.view =
                  (t.bufs.view.release bp).put (dev, nb) (t.bufs.view.content (dev, nb)) := by
                have same : t.bufs.view.content = (t.bufs.view.release bp).content := rfl
                rw [same, View.put_content, v, v₂]
                show _ = b₁.view.release bp
                rw [v₁, View.release_hold idle]
              have cells : ({ t with bufs := b₂ } : Kernel).cell dev = s.cell dev :=
                Kernel.cell_of_view v₂
              refine ⟨L', (f.of_hold idle v₁ g₂ back (fun _ => nb_off) (absurd rfl)).mono fun c hc =>
                Multiset.mem_add.mpr (.inl hc), by rw [cells], ?_, Bool.noConfusion, fun _ => ?_, fun _ => ?_⟩
              · intro found
                cases found with
                | inl found => exact absurd path found
                | inr mode => cases mode
              · refine ⟨none, rfl, fun _ hx => absurd hx (Option.some_ne_none _).symm, ?_⟩
                rw [cells, L_nil, mapPath, bi]
                refine .down ne ?_ (fun _ _ _ => rfl) fun _ _ _ _ _ _ _ => rfl
                rw [hole]
                exact .none
              · rw [cells, path, if_pos rfl]
                exact full
            · rw [if_neg c_ne, wp_fill]
              have nb_off' : nb ∉ L' := fun hm => nb_off (List.mem_cons_of_mem c hm)
              have c_nb : nb ≠ c := fun e => nb_off (e ▸ Multiset.mem_coe.mpr (List.mem_cons_self ..))
              have v' : t.bufs.view = (s.bufs.view.put (dev, c) Block.zero).hold bp (dev, nb) := by
                rw [v, v₁, View.put_hold]
              have nb_ne : ((dev, nb) : Nat × Word) ≠ (dev, c) := fun e => c_nb (Prod.ext_iff.mp e).2
              have data' : (t.bufs.bufpool bp).bfData = s.cell dev nb := by
                rw [f.good.data (n := (dev, nb)) (by rw [v', View.held_hold]), v', View.content_hold,
                  View.content_put_of_ne nb_ne]
                rfl
              have held' : t.bufs.view.held bp = some (dev, nb) := by rw [v', View.held_hold]
              refine wp_mono (wp_bawrite_fill (f.good.pending held' hdev)) ?_ fun _ => False.elim
              rintro _ _ ⟨b₂, rfl, g₂, v₂⟩
              rw [data'] at v₂
              have inside : ∀ d ∈ (↑(c :: L') : Multiset Word),
                  d ∈ ↑(c :: L') + blockTree (s.cell dev) (r + 1) nb := fun d hd =>
                Multiset.mem_add.mpr (.inl hd)
              have f₂ := (f.mono inside).of_hold idle v₁ g₂ v₂ (fun _ => nb_off')
                fun _ => ⟨rfl, Multiset.mem_add.mpr (.inr nb_in)⟩
              refine wp_bmapRounds_new ih h.nodup ne c_ne nodup index bi hole f₂ same fun d => ?_
              rw [Kernel.cell]
              simp only [v₂, v', View.put, View.release, View.hold, Function.update_apply,
                Prod.mk.injEq, true_and]
              rfl
          · intro st
            rw [show (Kernel.bufs { s with bufs := b₁ }).view = b₁.view from rfl, v₁] at st
            refine (st.of_hold idle fun hn => nb_off hn.2).mono (Nat.le_refl 1) fun n hn => ?_
            exact ⟨hn.1, Multiset.mem_add.mpr (.inl hn.2)⟩
    · refine fun st => st.mono (Nat.zero_le 1) ?_
      rintro _ rfl
      exact ⟨rfl, Multiset.mem_add.mpr (.inr nb_in)⟩

/-- The trees of an inode change at one slot, and the tree there takes blocks from a list. -/
lemma Dinode.blocks_set {cell cell' : Word → Block} {d d' : Dinode} {i : Nat} {L L' : Multiset Word}
    (hi : i < 20) (nodup : (L + d.blocks cell).Nodup) (slots : ∀ j < 20, j ≠ i → d'.addr j = d.addr j)
    (same : ∀ c, c ∉ L + blockTree cell (addrLevel i) (d.addr i) → cell' c = cell c)
    (grown : L' + blockTree cell' (addrLevel i) (d'.addr i) =
      L + blockTree cell (addrLevel i) (d.addr i)) :
    L' + d'.blocks cell' = L + d.blocks cell :=
  sum_sub_set hi nodup slots (fun c _ hc _ _ => congrArg (Block.word · _) (same c hc)) grown

/-- What `bmap` does to an in-core inode. -/
structure Cinode.Mapped (c c' : Cinode) : Prop where
  eq : c' = { c with cNode := { c.cNode with iAddr := c'.cNode.iAddr }, cDirty := c'.cDirty }
  dirty : c' = c ∨ c'.cDirty = true

/-- The same map. -/
lemma Cinode.Mapped.refl {c : Cinode} : c.Mapped c := ⟨rfl, .inl rfl⟩

/-- Nothing happens to the in-core inodes. -/
lemma Grown.iTab {dev : Nat} {s s' : Kernel} {L : List Word} {T : Multiset Word}
    (f : Grown dev s s' L T) : s'.iTab = s.iTab := by
  rw [f.eq]
  rfl

/-- The in-core inodes do not matter to the blocks. -/
lemma Grown.setInode {dev : Nat} {s s' : Kernel} {L : List Word} {T : Multiset Word}
    (f : Grown dev s s' L T) (ino : Inoptr) (c : Cinode) :
    Grown dev (s.setInode ino c) (s'.setInode ino c) L T where
  eq := by
    rw [Kernel.setInode, f.iTab]
    exact congrArg (fun t : Kernel => { t with iTab := Function.update s.iTab ino c }) f.eq
  good := f.good
  recounted := f.recounted
  held := f.held
  list := f.list
  content := f.content

/-- The address that has been set. -/
@[simp] lemma Dinode.addr_setAddr {d : Dinode} {i j : Nat} {b : Word} (hj : j < 20) :
    (d.setAddr i b).addr j = if j = i then b else d.addr j := by
  simp only [addr, setAddr, hj, dite_true]

/-- The tree at a slot of the inode is among its blocks. -/
lemma blockTree_le_blocks {cell : Word → Block} {d : Dinode} {j : Nat} (hj : j < 20) :
    blockTree cell (addrLevel j) (d.addr j) ≤ d.blocks cell :=
  Finset.single_le_sum (f := fun j => blockTree cell (addrLevel j) (d.addr j))
    (fun _ _ => Multiset.zero_le _) (Finset.mem_range.mpr hj)

/-- `bmap` has gone along the path `is` from the address at `slot`: the inode is `c` now, and blocks of the free
list may be in its tree. -/
def Kernel.Mapping (s : Kernel) (ip : Inoptr) (dev : Nat) (rwflg : Bool) (L : List Word) (slot : Nat)
    (is : List Nat) (res : Word) (s' : Kernel) : Prop :=
  ∃ t c L', Grown dev s t L' (↑L + blockTree (s.cell dev) (addrLevel slot) ((s.iTab ip).cNode.addr slot)) ∧
    s' = t.setInode ip c ∧ (s.iTab ip).Mapped c ∧
    ↑L' + c.cNode.blocks (t.cell dev) = ↑L + (s.iTab ip).cNode.blocks (s.cell dev) ∧
    (∀ j < 20, j ≠ slot → c.cNode.addr j = (s.iTab ip).cNode.addr j) ∧
    s.Resolved s' dev rwflg L L' is ((s.iTab ip).cNode.addr slot) (c.cNode.addr slot) res

/-- `bmap` goes through the tree at one slot of the inode. -/
lemma wp_bmapAddr {ip : Inoptr} {slot sh dev : Nat} {rwflg : Bool} {bn : Word} {L : List Word}
    {s : Kernel} (g : s.bufs.Good) (hdev : dev < NDEVS) (own : (s.iTab ip).cDev = dev)
    (h : FreeList (s.fsTab dev) (s.cell dev) L) (hslot : slot < 20)
    (nodup : (↑L + (s.iTab ip).cNode.blocks (s.cell dev)).Nodup) :
    wp (bmapAddr ip slot rwflg (bmapRounds dev rwflg bn (addrLevel slot) sh))
      (s.Mapping ip dev rwflg L slot (mapPath bn (addrLevel slot) sh))
      (s.bufs.view.Stops 1 (onDev dev (↑L + (s.iTab ip).cNode.blocks (s.cell dev)))) s := by
  have part := add_le_add_right (@blockTree_le_blocks (s.cell dev) (s.iTab ip).cNode slot hslot) (↑L : Multiset Word)
  have stops : ∀ {e k N}, k ≤ 1 → (∀ c ∈ N, c ∈ ↑L + (s.iTab ip).cNode.blocks (s.cell dev)) →
      s.bufs.view.Stops k (onDev dev N) e →
      s.bufs.view.Stops 1 (onDev dev (↑L + (s.iTab ip).cNode.blocks (s.cell dev))) e :=
    fun hk hN st => st.mono hk fun n hn => ⟨hn.1, hN _ hn.2⟩
  unfold bmapAddr
  rw [wp_bind, wp_get, wp_ite]
  split
  · next ne =>
    refine wp_mono (wp_bmapRounds hdev g h ne (Multiset.nodup_of_le part nodup)) ?_ fun e =>
      stops (Nat.le_refl 1) fun c hc => Multiset.mem_of_le part hc
    rintro res t ⟨L', f, sum, resolved⟩
    have back : t.setInode ip (s.iTab ip) = t := by rw [← f.iTab, Kernel.setInode_self]
    refine ⟨t, s.iTab ip, L', f, back.symm, .refl, ?_, fun _ _ _ => rfl, resolved⟩
    exact Dinode.blocks_set hslot nodup (fun _ _ _ => rfl) (fun c hc => f.content (dev, c) fun _ => hc) sum
  · next nil =>
    rw [not_not] at nil
    have path : pathTo (s.cell dev) (mapPath bn (addrLevel slot) sh) ((s.iTab ip).cNode.addr slot) = 0 := by
      rw [nil, pathTo, walk_nil]
    cases rwflg with
    | true =>
      rw [if_pos rfl]
      refine ⟨s, s.iTab ip, L, .of_view g h rfl, Kernel.setInode_self.symm, .refl, rfl, fun _ _ _ => rfl,
        fun _ => ⟨rfl, s.bufs, rfl, g, rfl⟩, fun _ => ?_, nofun, nofun⟩
      rw [path, if_pos rfl]
    | false =>
      rw [if_neg nofun, own, wp_bind]
      have unread : pathTo (s.cell dev) (mapPath bn (addrLevel slot) sh) ((s.iTab ip).cNode.addr slot) ≠ 0 ∨
          false = true → False := by
        intro found
        cases found with
        | inl found => exact found path
        | inr mode => cases mode
      refine wp_mono (wp_blkAlloc g hdev h) ?_ fun e =>
        stops (Nat.zero_le 1) fun c hc => Multiset.mem_add.mpr (.inl hc)
      rintro b t ⟨L', f, (⟨rfl, rfl, L_nil, v, full⟩ | ⟨ne, rfl, v, same⟩)⟩
      · rw [if_pos rfl, wp_pure]
        have cells : t.cell dev = s.cell dev := Kernel.cell_of_view v
        have back : t.setInode ip (s.iTab ip) = t := by rw [← f.iTab, Kernel.setInode_self]
        refine ⟨t, s.iTab ip, L', f.mono fun c hc => Multiset.mem_add.mpr (.inl hc), back.symm, .refl,
          by rw [cells], fun _ _ _ => rfl, fun found => (unread found).elim, nofun, fun _ => ?_, fun _ => ?_⟩
        · refine ⟨none, rfl, nofun, ?_⟩
          rw [cells, L_nil, nil]
          exact .none
        · rw [cells, path, if_pos rfl]
          exact full
      · rw [if_neg ne, wp_bind, wp_modifyInode, f.iTab]
        set c : Cinode := { s.iTab ip with
          cNode := (s.iTab ip).cNode.setAddr slot b, cDirty := true } with hc
        have mapped : (s.iTab ip).Mapped c := ⟨rfl, .inr rfl⟩
        have slots : ∀ j < 20, j ≠ slot → c.cNode.addr j = (s.iTab ip).cNode.addr j :=
          fun j hj hji => by rw [hc, Dinode.addr_setAddr hj, if_neg hji]
        have slot_eq : c.cNode.addr slot = b := by rw [hc, Dinode.addr_setAddr hslot, if_pos rfl]
        have cells : ∀ d, t.cell dev d = if d = b then Block.zero else s.cell dev d := by
          intro d
          simp only [Kernel.cell, v, View.put, Function.update_apply, Prod.mk.injEq, true_and]
        have fresh : ∀ j < 256, (t.cell dev b).word j = 0 := fun j _ => by
          rw [cells, if_pos rfl, Block.word_zero]
        have leaf : blockTree (t.cell dev) (addrLevel slot) b = {b} := BlockTree.sub_leaf ne fresh
        have total : ↑L' + blockTree (t.cell dev) (addrLevel slot) b = ↑(b :: L') := by
          rw [leaf, add_comm, Multiset.singleton_add, Multiset.cons_coe]
        have rest := @wp_bmapRounds (addrLevel slot) sh dev false bn hdev _ _ (t.setInode ip c) f.good
          f.list ne (total ▸ Multiset.coe_nodup.mpr h.nodup)
        have inside : ∀ d ∈ (↑(b :: L') : Multiset Word), d ∈ ↑(b :: L') +
            blockTree (s.cell dev) (addrLevel slot) ((s.iTab ip).cNode.addr slot) :=
          fun d hd => Multiset.mem_add.mpr (.inl hd)
        rw [show (t.setInode ip c).cell dev = t.cell dev from rfl, total] at rest
        refine wp_mono rest ?_ fun e st => stops (Nat.le_refl 1) (fun d hd => Multiset.mem_of_le part (inside d hd))
          (st.of_held f.held)
        rintro res t' ⟨L'', f', sum, resolved⟩
        have f₀ := f'.setInode ip (s.iTab ip)
        rw [Kernel.setInode_setInode, ← f.iTab, Kernel.setInode_self] at f₀
        refine ⟨_, c, L'', (f.mono inside).trans f₀ inside, ?_, mapped, ?_, slots,
          fun found => (unread found).elim, nofun, fun _ => ?_, fun _ => ?_⟩
        · rw [Kernel.setInode_setInode, ← @Kernel.setInode_self t' ip, f'.iTab]
          simp only [Kernel.setInode, Function.update_idem, Function.update_self]
        · refine Dinode.blocks_set hslot nodup slots (fun d hd => ?_) ?_
          · have off : d ∉ (↑(b :: L') : Multiset Word) := fun hm => hd (Multiset.mem_add.mpr (.inl hm))
            refine (f'.content (dev, d) fun _ => off).trans ((cells d).trans (if_neg ?_))
            rintro rfl
            exact off (List.mem_cons_self ..)
          · rw [slot_eq, nil, blockTree_zero, add_zero]
            exact sum
        · obtain ⟨x, e, from', fill⟩ := resolved.fill rfl
          refine ⟨x, e, fun y hy => ?_, ?_⟩
          · obtain ⟨y_ne, y_from⟩ := from' y hy
            refine ⟨y_ne, .inr ?_⟩
            cases y_from with
            | inr mem => exact List.mem_cons_of_mem b mem
            | inl e => exact mem_of_pathTo_fresh ne fresh e y_ne
          · rw [nil, slot_eq]
            exact .new ne fresh mapPath_lt fill
        · rw [slot_eq, ← same]
          exact resolved.error rfl

/-- The slot of the inode at which `bmap` starts. -/
def mapSlot (bn : Word) : Nat := if bn.toNat < 18 then bn.toNat else if bn.toNat < 274 then 18 else 19

/-- The slot of a logical block. -/
lemma mapSlot_lt {bn : Word} : mapSlot bn < 20 := by
  rw [mapSlot]
  split
  · next direct => exact Nat.lt_trans direct (by decide)
  · split <;> decide

/-- The indices at which it goes on. -/
def mapIndices (bn : Word) : List Nat :=
  if bn.toNat < 18 then []
  else if bn.toNat < 274 then [bn.toNat - 18]
  else [(bn.toNat - 274) / 256, (bn.toNat - 274) % 256]

/-- The low byte of a word. -/
lemma toNat_and_ff {x : Word} : (x &&& 0xff).toNat = x.toNat % 256 := by
  rw [BitVec.toNat_and]
  exact Nat.and_two_pow_sub_one_eq_mod _ 8

/-- The upper byte of a small word. -/
lemma and_ff00_eq_zero {x : Word} : x &&& 0xff00 = 0 ↔ x.toNat < 256 := by
  constructor
  · intro h
    have low : x = x &&& 0xff := by
      calc x = x &&& 0xffff := (BitVec.and_allOnes (x := x)).symm
        _ = x &&& (0xff ||| 0xff00) := by rw [show (0xff ||| 0xff00 : Word) = 0xffff by decide]
        _ = x &&& 0xff ||| x &&& 0xff00 := BitVec.and_or_distrib_left
        _ = x &&& 0xff := by rw [h]; exact BitVec.or_zero
    rw [low, toNat_and_ff]
    exact Nat.mod_lt _ (by decide)
  · intro h
    have low : x &&& 0xff = x := BitVec.eq_of_toNat_eq (by rw [toNat_and_ff, Nat.mod_eq_of_lt h])
    rw [← low, BitVec.and_assoc, show (0xff &&& 0xff00 : Word) = 0 by decide]
    exact BitVec.and_zero

/-- A direct block has no path. -/
lemma mapPath_direct {bn : Word} (h : bn.toNat < 18) : mapPath bn (addrLevel bn.toNat) 0 = [] := by
  rw [addrLevel, Nat.sub_eq_zero_of_le (Nat.le_of_lt_succ h)]
  rfl

/-- A path through one indirect block. -/
lemma mapPath_single {bn : Word} (ge : 18 ≤ bn.toNat) (lt : bn.toNat < 274) :
    mapPath (bn - 18) 1 0 = [bn.toNat - 18] := by
  have eq : (bn - 18).toNat = bn.toNat - 18 := BitVec.toNat_sub_of_le (BitVec.le_def.mpr ge)
  have low : (bn - 18).toNat < 256 := by omega
  rw [mapPath, mapPath, BitVec.ushiftRight_zero, toNat_and_ff, Nat.mod_eq_of_lt low, eq]

/-- A path through two indirect blocks. -/
lemma mapPath_double {bn : Word} (ge : 274 ≤ bn.toNat) :
    mapPath (bn - 18 - 256) 2 8 = [(bn.toNat - 274) / 256, (bn.toNat - 274) % 256] := by
  have eq : (bn - 18 - 256).toNat = bn.toNat - 274 := by bv_omega
  have high : (bn.toNat - 274) / 256 < 256 := by omega
  rw [mapPath, mapPath, mapPath, BitVec.ushiftRight_zero, toNat_and_ff, toNat_and_ff, BitVec.toNat_ushiftRight,
    eq, Nat.shiftRight_eq_div_pow, Nat.mod_eq_of_lt high]

/-- `bmap` takes blocks from the free list for the tree of its inode. -/
lemma wp_bmap {ip : Inoptr} {dev : Nat} {rwflg : Bool} {bn : Word} {L : List Word} {s : Kernel}
    (g : s.bufs.Good) (hdev : dev < NDEVS) (own : (s.iTab ip).cDev = dev)
    (mode : (s.iTab ip).getmode ≠ F_BDEV) (h : FreeList (s.fsTab dev) (s.cell dev) L)
    (nodup : (↑L + (s.iTab ip).cNode.blocks (s.cell dev)).Nodup) :
    wp (bmap ip bn rwflg) (s.Mapping ip dev rwflg L (mapSlot bn) (mapIndices bn))
      (s.bufs.view.Stops 1 (onDev dev (↑L + (s.iTab ip).cNode.blocks (s.cell dev)))) s := by
  unfold bmap
  rw [wp_bind, wp_get, wp_ite, if_neg mode, wp_ite, own]
  split
  · next direct =>
    have lt : bn.toNat < 18 := direct
    have addr := @wp_bmapAddr ip bn.toNat 0 dev rwflg bn _ _ g hdev own h
      (Nat.lt_of_lt_of_le lt (by decide)) nodup
    rw [mapPath_direct lt, addrLevel, Nat.sub_eq_zero_of_le (Nat.le_of_lt_succ lt)] at addr
    rw [mapSlot, mapIndices, if_pos lt, if_pos lt]
    exact addr
  · next indirect =>
    have ge : ¬ bn.toNat < 18 := indirect
    have eq : (bn - 18).toNat = bn.toNat - 18 :=
      BitVec.toNat_sub_of_le (BitVec.le_def.mpr (Nat.le_of_not_lt ge))
    rw [mapSlot, mapIndices, if_neg ge, if_neg ge, wp_ite]
    split
    · next double =>
      rw [ne_eq, and_ff00_eq_zero, eq] at double
      have big : ¬ bn.toNat < 274 := by omega
      have addr := @wp_bmapAddr ip 19 8 dev rwflg (bn - 18 - 256) _ _ g hdev own h (by decide) nodup
      rw [show addrLevel 19 = 2 from rfl, mapPath_double (Nat.le_of_not_lt big)] at addr
      rw [if_neg big, if_neg big]
      exact addr
    · next single =>
      rw [ne_eq, not_not, and_ff00_eq_zero, eq] at single
      have small : bn.toNat < 274 := by omega
      have addr := @wp_bmapAddr ip 18 0 dev rwflg (bn - 18) _ _ g hdev own h (by decide) nodup
      rw [show addrLevel 18 = 1 from rfl, mapPath_single (Nat.le_of_not_lt ge) small] at addr
      rw [if_pos small, if_pos small]
      exact addr

end Uzi
