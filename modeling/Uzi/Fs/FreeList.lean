import Uzi.Fs.Blocks
import Uzi.Drivers.View
import Uzi.Lib.ChainStack

/-!
# The free list

`FreeList fs cell L`: the mount table entry `fs` and the chain of blocks `cell` behind it represent
the list `L` of free blocks. `blk_free` pushes a block and `blk_alloc` pops one.
-/

namespace Uzi
open Exec ChainStack

/-- The first 51 words of a block: a count, and the entries of `s_free`. -/
def Block.freeRec (x : Block) : Rec Word := ⟨(x.word 0).toNat, fun i => x.word (i + 1)⟩

/-- `s_nfree` and `s_free`. -/
def Filesys.freeRec (fs : Filesys) : Rec Word := ⟨fs.sNfree.toNat, fs.free⟩

/-- The list of free blocks that a superblock and the blocks it leads to represent. -/
structure FreeList (fs : Filesys) (cell : Word → Block) (L : List Word) : Prop where
  mounted : fs.sMounted = SMOUNTED
  chain : Chain 50 0 (fun n => (cell n).freeRec) fs.freeRec L
  nodup : L.Nodup
  range : ∀ b ∈ L, fs.sIsize ≤ b ∧ b < fs.sFsize
  tfree : fs.sTfree.toNat = L.length

/-- What `blk_alloc` and `blk_free` leave of a mount table entry, which they mark modified when they
change it. -/
structure Filesys.Recounted (fs fs' : Filesys) : Prop where
  mounted : fs'.sMounted = fs.sMounted
  isize : fs'.sIsize = fs.sIsize
  fsize : fs'.sFsize = fs.sFsize
  ninode : fs'.sNinode = fs.sNinode
  inode : fs'.sInode = fs.sInode
  tinode : fs'.sTinode = fs.sTinode
  mntpt : fs'.sMntpt = fs.sMntpt
  fmod : fs' = fs ∨ fs'.sFmod = 1

namespace Filesys.Recounted

variable {fs fs' fs'' : Filesys}

/-- The same superblock. -/
lemma refl : fs.Recounted fs := ⟨rfl, rfl, rfl, rfl, rfl, rfl, rfl, .inl rfl⟩

/-- Recounted, twice. -/
lemma trans (h : fs.Recounted fs') (h' : fs'.Recounted fs'') : fs.Recounted fs'' where
  mounted := h'.mounted.trans h.mounted
  isize := h'.isize.trans h.isize
  fsize := h'.fsize.trans h.fsize
  ninode := h'.ninode.trans h.ninode
  inode := h'.inode.trans h.inode
  tinode := h'.tinode.trans h.tinode
  mntpt := h'.mntpt.trans h.mntpt
  fmod := by
    cases h'.fmod with
    | inl e => exact e ▸ h.fmod
    | inr e => exact .inr e

end Filesys.Recounted

namespace Kernel

/-- The contents of the blocks of a device. -/
noncomputable def cell (s : Kernel) (dev : Nat) (n : Word) : Block := s.bufs.view.content (dev, n)

/-- The same view has the same blocks. -/
lemma cell_of_view {s : Kernel} {b : Bufs} {dev : Nat} (v : b.view = s.bufs.view) :
    ({ s with bufs := b } : Kernel).cell dev = s.cell dev := by
  funext c
  simp only [cell, v]

/-- The kernel with other buffers and another mount table entry. -/
def withFs (s : Kernel) (b : Bufs) (dev : Nat) (fs : Filesys) : Kernel :=
  { s with bufs := b, fsTab := Function.update s.fsTab dev fs }

/-- The buffers after the change. -/
@[simp] lemma bufs_withFs {s : Kernel} {b : Bufs} {dev : Nat} {fs : Filesys} :
    (s.withFs b dev fs).bufs = b := rfl

/-- The superblock after the change. -/
@[simp] lemma fsTab_withFs {s : Kernel} {b : Bufs} {dev : Nat} {fs : Filesys} :
    (s.withFs b dev fs).fsTab dev = fs := by
  simp only [withFs, Function.update_self]

/-- The other superblocks. -/
lemma fsTab_withFs_of_ne {s : Kernel} {b : Bufs} {dev d : Nat} {fs : Filesys} (h : d ≠ dev) :
    (s.withFs b dev fs).fsTab d = s.fsTab d := by
  simp only [withFs, Function.update_of_ne h]

/-- Nothing has changed. -/
lemma withFs_self {s : Kernel} {dev : Nat} : s.withFs s.bufs dev (s.fsTab dev) = s := by
  rw [withFs, Function.update_eq_self]

/-- The last of two changes. -/
@[simp] lemma withFs_withFs {s : Kernel} {b b' : Bufs} {dev : Nat} {fs fs' : Filesys} :
    (s.withFs b dev fs).withFs b' dev fs' = s.withFs b' dev fs' := by
  simp only [withFs, Function.update_idem]

end Kernel

/-! ## Lists and records -/

/-- A list of distinct blocks of a range is not longer than the range. -/
lemma length_le_of_range {lo hi : Word} {L : List Word} (nodup : L.Nodup)
    (range : ∀ b ∈ L, lo ≤ b ∧ b < hi) : L.length ≤ hi.toNat - lo.toNat := by
  have inj : (L.map BitVec.toNat).Nodup := nodup.map fun _ _ => BitVec.eq_of_toNat_eq
  have sub : L.map BitVec.toNat ⊆ List.range' lo.toNat (hi.toNat - lo.toNat) := by
    intro n hn
    obtain ⟨b, hb, rfl⟩ := List.mem_map.mp hn
    have h := range b hb
    rw [BitVec.le_def, BitVec.lt_def] at h
    rw [List.mem_range'_1]
    omega
  simpa using (inj.subperm sub).length_le

namespace Filesys

/-- The entry that has been set. -/
@[simp] lemma free_setFree {fs : Filesys} {i : Nat} {b : Word} (h : i < 50) :
    (fs.setFree i b).free = Function.update fs.free i b := by
  funext j
  by_cases e : j = i
  · subst e
    simp only [free, setFree, h, dite_true, if_true, Function.update_self]
  · simp only [free, setFree, e, if_false, Function.update_of_ne e]

end Filesys

namespace FreeList

variable {fs : Filesys} {cell cell' : Word → Block} {L : List Word} {b : Word}

/-- `s_nfree` is in bounds, also as a signed number. -/
lemma nfree (h : FreeList fs cell L) : 0 < fs.sNfree.toNat ∧ fs.sNfree.toNat ≤ 50 :=
  h.chain.count_pos

/-- There is room in `s_free` unless it has 50 entries. -/
lemma nfree_lt (h : FreeList fs cell L) (room : fs.sNfree ≠ 50) : fs.sNfree.toNat < 50 := by
  have n := h.nfree
  have ne : fs.sNfree.toNat ≠ 50 := fun e => room (BitVec.eq_of_toNat_eq e)
  omega

/-- A small number is positive. -/
lemma nfree_toInt (h : FreeList fs cell L) : fs.sNfree.toInt = fs.sNfree.toNat := by
  have n := h.nfree
  rw [BitVec.toInt_eq_toNat_of_lt (by omega)]

/-- One entry less. -/
lemma nfree_sub (h : FreeList fs cell L) : (fs.sNfree - 1).toNat = fs.sNfree.toNat - 1 := by
  have n := h.nfree
  bv_omega

/-- The blocks outside the list do not matter, nor do the other fields. -/
lemma congr {fs' : Filesys} (h : FreeList fs cell L) (mounted : fs'.sMounted = fs.sMounted)
    (isize : fs'.sIsize = fs.sIsize) (fsize : fs'.sFsize = fs.sFsize)
    (nfree : fs'.sNfree = fs.sNfree) (free : fs'.sFree = fs.sFree) (tfree : fs'.sTfree = fs.sTfree)
    (cells : ∀ b ∈ L, cell' b = cell b) : FreeList fs' cell' L where
  mounted := mounted.trans h.mounted
  chain := by
    have entry : fs'.free = fs.free := by
      funext i
      simp only [Filesys.free, free]
    rw [Filesys.freeRec, nfree, entry]
    exact h.chain.of_cells fun b hb => by rw [cells b hb]
  nodup := h.nodup
  range := by
    rw [isize, fsize]
    exact h.range
  tfree := tfree ▸ h.tfree

/-- There is room to count one more block. -/
lemma tfree_succ (h : FreeList fs cell L) (fresh : b ∉ L) (lo : fs.sIsize ≤ b) (hi : b < fs.sFsize) :
    (fs.sTfree + 1).toNat = (b :: L).length := by
  have range : ∀ c ∈ b :: L, fs.sIsize ≤ c ∧ c < fs.sFsize :=
    List.forall_mem_cons.mpr ⟨⟨lo, hi⟩, h.range⟩
  have len := length_le_of_range (List.nodup_cons.mpr ⟨fresh, h.nodup⟩) range
  have t := h.tfree
  have bound := fs.sFsize.isLt
  rw [List.length_cons] at len ⊢
  rw [BitVec.toNat_add, t, show (1 : Word).toNat = 1 from rfl]
  omega

end FreeList

/-! ## The mount table entry -/

/-- The entry after `getdev` has stamped it and marked it modified. -/
def Filesys.touch (fs : Filesys) (t : Time) : Filesys := { fs with sTime := t, sFmod := 1 }

namespace FreeList

variable {fs : Filesys} {cell : Word → Block} {L : List Word}

/-- The time does not matter. -/
lemma touch (h : FreeList fs cell L) (t : Time) : FreeList (fs.touch t) cell L :=
  h.congr rfl rfl rfl rfl rfl rfl fun _ _ => rfl

/-- `baddev` finds nothing. -/
lemma not_baddev (h : FreeList fs cell L) : baddev fs = false :=
  decide_eq_false (not_not.mpr h.mounted)

end FreeList

/-- A change of the superblock. -/
@[simp] lemma wp_modifyFs {s : Kernel} {dev : Nat} {f : Filesys → Filesys}
    {Q : PUnit → Kernel → Prop} {E : Panic → Prop} :
    wp (modifyFs dev f) Q E s ↔ Q ⟨⟩ (s.withFs s.bufs dev (f (s.fsTab dev))) := Iff.rfl

/-- `getdev` on a mounted device marks the entry modified. -/
lemma wp_getdev {s : Kernel} {dev : Nat} {Q : PUnit → Kernel → Prop} {E : Panic → Prop}
    (hdev : dev < NDEVS) (mounted : (s.fsTab dev).sMounted = SMOUNTED) :
    wp (getdev dev) Q E s ↔
      Q ⟨⟩ (s.withFs s.bufs dev ((s.fsTab dev).touch s.tod)) := by
  have ne : (s.fsTab dev).sMounted ≠ 0 := by
    rw [mounted]
    decide
  unfold getdev
  simp only [wp_bind, wp_get, wp_ite, hdev, ne, not_true_eq_false, or_self, if_false,
    wp_modifyFs]
  rfl

/-- `validblk` lets a block of the data area pass. -/
lemma wp_validblk {s : Kernel} {dev : Nat} {num : Word} {Q : PUnit → Kernel → Prop}
    {E : Panic → Prop} (mounted : (s.fsTab dev).sMounted = SMOUNTED)
    (lo : (s.fsTab dev).sIsize ≤ num) (hi : num < (s.fsTab dev).sFsize) :
    wp (validblk dev num) Q E s ↔ Q ⟨⟩ s := by
  have ne : (s.fsTab dev).sMounted ≠ 0 := by
    rw [mounted]
    decide
  have ok : ¬ (num < (s.fsTab dev).sIsize ∨ (s.fsTab dev).sFsize ≤ num) := by
    rw [BitVec.le_def] at lo
    rw [BitVec.lt_def] at hi
    rw [BitVec.lt_def, BitVec.le_def]
    omega
  unfold validblk
  simp only [wp_bind, wp_get, wp_ite, ne, if_false, ok, wp_pure]

/-! ## Freeing a block -/

/-- The entry after a block has been entered in `s_free`. -/
def Filesys.pushFree (fs : Filesys) (b : Word) : Filesys :=
  { fs.setFree fs.sNfree.toNat b with sNfree := fs.sNfree + 1, sTfree := fs.sTfree + 1 }

/-- A block enters the list while `s_free` has room. -/
lemma FreeList.push {fs : Filesys} {cell : Word → Block} {L : List Word} {b : Word}
    (h : FreeList fs cell L) (ne : b ≠ 0) (fresh : b ∉ L) (lo : fs.sIsize ≤ b) (hi : b < fs.sFsize)
    (room : fs.sNfree ≠ 50) : FreeList (fs.pushFree b) cell (b :: L) where
  mounted := h.mounted
  chain := by
    have n := h.nfree
    have lt := h.nfree_lt room
    have e : (fs.pushFree b).freeRec =
        ⟨fs.sNfree.toNat + 1, Function.update fs.free fs.sNfree.toNat b⟩ := by
      have count : (fs.sNfree + 1).toNat = fs.sNfree.toNat + 1 := by bv_omega
      rw [← Filesys.free_setFree lt, ← count]
      rfl
    rw [e]
    exact h.chain.push ne lt
  nodup := List.nodup_cons.mpr ⟨fresh, h.nodup⟩
  range := List.forall_mem_cons.mpr ⟨⟨lo, hi⟩, h.range⟩
  tfree := h.tfree_succ fresh lo hi

/-- A block enters the list when a full `s_free` is stored in it. -/
lemma FreeList.spill {fs : Filesys} {cell cell' : Word → Block} {L : List Word} {b : Word}
    (h : FreeList fs cell L) (ne : b ≠ 0) (fresh : b ∉ L) (lo : fs.sIsize ≤ b) (hi : b < fs.sFsize)
    (count : (cell' b).word 0 = fs.sNfree) (entry : ∀ i < 50, (cell' b).word (i + 1) = fs.free i)
    (others : ∀ c ≠ b, cell' c = cell c) :
    FreeList (Filesys.pushFree { fs with sNfree := 0 } b) cell' (b :: L) where
  mounted := h.mounted
  chain := by
    refine h.chain.spill ne (by decide) fresh ⟨?_, ?_⟩ (fun c hc => ?_) rfl ?_
    · exact congrArg BitVec.toNat count
    · exact fun i hi => entry i (Nat.lt_of_lt_of_le hi h.nfree.2)
    · rw [others c hc]
    · rfl
  nodup := List.nodup_cons.mpr ⟨fresh, h.nodup⟩
  range := List.forall_mem_cons.mpr ⟨⟨lo, hi⟩, h.range⟩
  tfree := h.tfree_succ fresh lo hi

/-- The words that `blk_free` copies begin with `s_nfree` and `s_free`. -/
lemma Kernel.fsWord_free {s : Kernel} {dev : Nat} (hdev : dev < NDEVS) :
    s.fsWord dev 3 = (s.fsTab dev).sNfree ∧
      ∀ i < 50, s.fsWord dev (3 + (i + 1)) = (s.fsTab dev).free i := by
  constructor
  · simp only [fsWord, Filesys.WORDS, Nat.reduceDiv, Nat.add_zero, hdev, if_true, Filesys.word,
      Nat.reduceMod, OfNat.ofNat_ne_zero, Nat.reduceEqDiff, if_false]
  · intro i hi
    have q : (3 + (i + 1)) / Filesys.WORDS = 0 := by
      unfold Filesys.WORDS
      omega
    have r : (3 + (i + 1)) % Filesys.WORDS = i + 4 := by
      unfold Filesys.WORDS
      omega
    rw [fsWord, q, r, Nat.add_zero, if_pos hdev]
    simp only [Filesys.word]
    rw [if_neg (by omega), if_neg (by omega), if_neg (by omega), if_neg (by omega),
      if_pos (by omega), Nat.add_sub_cancel]

/-- The end of `blk_free` enters the block. -/
lemma wp_blkFreePush {s : Kernel} {dev : Nat} {b : Word} {Q : PUnit → Kernel → Prop}
    {E : Panic → Prop} (room : (s.fsTab dev).sNfree.toNat < 50) :
    wp (blkFreePush dev b) Q E s ↔ Q ⟨⟩ (s.withFs s.bufs dev ((s.fsTab dev).pushFree b)) := by
  unfold blkFreePush
  simp only [wp_bind, wp_get, wp_ite, wp_modifyFs, Kernel.fsTab_withFs, Kernel.withFs_withFs,
    Kernel.bufs_withFs, Nat.not_le.mpr room, if_false]
  rfl

/-- `blk_free` stores a full `s_free` in the block. -/
lemma wp_blkFreeSpill {s : Kernel} {dev : Nat} {b : Word} (g : s.bufs.Good) (hdev : dev < NDEVS) :
    wp (blkFreeSpill dev b)
      (fun _ s' => ∃ b' x, s' = s.withFs b' dev { s.fsTab dev with sNfree := 0 } ∧ b'.Good ∧
        b'.view = s.bufs.view.put (dev, b) x ∧ x.word 0 = (s.fsTab dev).sNfree ∧
        ∀ i < 50, x.word (i + 1) = (s.fsTab dev).free i)
      (s.bufs.view.Stops 0 {(dev, b)}) s := by
  unfold blkFreeSpill
  simp only [wp_bind, wp_get, wp_fill]
  refine wp_post (wp_breadPtr_rewrite g hdev) ?_
  rintro bp _ ⟨b₁, rfl, p⟩
  refine wp_mono (wp_bawrite_fill p) ?_ fun _ => False.elim
  rintro _ _ ⟨b₂, rfl, g₂, v₂⟩
  simp only [wp_modifyFs]
  refine ⟨b₂, _, rfl, g₂, v₂, ?_, fun i hi => ?_⟩
  · rw [Block.word_ofWords (by decide)]
    exact (Kernel.fsWord_free hdev).1
  · rw [Block.word_ofWords (by omega)]
    exact (Kernel.fsWord_free hdev).2 i hi

/-- `blk_free` puts the block in front of the list. It may overwrite this block. -/
lemma wp_blkFree {s : Kernel} {dev : Nat} {b : Word} {L : List Word} (g : s.bufs.Good)
    (hdev : dev < NDEVS) (h : FreeList (s.fsTab dev) (s.cell dev) L) (ne : b ≠ 0) (fresh : b ∉ L)
    (lo : (s.fsTab dev).sIsize ≤ b) (hi : b < (s.fsTab dev).sFsize) :
    wp (blkFree dev b)
      (fun _ s' => ∃ b' fs', s' = s.withFs b' dev fs' ∧ b'.Good ∧ (s.fsTab dev).Recounted fs' ∧
        (∃ x, b'.view = s.bufs.view.put (dev, b) x) ∧ FreeList fs' (s'.cell dev) (b :: L))
      (s.bufs.view.Stops 0 {(dev, b)}) s := by
  have h₀ := h.touch s.tod
  unfold blkFree
  simp only [wp_ite, ne, if_false, wp_bind, wp_getdev hdev h.mounted, wp_get,
    Kernel.fsTab_withFs, h₀.not_baddev, Bool.false_eq_true]
  rw [wp_validblk (by rw [Kernel.fsTab_withFs]; exact h.mounted)
    (by rw [Kernel.fsTab_withFs]; exact lo) (by rw [Kernel.fsTab_withFs]; exact hi)]
  split
  · next full =>
    refine wp_post (wp_blkFreeSpill g hdev) ?_
    rintro _ _ ⟨b', x, rfl, g', v, count, entry⟩
    simp only [Kernel.fsTab_withFs, Kernel.withFs_withFs] at count entry ⊢
    rw [wp_blkFreePush (by rw [Kernel.fsTab_withFs]; exact (by decide : (0 : Word).toNat < 50))]
    simp only [Kernel.fsTab_withFs, Kernel.withFs_withFs, Kernel.bufs_withFs]
    refine ⟨b', _, rfl, g', ⟨rfl, rfl, rfl, rfl, rfl, rfl, rfl, .inr rfl⟩, ⟨x, v⟩, ?_⟩
    have own : ∀ fs, (s.withFs b' dev fs).cell dev b = x := by
      intro fs
      simp only [Kernel.cell, Kernel.bufs_withFs, v, View.content_put]
    refine h₀.spill ne fresh lo hi ?_ ?_ fun c hc => ?_
    · rw [own, count]
    · rw [own]
      exact entry
    · simp only [Kernel.cell, Kernel.bufs_withFs, v]
      exact View.content_put_of_ne fun e => hc (Prod.ext_iff.mp e).2
  · next room =>
    rw [Kernel.fsTab_withFs] at room
    have lt := h.nfree_lt room
    rw [wp_blkFreePush (by rw [Kernel.fsTab_withFs]; exact lt)]
    simp only [Kernel.fsTab_withFs, Kernel.withFs_withFs, Kernel.bufs_withFs]
    refine ⟨s.bufs, _, rfl, g, ⟨rfl, rfl, rfl, rfl, rfl, rfl, rfl, .inr rfl⟩,
      ⟨_, View.put_content.symm⟩, h₀.push ne fresh lo hi room⟩

/-! ## Allocating a block -/

namespace FreeList

variable {fs : Filesys} {cell cell' : Word → Block} {L : List Word} {b : Word}

/-- The entry that `blk_alloc` takes from an empty list ends it. -/
lemma top_nil (h : FreeList fs cell []) : fs.free (fs.sNfree - 1).toNat = 0 := by
  rw [h.nfree_sub]
  exact h.chain.top_nil

/-- The entry that `blk_alloc` takes from the list is its first block. -/
lemma top_cons (h : FreeList fs cell (b :: L)) : fs.free (fs.sNfree - 1).toNat = b ∧ b ≠ 0 := by
  rw [h.nfree_sub]
  exact h.chain.top_cons

/-- A block leaves the list: the record is popped or refilled, and the block may be overwritten. -/
lemma pop {fs' : Filesys} (h : FreeList fs cell (b :: L)) (mounted : fs'.sMounted = fs.sMounted)
    (isize : fs'.sIsize = fs.sIsize) (fsize : fs'.sFsize = fs.sFsize)
    (tfree : fs'.sTfree = fs.sTfree - 1) (others : ∀ c ≠ b, cell' c = cell c)
    (rest : Chain 50 0 (fun n => (cell n).freeRec) fs'.freeRec L) : FreeList fs' cell' L where
  mounted := mounted.trans h.mounted
  chain := rest.of_cells fun c hc => by
    rw [others c]
    rintro rfl
    exact (List.nodup_cons.mp h.nodup).1 hc
  nodup := (List.nodup_cons.mp h.nodup).2
  range := by
    rw [isize, fsize]
    exact fun c hc => h.range c (List.mem_cons_of_mem b hc)
  tfree := by
    have t := h.tfree
    rw [List.length_cons] at t
    rw [tfree]
    bv_omega

end FreeList

/-- What `blk_alloc` finds at its start. -/
lemma FreeList.bounds {fs : Filesys} {cell : Word → Block} {L : List Word} (h : FreeList fs cell L) :
    ¬ (fs.sNfree.toInt ≤ 0 ∨ 50 < fs.sNfree.toInt) := by
  have n := h.nfree
  rw [h.nfree_toInt]
  omega

/-- `blk_alloc` on the empty list gives 0 and `ENOSPC`. -/
lemma wp_blkAlloc_nil {s : Kernel} {dev : Nat} (hdev : dev < NDEVS)
    (h : FreeList (s.fsTab dev) (s.cell dev) []) :
    wp (blkAlloc dev)
      (fun r s' => r = 0 ∧ s' = { s.withFs s.bufs dev ((s.fsTab dev).touch s.tod) with
        udata := { s.udata with uError := .enospc } })
      (fun _ => False) s := by
  have h₀ := h.touch s.tod
  have count : ((s.fsTab dev).touch s.tod).sTfree = 0 := BitVec.eq_of_toNat_eq h₀.tfree
  unfold blkAlloc
  simp only [wp_bind, wp_getdev hdev h.mounted, wp_get, Kernel.fsTab_withFs, Kernel.withFs_withFs,
    Kernel.bufs_withFs, h₀.not_baddev, Bool.false_eq_true, if_false, h₀.bounds, wp_ite, wp_modifyFs,
    h₀.top_nil, if_true, count, ne_eq, not_true_eq_false, setError, wp_modify, wp_pure, true_and]
  simp only [Kernel.withFs, Function.update_idem, BitVec.sub_add_cancel]
  rw [← count]

/-- The end of `blk_alloc` takes the block. -/
lemma wp_blkAllocTake {s : Kernel} {dev : Nat} {b : Word} (g : s.bufs.Good) (hdev : dev < NDEVS)
    (mounted : (s.fsTab dev).sMounted = SMOUNTED) (lo : (s.fsTab dev).sIsize ≤ b)
    (hi : b < (s.fsTab dev).sFsize) (count : (s.fsTab dev).sTfree ≠ 0) :
    wp (blkAllocTake dev b)
      (fun r s' => r = b ∧ ∃ b', s' = s.withFs b' dev
          { s.fsTab dev with sTfree := (s.fsTab dev).sTfree - 1 } ∧ b'.Good ∧
        b'.view = s.bufs.view.put (dev, b) Block.zero)
      (s.bufs.view.Stops 0 {(dev, b)}) s := by
  unfold blkAllocTake
  rw [wp_bind, wp_validblk mounted lo hi]
  simp only [wp_bind, wp_get, wp_ite, count, if_false, wp_modifyFs, wp_fill]
  refine wp_post (wp_breadPtr_rewrite g hdev) ?_
  rintro bp _ ⟨b₁, rfl, p⟩
  refine wp_mono (wp_bawrite_fill p) ?_ fun _ => False.elim
  rintro _ _ ⟨b₂, rfl, g₂, v₂⟩
  exact ⟨rfl, b₂, rfl, g₂, v₂⟩

/-- `blk_alloc` loads `s_free` from the block. -/
lemma wp_blkAllocRefill {s : Kernel} {dev : Nat} {b : Word} (g : s.bufs.Good) (hdev : dev < NDEVS) :
    wp (blkAllocRefill dev b)
      (fun _ s' => ∃ b', s' = s.withFs b' dev { s.fsTab dev with
          sNfree := (s.cell dev b).word 0
          sFree := fun j => (s.cell dev b).word (j + 1) } ∧ b'.Good ∧ b'.view = s.bufs.view)
      (s.bufs.view.Stops 0 {(dev, b)}) s := by
  unfold blkAllocRefill
  simp only [wp_bind, wp_get, wp_modifyFs]
  refine wp_post (wp_breadPtr g hdev) ?_
  rintro bp _ ⟨b₁, rfl, g₁, idle, v₁⟩
  have data : (b₁.bufpool bp).bfData = s.cell dev b := by
    rw [g₁.data (n := (dev, b)) (by rw [v₁, View.held_hold]), v₁]
    rfl
  refine wp_mono (wp_brelse_hold g₁ idle v₁) ?_ fun _ => False.elim
  rintro _ _ ⟨b₂, rfl, g₂, v₂⟩
  refine ⟨b₂, ?_, g₂, v₂⟩
  simp only [Kernel.buf, data]
  rfl

/-- `blk_alloc` takes the first block of the list and zeroes it. -/
lemma wp_blkAlloc_cons {s : Kernel} {dev : Nat} {b : Word} {L : List Word} (g : s.bufs.Good)
    (hdev : dev < NDEVS) (h : FreeList (s.fsTab dev) (s.cell dev) (b :: L)) :
    wp (blkAlloc dev)
      (fun r s' => r = b ∧ ∃ b' fs', s' = s.withFs b' dev fs' ∧ b'.Good ∧
        (s.fsTab dev).Recounted fs' ∧ b'.view = s.bufs.view.put (dev, b) Block.zero ∧
        FreeList fs' (s'.cell dev) L)
      (s.bufs.view.Stops 0 {(dev, b)}) s := by
  have h₀ := h.touch s.tod
  obtain ⟨top, ne⟩ := h₀.top_cons
  obtain ⟨lo, hi⟩ := h.range b (List.mem_cons_self ..)
  have count : (s.fsTab dev).sTfree ≠ 0 := by
    intro e
    have t := h.tfree
    rw [e, List.length_cons] at t
    exact absurd t.symm (Nat.succ_ne_zero _)
  have cells : ∀ b' fs', b'.view = s.bufs.view.put (dev, b) Block.zero → ∀ c ≠ b,
      (s.withFs b' dev fs').cell dev c = s.cell dev c := by
    intro b' fs' v c hc
    simp only [Kernel.cell, Kernel.bufs_withFs, v]
    exact View.content_put_of_ne fun e => hc (Prod.ext_iff.mp e).2
  unfold blkAlloc
  simp only [wp_bind, wp_getdev hdev h.mounted, wp_get, Kernel.fsTab_withFs, Kernel.withFs_withFs,
    Kernel.bufs_withFs, h₀.not_baddev, Bool.false_eq_true, if_false, h₀.bounds, wp_ite, wp_modifyFs,
    top, ne]
  have nfree : (((s.fsTab dev).touch s.tod).sNfree - 1).toNat = (s.fsTab dev).freeRec.count - 1 :=
    h₀.nfree_sub
  split
  · next last =>
    refine wp_post (wp_blkAllocRefill g hdev) ?_
    rintro _ _ ⟨b₁, rfl, g₁, v₁⟩
    simp only [Kernel.fsTab_withFs, Kernel.withFs_withFs]
    have take := wp_blkAllocTake (s := s.withFs b₁ dev { (s.fsTab dev).touch s.tod with
      sNfree := (s.cell dev b).word 0, sFree := fun j => (s.cell dev b).word (j + 1) }) (b := b) g₁
      hdev (by rw [Kernel.fsTab_withFs]; exact h.mounted) (by rw [Kernel.fsTab_withFs]; exact lo)
      (by rw [Kernel.fsTab_withFs]; exact hi) (by rw [Kernel.fsTab_withFs]; exact count)
    rw [Kernel.bufs_withFs, v₁] at take
    refine wp_post take ?_
    rintro _ _ ⟨rfl, b₂, rfl, g₂, v₂⟩
    simp only [Kernel.fsTab_withFs, Kernel.withFs_withFs]
    refine ⟨trivial, b₂, _, rfl, g₂, ⟨rfl, rfl, rfl, rfl, rfl, rfl, rfl, .inr rfl⟩, v₂, ?_⟩
    refine h.pop rfl rfl rfl rfl (cells b₂ _ v₂) ?_
    have rest := h.chain.refill_rest (by rw [← nfree, last]; rfl)
    refine rest.congr rfl (fun i hi => ?_) fun _ _ => ⟨rfl, fun _ _ => rfl⟩
    have lt : i < 50 := Nat.lt_of_lt_of_le hi rest.count_pos.2
    simp only [Filesys.freeRec, Filesys.free, lt, dite_true, Block.freeRec]
  · next more =>
    have take := wp_blkAllocTake (s := s.withFs s.bufs dev { (s.fsTab dev).touch s.tod with
      sNfree := ((s.fsTab dev).touch s.tod).sNfree - 1 }) (b := b) g
      hdev (by rw [Kernel.fsTab_withFs]; exact h.mounted) (by rw [Kernel.fsTab_withFs]; exact lo)
      (by rw [Kernel.fsTab_withFs]; exact hi) (by rw [Kernel.fsTab_withFs]; exact count)
    refine wp_post take ?_
    rintro _ _ ⟨rfl, b₂, rfl, g₂, v₂⟩
    simp only [Kernel.fsTab_withFs, Kernel.withFs_withFs]
    refine ⟨trivial, b₂, _, rfl, g₂, ⟨rfl, rfl, rfl, rfl, rfl, rfl, rfl, .inr rfl⟩, v₂, ?_⟩
    refine h.pop rfl rfl rfl rfl (cells b₂ _ v₂) ?_
    have rest := h.chain.pop_rest (by rw [← nfree]; exact fun e => more (BitVec.eq_of_toNat_eq e))
    rwa [← nfree] at rest

end Uzi
