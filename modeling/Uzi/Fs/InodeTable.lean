import Uzi.Fs.Inodes
import Uzi.Fs.Ownership

/-!
# The inode table as a cache

`i_tab` keeps copies of the inodes that lie in the blocks of the devices: it is a write-back cache of
them, as the block buffers are one of the blocks. Disk inodes are read from and written into their blocks
(`Dinode.ofBlock`, `Block.setDinode`), the code that frees blocks and inodes and the one that writes the
superblocks leave them alone (`Kernel.SameInodes`), and `wr_inode` writes one of them out.
-/

namespace Uzi
open Exec WriteBack

/-! ## Disk inodes in their blocks -/

/-- The block of an inode, as a number. -/
lemma inodeBlk_toNat {num : Word} : (inodeBlk num).toNat = num.toNat / 8 + 2 := by
  have lt := num.isLt
  have e : (num >>> 3).toNat = num.toNat / 8 := by
    rw [BitVec.toNat_ushiftRight, Nat.shiftRight_eq_div_pow]
  have two : (2 : Word).toNat = 2 := rfl
  rw [inodeBlk, BitVec.toNat_add, e, two]
  omega

/-- The place of an inode in its block. -/
lemma inodeIdx_eq {num : Word} : inodeIdx num = num.toNat % 8 := by
  have seven : (0x07 : Word).toNat = 2 ^ 3 - 1 := rfl
  rw [inodeIdx, BitVec.toNat_and, seven, Nat.and_two_pow_sub_one_eq_mod]

/-- There are eight inodes in a block. -/
lemma inodeIdx_lt {num : Word} : inodeIdx num < 8 := by
  rw [inodeIdx_eq]
  exact Nat.mod_lt _ (by decide)

/-- The inodes begin behind the superblock. -/
lemma two_le_inodeBlk {num : Word} : 2 ≤ inodeBlk num := by
  rw [BitVec.le_def, inodeBlk_toNat]
  exact Nat.le_add_left ..

/-- The block and the index give the number back. -/
lemma inode_inj {num num' : Word} (blk : inodeBlk num = inodeBlk num') (idx : inodeIdx num = inodeIdx num') :
    num = num' := by
  apply BitVec.eq_of_toNat_eq
  have blk := congrArg BitVec.toNat blk
  rw [inodeBlk_toNat, inodeBlk_toNat] at blk
  rw [inodeIdx_eq, inodeIdx_eq] at idx
  omega

namespace Dinode

variable {b b' : Block} {d : Dinode} {j k : Nat}

/-- A disk inode is made of its 32 words. -/
lemma ofBlock_congr (h : ∀ i < 32, b'.word (32 * k + i) = b.word (32 * k + i)) :
    ofBlock b' k = ofBlock b k := by
  have zero : b'.word (32 * k) = b.word (32 * k) := h 0 (by decide)
  have addr : ∀ i : Fin 20, b'.word (32 * k + 12 + i) = b.word (32 * k + 12 + i) := by
    intro i
    have lt := i.isLt
    rw [Nat.add_assoc]
    exact h _ (by omega)
  unfold ofBlock
  rw [zero, h 1 (by decide), h 2 (by decide), h 3 (by decide), h 4 (by decide), h 5 (by decide),
    h 6 (by decide), h 7 (by decide), h 8 (by decide), h 9 (by decide), h 10 (by decide), h 11 (by decide)]
  simp only [addr]

/-- The words of the inode that has been written. -/
lemma word_setDinode (hk : k < 8) {i : Nat} (hi : i < 32) : (b.setDinode k d).word (32 * k + i) = d.word i := by
  rw [Block.setDinode, Block.word_ofWords (by omega), if_pos (by omega), Nat.add_sub_cancel_left]

/-- The numbers of blocks are the last words of an inode. -/
lemma word_addr (i : Fin 20) : d.word (12 + i) = d.iAddr i := by
  have lt := i.isLt
  have ne : ∀ n < 12, 12 + i.val ≠ n := fun n hn => by omega
  simp only [word, ne, Nat.reduceLT, if_false, Nat.add_sub_cancel_left, Dinode.addr, lt, dite_true]

/-- The inode that has been put in a block. -/
lemma ofBlock_setDinode (hk : k < 8) : ofBlock (b.setDinode k d) k = d := by
  have zero : (b.setDinode k d).word (32 * k) = d.word 0 := word_setDinode hk (show 0 < 32 by decide)
  have addr : ∀ i : Fin 20, (b.setDinode k d).word (32 * k + 12 + i) = d.iAddr i := by
    intro i
    have lt := i.isLt
    rw [Nat.add_assoc, word_setDinode hk (by omega), word_addr]
  have w : ∀ i < 32, (b.setDinode k d).word (32 * k + i) = d.word i := fun _ => word_setDinode hk
  unfold ofBlock
  simp only [zero, addr, w, Nat.reduceLT]
  rfl

/-- The other inodes of the block. -/
lemma ofBlock_setDinode_of_ne (hj : j < 8) (ne : j ≠ k) : ofBlock (b.setDinode k d) j = ofBlock b j := by
  apply ofBlock_congr
  intro i hi
  rw [Block.setDinode, Block.word_ofWords (by omega), if_neg (by omega)]

/-- The inode without anything. -/
def zero : Dinode := ⟨0, 0, 0, 0, ⟨0, 0⟩, ⟨0, 0⟩, ⟨0, 0⟩, ⟨0, 0⟩, fun _ => 0⟩

end Dinode

/-- Inode `m.2` of device `m.1` as it is in the blocks. -/
noncomputable def Kernel.diskInode (s : Kernel) (m : Nat × Word) : Dinode :=
  .ofBlock (s.bufs.view.content (m.1, inodeBlk m.2)) (inodeIdx m.2)

/-- The block of the inode is one of the inode blocks of the device. -/
def Kernel.HasInode (s : Kernel) (m : Nat × Word) : Prop :=
  m.1 < NDEVS ∧ inodeBlk m.2 < (s.fsTab m.1).sIsize

/-! ## Code that leaves the inodes alone -/

/-- The inodes are the same, in the table and in the blocks, and the same blocks are held. -/
structure Kernel.SameInodes (s s' : Kernel) : Prop where
  iTab : s'.iTab = s.iTab
  isize : ∀ dev, (s'.fsTab dev).sIsize = (s.fsTab dev).sIsize
  target : s'.target = s.target
  good : s'.bufs.Good
  held : s'.bufs.view.held = s.bufs.view.held
  content : ∀ dev blk, 2 ≤ blk → blk < (s.fsTab dev).sIsize →
    s'.bufs.view.content (dev, blk) = s.bufs.view.content (dev, blk)

namespace Kernel.SameInodes

variable {s s' s'' : Kernel}

/-- Nothing has happened to the inodes. -/
lemma refl (g : s.bufs.Good) : s.SameInodes s := ⟨rfl, fun _ => rfl, rfl, g, rfl, fun _ _ _ _ => rfl⟩

/-- Nothing happens to the inodes, twice. -/
lemma trans (h : s.SameInodes s') (h' : s'.SameInodes s'') : s.SameInodes s'' where
  iTab := h'.iTab.trans h.iTab
  isize dev := (h'.isize dev).trans (h.isize dev)
  target := h'.target.trans h.target
  good := h'.good
  held := h'.held.trans h.held
  content dev blk lo hi :=
    (h'.content dev blk lo ((h.isize dev).symm ▸ hi)).trans (h.content dev blk lo hi)

/-- The buffers have come to show the blocks with one block changed that is no inode block. -/
lemma of_put {b : Bufs} {n : Nat × Word} {x : Block} (g : b.Good) (v : b.view = s.bufs.view.put n x)
    (outside : ¬ (2 ≤ n.2 ∧ n.2 < (s.fsTab n.1).sIsize)) : s.SameInodes { s with bufs := b } where
  iTab := rfl
  isize _ := rfl
  target := rfl
  good := g
  held := by rw [v, View.held_put]
  content dev blk lo hi := by
    show b.view.content _ = _
    rw [v, View.content_put_of_ne]
    intro e
    cases e
    exact outside ⟨lo, hi⟩

/-- The buffers have changed, but show the same. -/
lemma of_view {b : Bufs} (g : b.Good) (v : b.view = s.bufs.view) : s.SameInodes { s with bufs := b } :=
  ⟨rfl, fun _ => rfl, rfl, g, by rw [v], fun _ _ _ _ => by rw [v]⟩

/-- The same inodes are there. -/
lemma hasInode (h : s.SameInodes s') {m : Nat × Word} : s'.HasInode m ↔ s.HasInode m := by
  rw [Kernel.HasInode, Kernel.HasInode, h.isize]

/-- The inodes of the disk are the same. -/
lemma diskInode (h : s.SameInodes s') {m : Nat × Word} (hm : s.HasInode m) :
    s'.diskInode m = s.diskInode m := by
  rw [Kernel.diskInode, Kernel.diskInode, h.content _ _ two_le_inodeBlk hm.2]

end Kernel.SameInodes

/-- What becomes of a kernel whose buffers are in order. -/
def KeepsInodes (s s' : Kernel) : Prop := s.bufs.Good → s.SameInodes s'

instance : IsPreorder Kernel KeepsInodes where
  refl _ := .refl
  trans _ _ _ h h' g := (h g).trans (h' (h g).good)

variable {s : Kernel} {dev : Nat} {blk num : Word} {p : Inoptr}

/-- It is enough to look at kernels whose buffers are in order. -/
lemma KeepsInodes.within {α : Type} {c : K α}
    (h : ∀ s : Kernel, s.bufs.Good → wp c (fun _ s' => s.SameInodes s') (fun _ => True) s) :
    Within KeepsInodes (fun _ => True) c := by
  intro s
  by_cases g : s.bufs.Good
  · exact wp_post (h s g) fun _ _ same _ => same
  · exact wp_post wp_true fun _ _ _ good => absurd good g

/-- A change of a superblock that keeps the number of inode blocks. -/
lemma within_modifyFs {f : Filesys → Filesys} (h : ∀ fs, (f fs).sIsize = fs.sIsize) :
    Within KeepsInodes (fun _ => True) (modifyFs dev f) := by
  intro s g
  refine ⟨rfl, fun d => ?_, rfl, g, rfl, fun _ _ _ _ => rfl⟩
  by_cases e : d = dev
  · rw [e]
    exact (congrArg Filesys.sIsize (Function.update_self ..)).trans (h _)
  · exact congrArg Filesys.sIsize (Function.update_of_ne e ..)

/-- `getdev` keeps the inodes. -/
lemma within_getdev : Within KeepsInodes (fun _ => True) (getdev dev) := by
  unfold getdev
  exact .bind .get fun s => .ite (.throw trivial) (within_modifyFs fun _ => rfl)

/-- `validblk` lets blocks pass that are behind the inodes. -/
lemma wp_validblk_isize :
    wp (validblk dev blk) (fun _ s' => s' = s ∧ (s.fsTab dev).sIsize ≤ blk) (fun _ => True) s := by
  unfold validblk
  simp only [wp_bind, wp_get, wp_ite, wp_throw, wp_pure]
  split
  · trivial
  · split
    · trivial
    · next valid => exact ⟨trivial, BitVec.not_lt.mp fun lt => valid (.inl lt)⟩

/-- `getdev` lets the devices pass that are in the mount table. -/
lemma wp_getdev_inodes (g : s.bufs.Good) :
    wp (getdev dev) (fun _ s' => s.SameInodes s' ∧ dev < NDEVS) (fun _ => True) s := by
  have inTable : wp (getdev dev) (fun _ _ => dev < NDEVS) (fun _ => True) s := by
    unfold getdev
    simp only [wp_bind, wp_get, wp_ite, wp_throw, wp_modifyFs]
    split
    · trivial
    · next h => exact not_not.mp (not_or.mp h).1
  exact wp_mono ((within_getdev s).and inTable) (fun _ _ h => ⟨h.1 g, h.2⟩) fun _ h => h.1

/-- The push of a block on the free list keeps the inodes. -/
lemma within_blkFreePush : Within KeepsInodes (fun _ => True) (blkFreePush dev blk) := by
  unfold blkFreePush
  exact .bind (within_modifyFs fun _ => rfl) fun _ => .bind .get fun _ =>
    .ite (.throw trivial) (within_modifyFs fun _ => rfl)

/-- `blk_free` keeps the inodes. -/
lemma within_blkFree : Within KeepsInodes (fun _ => True) (blkFree dev blk) := by
  apply KeepsInodes.within
  intro s g
  unfold blkFree
  simp only [wp_ite, wp_pure, wp_bind, wp_get]
  split
  · exact .refl g
  · refine wp_post (wp_getdev_inodes g) fun _ s₁ got => ?_
    obtain ⟨same₁, hdev⟩ := got
    split
    · exact same₁
    · refine wp_post wp_validblk_isize fun _ s₂ valid => ?_
      obtain ⟨e, behind⟩ := valid
      rw [e]
      have push : ∀ s₃, s₁.SameInodes s₃ → wp (blkFreePush dev blk) (fun _ s' => s.SameInodes s') (fun _ => True) s₃ :=
        fun s₃ same₃ => wp_post (within_blkFreePush s₃) fun _ s₄ keeps =>
          (same₁.trans same₃).trans (keeps same₃.good)
      split
      · -- the free list goes into the block, which is behind the inodes
        refine wp_mono (wp_blkFreeSpill same₁.good hdev) ?_ fun _ _ => trivial
        intro _ s₃ got
        obtain ⟨b, x, e, g', v, _⟩ := got
        rw [e]
        apply push
        have put : s₁.SameInodes { s₁ with bufs := b } := .of_put g' v fun h => BitVec.not_lt.mpr behind h.2
        exact put.trans (within_modifyFs (f := fun fs => { fs with sNfree := 0 }) (fun _ => rfl) _ g')
      · exact push s₁ (.refl same₁.good)

/-- A buffer is held while other code runs, and released. -/
lemma wp_brelse_inodes {s₁ s₂ : Kernel} {bp : Bufptr} {n : Nat × Word} {b : Bufs} (e : s₁ = { s with bufs := b })
    (idle : s.bufs.view.held bp = none) (hold : b.view = s.bufs.view.hold bp n) (same : s₁.SameInodes s₂) :
    wp (brelse bp) (fun _ s' => s.SameInodes s') (fun _ => False) s₂ := by
  subst e
  refine wp_post (wp_brelse same.good) fun _ s₃ ⟨b₃, e, g, v⟩ => ?_
  subst e
  refine ⟨same.iTab, same.isize, same.target, g, ?_, fun dev blk lo hi => ?_⟩
  · show b₃.view.held = _
    have held : s₂.bufs.view.held = (s.bufs.view.hold bp n).held := same.held.trans (congrArg View.held hold)
    have back := congrArg View.held (View.release_hold idle (n := n))
    rw [← back, v]
    exact congrArg (Function.update · bp none) held
  · show b₃.view.content _ = _
    rw [v, View.content_release, same.content dev blk lo hi]
    exact congrArg (fun v => v.content (dev, blk)) hold

/-- `freeblk` keeps the inodes. -/
lemma within_freeblk {level : Nat} (hdev : dev < NDEVS) :
    Within KeepsInodes (fun _ => True) (freeblk dev blk level) := by
  induction level generalizing blk with
  | zero => exact .ite .pure within_blkFree
  | succ level ih =>
    apply KeepsInodes.within
    intro s g
    unfold freeblk
    simp only [wp_ite, wp_pure, wp_bind]
    split
    · exact .refl g
    · refine wp_mono (wp_breadPtr g hdev) ?_ fun _ _ => trivial
      intro bp s₁ got
      obtain ⟨b, e, g₁, idle, hold⟩ := got
      have loop : Within KeepsInodes (fun _ => True) (forDown (fun j => do
          let s ← get
          freeblk dev ((s.buf bp).bfData.word j) level) 256) :=
        .forDown (fun j => .bind .get fun s => ih) 256
      refine wp_post (loop s₁) fun _ s₂ keeps => ?_
      have g₁ : s₁.bufs.Good := e ▸ g₁
      refine wp_mono (wp_brelse_inodes e idle hold (keeps g₁)) ?_ fun _ => False.elim
      exact fun _ s₃ same => wp_post (within_blkFree s₃) fun _ s₄ keeps => same.trans (keeps same.good)

/-- The blocks that `f_trunc` frees, before it clears their addresses. -/
lemma within_freeAddrs (hdev : dev < NDEVS) : Within KeepsInodes (fun _ => True) (do
    freeblk dev (((← get).iTab p).cNode.addr 19) 2
    freeblk dev (((← get).iTab p).cNode.addr 18) 1
    forDown (fun j => do
      let s ← get
      freeblk dev ((s.iTab p).cNode.addr j) 0) 18) :=
  .bind .get fun _ => .bind (within_freeblk hdev) fun _ => .bind .get fun _ =>
    .bind (within_freeblk hdev) fun _ => .forDown (fun _ => .bind .get fun _ => within_freeblk hdev) 18

/-- `f_trunc` clears the addresses and the size of the inode. -/
lemma wp_fTrunc_inodes (g : s.bufs.Good) (hdev : (s.iTab p).cDev < NDEVS) :
    wp (fTrunc p) (fun _ s' => (s.setInode p (s.iTab p).truncated).SameInodes s') (fun _ => True) s := by
  have all := within_freeAddrs (p := p) hdev s
  unfold fTrunc
  simp only [wp_bind, wp_get, wp_modifyInode] at all ⊢
  refine wp_post all fun _ s₁ keeps₁ => wp_post keeps₁ fun _ s₂ keeps₂ => wp_post keeps₂ fun _ s₃ keeps => ?_
  have same := keeps g
  refine ⟨?_, same.isize, same.target, same.good, same.held, same.content⟩
  show Function.update s₃.iTab p _ = Function.update s.iTab p _
  rw [same.iTab]
  rfl

/-- `i_free` keeps the inodes. -/
lemma within_iFree : Within KeepsInodes (fun _ => True) (iFree dev num) := by
  unfold iFree
  refine .bind within_getdev fun _ => .bind .get fun s => .ite .pure (.ite (.throw trivial) ?_)
  exact .bind (within_modifyFs fun _ => rfl) fun _ =>
    .ite (.throw trivial) (.ite (within_modifyFs fun _ => rfl) .pure)

/-! ## Writing the superblocks and the buffers -/

/-- `bufsync` shows nothing new. -/
lemma wp_bufsync_shown (g : s.bufs.Good) :
    wp bufsync (fun _ s' => ∃ b, s' = { s with bufs := b } ∧ b.Good ∧ b.view = s.bufs.view) (fun _ => False) s := by
  refine wp_mono (wp_bufsync g.pool) ?_ fun _ stop => stop.2 g.dirtyDev
  intro _ s' got
  obtain ⟨b, e, sy⟩ := got
  subst e
  obtain ⟨name, -, -⟩ := sy.eqs
  refine ⟨b, rfl, ⟨sy.pool, ?_, ?_⟩, View.ext (funext sy.content) (funext fun i => ?_)⟩
  · intro i
    rw [sy.bufpool]
    exact g.dirtyDev i
  · intro i busy
    rw [name]
    exact g.named i (by simpa only [Bufs.mem_busy, sy.bufpool] using busy)
  · show (if _ then b.cache.name i else none) = if _ then s.bufs.cache.name i else none
    rw [sy.bufpool, name]

/-- `bufsync` keeps the inodes. -/
lemma within_bufsync : Within KeepsInodes (fun _ => True) bufsync := by
  apply KeepsInodes.within
  intro s g
  refine wp_mono (wp_bufsync_shown g) (fun _ s' got => ?_) fun _ => False.elim
  obtain ⟨b, e, g', v⟩ := got
  subst e
  exact .of_view g' v

/-- The writing of a superblock keeps the inodes. -/
lemma within_syncFs (hdev : dev < NDEVS) : Within KeepsInodes (fun _ => True) (syncFs dev) := by
  unfold syncFs
  refine .bind .get fun s => .ite ?_ .pure
  refine .bind (within_modifyFs fun _ => rfl) fun _ => KeepsInodes.within fun s g => ?_
  simp only [wp_bind, wp_get, wp_fill, wp_pure]
  refine wp_mono (wp_breadPtr_rewrite g hdev) ?_ fun _ _ => trivial
  intro bp s₁ got
  obtain ⟨b, e, pending⟩ := got
  subst e
  refine wp_mono (wp_bfree_fill pending (by decide)) ?_ fun _ _ => trivial
  intro _ s₂ got
  obtain ⟨b', e, g', v⟩ := got
  subst e
  exact .of_put (s := s) g' v fun h => absurd h.1 (show ¬ (2 : Word) ≤ 1 by decide)

/-! ## The cache -/

open Classical in
/-- The inode table as a cache of the disk inodes. An entry without a number has no name, and behind the
inode blocks of a device there are no inodes. -/
noncomputable def Kernel.icache (s : Kernel) : Cache Inoptr (Nat × Word) Dinode where
  name i := if (s.iTab i).cNum = 0 then none else some ((s.iTab i).cDev, (s.iTab i).cNum)
  data i := (s.iTab i).cNode
  dirty i := (s.iTab i).cDirty
  back m := if s.HasInode m then s.diskInode m else .zero

/-- The entry is one of inode `m.2` of device `m.1`. -/
def Cinode.Names (c : Cinode) (m : Nat × Word) : Prop := c.cDev = m.1 ∧ c.cNum = m.2 ∧ m.2 ≠ 0

instance {c : Cinode} {m : Nat × Word} : Decidable (c.Names m) := inferInstanceAs (Decidable (_ ∧ _ ∧ _))

/-- An inode that is named has a number. -/
lemma Cinode.Names.num_ne {c : Cinode} {m : Nat × Word} (h : c.Names m) : c.cNum ≠ 0 :=
  fun zero => h.2.2 (h.2.1.symm.trans zero)

/-- What the inodes have been given once entry `p` has been given `d`. -/
def Kernel.give (s : Kernel) (p : Inoptr) (d : Dinode) (latest : Nat × Word → Dinode) : Nat × Word → Dinode :=
  fun m => if (s.iTab p).Names m then d else latest m

/-- Entries of one inode. -/
structure Cinode.SameName (c c' : Cinode) : Prop where
  magic : c'.cMagic = c.cMagic
  dev : c'.cDev = c.cDev
  num : c'.cNum = c.cNum

/-- The table caches the inodes: it is coherent, no block is held, and every entry with a number or a magic
number is one of an inode. -/
structure Kernel.Cached (s : Kernel) : Prop where
  good : s.bufs.Good
  released : ∀ bp, s.bufs.view.held bp = none
  coherent : s.icache.Coherent ∅
  inode : ∀ i, (s.iTab i).cNum ≠ 0 → s.HasInode ((s.iTab i).cDev, (s.iTab i).cNum)
  magic : ∀ i, (s.iTab i).cMagic = CMAGIC → (s.iTab i).cNum ≠ 0

/-- A step of the kernel that changes no inode. -/
structure Kernel.Keeps (s s' : Kernel) : Prop where
  cached : s'.Cached
  isize : ∀ dev, (s'.fsTab dev).sIsize = (s.fsTab dev).sIsize
  content : ∀ m, s'.icache.content m = s.icache.content m

namespace Kernel

variable {s s' s'' : Kernel} {p i : Inoptr} {m : Nat × Word} {c : Cinode}

/-- The names of the cache are the numbers in the table. -/
lemma icache_name : s.icache.name i = some m ↔ (s.iTab i).Names m := by
  obtain ⟨dev, num⟩ := m
  simp only [icache, Cinode.Names]
  split
  · next zero => exact ⟨nofun, fun h => absurd (h.2.1.symm.trans zero) h.2.2⟩
  · next ne =>
    simp only [Option.some.injEq, Prod.mk.injEq]
    exact ⟨fun h => ⟨h.1, h.2, h.2 ▸ ne⟩, fun h => ⟨h.1, h.2.1⟩⟩

/-- What is behind the cache is the inode of the disk. -/
lemma icache_back (h : s.HasInode m) : s.icache.back m = s.diskInode m := if_pos h

/-- The same inodes are there afterwards. -/
lemma Keeps.hasInode (k : s.Keeps s') : s'.HasInode m ↔ s.HasInode m := by
  rw [HasInode, HasInode, k.isize]

/-- Inodes that are kept twice. -/
lemma Keeps.trans (k : s.Keeps s') (k' : s'.Keeps s'') : s.Keeps s'' :=
  ⟨k'.cached, fun dev => (k'.isize dev).trans (k.isize dev), fun m => (k'.content m).trans (k.content m)⟩

/-- The cache is the same. -/
lemma SameInodes.icache (h : s.SameInodes s') : s'.icache = s.icache := by
  unfold Kernel.icache
  rw [h.iTab]
  congr 1
  funext m
  by_cases has : s.HasInode m
  · rw [if_pos has, if_pos (h.hasInode.mpr has), h.diskInode has]
  · rw [if_neg has, if_neg (mt h.hasInode.mp has)]

/-- Nothing that the table caches has changed. -/
lemma SameInodes.keeps (same : s.SameInodes s') (h : s.Cached) : s.Keeps s' where
  cached :=
    { good := same.good
      released bp := (congrFun same.held bp).trans (h.released bp)
      coherent := same.icache ▸ h.coherent
      inode i := by
        rw [same.iTab]
        exact fun hi => same.hasInode.mpr (h.inode i hi)
      magic i := same.iTab ▸ h.magic i }
  isize := same.isize
  content m := by rw [same.icache]

/-- An entry that stays one of the same inode. -/
lemma Cached.names (h : s.Cached) (same : (s.iTab p).SameName c) :
    (∀ i, ((s.setInode p c).iTab i).cNum ≠ 0 →
      s.HasInode (((s.setInode p c).iTab i).cDev, ((s.setInode p c).iTab i).cNum)) ∧
    ∀ i, ((s.setInode p c).iTab i).cMagic = CMAGIC → ((s.setInode p c).iTab i).cNum ≠ 0 := by
  have own : (s.setInode p c).iTab p = c := iTab_setInode
  constructor
  · intro i hi
    by_cases e : i = p
    · rw [e, own, same.num] at hi
      rw [e, own, same.dev, same.num]
      exact h.inode p hi
    · rw [iTab_setInode_of_ne e] at hi ⊢
      exact h.inode i hi
  · intro i hi
    by_cases e : i = p
    · rw [e, own, same.magic] at hi
      rw [e, own, same.num]
      exact h.magic p hi
    · rw [iTab_setInode_of_ne e] at hi ⊢
      exact h.magic i hi

/-- An in-core inode changes, but for its name. -/
lemma Cached.setInode (h : s.Cached) (same : (s.iTab p).SameName c)
    (coherent : (s.setInode p c).icache.Coherent ∅) : (s.setInode p c).Cached :=
  ⟨h.good, h.released, coherent, (h.names same).1, (h.names same).2⟩

/-- The entry keeps its name. -/
lemma icache_name_setInode (same : (s.iTab p).SameName c) : (s.setInode p c).icache.name = s.icache.name := by
  funext i
  by_cases e : i = p
  · simp only [icache, e, iTab_setInode, same.dev, same.num]
  · simp only [icache, iTab_setInode_of_ne e]

/-- An entry keeps its name and gets a node; the other entries stay. -/
lemma icache_filled (same : (s.iTab p).SameName c) (dirty : c.cDirty = (s.iTab p).cDirty) :
    s.icache.Filled (s.setInode p c).icache p where
  name := icache_name_setInode same
  data_ne j ne := congrArg Cinode.cNode (iTab_setInode_of_ne ne)
  back := rfl
  dirty j := by
    by_cases e : j = p
    · rw [e]
      show ((s.setInode p c).iTab p).cDirty = true ↔ _
      rw [iTab_setInode, dirty]
      exact Iff.rfl
    · show ((s.setInode p c).iTab j).cDirty = true ↔ _
      rw [iTab_setInode_of_ne e]
      exact Iff.rfl

/-- An entry keeps its name and node, and it may get dirty. -/
lemma icache_marked (same : (s.iTab p).SameName c) (node : c.cNode = (s.iTab p).cNode)
    (dirty : (s.iTab p).cDirty = true → c.cDirty = true) : s.icache.Marked (s.setInode p c).icache where
  name := icache_name_setInode same
  data := by
    funext j
    by_cases e : j = p
    · simp only [icache, e, iTab_setInode, node]
    · simp only [icache, iTab_setInode_of_ne e]
  back := rfl
  dirty j hj := by
    show ((s.setInode p c).iTab j).cDirty = true
    by_cases e : j = p
    · rw [e, iTab_setInode]
      exact dirty (e ▸ hj)
    · rw [iTab_setInode_of_ne e]
      exact hj

/-- An entry changes its references, or gets dirty. -/
lemma Cached.mark (h : s.Cached) (same : (s.iTab p).SameName c) (node : c.cNode = (s.iTab p).cNode)
    (dirty : (s.iTab p).cDirty = true → c.cDirty = true) : s.Keeps (s.setInode p c) where
  cached :=
    have marked := icache_marked same node dirty
    h.setInode same (marked.coherent h.coherent fun _ => nofun)
  isize _ := rfl
  content := (icache_marked same node dirty).content h.coherent.unique

/-- An entry gets another node, and is dirty. -/
lemma Cached.change (h : s.Cached) (same : (s.iTab p).SameName c) (dirty : c.cDirty = true) :
    (s.setInode p c).Cached ∧
      ∀ m, (s.setInode p c).icache.content m = s.give p c.cNode s.icache.content m := by
  -- first the node changes, then the mark
  have filled := icache_filled (s := s) (p := p) (c := { c with cDirty := (s.iTab p).cDirty })
    ⟨same.magic, same.dev, same.num⟩ rfl
  have marked := icache_marked (s := s.setInode p { c with cDirty := (s.iTab p).cDirty }) (p := p) (c := c)
    (by rw [iTab_setInode]; exact ⟨rfl, rfl, rfl⟩) (by rw [iTab_setInode]) fun _ => dirty
  rw [setInode_setInode] at marked
  have coherent := filled.coherent h.coherent
  have cached : (s.setInode p c).Cached := by
    refine h.setInode same (marked.coherent coherent fun j hj _ => ?_)
    obtain rfl : j = p := hj.resolve_right nofun
    show ((s.setInode j c).iTab j).cDirty = true
    rw [iTab_setInode, dirty]
  refine ⟨cached, fun m => ?_⟩
  unfold give
  split
  · next names =>
    have own : (s.setInode p c).icache.name p = some m := by
      rw [icache_name_setInode same]
      exact icache_name.mpr names
    rw [Cache.content_of_name cached.coherent.unique own]
    exact congrArg Cinode.cNode iTab_setInode
  · next names => rw [marked.content coherent.unique, filled.content h.coherent.unique (mt icache_name.mp names)]

/-- What a name of the table shows is the node of its entry. -/
lemma Cached.content (h : s.Cached) (num : (s.iTab p).cNum ≠ 0) :
    s.icache.content ((s.iTab p).cDev, (s.iTab p).cNum) = (s.iTab p).cNode :=
  Cache.content_of_name h.coherent.unique (icache_name.mpr ⟨rfl, rfl, num⟩)

/-! ## Writing an inode out -/

/-- The kernel after `wr_inode`, the buffers being `b`. -/
def written (s : Kernel) (p : Inoptr) (b : Bufs) : Kernel :=
  { s.setInode p { s.iTab p with cDirty := false } with bufs := b }

/-- The block of an inode has been written with the inode in it. -/
lemma diskInode_put {b : Bufs} {dev : Nat} {num : Word} {d : Dinode}
    (v : b.view = s.bufs.view.put (dev, inodeBlk num)
      ((s.bufs.view.content (dev, inodeBlk num)).setDinode (inodeIdx num) d)) :
    Kernel.diskInode { s with bufs := b } (dev, num) = d ∧
      ∀ m ≠ (dev, num), Kernel.diskInode { s with bufs := b } m = s.diskInode m := by
  refine ⟨?_, fun m ne => ?_⟩
  · show Dinode.ofBlock (b.view.content _) _ = d
    rw [v, View.content_put, Dinode.ofBlock_setDinode inodeIdx_lt]
  · show Dinode.ofBlock (b.view.content _) _ = Dinode.ofBlock _ _
    rw [v]
    by_cases blk : (m.1, inodeBlk m.2) = (dev, inodeBlk num)
    · rw [blk, View.content_put, Dinode.ofBlock_setDinode_of_ne inodeIdx_lt]
      intro idx
      obtain ⟨dev', num'⟩ := m
      obtain ⟨same, blk⟩ := Prod.mk.inj blk
      exact ne (Prod.ext same (inode_inj blk idx))
    · rw [View.content_put_of_ne blk]

/-- `wr_inode` writes the entry to the disk inode. -/
lemma Cached.flushed {b : Bufs} (h : s.Cached) (num : (s.iTab p).cNum ≠ 0)
    (v : b.view = s.bufs.view.put ((s.iTab p).cDev, inodeBlk (s.iTab p).cNum)
      ((s.bufs.view.content ((s.iTab p).cDev, inodeBlk (s.iTab p).cNum)).setDinode
        (inodeIdx (s.iTab p).cNum) (s.iTab p).cNode)) :
    s.icache.Flushed (s.written p b).icache p ((s.iTab p).cDev, (s.iTab p).cNum) := by
  obtain ⟨own, other⟩ := diskInode_put v
  have same : (s.iTab p).SameName { s.iTab p with cDirty := false } := ⟨rfl, rfl, rfl⟩
  refine ⟨icache_name.mpr ⟨rfl, rfl, num⟩, icache_name_setInode same, ?_, ?_, fun m ne => ?_, fun j ne => ?_⟩
  · funext j
    by_cases e : j = p
    · simp only [icache, written, e, iTab_setInode]
    · simp only [icache, written, iTab_setInode_of_ne e]
  · have has : (s.written p b).HasInode ((s.iTab p).cDev, (s.iTab p).cNum) := h.inode p num
    rw [icache_back has]
    exact own
  · by_cases has : s.HasInode m
    · have has' : (s.written p b).HasInode m := has
      rw [icache_back has, icache_back has']
      exact other m ne
    · have has' : ¬ (s.written p b).HasInode m := has
      exact (if_neg has').trans (if_neg has).symm
  · show ((s.setInode p _).iTab j).cDirty = true ↔ _
    rw [iTab_setInode_of_ne ne]
    exact Iff.rfl

/-- `wr_inode` puts the entry in the block of its inode, and cleans it. -/
lemma wp_wrInode (g : s.bufs.Good) (released : ∀ bp, s.bufs.view.held bp = none)
    (hdev : (s.iTab p).cMagic = CMAGIC → (s.iTab p).cDev < NDEVS) :
    wp (wrInode p)
      (fun _ s' => (s.iTab p).cMagic = CMAGIC ∧ ∃ b, s' = s.written p b ∧ b.Good ∧
        b.view = s.bufs.view.put ((s.iTab p).cDev, inodeBlk (s.iTab p).cNum)
          ((s.bufs.view.content ((s.iTab p).cDev, inodeBlk (s.iTab p).cNum)).setDinode
            (inodeIdx (s.iTab p).cNum) (s.iTab p).cNode))
      (fun e => e = .corruptInode ∧ (s.iTab p).cMagic ≠ CMAGIC) s := by
  unfold wrInode Uzi.magic
  simp only [wp_bind, wp_get, wp_ite, wp_throw, wp_pure]
  split
  · next bad => exact ⟨trivial, bad⟩
  · next magic =>
    have magic := not_not.mp magic
    refine wp_mono (wp_breadPtr g (hdev magic)) ?_ fun e stop =>
      (View.not_stops_of_idle released (by decide) stop).elim
    intro bp s₁ got
    obtain ⟨b₁, e, g₁, idle, hold⟩ := got
    subst e
    have held : b₁.view.held bp = some ((s.iTab p).cDev, inodeBlk (s.iTab p).cNum) := by
      rw [hold, View.held_hold]
    have data : (b₁.bufpool bp).bfData = s.bufs.view.content ((s.iTab p).cDev, inodeBlk (s.iTab p).cNum) := by
      rw [g₁.data held, hold, View.content_hold]
    have pending := g₁.pending held (hdev magic)
    rw [hold, View.release_hold idle] at pending
    simp only [wp_fill]
    refine wp_mono (wp_bfree_fill (s := { s with bufs := b₁ }) pending (by decide)) ?_ fun _ => False.elim
    intro _ s₂ got
    obtain ⟨b₂, e, g₂, v⟩ := got
    subst e
    have block : (Kernel.buf { s with bufs := b₁ } bp).bfData = _ := data
    rw [block] at v
    exact ⟨magic, b₂, rfl, g₂, v⟩

/-- `wr_inode` changes no inode, and cleans the entry. -/
lemma Cached.wp_wrInode (h : s.Cached) :
    wp (wrInode p)
      (fun _ s' => s.Keeps s' ∧ ∃ b, s' = s.written p b)
      (fun e => e = .corruptInode) s := by
  have hdev : (s.iTab p).cMagic = CMAGIC → (s.iTab p).cDev < NDEVS := fun magic => (h.inode p (h.magic p magic)).1
  refine wp_mono (Kernel.wp_wrInode h.good h.released hdev) (fun _ s' got => ?_) fun _ stop => stop.1
  obtain ⟨magic, b, e, g, v⟩ := got
  subst e
  have flushed := h.flushed (h.magic p magic) v
  have same : (s.iTab p).SameName { s.iTab p with cDirty := false } := ⟨rfl, rfl, rfl⟩
  have released : ∀ bp, b.view.held bp = none := by
    intro bp
    rw [v, View.held_put]
    exact h.released bp
  obtain ⟨inode, magic⟩ := h.names same
  exact ⟨⟨⟨g, released, flushed.coherent h.coherent, inode, magic⟩, fun _ => rfl,
    flushed.content h.coherent.unique⟩, b, rfl⟩

/-! ## References -/

/-- An entry without references need not be written. -/
def Unused (s : Kernel) : Prop := ∀ i, (s.iTab i).cRefs = 0 → (s.iTab i).cDirty = false

/-- An inode that is not used is clean. -/
lemma Unused.setInode (u : s.Unused) (own : c.cRefs = 0 → c.cDirty = false) : (s.setInode p c).Unused := by
  intro i
  by_cases e : i = p
  · rw [e, iTab_setInode]
    exact own
  · rw [iTab_setInode_of_ne e]
    exact u i

/-- The table after an inode has been written, where the others need not be. -/
lemma Unused.written {b : Bufs} (u : ∀ i ≠ p, (s.iTab i).cRefs = 0 → (s.iTab i).cDirty = false) :
    (s.written p b).Unused := by
  intro i
  show ((s.setInode p _).iTab i).cRefs = 0 → ((s.setInode p _).iTab i).cDirty = false
  by_cases e : i = p
  · rw [e, iTab_setInode]
    exact fun _ => rfl
  · rw [iTab_setInode_of_ne e]
    exact u i e

end Kernel

/-- What is left on the disk of an inode without links. -/
def Cinode.freed (c : Cinode) : Dinode := { c.truncated.cNode with iMode := 0 }

/-- What the inodes have been given once a reference to entry `p` has gone: the last one to an inode
without links takes it from the disk. -/
def Kernel.derefed (s : Kernel) (p : Inoptr) (latest : Nat × Word → Dinode) : Nat × Word → Dinode :=
  if (s.iTab p).cRefs = 1 ∧ (s.iTab p).cNode.iNlink = 0 then s.give p (s.iTab p).freed latest else latest

/-- A step of the kernel after which the inodes are `latest`. -/
structure Kernel.Shows (s s' : Kernel) (latest : Nat × Word → Dinode) : Prop where
  cached : s'.Cached
  unused : s'.Unused
  isize : ∀ dev, (s'.fsTab dev).sIsize = (s.fsTab dev).sIsize
  content : ∀ m, s'.icache.content m = latest m

namespace Kernel

variable {s s' s'' : Kernel} {p i : Inoptr} {m : Nat × Word} {c : Cinode} {latest : Nat × Word → Dinode}

/-- Inodes that are kept show the same. -/
lemma Keeps.shows (k : s.Keeps s') (u : s'.Unused) : s.Shows s' s.icache.content := ⟨k.cached, u, k.isize, k.content⟩

/-- A step that may be taken, and changes no inode. -/
lemma wp_optional {p : Prop} [Decidable p] {step : K PUnit} {P : Kernel → Prop} (g : s.bufs.Good)
    (keeps : Within KeepsInodes (fun _ => True) step) (h : ∀ s', s.SameInodes s' → P s') :
    if p then wp step (fun _ s' => P s') (fun _ => True) s else P s := by
  split
  · exact wp_post (keeps s) fun _ s' k => h s' (k g)
  · exact h s (.refl g)

/-- `wr_inode` of the one entry that need be written. -/
lemma Cached.wp_wrInode_shows (h : s.Cached)
    (u : ∀ i ≠ p, (s.iTab i).cRefs = 0 → (s.iTab i).cDirty = false) :
    wp (wrInode p) (fun _ s' => s.Shows s' s.icache.content) (fun _ => True) s := by
  refine wp_mono h.wp_wrInode ?_ fun _ _ => trivial
  intro _ s' got
  obtain ⟨keeps, b, e⟩ := got
  subst e
  exact keeps.shows (.written u)

/-- The end of `i_deref`: an entry without references is written out, and its inode freed if it has no
links. -/
lemma Cached.wp_derefEnd (h : s.Cached) (u : ∀ i ≠ p, (s.iTab i).cRefs = 0 → (s.iTab i).cDirty = false) :
    wp (do
        let c := (← get).iTab p
        if c.cRefs = 0 ∧ c.cDirty then do
          if c.cNode.iNlink = 0 then do
            modifyInode p fun c => { c with cNode := { c.cNode with iMode := 0 } }
            iFree c.cDev c.cNum
          wrInode p)
      (fun _ s' => s.Shows s'
        (if (s.iTab p).cRefs = 0 ∧ (s.iTab p).cDirty ∧ (s.iTab p).cNode.iNlink = 0 then
          s.give p { (s.iTab p).cNode with iMode := 0 } s.icache.content
        else s.icache.content))
      (fun _ => True) s := by
  simp only [wp_bind, wp_get, wp_ite, wp_pure, wp_modifyInode]
  split
  · next last =>
    obtain ⟨refs, dirty⟩ := last
    split
    · next links =>
      rw [if_pos ⟨refs, dirty, links⟩]
      obtain ⟨cached, content⟩ := h.change (p := p)
        (c := { s.iTab p with cNode := { (s.iTab p).cNode with iMode := 0 } }) ⟨rfl, rfl, rfl⟩ dirty
      refine wp_post (within_iFree _) fun _ s₂ keeps => ?_
      have same := keeps cached.good
      have keeps₂ := same.keeps cached
      have u₂ : ∀ i ≠ p, (s₂.iTab i).cRefs = 0 → (s₂.iTab i).cDirty = false := by
        intro i ne
        rw [same.iTab, iTab_setInode_of_ne ne]
        exact u i ne
      refine wp_post (keeps₂.cached.wp_wrInode_shows u₂) fun _ s₃ shows₃ => ?_
      exact ⟨shows₃.cached, shows₃.unused, fun dev => (shows₃.isize dev).trans (same.isize dev), fun m =>
        (shows₃.content m).trans ((keeps₂.content m).trans (content m))⟩
    · next links =>
      rw [if_neg fun h => links h.2.2]
      exact h.wp_wrInode_shows u
  · next more =>
    rw [if_neg fun h => more ⟨h.1, h.2.1⟩]
    refine ⟨h, fun i refs => ?_, fun _ => rfl, fun _ => rfl⟩
    by_cases e : i = p
    · rw [e] at refs ⊢
      exact Bool.eq_false_iff.mpr fun dirty => more ⟨refs, dirty⟩
    · exact u i e refs

/-- What is written back depends on the node only. -/
lemma give_congr (same : (s.iTab p).SameName (s'.iTab p)) {d : Dinode} : s'.give p d = s.give p d := by
  have names : ∀ m, (s'.iTab p).Names m ↔ (s.iTab p).Names m := by
    intro m
    rw [Cinode.Names, Cinode.Names, same.dev, same.num]
  funext latest m
  simp only [give, names]

/-- The last of two nodes counts. -/
lemma give_give {d d' : Dinode} : s.give p d (s.give p d' latest) = s.give p d latest := by
  funext m
  unfold give
  split
  · rfl
  · rfl

/-- `i_deref`. -/
lemma Cached.wp_iDeref (h : s.Cached) (u : s.Unused) :
    wp (iDeref p) (fun _ s' => s.Shows s' (s.derefed p s.icache.content)) (fun _ => True) s := by
  unfold iDeref Uzi.magic
  rw [wp_bind, wp_bind, wp_get, wp_ite]
  split
  · trivial
  · next magic =>
    have num := h.magic p (not_not.mp magic)
    rw [wp_pure, wp_bind, wp_get, wp_ite]
    split
    · trivial
    · next refs =>
      rw [wp_bind, wp_get, wp_ite, wp_bind]
      refine wp_optional h.good (.modify fun s g => ⟨rfl, fun _ => rfl, rfl, g, rfl, fun _ _ _ _ => rfl⟩)
        fun s₁ same₁ => ?_
      have keeps₁ := same₁.keeps h
      rw [wp_bind, wp_modifyInode, same₁.iTab]
      -- one reference less
      have mark := keeps₁.cached.mark (p := p) (c := { s.iTab p with cRefs := (s.iTab p).cRefs - 1 })
        (by rw [same₁.iTab]; exact ⟨rfl, rfl, rfl⟩) (by rw [same₁.iTab]) (by rw [same₁.iTab]; exact id)
      have keeps := keeps₁.trans mark
      have own : (s₁.setInode p { s.iTab p with cRefs := (s.iTab p).cRefs - 1 }).iTab p =
        { s.iTab p with cRefs := (s.iTab p).cRefs - 1 } := iTab_setInode
      have others : ∀ i ≠ p, (s₁.setInode p { s.iTab p with cRefs := (s.iTab p).cRefs - 1 }).iTab i =
          s.iTab i := by
        intro i ne
        rw [iTab_setInode_of_ne ne, same₁.iTab]
      generalize s₁.setInode _ _ = s₂ at keeps own others ⊢
      have last : (s.iTab p).cRefs - 1 = 0 ↔ (s.iTab p).cRefs = 1 := sub_eq_zero
      have u₂ : ∀ i ≠ p, (s₂.iTab i).cRefs = 0 → (s₂.iTab i).cDirty = false := by
        intro i ne
        rw [others i ne]
        exact u i
      have content₂ : s₂.icache.content = s.icache.content := funext keeps.content
      rw [wp_bind, wp_get, wp_ite]
      split
      · next gone =>
        rw [own, last] at gone
        rw [derefed, if_pos gone]
        -- the blocks go, and then the inode
        rw [wp_bind]
        refine wp_post (wp_fTrunc_inodes keeps.cached.good (by rw [own]; exact (h.inode p num).1)) fun _ s₃ same₃ => ?_
        obtain ⟨cached, content⟩ := keeps.cached.change (p := p) (c := (s₂.iTab p).truncated) ⟨rfl, rfl, rfl⟩ rfl
        have keeps₃ := same₃.keeps cached
        have own₃ : s₃.iTab p = (s₂.iTab p).truncated := by rw [same₃.iTab, iTab_setInode]
        have u₃ : ∀ i ≠ p, (s₃.iTab i).cRefs = 0 → (s₃.iTab i).cDirty = false := by
          intro i ne
          rw [same₃.iTab, iTab_setInode_of_ne ne]
          exact u₂ i ne
        refine wp_post (keeps₃.cached.wp_derefEnd u₃) fun _ s₄ shows => ?_
        rw [own₃, own] at shows
        rw [if_pos ⟨last.mpr gone.1, rfl, gone.2⟩] at shows
        have content₃ : s₃.icache.content = s₂.give p (s₂.iTab p).truncated.cNode s.icache.content := by
          funext m
          rw [keeps₃.content m, content m, content₂]
        have give₂ : ∀ d, s₂.give p d = s.give p d := fun d => give_congr (by rw [own]; exact ⟨rfl, rfl, rfl⟩)
        have give₃ : ∀ d, s₃.give p d = s.give p d := fun d => give_congr (by rw [own₃, own]; exact ⟨rfl, rfl, rfl⟩)
        rw [content₃, give₃, give₂, give_give] at shows
        exact ⟨shows.cached, shows.unused, fun dev => (shows.isize dev).trans ((same₃.isize dev).trans (keeps.isize dev)),
          shows.content⟩
      · next stays =>
        rw [own, last] at stays
        rw [derefed, if_neg stays]
        refine wp_post (keeps.cached.wp_derefEnd u₂) fun _ s₃ shows => ?_
        rw [own, if_neg fun h => stays ⟨last.mp h.1, h.2.2⟩, content₂] at shows
        exact ⟨shows.cached, shows.unused, fun dev => (shows.isize dev).trans (keeps.isize dev), shows.content⟩

/-- `i_ref`. -/
lemma Cached.wp_iRef (h : s.Cached) (u : s.Unused) (room : (s.iTab p).cRefs ≠ 255) :
    wp (iRef p) (fun _ s' => s.Shows s' s.icache.content) (fun _ => True) s := by
  unfold iRef
  rw [wp_bind, wp_modifyInode, wp_bind, wp_get, wp_ite]
  split
  · trivial
  · have keeps := h.mark (p := p) (c := { s.iTab p with cRefs := (s.iTab p).cRefs + 1 }) ⟨rfl, rfl, rfl⟩ rfl id
    exact keeps.shows (u.setInode fun zero => absurd (eq_neg_of_add_eq_zero_left zero) room)

/-- Inodes that show the same twice. -/
lemma Shows.trans (h : s.Shows s' s.icache.content) (h' : s'.Shows s'' s'.icache.content) :
    s.Shows s'' s.icache.content :=
  ⟨h'.cached, h'.unused, fun dev => (h'.isize dev).trans (h.isize dev), fun m => (h'.content m).trans (h.content m)⟩

/-- Inodes that stay show the same. -/
lemma SameInodes.shows (same : s.SameInodes s') (h : s.Cached) (u : s.Unused) : s.Shows s' s.icache.content :=
  (same.keeps h).shows fun i => same.iTab ▸ u i

/-- A round of `_sync` shows the same inodes. -/
lemma Cached.wp_syncInode (h : s.Cached) (u : s.Unused) :
    wp (syncInode p) (fun _ s' => s.Shows s' s.icache.content) (fun _ => True) s := by
  unfold syncInode
  simp only [wp_bind, wp_get, wp_ite, wp_pure, wp_modifyInode]
  split
  · refine wp_mono h.wp_wrInode ?_ fun _ _ => trivial
    intro _ s₁ got
    obtain ⟨keeps, b, e⟩ := got
    have clean : (s₁.iTab p).cDirty = false := by
      rw [e]
      exact congrArg Cinode.cDirty iTab_setInode
    have u₁ : s₁.Unused := e ▸ .written fun i _ => u i
    have again := keeps.cached.mark (p := p) (c := { s₁.iTab p with cDirty := false }) ⟨rfl, rfl, rfl⟩ rfl
      fun dirty => clean.symm.trans dirty
    exact (keeps.trans again).shows (u₁.setInode fun _ => rfl)
  · exact ⟨h, u, fun _ => rfl, fun _ => rfl⟩

/-- `_sync` writes the dirty entries, the superblocks and the buffers, and changes no inode. -/
lemma Cached.wp_sync (h : s.Cached) (u : s.Unused) :
    wp _sync (fun _ s' => s.Shows s' s.icache.content) (fun _ => True) s := by
  unfold _sync
  rw [wp_bind]
  refine wp_post (wp_each (fun _ s' => s.Shows s' s.icache.content) ?_ ⟨h, u, fun _ => rfl, fun _ => rfl⟩) ?_
  · intro p _ _ s₁ shows₁
    exact wp_post (shows₁.cached.wp_syncInode shows₁.unused) fun _ s₂ shows₂ => shows₁.trans shows₂
  · intro _ s₁ shows₁
    rw [wp_bind]
    refine wp_post (wp_each (fun _ s' => s.Shows s' s.icache.content) ?_ shows₁) ?_
    · intro dev _ suffix s₂ shows₂
      have hdev := List.mem_range.mp (suffix.subset List.mem_cons_self)
      refine wp_post (within_syncFs hdev s₂) fun _ s₃ keeps => ?_
      exact shows₂.trans ((keeps shows₂.cached.good).shows shows₂.cached shows₂.unused)
    · intro _ s₂ shows₂
      refine wp_post (within_bufsync s₂) fun _ s₃ keeps => ?_
      exact shows₂.trans ((keeps shows₂.cached.good).shows shows₂.cached shows₂.unused)

end Kernel

end Uzi
