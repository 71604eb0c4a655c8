import Uzi.Fs.BlockMap
import Uzi.Fs.InodeRuns

/-!
# The last reference to a device file

A device file has the number of its device in `i_addr[0]`, where other files have a block. `i_deref`
gives the inode to `f_trunc` whatever its mode, so that the number of the device goes to `blk_free`.
-/

namespace Uzi
open Exec

/-- A character or block special inode, as `_mknod` makes them: it has no blocks behind the number of
its device. -/
structure Dinode.IsDevice (d : Dinode) : Prop where
  mode : d.iMode &&& F_MASK = F_CDEV ∨ d.iMode &&& F_MASK = F_BDEV
  noBlocks : ∀ i ≠ 0, d.addr i = 0

/-- The last reference to a device file without links, on a mounted device whose free inodes are in
order. -/
structure Kernel.LastDevice (s : Kernel) (p : Inoptr) : Prop where
  good : s.bufs.Good
  released : ∀ bp, s.bufs.view.held bp = none
  dev : (s.iTab p).cDev < NDEVS
  mounted : (s.fsTab (s.iTab p).cDev).sMounted = SMOUNTED
  magic : (s.iTab p).cMagic = CMAGIC
  refs : (s.iTab p).cRefs = 1
  links : (s.iTab p).cNode.iNlink = 0
  device : (s.iTab p).cNode.IsDevice
  first : 2 ≤ (s.iTab p).cNum
  last : (s.iTab p).cNum.toNat < (s.fsTab (s.iTab p).cDev).inodeEnd s.target
  ninode : 0 ≤ (s.fsTab (s.iTab p).cDev).sNinode.toInt

/-- Inode `p` is free, and nothing else has happened: the free list and `s_tfree` are the same, and so
are all blocks but the one of the inode, in which the other inodes are the same. -/
structure Kernel.InodeFreed (s s' : Kernel) (p : Inoptr) : Prop where
  nfree : (s'.fsTab (s.iTab p).cDev).sNfree = (s.fsTab (s.iTab p).cDev).sNfree
  free : (s'.fsTab (s.iTab p).cDev).sFree = (s.fsTab (s.iTab p).cDev).sFree
  tfree : (s'.fsTab (s.iTab p).cDev).sTfree = (s.fsTab (s.iTab p).cDev).sTfree
  tinode : (s'.fsTab (s.iTab p).cDev).sTinode = (s.fsTab (s.iTab p).cDev).sTinode + 1
  fsTab : ∀ d ≠ (s.iTab p).cDev, s'.fsTab d = s.fsTab d
  view : s'.bufs.view = s.bufs.view.put ((s.iTab p).cDev, inodeBlk (s.iTab p).cNum)
    ((s.bufs.view.content ((s.iTab p).cDev, inodeBlk (s.iTab p).cNum)).setDinode
      (inodeIdx (s.iTab p).cNum) (s.iTab p).freed)
  iTab : ∀ i ≠ p, s'.iTab i = s.iTab i

namespace Kernel

variable {s : Kernel} {b : Bufs} {dev : Nat} {fs : Filesys} {p : Inoptr} {c : Cinode}

/-- The in-core inodes are as before. -/
@[simp] lemma iTab_withFs : (s.withFs b dev fs).iTab = s.iTab := rfl

/-- A superblock and an inode. -/
@[simp] lemma setInode_withFs : (s.withFs b dev fs).setInode p c = (s.setInode p c).withFs b dev fs := rfl

end Kernel

/-- The mount table entry after `i_free` has counted and entered an inode. -/
def Filesys.freeInode (fs : Filesys) (t : Time) (num : Word) : Filesys :=
  let fs' := { fs.touch t with sTinode := fs.sTinode + 1 }
  if fs.sNinode.toInt < 50 then { fs'.setInodes fs.sNinode.toNat [num] with sNinode := fs.sNinode + 1 } else fs'

namespace Filesys

variable {fs : Filesys} {t : Time} {num : Word}

/-- `i_free` leaves the free blocks. -/
lemma freeInode_blocks : (fs.freeInode t num).sNfree = fs.sNfree ∧ (fs.freeInode t num).sFree = fs.sFree ∧
    (fs.freeInode t num).sTfree = fs.sTfree ∧ (fs.freeInode t num).sTinode = fs.sTinode + 1 := by
  unfold freeInode
  split
  · exact ⟨rfl, rfl, rfl, rfl⟩
  · exact ⟨rfl, rfl, rfl, rfl⟩

end Filesys

section

variable {s : Kernel} {p : Inoptr} {dev : Nat} {num : Word} {E : Panic → Prop}

/-- `i_free` of an inode of a mounted device. -/
lemma wp_iFree {Q : PUnit → Kernel → Prop} (hdev : dev < NDEVS) (mounted : (s.fsTab dev).sMounted = SMOUNTED)
    (first : 2 ≤ num) (last : num.toNat < (s.fsTab dev).inodeEnd s.target)
    (ninode : 0 ≤ (s.fsTab dev).sNinode.toInt) :
    wp (iFree dev num) Q E s ↔ Q ⟨⟩ (s.withFs s.bufs dev ((s.fsTab dev).freeInode s.tod num)) := by
  have ok : ¬ (num < 2 ∨ (s.fsTab dev).inodeEnd s.target ≤ num.toNat) := by
    rintro (lt | le)
    · exact absurd first (BitVec.not_le.mpr lt)
    · omega
  have good : baddev ((s.fsTab dev).touch s.tod) = false := decide_eq_false (not_not.mpr mounted)
  have nonneg : ¬ (s.fsTab dev).sNinode.toInt < 0 := Int.not_lt.mpr ninode
  unfold iFree
  simp only [wp_bind, wp_getdev hdev mounted, wp_get, Kernel.fsTab_withFs, good, Bool.false_eq_true, if_false,
    wp_ite, wp_modifyFs, Kernel.withFs_withFs, Kernel.bufs_withFs]
  have ok : ¬ (num < 2 ∨ ((s.fsTab dev).touch s.tod).inodeEnd (s.withFs s.bufs dev ((s.fsTab dev).touch s.tod)).target
      ≤ num.toNat) := ok
  have nonneg : ¬ ((s.fsTab dev).touch s.tod).sNinode.toInt < 0 := nonneg
  rw [if_neg ok, if_neg nonneg]
  unfold Filesys.freeInode
  split
  · next room => rw [if_pos (show (s.fsTab dev).sNinode.toInt < 50 from room)]; rfl
  · next full => rw [if_neg (show ¬ (s.fsTab dev).sNinode.toInt < 50 from full)]; rfl

/-- `blk_free` of a block counts it, where it returns. -/
lemma wp_blkFree_counts {b : Word} (g : s.bufs.Good) (hdev : dev < NDEVS)
    (mounted : (s.fsTab dev).sMounted = SMOUNTED) (ne : b ≠ 0) :
    wp (blkFree dev b)
      (fun _ s' => ∃ b' fs', s' = s.withFs b' dev fs' ∧ b'.Good ∧ b'.view.held = s.bufs.view.held ∧
        (s.fsTab dev).Recounted fs' ∧ fs'.sTfree = (s.fsTab dev).sTfree + 1)
      (fun _ => True) s := by
  have good : baddev ((s.fsTab dev).touch s.tod) = false := decide_eq_false (not_not.mpr mounted)
  have push : ∀ (b' : Bufs) (fs : Filesys), b'.Good → b'.view.held = s.bufs.view.held →
      ((s.fsTab dev).touch s.tod).Recounted fs → fs.sTfree = (s.fsTab dev).sTfree →
      wp (blkFreePush dev b)
        (fun _ s' => ∃ b' fs', s' = s.withFs b' dev fs' ∧ b'.Good ∧ b'.view.held = s.bufs.view.held ∧
          (s.fsTab dev).Recounted fs' ∧ fs'.sTfree = (s.fsTab dev).sTfree + 1)
        (fun _ => True) (s.withFs b' dev fs) := by
    intro b' fs g' held r count
    unfold blkFreePush
    simp only [wp_bind, wp_get, wp_ite, wp_throw, wp_modifyFs, Kernel.fsTab_withFs, Kernel.withFs_withFs,
      Kernel.bufs_withFs]
    split
    · trivial
    · have fmod : fs.sFmod = 1 := by
        cases r.fmod with
        | inl same => rw [same]; rfl
        | inr modified => exact modified
      exact ⟨b', _, rfl, g', held, ⟨r.mounted, r.isize, r.fsize, r.ninode, r.inode, r.tinode, r.mntpt, .inr fmod⟩,
        congrArg (· + 1) count⟩
  unfold blkFree
  simp only [wp_ite, ne, if_false, wp_bind, wp_getdev hdev mounted, wp_get, Kernel.fsTab_withFs, good,
    Bool.false_eq_true]
  refine wp_post wp_validblk_isize fun _ s₁ valid => ?_
  obtain ⟨e, -⟩ := valid
  subst e
  split
  · refine wp_mono (wp_blkFreeSpill g hdev) (fun _ s₂ got => ?_) fun _ _ => trivial
    obtain ⟨b', x, e, g', v, -⟩ := got
    subst e
    rw [Kernel.fsTab_withFs, Kernel.withFs_withFs]
    exact push b' _ g' (by rw [v]; rfl) ⟨rfl, rfl, rfl, rfl, rfl, rfl, rfl, .inr rfl⟩ rfl
  · exact push s.bufs _ g rfl .refl rfl

/-- A loop whose rounds but the last do nothing. -/
lemma wp_forDown_last {body : Nat → K PUnit} {Q : PUnit → Kernel → Prop} {n : Nat}
    (skip : ∀ k, k ≠ 0 → ∀ Q : PUnit → Kernel → Prop, wp (body k) Q E s ↔ Q ⟨⟩ s) :
    wp (forDown body (n + 1)) Q E s ↔ wp (body 0) Q E s := by
  induction n with
  | zero => rw [forDown, wp_bind]; rfl
  | succ n ih => rw [forDown, wp_bind, skip _ (Nat.succ_ne_zero n), ih]

/-- `f_trunc` of a device file treats the number of the device as a block. -/
lemma wp_fTrunc_device {Q : PUnit → Kernel → Prop} (device : (s.iTab p).cNode.IsDevice) :
    wp (fTrunc p) Q E s ↔
      wp (freeblk (s.iTab p).cDev ((s.iTab p).cNode.addr 0) 0)
        (fun _ s' => Q ⟨⟩ (s'.setInode p (s'.iTab p).truncated)) E s := by
  have none : ∀ k, k ≠ 0 → ∀ level, ∀ Q : PUnit → Kernel → Prop,
      wp (freeblk (s.iTab p).cDev ((s.iTab p).cNode.addr k) level) Q E s ↔ Q ⟨⟩ s := by
    intro k hk level Q
    rw [device.noBlocks k hk]
    cases level with
    | zero => rw [freeblk, wp_ite, if_pos rfl, wp_pure]
    | succ => rw [freeblk, wp_ite, if_pos rfl, wp_pure]
  unfold fTrunc
  simp only [wp_bind, wp_get]
  rw [none 19 (by decide) 2, none 18 (by decide) 1]
  refine (wp_forDown_last fun k hk Q => ?_).trans ?_
  · rw [wp_bind, wp_get]
    exact none k hk 0 Q
  · rw [wp_bind, wp_get]
    rfl

/-- `magic` of an entry that is in order. -/
lemma wp_magic {Q : PUnit → Kernel → Prop} (h : (s.iTab p).cMagic = CMAGIC) : wp (magic p) Q E s ↔ Q ⟨⟩ s := by
  unfold magic
  rw [wp_bind, wp_get, wp_ite, if_neg (not_not.mpr h), wp_pure]

/-- What `i_deref` does with the last reference to a device file, once `blk_free` has had the number of
its device. -/
lemma Kernel.LastDevice.wp_iDeref (h : s.LastDevice p) {R : Bufs → Filesys → Prop}
    (frees : wp (freeblk (s.iTab p).cDev ((s.iTab p).cNode.addr 0) 0)
      (fun _ t => ∃ b fs, t = (s.setInode p { s.iTab p with cRefs := 0 }).withFs b (s.iTab p).cDev fs ∧ b.Good ∧
        b.view.held = s.bufs.view.held ∧ (s.fsTab (s.iTab p).cDev).Recounted fs ∧ R b fs)
      E (s.setInode p { s.iTab p with cRefs := 0 })) :
    wp (Uzi.iDeref p)
      (fun _ s' => ∃ b fs b' c, R b fs ∧ s' = (s.setInode p c).withFs b' (s.iTab p).cDev
        (fs.freeInode s.tod (s.iTab p).cNum) ∧
        b'.view = b.view.put ((s.iTab p).cDev, inodeBlk (s.iTab p).cNum)
          ((b.view.content ((s.iTab p).cDev, inodeBlk (s.iTab p).cNum)).setDinode
            (inodeIdx (s.iTab p).cNum) (s.iTab p).freed))
      E s := by
  have alive : ¬ (s.iTab p).cRefs = 0 := by
    rw [h.refs]
    decide
  have noPipe : ¬ (s.iTab p).getmode = F_PIPE := by
    rw [Cinode.getmode]
    cases h.device.mode with
    | inl cdev => rw [cdev]; decide
    | inr bdev => rw [bdev]; decide
  have less : (s.iTab p).cRefs - 1 = 0 := by
    rw [h.refs]
    rfl
  have dev : (s.iTab p).cDev = ((s.setInode p { s.iTab p with cRefs := 0 }).iTab p).cDev := by
    rw [Kernel.iTab_setInode]
  have addr : (s.iTab p).cNode = ((s.setInode p { s.iTab p with cRefs := 0 }).iTab p).cNode := by
    rw [Kernel.iTab_setInode]
  unfold Uzi.iDeref
  simp only [wp_bind, wp_get, wp_ite, wp_throw, wp_pure, wp_modifyInode, wp_magic h.magic,
    if_false, alive, noPipe, Kernel.iTab_setInode, less, h.links, true_and, if_true]
  rw [wp_fTrunc_device (addr ▸ h.device), ← dev, ← addr]
  refine wp_post frees fun _ t got => ?_
  obtain ⟨b, fs, e, g, held, r, hR⟩ := got
  subst e
  have links : ({ s.iTab p with cRefs := 0 } : Cinode).truncated.cNode.iNlink = 0 := h.links
  have mounted : fs.sMounted = SMOUNTED := r.mounted.trans h.mounted
  have ends : fs.inodeEnd s.target = (s.fsTab (s.iTab p).cDev).inodeEnd s.target := by
    unfold Filesys.inodeEnd
    rw [r.isize]
  simp only [Kernel.setInode_withFs, Kernel.iTab_withFs, Kernel.iTab_setInode, Kernel.setInode_setInode]
  rw [if_pos ⟨rfl, rfl⟩, if_pos links]
  refine (wp_iFree h.dev ?_ h.first ?_ ?_).mpr ?_
  · rw [Kernel.fsTab_withFs, mounted]
  · rw [Kernel.fsTab_withFs]
    exact ends.symm ▸ h.last
  · rw [Kernel.fsTab_withFs, r.ninode]
    exact h.ninode
  · rw [Kernel.fsTab_withFs, Kernel.withFs_withFs]
    refine wp_mono (Kernel.wp_wrInode (s := Kernel.withFs (s.setInode p _) b _ _) g (fun bp => ?_) fun _ => ?_)
      (fun _ s' got => ?_) fun e stop => ?_
    · exact (congrFun held bp).trans (h.released bp)
    · rw [Kernel.iTab_withFs, Kernel.iTab_setInode]
      exact h.dev
    · obtain ⟨-, b', e, -, v⟩ := got
      rw [Kernel.iTab_withFs, Kernel.iTab_setInode] at v
      refine ⟨b, fs, b', { s.iTab p with cRefs := 0, cNode := (s.iTab p).freed, cDirty := false }, hR, ?_, v⟩
      rw [e, Kernel.written, Kernel.iTab_withFs, Kernel.iTab_setInode, Kernel.setInode_withFs,
        Kernel.setInode_setInode]
      rfl
    · rw [Kernel.iTab_withFs, Kernel.iTab_setInode] at stop
      exact absurd h.magic stop.2

/-- Device number 0 is taken for no block. -/
lemma Kernel.LastDevice.inodeFreed (h : s.LastDevice p) (zero : (s.iTab p).cNode.addr 0 = 0) :
    wp (Uzi.iDeref p) (fun _ s' => s.InodeFreed s' p) (fun _ => False) s := by
  have frees : wp (freeblk (s.iTab p).cDev ((s.iTab p).cNode.addr 0) 0)
      (fun _ t => ∃ b fs, t = (s.setInode p { s.iTab p with cRefs := 0 }).withFs b (s.iTab p).cDev fs ∧ b.Good ∧
        b.view.held = s.bufs.view.held ∧ (s.fsTab (s.iTab p).cDev).Recounted fs ∧
          b = s.bufs ∧ fs = s.fsTab (s.iTab p).cDev)
      (fun _ => False) (s.setInode p { s.iTab p with cRefs := 0 }) := by
    rw [zero, freeblk, wp_ite, if_pos rfl, wp_pure]
    exact ⟨s.bufs, s.fsTab (s.iTab p).cDev, Kernel.withFs_self.symm, h.good, rfl, .refl, rfl, rfl⟩
  refine wp_post (h.wp_iDeref (R := fun b fs => b = s.bufs ∧ fs = s.fsTab (s.iTab p).cDev) frees) fun _ s' got => ?_
  obtain ⟨b, fs, b', c, ⟨rfl, rfl⟩, e, v⟩ := got
  subst e
  obtain ⟨nfree, free, tfree, tinode⟩ :=
    (Filesys.freeInode_blocks : ((s.fsTab (s.iTab p).cDev).freeInode s.tod (s.iTab p).cNum).sNfree = _ ∧ _)
  refine ⟨?_, ?_, ?_, ?_, fun d ne => ?_, v, fun i ne => ?_⟩
  · rw [Kernel.fsTab_withFs, nfree]
  · rw [Kernel.fsTab_withFs, free]
  · rw [Kernel.fsTab_withFs, tfree]
  · rw [Kernel.fsTab_withFs, tinode]
  · exact Kernel.fsTab_withFs_of_ne ne
  · exact Kernel.iTab_setInode_of_ne ne

/-- Any other device number goes to the free list, where `i_deref` returns. -/
lemma Kernel.LastDevice.counted (h : s.LastDevice p) (ne : (s.iTab p).cNode.addr 0 ≠ 0) :
    wp (Uzi.iDeref p)
      (fun _ s' => (s'.fsTab (s.iTab p).cDev).sTfree = (s.fsTab (s.iTab p).cDev).sTfree + 1) (fun _ => True) s := by
  have frees : wp (freeblk (s.iTab p).cDev ((s.iTab p).cNode.addr 0) 0)
      (fun _ t => ∃ b fs, t = (s.setInode p { s.iTab p with cRefs := 0 }).withFs b (s.iTab p).cDev fs ∧ b.Good ∧
        b.view.held = s.bufs.view.held ∧ (s.fsTab (s.iTab p).cDev).Recounted fs ∧
          fs.sTfree = (s.fsTab (s.iTab p).cDev).sTfree + 1)
      (fun _ => True) (s.setInode p { s.iTab p with cRefs := 0 }) := by
    rw [freeblk, wp_ite, if_neg ne]
    exact wp_blkFree_counts h.good h.dev h.mounted ne
  refine wp_post (h.wp_iDeref (R := fun _ fs => fs.sTfree = (s.fsTab (s.iTab p).cDev).sTfree + 1) frees)
    fun _ s' got => ?_
  obtain ⟨b, fs, b', c, count, e, -⟩ := got
  subst e
  rw [Kernel.fsTab_withFs, ← count]
  exact Filesys.freeInode_blocks.2.2.1

/-- Where only the inode is freed, the device number is 0. -/
lemma Kernel.LastDevice.addr_eq (h : s.LastDevice p)
    (freed : wp (Uzi.iDeref p) (fun _ s' => s.InodeFreed s' p) (fun _ => False) s) :
    (s.iTab p).cNode.addr 0 = 0 := by
  by_contra ne
  obtain ⟨_, s', -, count, same⟩ := (wp_mono ((h.counted ne).and freed) (fun _ _ => id) fun _ => And.right).returns
  have one : (1 : Word) = 0 := add_eq_left.mp (count.symm.trans same.tfree)
  exact absurd one (by decide)

/-- The last reference to a device file frees its inode and nothing else exactly if its device number
is 0. -/
theorem iDeref_device (h : s.LastDevice p) :
    wp (Uzi.iDeref p) (fun _ s' => s.InodeFreed s' p) (fun _ => False) s ↔ (s.iTab p).cNode.addr 0 = 0 :=
  ⟨h.addr_eq, h.inodeFreed⟩

end

/-- The small file system with the last reference to a device file. -/
def deviceFs (dev : Word) : Kernel :=
  mountedFs.setInode 0 ⟨CMAGIC, 0, 5,
    ⟨F_CDEV, 0, 0, 0, ⟨0, 0⟩, ⟨0, 0⟩, ⟨0, 0⟩, ⟨0, 0⟩, fun i => if i = 0 then dev else 0⟩, 1, true⟩

/-- The last reference to a device. -/
lemma lastDevice_deviceFs {dev : Word} : (deviceFs dev).LastDevice 0 where
  good := Bufs.good_inited.1
  released bp := congrFun (congrArg View.held Bufs.good_inited.2) bp
  dev := (by decide : 0 < NDEVS)
  mounted := (by decide +kernel : (mountedFs.fsTab 0).sMounted = SMOUNTED)
  magic := rfl
  refs := rfl
  links := rfl
  device := by
    refine ⟨.inl (by decide : F_CDEV &&& F_MASK = F_CDEV), fun i ne => ?_⟩
    show (if h : i < 20 then (if (⟨i, h⟩ : Fin 20) = 0 then dev else 0) else 0) = 0
    split
    · next lt => exact if_neg fun e => ne (congrArg Fin.val e)
    · rfl
  first := (by decide : (2 : Word) ≤ 5)
  last := (by decide +kernel : 5 < (mountedFs.fsTab 0).inodeEnd .nes)
  ninode := (by decide +kernel : 0 ≤ (mountedFs.fsTab 0).sNinode.toInt)

/-- The device with number 0 goes without a trace. -/
theorem iDeref_device_zero :
    wp (iDeref 0) (fun _ s' => (deviceFs 0).InodeFreed s' 0) (fun _ => False) (deviceFs 0) :=
  (iDeref_device lastDevice_deviceFs).mpr rfl

/-- Device number 4 is put on the free list, where block 4 is. -/
theorem not_iDeref_device : ¬ ∀ {s : Kernel} {p : Inoptr}, s.LastDevice p →
    wp (iDeref p) (fun _ s' => s.InodeFreed s' p) (fun _ => False) s := by
  intro h
  have zero : (4 : Word) = 0 := lastDevice_deviceFs.addr_eq (h lastDevice_deviceFs)
  exact absurd zero (by decide)

end Uzi
