import Uzi.Fs.Ownership
import Uzi.Fs.Inodes
import Uzi.Fs.FreeListRuns

/-!
# Block ownership over whole runs

Calls of `bmap` and `f_trunc` on the in-core inodes `I` of a device. `Partition` says that every block of
the data area has one place: on the free list, or in the tree of one inode. `rest` are the inodes of the
device that are not in core.
-/

namespace Uzi
open Exec BlockTree

variable {dev : Nat} {I : Finset Inoptr} {rest : List Dinode} {s s₀ : Kernel} {L : List Word}

/-- The blocks of all inodes, each as often as it has a place in a tree. -/
noncomputable def ownedBlocks (dev : Nat) (I : Finset Inoptr) (rest : List Dinode) (s : Kernel) :
    Multiset Word :=
  ∑ i ∈ I, (s.iTab i).cNode.blocks (s.cell dev) + (rest.map (Dinode.blocks (s.cell dev))).sum

/-- Every block of the data area has exactly one place, and no other block has one. -/
structure Partition (dev : Nat) (I : Finset Inoptr) (rest : List Dinode) (s : Kernel)
    (L : List Word) : Prop where
  list : FreeList (s.fsTab dev) (s.cell dev) L
  once : ∀ b, (↑L + ownedBlocks dev I rest s).count b =
    if (s.fsTab dev).sIsize ≤ b ∧ b < (s.fsTab dev).sFsize then 1 else 0

/-- The invariant of a run. -/
structure OwnershipInv (dev : Nat) (I : Finset Inoptr) (rest : List Dinode) (s : Kernel)
    (L : List Word) : Prop where
  good : s.bufs.Good
  inodes : ∀ i ∈ I, (s.iTab i).cDev = dev ∧
    ((s.iTab i).getmode = F_REG ∨ (s.iTab i).getmode = F_DIR ∨ (s.iTab i).getmode = F_PIPE)
  partition : Partition dev I rest s L

/-- The blocks of an inode are the same. -/
lemma Dinode.blocks_congr {cell cell' : Word → Block} {d : Dinode}
    (h : ∀ c ∈ d.blocks cell, cell' c = cell c) : d.blocks cell' = d.blocks cell :=
  Finset.sum_congr rfl fun j hj =>
    blockTree_congr fun c hc => h c (Multiset.mem_sum.mpr ⟨j, hj, hc⟩)

namespace Partition

/-- No block has two places. -/
lemma nodup (h : Partition dev I rest s L) : (↑L + ownedBlocks dev I rest s).Nodup := by
  refine Multiset.nodup_iff_count_le_one.mpr fun b => ?_
  rw [h.once]
  split
  · exact Nat.le_refl 1
  · exact Nat.zero_le 1

/-- Every block is in range. -/
lemma range (h : Partition dev I rest s L) {b : Word} (hb : b ∈ ↑L + ownedBlocks dev I rest s) :
    (s.fsTab dev).sIsize ≤ b ∧ b < (s.fsTab dev).sFsize := by
  by_contra out
  have none := h.once b
  rw [if_neg out] at none
  exact absurd (Multiset.count_pos.mpr hb) (by omega)

/-- The blocks of one inode and those of the others. -/
lemma owned_eq {ip : Inoptr} (hip : ip ∈ I) : ownedBlocks dev I rest s =
    (s.iTab ip).cNode.blocks (s.cell dev) + (∑ i ∈ I.erase ip, (s.iTab i).cNode.blocks (s.cell dev) +
      (rest.map (Dinode.blocks (s.cell dev))).sum) := by
  rw [ownedBlocks, ← Finset.add_sum_erase _ _ hip, add_assoc]

/-- The list and the blocks of one inode change, and together stay what they were. -/
lemma move {ip : Inoptr} {s' : Kernel} {L' : List Word} (h : Partition dev I rest s L) (hip : ip ∈ I)
    (list : FreeList (s'.fsTab dev) (s'.cell dev) L')
    (recounted : (s.fsTab dev).Recounted (s'.fsTab dev))
    (same : ∀ i ≠ ip, s'.iTab i = s.iTab i)
    (content : ∀ c, c ∉ ↑L + (s.iTab ip).cNode.blocks (s.cell dev) → s'.cell dev c = s.cell dev c)
    (sum : ↑L' + (s'.iTab ip).cNode.blocks (s'.cell dev) = ↑L + (s.iTab ip).cNode.blocks (s.cell dev)) :
    Partition dev I rest s' L' where
  list := list
  once b := by
    have nodup := h.nodup
    rw [owned_eq hip, ← add_assoc] at nodup
    have off : ∀ c ∈ ∑ i ∈ I.erase ip, (s.iTab i).cNode.blocks (s.cell dev) +
        (rest.map (Dinode.blocks (s.cell dev))).sum, s'.cell dev c = s.cell dev c :=
      fun c hc => content c fun hm => notMem_of_nodup nodup hm hc
    have others : ∑ i ∈ I.erase ip, (s'.iTab i).cNode.blocks (s'.cell dev) =
        ∑ i ∈ I.erase ip, (s.iTab i).cNode.blocks (s.cell dev) := by
      refine Finset.sum_congr rfl fun i hi => ?_
      rw [same i (Finset.ne_of_mem_erase hi)]
      refine Dinode.blocks_congr fun c hc => off c (Multiset.mem_add.mpr (.inl ?_))
      exact Multiset.mem_sum.mpr ⟨i, hi, hc⟩
    have out : rest.map (Dinode.blocks (s'.cell dev)) = rest.map (Dinode.blocks (s.cell dev)) := by
      refine List.map_congr_left fun d hd => ?_
      refine Dinode.blocks_congr fun c hc => off c (Multiset.mem_add.mpr (.inr ?_))
      exact Multiset.mem_of_le (List.single_le_sum (fun _ _ => Multiset.zero_le _) _
        (List.mem_map_of_mem hd)) hc
    rw [owned_eq hip, others, out, ← add_assoc, sum, add_assoc, ← owned_eq hip, recounted.isize,
      recounted.fsize]
    exact h.once b

end Partition

namespace OwnershipInv

/-- The part of the partition that belongs to one inode. -/
lemma part (h : OwnershipInv dev I rest s L) {ip : Inoptr} (hip : ip ∈ I) :
    (↑L + (s.iTab ip).cNode.blocks (s.cell dev)).Nodup ∧
      ∀ c ∈ (s.iTab ip).cNode.blocks (s.cell dev),
        (s.fsTab dev).sIsize ≤ c ∧ c < (s.fsTab dev).sFsize := by
  constructor
  · have nodup := h.partition.nodup
    rw [Partition.owned_eq hip, ← add_assoc] at nodup
    exact (Multiset.nodup_add.mp nodup).1
  · refine fun c hc => h.partition.range (Multiset.mem_add.mpr (.inr ?_))
    rw [Partition.owned_eq hip]
    exact Multiset.mem_add.mpr (.inl hc)

/-- `bmap` keeps the invariant. -/
lemma bmap (h : OwnershipInv dev I rest s L) (hdev : dev < NDEVS) {ip : Inoptr} (hip : ip ∈ I)
    {bn : Word} {rwflg : Bool} :
    wp (Uzi.bmap ip bn rwflg) (fun _ s' => ∃ L', OwnershipInv dev I rest s' L')
      (s.bufs.view.Stops 1 {n | n.1 = dev}) s := by
  obtain ⟨own, modes⟩ := h.inodes ip hip
  have mode : (s.iTab ip).getmode ≠ F_BDEV := by
    intro e
    rw [e] at modes
    exact absurd modes (by decide)
  refine wp_mono (wp_bmap h.good hdev own mode h.partition.list (h.part hip).1) ?_
    fun e st => st.mono (Nat.le_refl 1) fun n hn => hn.1
  rintro _ _ ⟨t, c, L', f, rfl, mapped, sum, -⟩
  have same : ∀ i ≠ ip, (t.setInode ip c).iTab i = s.iTab i := fun i hi => by
    rw [← f.iTab]
    exact Function.update_of_ne hi _ _
  have self : (t.setInode ip c).iTab ip = c := Function.update_self ..
  refine ⟨L', f.good, fun i hi => ?_, ?_⟩
  · by_cases e : i = ip
    · subst e
      rw [self, mapped.eq]
      exact h.inodes i hi
    · rw [same i e]
      exact h.inodes i hi
  · refine h.partition.move hip f.list f.recounted same (fun b hb => f.content (dev, b) fun _ hm => hb ?_) ?_
    · exact Multiset.mem_of_le (add_le_add_right (blockTree_le_blocks mapSlot_lt) _) hm
    · rw [self]
      exact sum

/-- `f_trunc` keeps the invariant. -/
lemma fTrunc (h : OwnershipInv dev I rest s L) (hdev : dev < NDEVS) {ip : Inoptr} (hip : ip ∈ I) :
    wp (Uzi.fTrunc ip) (fun _ s' => ∃ L', OwnershipInv dev I rest s' L')
      (s.bufs.view.Stops 2 {n | n.1 = dev}) s := by
  obtain ⟨nodup, range⟩ := h.part hip
  refine wp_mono (wp_fTrunc h.good hdev (h.inodes ip hip).1 h.partition.list nodup) ?_ fun e st => ?_
  swap
  · cases st with
    | inl st => exact st.mono (Nat.le_refl 2) fun n hn => hn.1
    | inr bad =>
      obtain ⟨-, c, hc, out⟩ := bad
      exact absurd (range c hc) out
  rintro _ _ ⟨t, L', f, sum, rfl⟩
  have same : ∀ i ≠ ip, (t.setInode ip (s.iTab ip).truncated).iTab i = s.iTab i := fun i hi => by
    rw [← f.iTab]
    exact Function.update_of_ne hi _ _
  have self : (t.setInode ip (s.iTab ip).truncated).iTab ip = (s.iTab ip).truncated :=
    Function.update_self ..
  have empty : ∀ cell, (s.iTab ip).truncated.cNode.blocks cell = 0 := by
    intro cell
    refine Finset.sum_eq_zero fun j hj => ?_
    rw [Dinode.addr, dif_pos (Finset.mem_range.mp hj)]
    exact blockTree_zero
  refine ⟨L', f.good, fun i hi => ?_, ?_⟩
  · by_cases e : i = ip
    · subst e
      rw [self]
      exact h.inodes i hi
    · rw [same i e]
      exact h.inodes i hi
  · refine h.partition.move hip f.list f.recounted same (fun b hb => f.content (dev, b) fun _ hm => ?_) ?_
    · exact hb (sum ▸ Multiset.mem_coe.mpr hm)
    · rw [self, empty, add_zero, sum]

end OwnershipInv

/-! ## Runs -/

/-- The states that calls of `bmap` and `f_trunc` on the inodes `I` lead to. -/
inductive BlockRun (I : Finset Inoptr) (s₀ : Kernel) : Kernel → Prop
  | start : BlockRun I s₀ s₀
  | bmap {s s' ip bn rwflg r} (run : BlockRun I s₀ s) (hip : ip ∈ I)
      (ok : Uzi.bmap ip bn rwflg s = .ok (r, s')) : BlockRun I s₀ s'
  | fTrunc {s s' ip} (run : BlockRun I s₀ s) (hip : ip ∈ I)
      (ok : Uzi.fTrunc ip s = .ok (⟨⟩, s')) : BlockRun I s₀ s'

/-- What a state of a run promises. A call can stop only because a block that it needs is held by
someone, or there are not enough idle buffers. -/
structure PartitionKept (dev : Nat) (I : Finset Inoptr) (rest : List Dinode) (s : Kernel) : Prop where
  partition : ∃ L, Partition dev I rest s L
  bmap : ∀ ip ∈ I, ∀ bn rwflg, wp (Uzi.bmap ip bn rwflg)
    (fun _ s' => ∃ L, Partition dev I rest s' L) (s.bufs.view.Stops 1 {n | n.1 = dev}) s
  fTrunc : ∀ ip ∈ I, wp (Uzi.fTrunc ip)
    (fun _ s' => ∃ L, Partition dev I rest s' L) (s.bufs.view.Stops 2 {n | n.1 = dev}) s

/-- The invariant holds in every state of a run. -/
lemma OwnershipInv.run (hdev : dev < NDEVS) (start : OwnershipInv dev I rest s₀ L)
    (run : BlockRun I s₀ s) : ∃ L', OwnershipInv dev I rest s L' := by
  induction run with
  | start => exact ⟨L, start⟩
  | bmap _ hip ok ih =>
    obtain ⟨L', inv⟩ := ih
    exact (inv.bmap hdev hip).ok ok
  | fTrunc _ hip ok ih =>
    obtain ⟨L', inv⟩ := ih
    exact (inv.fTrunc hdev hip).ok ok

/-- Every run of `bmap` and `f_trunc` on regular files, directories and pipes keeps the partition. -/
theorem partition_run (hdev : dev < NDEVS) (good : s₀.bufs.Good)
    (inodes : ∀ i ∈ I, (s₀.iTab i).cDev = dev ∧ ((s₀.iTab i).getmode = F_REG ∨
      (s₀.iTab i).getmode = F_DIR ∨ (s₀.iTab i).getmode = F_PIPE))
    (start : Partition dev I rest s₀ L) (run : BlockRun I s₀ s) : PartitionKept dev I rest s := by
  obtain ⟨L', inv⟩ := OwnershipInv.run hdev ⟨good, inodes, start⟩ run
  refine ⟨⟨L', inv.partition⟩, fun ip hip bn rwflg => ?_, fun ip hip => ?_⟩
  · exact wp_post (inv.bmap hdev hip) fun _ _ ⟨L, h⟩ => ⟨L, h.partition⟩
  · exact wp_post (inv.fTrunc hdev hip) fun _ _ ⟨L, h⟩ => ⟨L, h.partition⟩

/-- A small file system that `mkfs` made, its root directory being in core. -/
def rootFs : Kernel :=
  { freshFs 6 3 with
    iTab := fun _ => ⟨CMAGIC, 0, ROOTINODE, .ofBlock (mkfs 6 3 2) 1, 1, false⟩ }

/-- The blocks of the small disk. -/
lemma partition_rootFs : Partition 0 {0} [] rootFs [4, 5] := by
  have ok : Mkfs.Accepts 6 3 := by
    refine ⟨?_, ?_, ?_⟩ <;> decide
  have made : Formatted rootFs 0 6 3 := ⟨formatted_freshFs.cells, formatted_freshFs.loaded⟩
  obtain ⟨list, isz, fsz⟩ := made.freeList ok
  have addr : ∀ j ∈ Finset.range 20, (rootFs.iTab 0).cNode.addr j = if j = 0 then 3 else 0 := by
    decide +kernel
  have blocks : (rootFs.iTab 0).cNode.blocks (rootFs.cell 0) = {3} := by
    rw [Dinode.blocks, Finset.sum_eq_single_of_mem 0 (Finset.mem_range.mpr (by decide))]
    · rw [addr 0 (Finset.mem_range.mpr (by decide))]
      exact sub_zero (by decide)
    · intro j hj ne
      rw [addr j hj, if_neg ne, blockTree_zero]
  refine ⟨list, fun b => ?_⟩
  rw [ownedBlocks, Finset.sum_singleton, blocks, isz, fsz]
  have mem : b ∈ (↑([4, 5] : List Word) + {3} + 0 : Multiset Word) ↔ 3 ≤ b ∧ b < 6 := by
    simp only [Multiset.mem_add, Multiset.mem_coe, List.mem_cons, List.not_mem_nil, or_false,
      Multiset.mem_singleton, Multiset.notMem_zero]
    bv_omega
  split
  · next inside => exact Multiset.count_eq_one_of_mem (by decide) (mem.mpr inside)
  · next outside => exact Multiset.count_eq_zero_of_notMem (mt mem.mp outside)

/-- The partition of the small file system is kept by two calls of `bmap`. The first takes an indirect
block and a data block, and the second, for a block behind two indirect ones, finds none left. -/
theorem partition_run_rootFs : ∃ s s', bmap 0 18 false rootFs = .ok (5, s) ∧
    bmap 0 300 false s = .ok (NULLBLK, s') ∧ PartitionKept 0 {0} [] s' := by
  have values : ((do
      let a ← bmap 0 18 false
      let b ← bmap 0 300 false
      pure (a, b) : K (Word × Word)) rootFs).map Prod.fst = .ok (5, NULLBLK) := by decide +kernel
  cases run : (do
      let a ← bmap 0 18 false
      let b ← bmap 0 300 false
      pure (a, b) : K (Word × Word)) rootFs with
  | error e =>
    rw [run] at values
    cases values
  | ok r =>
    obtain ⟨ab, s'⟩ := r
    rw [run] at values
    cases values
    obtain ⟨a, s, first, run⟩ := bind_ok run
    obtain ⟨b, s', second, run⟩ := bind_ok run
    cases run
    have inodes : ∀ i ∈ ({0} : Finset Inoptr), (rootFs.iTab i).cDev = 0 ∧
        ((rootFs.iTab i).getmode = F_REG ∨ (rootFs.iTab i).getmode = F_DIR ∨
          (rootFs.iTab i).getmode = F_PIPE) := by decide +kernel
    have hip : (0 : Inoptr) ∈ ({0} : Finset Inoptr) := Finset.mem_singleton_self 0
    have good : rootFs.bufs.Good := Bufs.good_inited.1
    exact ⟨s, s', first, second, partition_run (by decide) good inodes partition_rootFs
      ((BlockRun.start.bmap hip first).bmap hip second)⟩

end Uzi
