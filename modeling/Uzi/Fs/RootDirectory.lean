import Uzi.Fs.Directory
import Uzi.Fs.FreeListRuns

/-!
# The root directory of a new file system

`mkfs` makes one directory, with the entries `.` and `..` in the block behind the inodes. Every other block of the data
area is free.
-/

namespace Uzi
open Exec

variable {s : Kernel} {dev : Nat} {fsize isize : Word} {cell : Word → Block} {i : Inoptr}

/-! ## The root directory -/

namespace Mkfs

/-- The root directory. -/
def rootNode (isize : Word) : Dinode := .ofBlock (inodes isize) 1

/-- The blocks in front of the root directory are other ones. -/
lemma ne_isize {n : Word} (lt : n.toNat < isize.toNat) : n ≠ isize := fun e => absurd (congrArg BitVec.toNat e) lt.ne

variable (fsize) in
/-- The block of the first inodes. -/
lemma mkfs_inodes (lt : 3 ≤ isize.toNat) : mkfs fsize isize 2 = inodes isize := by
  have ne : 2 ≠ isize := ne_isize lt
  simp only [mkfs]
  rw [Function.update_of_ne (by decide), Function.update_of_ne ne, Function.update_self]

variable (fsize) in
/-- The block of the root directory. -/
lemma mkfs_dirbuf (lt : 3 ≤ isize.toNat) : mkfs fsize isize isize = dirbuf := by
  have ne : isize ≠ 1 := (ne_isize (Nat.lt_of_lt_of_le (by decide) lt)).symm
  simp only [mkfs]
  rw [Function.update_of_ne ne, Function.update_self]

/-- The mode of the root. -/
lemma iMode_rootNode : (rootNode isize).iMode = F_DIR ||| (0o777 &&& MODE_MASK) := rfl

/-- The links of the root. -/
lemma iNlink_rootNode : (rootNode isize).iNlink = 3 := rfl

/-- The size of the root. -/
lemma iSize_rootNode : (rootNode isize).iSize = ⟨0, 32⟩ := rfl

/-- The addresses of the root. -/
lemma addr_rootNode {j : Nat} (lt : j < 20) : (rootNode isize).addr j = if j = 0 then isize else 0 := by
  rw [rootNode, Dinode.addr, dif_pos lt]
  show Block.word (inodes isize) (32 * 1 + 12 + j) = _
  rw [inodes, Block.word_ofWords (by omega), if_neg (by omega), if_neg (by omega), if_neg (by omega), if_neg (by omega),
    if_neg (by omega)]
  exact if_congr (by omega) rfl rfl

/-- The directory has one block. -/
lemma stored_rootNode (bn : Word) : (rootNode isize).stored cell bn = if bn = 0 then isize else 0 := by
  have zero : bn = 0 ↔ bn.toNat = 0 := BitVec.toNat_inj.symm
  rw [Dinode.stored]
  split
  · next lt =>
    rw [addr_rootNode (by omega)]
    exact if_congr zero.symm rfl rfl
  · next high =>
    have nil : (rootNode isize).addr 18 = 0 ∧ (rootNode isize).addr 19 = 0 :=
      ⟨addr_rootNode (by decide), addr_rootNode (by decide)⟩
    rw [nil.1, nil.2, if_neg (zero.not.mpr (by omega))]
    split <;> simp [entry]

/-- The blocks of the root. -/
lemma blocks_rootNode (ne : isize ≠ 0) : (rootNode isize).blocks cell = {isize} := by
  rw [Dinode.blocks, Finset.sum_eq_single_of_mem 0 (Finset.mem_range.mpr (by decide))]
  · rw [addr_rootNode (by decide), if_pos rfl]
    exact BlockTree.sub_zero ne
  · intro j mem ne
    rw [addr_rootNode (Finset.mem_range.mp mem), if_neg ne, blockTree_zero]

/-- What is behind the two entries is zero. -/
lemma byte_dirbuf {i : Nat} (le : 32 ≤ i) (lt : i < 512) : dirbuf.byte i = 0 := by
  have word : dirbuf.word (i / 2) = 0 := by
    rw [dirbuf, Block.word_ofWords (by omega), if_neg (by omega), if_neg (by omega), if_neg (by omega)]
  rw [Block.byte, word]
  split <;> rfl

/-- The other entries are blank. -/
lemma direct_dirbuf {e : Nat} (le : 2 ≤ e) (lt : e < 32) : dirbuf.direct e = Direct.blank :=
  Direct.ofBytes_congr fun _ _ => byte_dirbuf (by omega) (by omega)

end Mkfs

/-! ## The disk in order -/

section Order

variable (made : Formatted s dev fsize isize) (ok : Mkfs.Accepts fsize isize)
  (node : (s.iTab i).cNode = Mkfs.rootNode isize)
include node

/-- The block of the root directory, as a file. -/
lemma Kernel.fileBlock_root {bn : Word} : s.fileBlock dev i bn = if bn = 0 then isize else 0 := by
  rw [Kernel.fileBlock, node, Mkfs.stored_rootNode]

/-- The root directory has two slots. -/
lemma Kernel.nslots_root : s.nslots i = 2 := by
  rw [Kernel.nslots, node, Mkfs.iSize_rootNode]
  rfl

include made

/-- The slots of the root directory. -/
lemma Formatted.slot (three : 3 ≤ isize.toNat) {j : Nat} (lt : j < 2 ^ 21) :
    s.slot dev i j = if j < 32 then Mkfs.dirbuf.direct j else Direct.blank := by
  rw [Kernel.slot, Kernel.fileData_eq, Kernel.fileBlock_root node]
  by_cases first : j < 32
  · have here : BitVec.ofNat 16 (j / 32) = 0 := by
      rw [Nat.div_eq_of_lt first]
      rfl
    have ne : isize ≠ 0 := (Mkfs.ne_isize (Nat.lt_of_lt_of_le (by decide) three)).symm
    rw [if_pos here, if_neg ne, if_pos first, made.cells, Mkfs.mkfs_dirbuf fsize three, Nat.mod_eq_of_lt first]
  · have far : BitVec.ofNat 16 (j / 32) ≠ 0 := fun e => by
      have := congrArg BitVec.toNat e
      rw [BitVec.toNat_ofNat] at this
      simp at this
      omega
    rw [if_neg far, if_pos rfl, if_neg first]
    exact Direct.ofBytes_congr fun k _ => Block.byte_zero

include ok in
/-- Every block of the disk is in the free list or the block of the root directory. -/
lemma Formatted.partition :
    Partition dev {i} [] s (Mkfs.behind isize (fsize.toNat - 1 - isize.toNat)) := by
  obtain ⟨list, isz, fsz⟩ := made.freeList ok
  obtain ⟨-, two, lt⟩ := ok
  have two : 2 ≤ isize.toNat := two
  have lt : isize.toNat < fsize.toNat := lt
  have few := fsize.isLt
  have ne : isize ≠ 0 := (Mkfs.ne_isize (Nat.lt_of_lt_of_le (by decide) two)).symm
  have mem : ∀ b : Word, b ∈ Mkfs.behind isize (fsize.toNat - 1 - isize.toNat) ↔
      isize.toNat < b.toNat ∧ b.toNat < fsize.toNat := fun b =>
    (Mkfs.mem_behind (by omega)).trans (and_congr_right fun _ => by omega)
  refine ⟨list, fun b => ?_⟩
  -- `b` is the block of the root directory, or behind it, or outside of the data area
  have own : b = isize ↔ b.toNat = isize.toNat := BitVec.toNat_inj.symm
  have here : isize ≤ b ∧ b < fsize ↔ isize.toNat ≤ b.toNat ∧ b.toNat < fsize.toNat := Iff.rfl
  rw [ownedBlocks, Finset.sum_singleton, node, Mkfs.blocks_rootNode ne, isz, fsz, List.map_nil, List.sum_nil, add_zero,
    Multiset.count_add, Multiset.coe_count, list.nodup.count, Multiset.count_singleton]
  simp only [mem, own, here]
  split_ifs <;> omega

end Order

end Uzi
