import Uzi.Fs.Boot

/-!
# What mkfs makes

The image of `mkfs` for every pair of arguments that `main` accepts: it is a file system if there are inode blocks, and
no more of them than `s_tinode` can count the inodes of.
-/

namespace Uzi
namespace Mkfs

variable {fsize isize : Word} {image : Image} {n : Nat} {b : Word}

/-! ## File systems in an image -/

/-- The block of the inode table that inode `n` is in. -/
def inodeBlock (image : Image) (n : Nat) : Block := image (BitVec.ofNat 16 (2 + n / 8))

/-- Inode `n`. -/
def inode (image : Image) (n : Nat) : Dinode := .ofBlock (inodeBlock image n) (n % 8)

/-- All words of the inode are 0. -/
abbrev IsZero (image : Image) (n : Nat) : Prop := ∀ i < 32, (inodeBlock image n).word (32 * (n % 8) + i) = 0

/-- The superblock of an image. -/
def superblock (image : Image) : Filesys := .ofBlock (image 1)

/-- The block is one of the inode table. -/
def InTable (isize b : Word) : Prop := 2 ≤ b ∧ b < isize

/-- An entry of a directory block, as its name and its inode number. -/
def entryAt (b : Block) (e : Nat) : List Byte × Word := (stem (b.direct e).name, (b.direct e).dIno)

/-- The zero inodes from 2 on. -/
def zeroInodes (image : Image) (isize : Word) : Finset Nat :=
  (Finset.Ico 2 (8 * (isize.toNat - 2))).filter (IsZero image)

/-- The first block of the root directory. -/
def rootBlock (image : Image) : Word := (inode image 1).addr 0

/-- A file system with `fsize` blocks and `isize` of them in front of its data, where nothing is used but the root
directory. `L` is the free list. -/
structure Valid (image : Image) (fsize isize : Word) (L : List Word) : Prop where
  isDir : (inode image 1).iMode &&& F_MASK = F_DIR
  links : (inode image 1).iNlink = 3
  dot : entryAt (image (rootBlock image)) 0 = ([DOT], ROOTINODE)
  dotDot : entryAt (image (rootBlock image)) 1 = ([DOT, DOT], ROOTINODE)
  root : ¬ InTable isize (rootBlock image)
  apart : ∀ b ∈ L, ¬ InTable isize b ∧ b ≠ rootBlock image
  free : FreeList (superblock image) image L
  behind : ∀ b, b ∈ L ↔ isize < b ∧ b < fsize
  tinode : (superblock image).sTinode.toNat = (zeroInodes image isize).card

/-! ## The blocks of the image -/

/-- What no block behind `isize` changes when it is freed stays as it is. -/
lemma freeBlocks_keep {α : Type} {f : Image × Filesys → α} (keep : ∀ j st, isize < j → f (freeBlock j st) = f st)
    {st : Image × Filesys} (bound : isize.toNat + n < 2 ^ 16) : f (freeBlocks isize n st) = f st := by
  induction n generalizing st with
  | zero => rfl
  | succ n ih =>
    have behind : isize < isize + BitVec.ofNat 16 (n + 1) := by
      rw [BitVec.lt_def, BitVec.toNat_add, BitVec.toNat_ofNat]
      omega
    rw [freeBlocks, ih (by omega), keep _ _ behind]

/-- The free list is written behind `isize`. -/
lemma freeBlock_front {j : Word} {st : Image × Filesys} (front : b ≤ isize) (behind : isize < j) :
    (freeBlock j st).1 b = st.1 b := by
  have ne : b ≠ j := fun e => Nat.lt_irrefl _ (Nat.lt_of_lt_of_le behind (e ▸ front))
  unfold freeBlock
  by_cases full : st.2.sNfree = 50
  · simp only [full, if_true]
    exact Function.update_of_ne ne _ _
  · simp only [full, if_false]

/-- A block that is freed leaves the free inodes. -/
lemma sTinode_freeBlock {j : Word} {st : Image × Filesys} : (freeBlock j st).2.sTinode = st.2.sTinode := by
  unfold freeBlock
  by_cases full : st.2.sNfree = 50
  · simp only [full, if_true]
    rfl
  · simp only [full, if_false]
    rfl

/-- The superblock of the image is what freeing the blocks has left. -/
lemma superblock_mkfs : superblock (mkfs fsize isize) =
    (freeBlocks isize (fsize.toNat - 1 - isize.toNat) (fun _ => Block.zero, super fsize isize)).2 := by
  rw [superblock, mkfs]
  simp only [Function.update_self, ofBlock_sbBlock]

/-- The free inodes, by the superblock. -/
lemma sTinode_mkfs : (superblock (mkfs fsize isize)).sTinode = 8 * (isize - 2) - 2 := by
  have few := fsize.isLt
  rw [superblock_mkfs, freeBlocks_keep (f := fun st => st.2.sTinode) (fun _ _ _ => sTinode_freeBlock) (by omega)]
  rfl

variable (accepts : Accepts fsize isize)
include accepts

/-- The blocks between the first one of the inode table and the root directory are zero. -/
lemma mkfs_front (lo : 3 ≤ b.toNat) (hi : b.toNat < isize.toNat) : mkfs fsize isize b = Block.zero := by
  have few := fsize.isLt
  have lt : isize.toNat < fsize.toNat := accepts.2.2
  have ne : b ≠ 1 ∧ b ≠ 2 := by
    constructor
    all_goals
      rintro rfl
      simp at lo
  simp only [mkfs]
  rw [Function.update_of_ne ne.1, Function.update_of_ne (ne_isize hi), Function.update_of_ne ne.2,
    freeBlocks_keep (f := fun st => st.1 b) (fun _ _ => freeBlock_front hi.le) (by omega)]

/-- All inodes from 2 on are zero. -/
lemma isZero_mkfs (lo : 2 ≤ n) (hi : n < 8 * (isize.toNat - 2)) : IsZero (mkfs fsize isize) n := by
  intro i lt
  have small := isize.isLt
  rw [inodeBlock]
  by_cases first : n / 8 = 0
  · rw [first]
    show Block.word (mkfs fsize isize 2) _ = _
    rw [mkfs_inodes fsize (by omega), inodes, Block.word_ofWords (by omega), if_neg (by omega), if_neg (by omega),
      if_neg (by omega), if_neg (by omega), if_neg (by omega), if_neg (by omega)]
  · have blk : (BitVec.ofNat 16 (2 + n / 8)).toNat = 2 + n / 8 := by
      rw [BitVec.toNat_ofNat]
      omega
    rw [mkfs_front accepts (by omega) (by omega), Block.word_zero]

/-- The free inodes of the image. -/
lemma card_zeroInodes : (zeroInodes (mkfs fsize isize) isize).card = 8 * (isize.toNat - 2) - 2 := by
  rw [zeroInodes, Finset.filter_true_of_mem, Nat.card_Ico]
  intro n mem
  have mem := Finset.mem_Ico.mp mem
  exact isZero_mkfs accepts mem.1 mem.2

/-- `s_tinode` counts the inodes if it can. -/
lemma tinode_iff : (superblock (mkfs fsize isize)).sTinode.toNat = (zeroInodes (mkfs fsize isize) isize).card ↔
    3 ≤ isize ∧ isize ≤ 8194 := by
  have two : 2 ≤ isize.toNat := accepts.2.1
  have small := isize.isLt
  have sub : (isize - 2).toNat = isize.toNat - 2 := BitVec.toNat_sub_of_le two
  have bounds : 3 ≤ isize ∧ isize ≤ 8194 ↔ 3 ≤ isize.toNat ∧ isize.toNat ≤ 8194 := Iff.rfl
  rw [card_zeroInodes accepts, sTinode_mkfs, BitVec.toNat_sub, BitVec.toNat_mul, sub, bounds]
  show (2 ^ 16 - 2 + 8 * (isize.toNat - 2) % 2 ^ 16) % 2 ^ 16 = _ ↔ _
  omega

/-- The free list. -/
lemma freeList_mkfs : FreeList (superblock (mkfs fsize isize)) (mkfs fsize isize)
    (behind isize (fsize.toNat - 1 - isize.toNat)) := by
  have made : Formatted (freshFs fsize isize) 0 fsize isize := formatted_freshFs
  obtain ⟨m, loaded⟩ := made.loaded
  have list := (made.freeList accepts).1
  rw [loaded] at list
  exact list.congr rfl rfl rfl rfl rfl rfl fun b _ => (made.cells b).symm

/-- The blocks behind the root directory. -/
lemma mem_free : b ∈ behind isize (fsize.toNat - 1 - isize.toNat) ↔ isize < b ∧ b < fsize := by
  have few := fsize.isLt
  have lt : isize.toNat < fsize.toNat := accepts.2.2
  rw [mem_behind (by omega), BitVec.lt_def, BitVec.lt_def]
  omega

end Mkfs

/-- `mkfs` makes a file system, with the blocks behind `isize` free, exactly if there are inode blocks and no more than
8192 of them. `main` accepts `isize` without the one and the other. -/
theorem mkfs_valid {fsize isize : Word} (accepts : Mkfs.Accepts fsize isize) :
    (∃ L, Mkfs.Valid (mkfs fsize isize) fsize isize L) ↔ 3 ≤ isize ∧ isize ≤ 8194 := by
  constructor
  · rintro ⟨_, valid⟩
    exact (Mkfs.tinode_iff accepts).mp valid.tinode
  · intro bounds
    have three : 3 ≤ isize.toNat := bounds.1
    have inode : Mkfs.inode (mkfs fsize isize) 1 = Mkfs.rootNode isize :=
      congrArg (Dinode.ofBlock · 1) (Mkfs.mkfs_inodes fsize three)
    have root : Mkfs.rootBlock (mkfs fsize isize) = isize := by
      rw [Mkfs.rootBlock, inode, Mkfs.addr_rootNode (by decide), if_pos rfl]
    have block : mkfs fsize isize isize = Mkfs.dirbuf := Mkfs.mkfs_dirbuf fsize three
    have mem := fun b => Mkfs.mem_free (b := b) accepts
    refine ⟨_, ?_, ?_, ?_, ?_, ?_, fun b free => ⟨?_, ?_⟩, Mkfs.freeList_mkfs accepts, mem,
      (Mkfs.tinode_iff accepts).mpr bounds⟩
    · rw [inode, Mkfs.iMode_rootNode]
      decide
    · rw [inode, Mkfs.iNlink_rootNode]
    · rw [root, block]
      decide
    · rw [root, block]
      decide
    · rw [root]
      exact fun inTable => Nat.lt_irrefl _ inTable.2
    · exact fun inTable => Nat.lt_asymm ((mem b).mp free).1 inTable.2
    · rw [root]
      rintro rfl
      exact Nat.lt_irrefl _ ((mem b).mp free).1

/-- The image of six blocks is a file system. -/
theorem mkfs_valid_six : ∃ L, Mkfs.Valid (mkfs 6 3) 6 3 L :=
  (mkfs_valid ⟨by decide, by decide, by decide⟩).mpr ⟨by decide, by decide⟩

end Uzi
