import Uzi.Fs.FreeList
import Uzi.Utils.Mkfs

/-!
# The free list over whole runs

From the list that `mkfs` builds, through any sequence of `blk_alloc`, `blk_free` and other work on
the kernel that leaves the free list alone, the superblock and its chain represent the list that
these calls make.
-/

namespace Uzi
open Exec ChainStack

/-! ## The list that mkfs builds -/

namespace Mkfs

/-- The words of a superblock that a copy from `s_nfree` on takes. -/
lemma sbBlock_free {sb : Filesys} : (sbBlock sb 3).word 0 = sb.sNfree ∧
    ∀ i < 50, (sbBlock sb 3).word (i + 1) = sb.free i := by
  constructor
  · rfl
  · intro i hi
    rw [sbBlock, Block.word_ofWords (by omega), if_pos (by unfold Filesys.WORDS; omega)]
    simp only [Filesys.word]
    rw [if_neg (by omega), if_neg (by omega), if_neg (by omega), if_neg (by omega),
      if_pos (by omega), show 3 + (i + 1) - 4 = i by omega]

/-- One block that `mkfs` frees enters the list. -/
lemma freeBlock_list {j : Word} {image : Image} {sb : Filesys} {L : List Word}
    (h : FreeList sb image L)
    (ne : j ≠ 0) (fresh : j ∉ L) (lo : sb.sIsize ≤ j) (hi : j < sb.sFsize) :
    FreeList (freeBlock j (image, sb)).2 (freeBlock j (image, sb)).1 (j :: L) ∧
      (freeBlock j (image, sb)).2.sIsize = sb.sIsize ∧ (freeBlock j (image, sb)).2.sFsize = sb.sFsize := by
  unfold freeBlock
  by_cases full : sb.sNfree = 50
  · simp only [full, if_true]
    refine ⟨h.spill ne fresh lo hi ?_ ?_ fun c hc => Function.update_of_ne hc _ _, rfl, rfl⟩
    · rw [Function.update_self, sbBlock_free.1]
    · rw [Function.update_self]
      exact sbBlock_free.2
  · simp only [full, if_false]
    exact ⟨h.push ne fresh lo hi full, rfl, rfl⟩

/-- The blocks `isize + 1, ..., isize + n`. -/
def behind (isize : Word) (n : Nat) : List Word :=
  (List.range n).map fun i => isize + BitVec.ofNat 16 (i + 1)

/-- The blocks behind the inodes. -/
lemma mem_behind {isize b : Word} {n : Nat} (bound : isize.toNat + n < 2 ^ 16) :
    b ∈ behind isize n ↔ isize.toNat < b.toNat ∧ b.toNat ≤ isize.toNat + n := by
  simp only [behind, List.mem_map, List.mem_range]
  constructor
  · rintro ⟨i, hi, rfl⟩
    rw [BitVec.toNat_add, BitVec.toNat_ofNat]
    omega
  · rintro ⟨lo, hi⟩
    refine ⟨b.toNat - isize.toNat - 1, by omega, BitVec.eq_of_toNat_eq ?_⟩
    rw [BitVec.toNat_add, BitVec.toNat_ofNat]
    omega

/-- The blocks that `mkfs` frees enter the list, the last one first. -/
lemma freeBlocks_list {isize fsize : Word} {n : Nat} {image : Image} {sb : Filesys} {L : List Word}
    (h : FreeList sb image L) (hi : sb.sIsize = isize) (hf : sb.sFsize = fsize)
    (bound : isize.toNat + n < fsize.toNat) (pos : 0 < isize.toNat)
    (above : ∀ b ∈ L, isize.toNat + n < b.toNat) :
    FreeList (freeBlocks isize n (image, sb)).2 (freeBlocks isize n (image, sb)).1
        (behind isize n ++ L) ∧
      (freeBlocks isize n (image, sb)).2.sIsize = isize ∧
      (freeBlocks isize n (image, sb)).2.sFsize = fsize := by
  induction n generalizing image sb L with
  | zero => exact ⟨h, hi, hf⟩
  | succ n ih =>
    have lt := fsize.isLt
    have j : (isize + BitVec.ofNat 16 (n + 1)).toNat = isize.toNat + (n + 1) := by
      rw [BitVec.toNat_add, BitVec.toNat_ofNat]
      omega
    obtain ⟨h', hi', hf'⟩ := freeBlock_list (j := isize + BitVec.ofNat 16 (n + 1)) h
      (fun e => by rw [e] at j; simp at j)
      (fun hm => by have := above _ hm; omega)
      (by rw [hi, BitVec.le_def]; omega) (by rw [hf, BitVec.lt_def]; omega)
    have step := ih h' (hi'.trans hi) (hf'.trans hf) (by omega) (by
      intro b hb
      rcases List.mem_cons.mp hb with rfl | hb
      · omega
      · have := above b hb
        omega)
    have e : behind isize (n + 1) ++ L =
        behind isize n ++ (isize + BitVec.ofNat 16 (n + 1)) :: L := by
      simp only [behind, List.range_succ, List.map_append, List.map_cons, List.map_nil,
        List.append_assoc, List.cons_append, List.nil_append]
    rw [e]
    exact step

/-- The superblock is read back as it was written. -/
lemma ofBlock_sbBlock {sb : Filesys} : Filesys.ofBlock (sbBlock sb 0) = sb := by
  have w : ∀ k < 111, (sbBlock sb 0).word k = sb.word k := by
    intro k hk
    rw [sbBlock, Block.word_ofWords (by omega), Nat.zero_add,
      if_pos (show k < Filesys.WORDS from hk)]
  have free : (fun i : Fin 50 => (sbBlock sb 0).word (4 + i)) = sb.sFree := by
    funext i
    have lt := i.isLt
    rw [w _ (by omega)]
    simp only [Filesys.word]
    rw [if_neg (by omega), if_neg (by omega), if_neg (by omega), if_neg (by omega),
      if_pos (by omega), Nat.add_sub_cancel_left, Filesys.free, dif_pos lt]
  have inode : (fun i : Fin 50 => (sbBlock sb 0).word (55 + i)) = sb.sInode := by
    funext i
    have lt := i.isLt
    rw [w _ (by omega)]
    simp only [Filesys.word]
    rw [if_neg (by omega), if_neg (by omega), if_neg (by omega), if_neg (by omega),
      if_neg (by omega), if_neg (by omega), if_pos (by omega), Nat.add_sub_cancel_left,
      Filesys.inode, dif_pos lt]
  unfold Filesys.ofBlock
  rw [free, inode]
  rfl

end Mkfs

/-- A device that `mkfs` has just made, mounted: its blocks, and its superblock in the mount table as
`fmount` reads it. -/
structure Formatted (s : Kernel) (dev : Nat) (fsize isize : Word) : Prop where
  cells : ∀ n, s.cell dev n = mkfs fsize isize n
  loaded : ∃ m, s.fsTab dev = { Filesys.ofBlock (mkfs fsize isize 1) with sMntpt := m }

/-- A fresh file system has the list of all blocks behind the root directory. -/
lemma Formatted.freeList {s : Kernel} {dev : Nat} {fsize isize : Word}
    (f : Formatted s dev fsize isize) (ok : Mkfs.Accepts fsize isize) :
    FreeList (s.fsTab dev) (s.cell dev) (Mkfs.behind isize (fsize.toNat - 1 - isize.toNat)) ∧
      (s.fsTab dev).sIsize = isize ∧ (s.fsTab dev).sFsize = fsize := by
  obtain ⟨-, two, lt⟩ := ok
  rw [BitVec.le_def, show (2 : Word).toNat = 2 from rfl] at two
  rw [BitVec.lt_def] at lt
  have start : FreeList (Mkfs.super fsize isize) (fun _ => Block.zero) [] :=
    ⟨rfl, .stop rfl (by decide) rfl, List.nodup_nil, by simp, rfl⟩
  have hi₀ : (Mkfs.super fsize isize).sIsize = isize := rfl
  have hf₀ : (Mkfs.super fsize isize).sFsize = fsize := rfl
  have bound : isize.toNat + (fsize.toNat - 1 - isize.toNat) < fsize.toNat := by omega
  obtain ⟨h, hi, hf⟩ := Mkfs.freeBlocks_list start hi₀ hf₀ bound (by omega) (by simp)
  rw [List.append_nil] at h
  obtain ⟨m, load⟩ := f.loaded
  have one : mkfs fsize isize 1 = Mkfs.sbBlock (Mkfs.freeBlocks isize
      (fsize.toNat - 1 - isize.toNat) (fun _ => Block.zero, Mkfs.super fsize isize)).2 0 := by
    simp only [mkfs, Function.update_self]
  rw [one, Mkfs.ofBlock_sbBlock] at load
  rw [load]
  refine ⟨h.congr rfl rfl rfl rfl rfl rfl fun b hb => ?_, hi, hf⟩
  have range := (Mkfs.mem_behind (by have := fsize.isLt; omega)).mp hb
  have ne : b ≠ 1 ∧ b ≠ isize ∧ b ≠ 2 := by
    refine ⟨?_, ?_, ?_⟩ <;> rintro rfl
    · simp at range
      omega
    · omega
    · simp at range
      omega
  rw [f.cells]
  simp only [mkfs, Function.update_of_ne ne.1, Function.update_of_ne ne.2.1,
    Function.update_of_ne ne.2.2]

/-! ## Runs -/

/-- What the rest of the kernel may do between two calls: it writes no block of the list, and leaves
the list's fields of the mount table entry alone. -/
structure LeavesList (dev : Nat) (L : List Word) (s s' : Kernel) : Prop where
  good : s'.bufs.Good
  mounted : (s'.fsTab dev).sMounted = (s.fsTab dev).sMounted
  isize : (s'.fsTab dev).sIsize = (s.fsTab dev).sIsize
  fsize : (s'.fsTab dev).sFsize = (s.fsTab dev).sFsize
  nfree : (s'.fsTab dev).sNfree = (s.fsTab dev).sNfree
  free : (s'.fsTab dev).sFree = (s.fsTab dev).sFree
  tfree : (s'.fsTab dev).sTfree = (s.fsTab dev).sTfree
  cells : ∀ b ∈ L, s'.cell dev b = s.cell dev b

/-- The states that calls of `blk_alloc` and `blk_free` lead to, each with the list that the calls
make of the list at the start. -/
inductive ListRun (dev : Nat) (s₀ : Kernel) (L₀ : List Word) : Kernel → List Word → Prop
  | start : ListRun dev s₀ L₀ s₀ L₀
  | alloc {s s' L r} (run : ListRun dev s₀ L₀ s L) (ok : blkAlloc dev s = .ok (r, s')) :
    ListRun dev s₀ L₀ s' L.tail
  | free {s s' L b} (run : ListRun dev s₀ L₀ s L) (lo : (s.fsTab dev).sIsize ≤ b)
      (hi : b < (s.fsTab dev).sFsize) (fresh : b ∉ L) (ok : blkFree dev b s = .ok (⟨⟩, s')) :
    ListRun dev s₀ L₀ s' (b :: L)
  | other {s s' L} (run : ListRun dev s₀ L₀ s L) (leaves : LeavesList dev L s s') :
    ListRun dev s₀ L₀ s' L

/-- What a state of a run promises. A call can stop only because the block it needs is held by
someone, or every buffer is. -/
structure ListKept (dev : Nat) (s : Kernel) (L : List Word) : Prop where
  list : FreeList (s.fsTab dev) (s.cell dev) L
  free : ∀ b, (s.fsTab dev).sIsize ≤ b → b < (s.fsTab dev).sFsize → b ∉ L →
    wp (blkFree dev b) (fun _ s' => FreeList (s'.fsTab dev) (s'.cell dev) (b :: L))
      (s.bufs.view.Stops 0 {(dev, b)}) s
  alloc : ∀ b L', L = b :: L' →
    wp (blkAlloc dev)
      (fun r s' => r = b ∧ s'.cell dev b = Block.zero ∧ FreeList (s'.fsTab dev) (s'.cell dev) L')
      (s.bufs.view.Stops 0 {(dev, b)}) s
  full : L = [] →
    wp (blkAlloc dev)
      (fun r s' => r = 0 ∧ s'.udata.uError = .enospc ∧
        (s'.fsTab dev).sNfree = (s.fsTab dev).sNfree ∧ (s'.fsTab dev).sFree = (s.fsTab dev).sFree ∧
        (s'.fsTab dev).sTfree = (s.fsTab dev).sTfree ∧ FreeList (s'.fsTab dev) (s'.cell dev) [])
      (fun _ => False) s

/-- The invariant of a run. -/
structure ListInv (dev : Nat) (s : Kernel) (L : List Word) : Prop where
  good : s.bufs.Good
  list : FreeList (s.fsTab dev) (s.cell dev) L
  isize : 2 ≤ (s.fsTab dev).sIsize

namespace ListInv

variable {dev : Nat} {s s' : Kernel} {L : List Word} {b : Word}

/-- A block of the data area is not block 0. -/
lemma ne_zero (h : ListInv dev s L) (lo : (s.fsTab dev).sIsize ≤ b) : b ≠ 0 := by
  rintro rfl
  have two := BitVec.le_def.mp h.isize
  have zero := BitVec.le_def.mp lo
  rw [show (2 : Word).toNat = 2 from rfl] at two
  rw [show (0 : Word).toNat = 0 from rfl] at zero
  omega

/-- `blk_free` keeps the invariant. -/
lemma free (h : ListInv dev s L) (hdev : dev < NDEVS) (lo : (s.fsTab dev).sIsize ≤ b)
    (hi : b < (s.fsTab dev).sFsize) (fresh : b ∉ L) :
    wp (blkFree dev b) (fun _ s' => ListInv dev s' (b :: L)) (s.bufs.view.Stops 0 {(dev, b)}) s := by
  refine wp_post (wp_blkFree h.good hdev h.list (h.ne_zero lo) fresh lo hi) ?_
  rintro _ _ ⟨b', fs', rfl, g, re, -, list⟩
  refine ⟨g, ?_, ?_⟩
  · rw [Kernel.fsTab_withFs]
    exact list
  · rw [Kernel.fsTab_withFs, re.isize]
    exact h.isize

/-- `blk_alloc` keeps the invariant, on a list that is not empty. -/
lemma alloc (h : ListInv dev s (b :: L)) (hdev : dev < NDEVS) :
    wp (blkAlloc dev) (fun r s' => r = b ∧ s'.cell dev b = Block.zero ∧ ListInv dev s' L)
      (s.bufs.view.Stops 0 {(dev, b)}) s := by
  refine wp_post (wp_blkAlloc_cons h.good hdev h.list) ?_
  rintro _ _ ⟨rfl, b', fs', rfl, g, re, v, list⟩
  refine ⟨rfl, ?_, g, ?_, ?_⟩
  · simp only [Kernel.cell, Kernel.bufs_withFs, v, View.content_put]
  · rw [Kernel.fsTab_withFs]
    exact list
  · rw [Kernel.fsTab_withFs, re.isize]
    exact h.isize

/-- `blk_alloc` keeps the invariant, on the empty list. -/
lemma full (h : ListInv dev s []) (hdev : dev < NDEVS) :
    wp (blkAlloc dev)
      (fun r s' => r = 0 ∧ s'.udata.uError = .enospc ∧
        (s'.fsTab dev).sNfree = (s.fsTab dev).sNfree ∧ (s'.fsTab dev).sFree = (s.fsTab dev).sFree ∧
        (s'.fsTab dev).sTfree = (s.fsTab dev).sTfree ∧ ListInv dev s' [])
      (fun _ => False) s := by
  refine wp_post (wp_blkAlloc_nil hdev h.list) ?_
  rintro _ _ ⟨rfl, rfl⟩
  have e : (s.withFs s.bufs dev ((s.fsTab dev).touch s.tod)).fsTab dev = (s.fsTab dev).touch s.tod :=
    Kernel.fsTab_withFs
  refine ⟨rfl, rfl, ?_, ?_, ?_, h.good, ?_, ?_⟩
  · exact (congrArg Filesys.sNfree e).trans rfl
  · exact (congrArg Filesys.sFree e).trans rfl
  · exact (congrArg Filesys.sTfree e).trans rfl
  · simp only [e]
    exact h.list.touch s.tod
  · simp only [e]
    exact h.isize

/-- The rest of the kernel keeps the invariant. -/
lemma other (h : ListInv dev s L) (l : LeavesList dev L s s') : ListInv dev s' L where
  good := l.good
  list := h.list.congr l.mounted l.isize l.fsize l.nfree l.free l.tfree l.cells
  isize := l.isize ▸ h.isize

/-- The invariant holds in every state of a run. -/
lemma run {s₀ : Kernel} {L₀ : List Word} (hdev : dev < NDEVS) (start : ListInv dev s₀ L₀)
    (h : ListRun dev s₀ L₀ s L) : ListInv dev s L := by
  induction h with
  | start => exact start
  | @alloc s s' L r _ ok ih =>
    cases L with
    | nil => exact ((ih.full hdev).ok ok).2.2.2.2.2
    | cons b L => exact ((ih.alloc hdev).ok ok).2.2
  | free _ lo hi fresh ok ih => exact (ih.free hdev lo hi fresh).ok ok
  | other _ leaves ih => exact ih.other leaves

/-- The invariant gives what a state promises. -/
lemma kept (h : ListInv dev s L) (hdev : dev < NDEVS) : ListKept dev s L where
  list := h.list
  free b lo hi fresh := wp_post (h.free hdev lo hi fresh) fun _ _ h' => h'.list
  alloc := by
    rintro b L' rfl
    exact wp_post (h.alloc hdev) fun _ _ ⟨r, z, h'⟩ => ⟨r, z, h'.list⟩
  full := by
    rintro rfl
    exact wp_post (h.full hdev) fun _ _ ⟨r, e, n, f, t, h'⟩ => ⟨r, e, n, f, t, h'.list⟩

end ListInv

/-- From the list that `mkfs` builds, every run of `blk_alloc` and `blk_free` keeps the list. -/
theorem freeList_run {dev : Nat} {s₀ s : Kernel} {fsize isize : Word} {L : List Word}
    (hdev : dev < NDEVS) (good : s₀.bufs.Good) (ok : Mkfs.Accepts fsize isize)
    (made : Formatted s₀ dev fsize isize)
    (run : ListRun dev s₀ (Mkfs.behind isize (fsize.toNat - 1 - isize.toNat)) s L) :
    ListKept dev s L := by
  obtain ⟨list, isz, -⟩ := made.freeList ok
  exact (ListInv.run hdev ⟨good, list, isz ▸ ok.2.1⟩ run).kept hdev

/-- The kernel after it has mounted device 0 with a file system that `mkfs` made there. -/
def freshFs (fsize isize : Word) : Kernel :=
  { Kernel.inited fun _ => mkfs fsize isize with
    fsTab := fun _ => Filesys.ofBlock (mkfs fsize isize 1) }

/-- A fresh disk has been formatted. -/
lemma formatted_freshFs {fsize isize : Word} : Formatted (freshFs fsize isize) 0 fsize isize where
  cells n := congrFun (congrArg View.content Bufs.good_inited.2) (0, n)
  loaded := ⟨_, rfl⟩

/-- The list is kept when the first block of a small file system is allocated. -/
theorem freeList_run_alloc : ∃ s, ListRun 0 (freshFs 6 3) [4, 5] s [5] ∧ ListKept 0 s [5] := by
  have good : (freshFs 6 3).bufs.Good := Bufs.good_inited.1
  have view : (freshFs 6 3).bufs.view = _ := Bufs.good_inited.2
  have ok : Mkfs.Accepts 6 3 := by
    refine ⟨?_, ?_, ?_⟩ <;> decide
  have kept := freeList_run (by decide : 0 < NDEVS) good ok formatted_freshFs .start
  have alloc := kept.alloc 4 [5] rfl
  obtain ⟨r, s, ret, -⟩ := (wp_mono alloc (fun _ _ h => h) fun e h => by
    refine View.not_stops ?_ ?_ h
    · rw [view]
      simp
    · rw [view]
      simp [View.nheld, NBUFS]).returns
  exact ⟨s, .alloc .start ret, freeList_run (by decide) good ok formatted_freshFs (.alloc .start ret)⟩

end Uzi
