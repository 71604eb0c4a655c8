import Uzi.Fs.FreeListRuns
import Uzi.Utils.FsckBlocks

/-!
# The free list that `fsck` builds

`pass2` rebuilds the free list from `bitmap`, and `blk_alloc` of the kernel takes the blocks of it one after the
other.
-/

namespace Uzi
open Exec ChainStack

/-! ## Taking all blocks -/

/-- `blk_alloc` is called `n` times. -/
def allocs (dev : Nat) : (n : Nat) → K (List Word)
  | 0 => pure []
  | n + 1 => do
    let b ← blkAlloc dev
    let bs ← allocs dev n
    pure (b :: bs)

/-- The blocks of the list come in its order, and then 0. -/
lemma wp_allocs {s : Kernel} {dev n : Nat} {L : List Word} (good : s.bufs.Good)
    (idle : ∀ bp, s.bufs.view.held bp = none) (hdev : dev < NDEVS) (list : FreeList (s.fsTab dev) (s.cell dev) L) :
    wp (allocs dev n) (fun bs _ => bs = (L ++ List.replicate n 0).take n) (fun _ => False) s := by
  induction n generalizing s L with
  | zero => exact (List.take_zero).symm
  | succ n ih =>
    rw [allocs, wp_bind]
    cases L with
    | nil =>
      refine wp_post (wp_blkAlloc_nil hdev list) fun b s' got => ?_
      obtain ⟨rfl, rfl⟩ := got
      rw [wp_bind]
      have list' : FreeList ((s.withFs s.bufs dev ((s.fsTab dev).touch s.tod)).fsTab dev) (s.cell dev) [] := by
        rw [Kernel.fsTab_withFs]
        exact list.touch s.tod
      refine wp_post (ih good idle list') fun bs _ got => ?_
      rw [wp_pure, got, List.nil_append, List.nil_append, List.take_of_length_le (by simp),
        List.take_of_length_le (by simp), List.replicate_succ]
    | cons b L =>
      refine wp_mono (wp_blkAlloc_cons good hdev list) (fun r s' got => ?_)
        fun _ => View.not_stops_of_idle idle (by decide)
      obtain ⟨rfl, b', fs', rfl, good', -, view, list'⟩ := got
      rw [wp_bind]
      refine wp_post (ih (L := L) good' (fun bp => ?_) ?_) fun bs _ got => ?_
      · rw [Kernel.bufs_withFs, view]
        exact idle bp
      · rw [Kernel.fsTab_withFs]
        exact list'
      · have long : n ≤ (L ++ List.replicate n 0).length := by
          rw [List.length_append, List.length_replicate]
          omega
        rw [wp_pure, got, List.cons_append, List.take_succ_cons, List.replicate_succ', ← List.append_assoc]
        exact congrArg _ (List.take_append_of_le_length long).symm

namespace Fsck

/-! ## The superblock on the disk -/

section Super

variable {s : State} {fs : Filesys}

/-- The words of a superblock that a copy from word `k` on takes. -/
lemma word_fsBlock {k i : Nat} (lt : k + i < Filesys.WORDS) : (s.fsBlock k).word i = s.filsys.word (k + i) := by
  have short : i < 256 := by
    unfold Filesys.WORDS at lt
    omega
  rw [State.fsBlock, Block.word_ofWords short, if_pos lt]

/-- The entry depends on the first 111 words. -/
lemma ofBlock_congr {b b' : Block} (h : ∀ k < 111, b.word k = b'.word k) :
    Filesys.ofBlock b = Filesys.ofBlock b' := by
  have free : (fun i : Fin 50 => b.word (4 + i)) = fun i : Fin 50 => b'.word (4 + i) := by
    funext i
    exact h _ (by omega)
  have inode : (fun i : Fin 50 => b.word (55 + i)) = fun i : Fin 50 => b'.word (55 + i) := by
    funext i
    exact h _ (by omega)
  unfold Filesys.ofBlock
  rw [free, inode]
  simp only [h _ (by decide : 0 < 111), h _ (by decide : 1 < 111), h _ (by decide : 2 < 111),
    h _ (by decide : 3 < 111), h _ (by decide : 54 < 111), h _ (by decide : 105 < 111),
    h _ (by decide : 106 < 111), h _ (by decide : 107 < 111), h _ (by decide : 108 < 111),
    h _ (by decide : 109 < 111), h _ (by decide : 110 < 111)]

/-- The superblock that is written is read back. -/
lemma ofBlock_fsBlock : Filesys.ofBlock (s.fsBlock 0) = s.filsys := by
  have read : Filesys.ofBlock (Mkfs.sbBlock s.filsys 0) = s.filsys := Mkfs.ofBlock_sbBlock
  refine Eq.trans (ofBlock_congr fun k hk => ?_) read
  rw [word_fsBlock (by unfold Filesys.WORDS; omega), Mkfs.sbBlock, Block.word_ofWords (by omega),
    if_pos (by unfold Filesys.WORDS; omega)]

/-- The words of a superblock from `s_nfree` on. -/
lemma fsBlock_free : (s.fsBlock 3).word 0 = s.filsys.sNfree ∧
    ∀ i < 50, (s.fsBlock 3).word (i + 1) = s.filsys.free i := by
  constructor
  · exact word_fsBlock (by decide)
  · intro i hi
    rw [word_fsBlock (by unfold Filesys.WORDS; omega), Filesys.word]
    rw [if_neg (by omega), if_neg (by omega), if_neg (by omega), if_neg (by omega), if_pos (by omega)]
    congr 1
    omega

end Super

/-! ## Pass 2 -/

/-- The blocks from `lo` on and below `hi` that are not in use, the lowest first. -/
def unused (bitmap : Word → Byte) (lo hi : Nat) : List Word :=
  ((List.range' lo (hi - lo)).map (BitVec.ofNat 16)).filter fun b => bitmap b = 0

/-- What `pass2` has made of the blocks from `lo` on, `events` being what was done before. -/
structure Rebuilt (bitmap : Word → Byte) (isize fsize : Word) (events : List Event) (lo : Nat) (s : State) : Prop where
  map : s.bitmap = bitmap
  lower : s.filsys.sIsize = isize
  upper : s.filsys.sFsize = fsize
  list : ∀ x, FreeList s.filsys (Function.update s.image 1 x) (unused bitmap lo fsize.toNat)
  nfree : s.filsys.sNfree.toNat = (unused bitmap lo fsize.toNat).length % 50 + 1
  writes : ∃ new, s.events = new ++ events ∧ ∀ b ∈ written new, b ∈ unused bitmap lo fsize.toNat

/-- Block 1 takes a full `s_free`. -/
def SpillsToSuper (bitmap : Word → Byte) (isize fsize : Word) : Prop :=
  isize = 1 ∧ bitmap 1 = 0 ∧ (unused bitmap 2 fsize.toNat).length % 50 = 49

section Pass2

variable {bitmap : Word → Byte} {isize fsize : Word} {events : List Event} {lo hi : Nat} {s : State} {b : Word}

/-- No blocks are left. -/
lemma unused_self : unused bitmap hi hi = [] := by
  rw [unused, Nat.sub_self]
  rfl

/-- One block more. -/
lemma unused_succ (lt : lo < hi) :
    unused bitmap lo hi =
      if bitmap (BitVec.ofNat 16 lo) = 0 then BitVec.ofNat 16 lo :: unused bitmap (lo + 1) hi
      else unused bitmap (lo + 1) hi := by
  have len : hi - lo = hi - (lo + 1) + 1 := by omega
  unfold unused
  rw [len, List.range'_succ, List.map_cons, List.filter_cons]
  simp only [decide_eq_true_eq]

/-- The blocks that are left. -/
lemma mem_unused (bound : hi ≤ 2 ^ 16) :
    b ∈ unused bitmap lo hi ↔ lo ≤ b.toNat ∧ b.toNat < hi ∧ bitmap b = 0 := by
  unfold unused
  rw [List.mem_filter, List.mem_map, decide_eq_true_eq]
  constructor
  · intro ⟨⟨i, range, e⟩, free⟩
    rw [List.mem_range'_1] at range
    have at_i : b.toNat = i := by
      rw [← e, BitVec.toNat_ofNat]
      omega
    exact ⟨by omega, by omega, free⟩
  · intro ⟨ge, lt, free⟩
    exact ⟨⟨b.toNat, List.mem_range'_1.mpr (by omega), BitVec.ofNat_toNat ..⟩, free⟩

/-- A block does not come twice. -/
lemma notMem_unused_succ (lt : lo < fsize.toNat) : BitVec.ofNat 16 lo ∉ unused bitmap (lo + 1) fsize.toNat := by
  intro mem
  have above := ((mem_unused (Nat.le_of_lt fsize.isLt)).mp mem).1
  rw [toNat_ofNat_of_lt (Nat.lt_trans lt fsize.isLt)] at above
  omega

/-- The list has what it had, where nothing is freed. -/
lemma Rebuilt.skip (h : Rebuilt bitmap isize fsize events (lo + 1) s) (lt : lo < fsize.toNat)
    (busy : bitmap (BitVec.ofNat 16 lo) ≠ 0) :
    Rebuilt bitmap isize fsize events lo { s with events := .bitmap (BitVec.ofNat 16 lo) :: s.events } := by
  have same : unused bitmap lo fsize.toNat = unused bitmap (lo + 1) fsize.toNat := by
    rw [unused_succ lt, if_neg busy]
  obtain ⟨new, eq, writes⟩ := h.writes
  refine ⟨h.map, h.lower, h.upper, ?_, ?_, .bitmap (BitVec.ofNat 16 lo) :: new, ?_, ?_⟩
  · rw [same]
    exact h.list
  · rw [same]
    exact h.nfree
  · rw [List.cons_append, ← eq]
  · rw [same]
    exact writes

/-- A block is freed into `s_free`. -/
lemma Rebuilt.push (h : Rebuilt bitmap isize fsize events (lo + 1) s) (lt : lo < fsize.toNat)
    (free : bitmap (BitVec.ofNat 16 lo) = 0) (pos : 0 < lo) (ge : isize.toNat ≤ lo) (room : s.filsys.sNfree ≠ 50) :
    Rebuilt bitmap isize fsize events lo { s with
      events := .bitmap (BitVec.ofNat 16 lo) :: s.events
      filsys := s.filsys.pushFree (BitVec.ofNat 16 lo) } := by
  have at_lo := toNat_ofNat_of_lt (Nat.lt_trans lt fsize.isLt)
  have more : unused bitmap lo fsize.toNat = BitVec.ofNat 16 lo :: unused bitmap (lo + 1) fsize.toNat := by
    rw [unused_succ lt, if_pos free]
  have fresh : BitVec.ofNat 16 lo ∉ unused bitmap (lo + 1) fsize.toNat := notMem_unused_succ lt
  have ne : BitVec.ofNat 16 lo ≠ 0 := fun e => by
    rw [e] at at_lo
    exact absurd at_lo (Nat.ne_of_lt pos)
  obtain ⟨new, eq, writes⟩ := h.writes
  refine ⟨h.map, h.lower, h.upper, fun x => ?_, ?_, .bitmap (BitVec.ofNat 16 lo) :: new, ?_, fun b hb => ?_⟩
  · rw [more]
    refine (h.list x).push ne fresh ?_ ?_ room
    · rw [h.lower, BitVec.le_def, at_lo]
      exact ge
    · rw [h.upper, BitVec.lt_def, at_lo]
      exact lt
  · have count := h.nfree
    have small : s.filsys.sNfree.toNat ≠ 50 := fun e => room (BitVec.eq_of_toNat_eq e)
    show (s.filsys.sNfree + 1).toNat = _
    rw [more, List.length_cons, BitVec.toNat_add, show (1 : Word).toNat = 1 from rfl]
    omega
  · rw [List.cons_append, ← eq]
  · rw [more]
    exact List.mem_cons_of_mem _ (writes b hb)

/-- A block is freed when `s_free` is full, and takes it. -/
lemma Rebuilt.spill (h : Rebuilt bitmap isize fsize events (lo + 1) s) (lt : lo < fsize.toNat)
    (free : bitmap (BitVec.ofNat 16 lo) = 0) (two : 2 ≤ lo) (ge : isize.toNat ≤ lo) (full : s.filsys.sNfree = 50) :
    Rebuilt bitmap isize fsize events lo { s with
      events := .wrote s.image (BitVec.ofNat 16 lo) (s.fsBlock 3) :: .bitmap (BitVec.ofNat 16 lo) :: s.events
      image := Function.update s.image (BitVec.ofNat 16 lo) (s.fsBlock 3)
      filsys := Filesys.pushFree { s.filsys with sNfree := 0 } (BitVec.ofNat 16 lo) } := by
  have at_lo := toNat_ofNat_of_lt (Nat.lt_trans lt fsize.isLt)
  have more : unused bitmap lo fsize.toNat = BitVec.ofNat 16 lo :: unused bitmap (lo + 1) fsize.toNat := by
    rw [unused_succ lt, if_pos free]
  have fresh : BitVec.ofNat 16 lo ∉ unused bitmap (lo + 1) fsize.toNat := notMem_unused_succ lt
  have ne : BitVec.ofNat 16 lo ≠ 0 := fun e => by
    rw [e] at at_lo
    exact absurd at_lo (by show ¬ 0 = lo; omega)
  have ne_one : BitVec.ofNat 16 lo ≠ 1 := fun e => by
    rw [e] at at_lo
    exact absurd at_lo (by show ¬ 1 = lo; omega)
  obtain ⟨new, eq, writes⟩ := h.writes
  refine ⟨h.map, h.lower, h.upper, fun x => ?_, ?_,
    .wrote s.image (BitVec.ofNat 16 lo) (s.fsBlock 3) :: .bitmap (BitVec.ofNat 16 lo) :: new, ?_, fun b hb => ?_⟩
  · rw [more]
    have own : Function.update (Function.update s.image (BitVec.ofNat 16 lo) (s.fsBlock 3)) 1 x (BitVec.ofNat 16 lo) =
        s.fsBlock 3 := by
      rw [Function.update_of_ne ne_one, Function.update_self]
    refine (h.list x).spill ne fresh ?_ ?_ ?_ ?_ fun c hc => ?_
    · rw [h.lower, BitVec.le_def, at_lo]
      exact ge
    · rw [h.upper, BitVec.lt_def, at_lo]
      exact lt
    · rw [own]
      exact fsBlock_free.1
    · rw [own]
      exact fsBlock_free.2
    · show Function.update (Function.update s.image _ _) 1 x c = Function.update s.image 1 x c
      rw [Function.update_comm ne_one, Function.update_of_ne hc]
  · have count := h.nfree
    rw [full] at count
    show (0 + 1 : Word).toNat = _
    rw [more, List.length_cons]
    have fifty : (50 : Word).toNat = 50 := rfl
    show 1 = _
    omega
  · rw [List.cons_append, List.cons_append, ← eq]
  · rw [more]
    cases List.mem_cons.mp hb with
    | inl own => exact own ▸ List.mem_cons_self ..
    | inr old => exact List.mem_cons_of_mem _ (writes b old)

/-- One round of `pass2`. -/
lemma Rebuilt.freeBlock (h : Rebuilt bitmap isize fsize events (lo + 1) s) (pos : 1 ≤ isize.toNat)
    (lt : lo < fsize.toNat) (ge : isize.toNat ≤ lo) (safe : ¬ SpillsToSuper bitmap isize fsize) :
    wp (freeBlock (BitVec.ofNat 16 lo)) (fun _ s' => Rebuilt bitmap isize fsize events lo s') (fun _ => False) s := by
  have below : BitVec.ofNat 16 lo < s.filsys.sFsize := by
    rw [h.upper, BitVec.lt_def, toNat_ofNat_of_lt (Nat.lt_trans lt fsize.isLt)]
    exact lt
  unfold Fsck.freeBlock
  rw [wp_bind, wp_bitmapAt, if_pos below, wp_ite]
  split
  · next free =>
    rw [h.map] at free
    rw [wp_bind, wp_get]
    by_cases full : s.filsys.sNfree = 50
    · have two : 2 ≤ lo := by
        by_contra one
        have lo_eq : lo = 1 := by omega
        subst lo_eq
        have count : s.filsys.sNfree.toNat = (unused bitmap 2 fsize.toNat).length % 50 + 1 := h.nfree
        rw [full, show (50 : Word).toNat = 50 from rfl] at count
        exact safe ⟨BitVec.eq_of_toNat_eq (by show isize.toNat = 1; omega), free, by omega⟩
      rw [if_pos full]
      exact h.spill lt free two ge full
    · rw [if_neg full]
      exact h.push lt free (by omega) ge full
  · next busy =>
    rw [h.map] at busy
    exact h.skip lt busy

/-- The rounds of `pass2`, of which `n` are left. -/
lemma Rebuilt.rounds {n fuel : Nat} {j : Word} (h : Rebuilt bitmap isize fsize events (isize.toNat + n) s)
    (at_j : j.toNat + 1 = isize.toNat + n) (pos : 1 ≤ isize.toNat) (le : isize.toNat + n ≤ fsize.toNat)
    (enough : n ≤ fuel) (safe : ¬ SpillsToSuper bitmap isize fsize) :
    wp (loop (fun j : Word => isize ≤ j)
        (fun j => do
          Fsck.freeBlock j
          pure (j - 1)) (halt .hang) fuel j)
      (fun _ s' => Rebuilt bitmap isize fsize events isize.toNat s') (fun _ => False) s := by
  induction n generalizing s fuel j with
  | zero =>
    have ends : ¬ decide (isize ≤ j) = true := by
      rw [decide_eq_true_eq, BitVec.le_def]
      omega
    cases fuel with
    | zero =>
      rw [loop, wp_ite, if_neg ends]
      exact h
    | succ fuel =>
      rw [loop, wp_ite, if_neg ends]
      exact h
  | succ n ih =>
    obtain ⟨fuel, rfl⟩ : ∃ k, fuel = k + 1 := ⟨fuel - 1, by omega⟩
    have goes : decide (isize ≤ j) = true := by
      rw [decide_eq_true_eq, BitVec.le_def]
      omega
    have here : BitVec.ofNat 16 j.toNat = j := by
      rw [BitVec.ofNat_toNat, BitVec.setWidth_eq]
    have back : (j - 1).toNat = j.toNat - 1 :=
      BitVec.toNat_sub_of_le (BitVec.le_def.mpr (by show 1 ≤ j.toNat; omega))
    have h : Rebuilt bitmap isize fsize events (j.toNat + 1) s := at_j ▸ h
    have round := h.freeBlock pos (by omega) (by omega) safe
    rw [here] at round
    rw [loop, wp_ite, if_pos goes, wp_bind, wp_bind]
    refine wp_post round fun _ s' h' => ih ?_ (by omega) (by omega) (by omega)
    rw [show isize.toNat + n = j.toNat by omega]
    exact h'

/-- Nothing has been freed yet. -/
lemma Rebuilt.start (mounted : s.filsys.sMounted = SMOUNTED) :
    Rebuilt s.bitmap s.filsys.sIsize s.filsys.sFsize s.events s.filsys.sFsize.toNat { s with
      filsys := { s.filsys.setFree 0 0 with sNinode := 0, sNfree := 1, sTfree := 0 } } := by
  have none : unused s.bitmap s.filsys.sFsize.toNat s.filsys.sFsize.toNat = [] := unused_self
  refine ⟨rfl, rfl, rfl, fun x => ?_, ?_, [], rfl, fun _ hb => by cases hb⟩
  · rw [none]
    exact ⟨mounted, .stop rfl (by decide) rfl, List.nodup_nil, fun _ hb => absurd hb List.not_mem_nil, rfl⟩
  · rw [none]
    rfl

/-- What `pass2` leaves. -/
structure Freed (s s' : State) : Prop where
  list : FreeList s'.filsys s'.image (unused s.bitmap s.filsys.sIsize.toNat s.filsys.sFsize.toNat)
  super : Filesys.ofBlock (s'.image 1) = s'.filsys
  writes : ∃ new, s'.events = new ++ s.events ∧ ∀ b ∈ written new,
    b = 1 ∨ b ∈ unused s.bitmap s.filsys.sIsize.toNat s.filsys.sFsize.toNat

/-- `pass2` builds the list, unless block 1 takes a full `s_free`. -/
lemma wp_pass2 {fuel : Nat} (mounted : s.filsys.sMounted = SMOUNTED) (answer : s.answers 0 = true)
    (pos : 1 ≤ s.filsys.sIsize.toNat) (lt : s.filsys.sIsize.toNat < s.filsys.sFsize.toNat)
    (enough : s.filsys.sFsize.toNat - s.filsys.sIsize.toNat ≤ fuel)
    (safe : ¬ SpillsToSuper s.bitmap s.filsys.sIsize s.filsys.sFsize) :
    wp (pass2 fuel) (fun _ s' => Freed s s') (fun _ => False) s := by
  unfold pass2
  have total : s.filsys.sIsize.toNat + (s.filsys.sFsize.toNat - s.filsys.sIsize.toNat) = s.filsys.sFsize.toNat := by
    omega
  have start : Rebuilt s.bitmap s.filsys.sIsize s.filsys.sFsize (s.answered .rebuildFreeList).events
      (s.filsys.sIsize.toNat + (s.filsys.sFsize.toNat - s.filsys.sIsize.toNat))
      { s.answered .rebuildFreeList with
        filsys := { s.filsys.setFree 0 0 with sNinode := 0, sNfree := 1, sTfree := 0 } } := by
    rw [total]
    exact Rebuilt.start (s := s.answered .rebuildFreeList) mounted
  have top : (s.filsys.sFsize - 1).toNat + 1 = s.filsys.sFsize.toNat := by
    have one : (1 : Word) ≤ s.filsys.sFsize := BitVec.le_def.mpr (by show 1 ≤ s.filsys.sFsize.toNat; omega)
    rw [BitVec.toNat_sub_of_le one]
    exact Nat.sub_add_cancel one
  have rounds := start.rounds (top.trans total.symm) pos (Nat.le_of_eq total) enough safe
  rw [wp_bind, wp_yes, wp_ite, if_pos answer, wp_bind, wp_modifyFilsys, wp_bind, wp_get, wp_bind]
  refine wp_post rounds fun _ s' done => ?_
  obtain ⟨new, eq, writes⟩ := done.writes
  refine ⟨done.list _, ?_,
    .wrote s'.image 1 (s'.fsBlock 0) :: new ++ [.asked s.image .rebuildFreeList (s.answers 0)], ?_, ?_⟩
  · show Filesys.ofBlock (Function.update s'.image 1 (s'.fsBlock 0) 1) = s'.filsys
    rw [Function.update_self]
    exact ofBlock_fsBlock
  · show _ :: s'.events = _
    rw [eq]
    simp only [State.answered, List.cons_append, List.append_assoc, List.nil_append]
  · intro b hb
    have mem : b ∈ 1 :: written new := by
      rw [written_append] at hb
      simpa only [written_wrote, written_asked, List.cons_append, written_nil, List.append_nil] using hb
    cases List.mem_cons.mp mem with
    | inl super => exact .inl super
    | inr spilled => exact .inr (writes b spilled)

end Pass2

/-- A kernel that has mounted a file system: the blocks of the device are those of the image, and the superblock is the
one that `fmount` reads there. -/
structure Mounted (k : Kernel) (dev : Nat) (image : Image) : Prop where
  good : k.bufs.Good
  idle : ∀ bp, k.bufs.view.held bp = none
  device : dev < NDEVS
  cells : ∀ n, k.cell dev n = image n
  loaded : ∃ m, k.fsTab dev = { Filesys.ofBlock (image 1) with sMntpt := m }

/-- What is said of `pass2`: every kernel that mounts the image allocates just the blocks `L`, in this order, and then
none, `s_tfree` is their number, and nothing else is written. -/
structure RebuildsList (s s' : State) (L : List Word) : Prop where
  allocs : ∀ k dev n, Mounted k dev s'.image →
    wp (allocs dev n) (fun bs _ => bs = (L ++ List.replicate n 0).take n) (fun _ => False) k
  tfree : (Filesys.ofBlock (s'.image 1)).sTfree.toNat = L.length
  writes : ∃ new, s'.events = new ++ s.events ∧ ∀ b ∈ written new, b = 1 ∨ b ∈ L

/-- `pass2` rebuilds the free list, unless block 1 is in the data area and takes a full `s_free`, over which the
superblock is written. -/
theorem pass2_rebuilds {s : State} {fuel : Nat} (mounted : s.filsys.sMounted = SMOUNTED)
    (answer : s.answers 0 = true) (pos : 1 ≤ s.filsys.sIsize.toNat)
    (lt : s.filsys.sIsize.toNat < s.filsys.sFsize.toNat)
    (enough : s.filsys.sFsize.toNat - s.filsys.sIsize.toNat ≤ fuel)
    (safe : ¬ SpillsToSuper s.bitmap s.filsys.sIsize s.filsys.sFsize) :
    wp (pass2 fuel)
      (fun _ s' => RebuildsList s s' (unused s.bitmap s.filsys.sIsize.toNat s.filsys.sFsize.toNat))
      (fun _ => False) s := by
  refine wp_post (wp_pass2 mounted answer pos lt enough safe) fun _ s' freed => ?_
  refine ⟨fun k dev n mounts => ?_, ?_, freed.writes⟩
  · obtain ⟨m, loaded⟩ := mounts.loaded
    rw [freed.super] at loaded
    refine wp_allocs mounts.good mounts.idle mounts.device
      (freed.list.congr ?_ ?_ ?_ ?_ ?_ ?_ fun b _ => mounts.cells b)
    all_goals rw [loaded]
  · rw [freed.super]
    exact freed.list.tfree

/-- `fsck` before pass 2, on a file system with no inodes and no block in use. -/
def allUnused (isize fsize : Word) : State :=
  { State.start (fun _ => Block.zero) fun _ => true with
    filsys := { Filesys.ofBlock Block.zero with sMounted := SMOUNTED, sIsize := isize, sFsize := fsize } }

/-- A file system of a hundred blocks, of which ten are in use. -/
def tenUsed : State := { allUnused 2 100 with bitmap := fun b => if 10 ≤ b ∧ b < 20 then 1 else 0 }

/-- The free list has 88 blocks, so that a full `s_free` is stored in one of them. -/
theorem pass2_rebuilds_tenUsed : (unused tenUsed.bitmap 2 100).length = 88 ∧ ∃ fuel ≤ 98, wp (pass2 fuel)
    (fun _ s' => RebuildsList tenUsed s' (unused tenUsed.bitmap 2 100)) (fun _ => False) tenUsed := by
  obtain ⟨fuel, rounds⟩ : ∃ fuel, fuel = 98 := ⟨98, rfl⟩
  exact ⟨by decide +kernel, fuel, rounds.le, pass2_rebuilds rfl rfl (by decide) (by decide) rounds.ge
    fun spills => absurd spills.1 (by decide)⟩

/-- The kernel after it has mounted an image. -/
def mounting (image : Image) : Kernel :=
  { Kernel.inited fun _ => image with fsTab := fun _ => Filesys.ofBlock (image 1) }

/-- The superblock of a mount. -/
lemma mounted_mounting {image : Image} : Mounted (mounting image) 0 image where
  good := Bufs.good_inited.1
  idle := congrFun (congrArg View.held Bufs.good_inited.2)
  device := by decide
  cells n := congrFun (congrArg View.content Bufs.good_inited.2) (0, n)
  loaded := ⟨_, rfl⟩

/-- With `s_isize` 1 and 50 free blocks, the kernel does not come to the second one. -/
theorem not_pass2_rebuilds : (∀ image, Mounted (mounting image) 0 image) ∧
    ¬ wp (pass2 50)
      (fun _ s' => wp (allocs 0 2) (fun bs _ => bs = (unused (fun _ => 0) 1 51).take 2) (fun _ => False)
        (mounting s'.image)) (fun _ => False) (allUnused 1 51) :=
  ⟨fun _ => mounted_mounting, by decide +kernel⟩

end Fsck
end Uzi
