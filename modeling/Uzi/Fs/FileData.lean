import Uzi.Fs.BlockMap
import Uzi.Fs.PipeIO

/-!
# The data of a file

A regular file or directory that is consistent with the free list of its device (`Kernel.FileAt`), and the
contents of its logical blocks (`Dinode.data`). `bmap` gives a logical block its blocks and changes no data, and a
write to a block changes those of one logical block.
-/

namespace Uzi
open Exec BlockTree

/-- The places on the way to a logical block: a slot of the inode, and indices behind it. -/
def places (bn : Word) : Finset (Nat × List Nat) := ((mapIndices bn).inits.map (Prod.mk (mapSlot bn))).toFinset

/-- The number at a place, or 0. -/
def Dinode.numberAt (cell : Word → Block) (d : Dinode) (p : Nat × List Nat) : Word := pathTo cell p.2 (d.addr p.1)

/-- The places without a number on the ways to the logical blocks `bns`. -/
def Dinode.gaps (cell : Word → Block) (d : Dinode) (bns : Finset Word) : Finset (Nat × List Nat) :=
  (bns.biUnion places).filter fun p => d.numberAt cell p = 0

/-- The contents of a logical block, zeros for a hole. -/
def Dinode.data (cell : Word → Block) (d : Dinode) (bn : Word) : Block :=
  if d.stored cell bn = 0 then Block.zero else cell (d.stored cell bn)

section Places

variable {cell : Word → Block} {d : Dinode} {bn : Word} {bns : Finset Word} {p : Nat × List Nat}

/-- The places on the way to a block. -/
lemma mem_places : p ∈ places bn ↔ p.1 = mapSlot bn ∧ p.2 <+: mapIndices bn := by
  rw [places, List.mem_toFinset, List.mem_map]
  constructor
  · intro ⟨js, mem, e⟩
    cases e
    exact ⟨rfl, (List.mem_inits _ _).mp mem⟩
  · intro ⟨slot, start⟩
    exact ⟨p.2, (List.mem_inits _ _).mpr start, Prod.ext slot.symm rfl⟩

/-- The indices at a place are those of blocks, and lead at most to the bottom of the tree. -/
lemma places_bounds (h : p ∈ places bn) : p.2.length ≤ addrLevel p.1 ∧ ∀ j ∈ p.2, j < 256 := by
  obtain ⟨slot, start⟩ := mem_places.mp h
  rw [slot, ← length_mapIndices]
  exact ⟨start.length_le, fun j hj => mapIndices_lt j (start.subset hj)⟩

/-- Prefixes of different lengths are different. -/
lemma nodup_inits {α : Type} {l : List α} : l.inits.Nodup := by
  induction l with
  | nil => exact List.nodup_singleton _
  | cons a l ih =>
    rw [List.inits_cons, List.nodup_cons]
    refine ⟨fun mem => ?_, ih.map fun s t e => (List.cons.inj e).2⟩
    obtain ⟨s, -, e⟩ := List.mem_map.mp mem
    cases e

/-- The gaps on one way are the blocks that it lacks. -/
lemma card_gaps_singleton : (d.gaps cell {bn}).card = d.lacking cell bn := by
  have inj : Function.Injective (Prod.mk (mapSlot bn) : List Nat → Nat × List Nat) := fun s t e => (Prod.mk.inj e).2
  have list : d.gaps cell {bn} = (((mapIndices bn).inits.map (Prod.mk (mapSlot bn))).filter fun p =>
      d.numberAt cell p = 0).toFinset := by
    ext p
    rw [Dinode.gaps, Finset.singleton_biUnion, places, Finset.mem_filter, List.mem_toFinset, List.mem_toFinset,
      List.mem_filter, decide_eq_true_eq]
  rw [list, List.toFinset_card_of_nodup ((nodup_inits.map inj).filter _), List.filter_map, List.length_map,
    ← List.countP_eq_length_filter, Dinode.lacking, missing_eq]
  rfl

/-- More blocks have more gaps. -/
lemma gaps_mono {bns' : Finset Word} (h : bns ⊆ bns') : d.gaps cell bns ⊆ d.gaps cell bns' :=
  Finset.filter_subset_filter _ (Finset.biUnion_subset_biUnion_of_subset_left _ h)

/-- Once one way has its numbers, the gaps on it are gone. -/
lemma card_gaps_insert : (d.gaps cell (insert bn bns)).card =
    (d.gaps cell bns \ places bn).card + d.lacking cell bn := by
  have split : d.gaps cell (insert bn bns) = d.gaps cell bns \ places bn ∪ d.gaps cell {bn} := by
    rw [Dinode.gaps, Dinode.gaps, Dinode.gaps, Finset.biUnion_insert, Finset.singleton_biUnion]
    ext p
    simp only [Finset.mem_filter, Finset.mem_union, Finset.mem_sdiff]
    tauto
  have apart : Disjoint (d.gaps cell bns \ places bn) (d.gaps cell {bn}) := by
    refine Finset.disjoint_left.mpr fun p off on => (Finset.mem_sdiff.mp off).2 ?_
    rw [Dinode.gaps, Finset.singleton_biUnion] at on
    exact (Finset.mem_filter.mp on).1
  rw [split, Finset.card_union_of_disjoint apart, card_gaps_singleton]

end Places

/-! ## Consistent files -/

/-- A regular file or directory is consistent with the free list `L` of its device, and no buffer is held. -/
structure Kernel.FileAt (s : Kernel) (dev : Nat) (ino : Inoptr) (L : List Word) : Prop where
  good : s.bufs.Good
  idle : ∀ bp, s.bufs.view.held bp = none
  own : (s.iTab ino).cDev = dev
  mode : (s.iTab ino).getmode = F_REG ∨ (s.iTab ino).getmode = F_DIR
  list : FreeList (s.fsTab dev) (s.cell dev) L
  nodup : (↑L + (s.iTab ino).cNode.blocks (s.cell dev)).Nodup
  valid : ∀ b ∈ ↑L + (s.iTab ino).cNode.blocks (s.cell dev), b ≠ NULLBLK

/-- The number at a place of the file. -/
noncomputable def Kernel.fileNumber (s : Kernel) (dev : Nat) (ino : Inoptr) (p : Nat × List Nat) : Word :=
  (s.iTab ino).cNode.numberAt (s.cell dev) p

/-- The number of a logical block of the file. -/
noncomputable def Kernel.fileBlock (s : Kernel) (dev : Nat) (ino : Inoptr) (bn : Word) : Word :=
  (s.iTab ino).cNode.stored (s.cell dev) bn

/-- The contents of a logical block of the file. -/
noncomputable def Kernel.fileData (s : Kernel) (dev : Nat) (ino : Inoptr) (bn : Word) : Block :=
  (s.iTab ino).cNode.data (s.cell dev) bn

section Files

variable {s s' : Kernel} {dev : Nat} {ino : Inoptr} {L L' : List Word} {bn m r b : Word} {x : Block}

/-- The data of a block, or zeros in a hole. -/
lemma Kernel.fileData_eq : s.fileData dev ino m =
    if s.fileBlock dev ino m = 0 then Block.zero else s.cell dev (s.fileBlock dev ino m) := rfl

/-- A file is no block device. -/
lemma Kernel.FileAt.not_bdev (h : s.FileAt dev ino L) : (s.iTab ino).getmode ≠ F_BDEV := by
  cases h.mode with
  | inl reg => exact reg ▸ by decide
  | inr dir => exact dir ▸ by decide

/-- The block of a logical block is in the tree at its slot. -/
lemma fileBlock_mem (ne : s.fileBlock dev ino bn ≠ 0) :
    s.fileBlock dev ino bn ∈ blockTree (s.cell dev) (addrLevel (mapSlot bn)) ((s.iTab ino).cNode.addr (mapSlot bn)) := by
  rw [Kernel.fileBlock, Dinode.stored_eq] at ne ⊢
  exact walk_mem (Nat.le_of_eq length_mapIndices) mapIndices_lt ne

/-- A block of a file is one of its blocks. -/
lemma fileBlock_mem_blocks (ne : s.fileBlock dev ino bn ≠ 0) :
    s.fileBlock dev ino bn ∈ (s.iTab ino).cNode.blocks (s.cell dev) :=
  Multiset.mem_of_le (blockTree_le_blocks mapSlot_lt) (fileBlock_mem ne)

/-- Two logical blocks are in different blocks. -/
lemma Kernel.FileAt.block_inj (h : s.FileAt dev ino L) (ne : s.fileBlock dev ino bn ≠ 0)
    (e : s.fileBlock dev ino m = s.fileBlock dev ino bn) : m = bn := by
  have mem := fileBlock_mem ne
  have mem' := fileBlock_mem (e ▸ ne)
  by_contra off
  by_cases slot : mapSlot m = mapSlot bn
  · have tree : (blockTree (s.cell dev) (addrLevel (mapSlot bn)) ((s.iTab ino).cNode.addr (mapSlot bn))).Nodup :=
      Multiset.nodup_of_le (blockTree_le_blocks mapSlot_lt) (Multiset.nodup_add.mp h.nodup).2.1
    rw [Kernel.fileBlock, Dinode.stored_eq] at ne
    rw [Kernel.fileBlock, Kernel.fileBlock, Dinode.stored_eq, Dinode.stored_eq, slot] at e
    refine mapIndices_inj slot off (walk_inj tree length_mapIndices ?_ mapIndices_lt mapIndices_lt ne e)
    rw [length_mapIndices, slot]
  · refine notMem_of_slot_ne h.nodup mapSlot_lt mapSlot_lt slot mem' (Multiset.mem_add.mpr (.inr ?_))
    rwa [e]

/-! ## `bmap` for a write -/

/-- What `bmap` leaves when it maps `bn` for a write: there were enough blocks, or no place for the data. -/
structure Kernel.Extended (s s' : Kernel) (dev : Nat) (ino : Inoptr) (L L' : List Word) (bn r : Word) : Prop where
  eq : s' = ((s.withFs s'.bufs dev (s'.fsTab dev)).withError s'.udata.uError).setInode ino (s'.iTab ino)
  file : s'.FileAt dev ino L'
  mapped : (s.iTab ino).Mapped (s'.iTab ino)
  others : ∀ m, m ≠ bn → s'.fileBlock dev ino m = s.fileBlock dev ino m
  data : ∀ m, s'.fileData dev ino m = s.fileData dev ino m
  full : r = NULLBLK → L.length < (s.iTab ino).cNode.lacking (s.cell dev) bn ∧ s'.udata.uError = .enospc
  given : r ≠ NULLBLK → r ≠ 0 ∧ s'.fileBlock dev ino bn = r ∧ s'.udata.uError = s.udata.uError ∧
    L'.length + (s.iTab ino).cNode.lacking (s.cell dev) bn = L.length ∧
    ∀ bns, (s'.iTab ino).cNode.gaps (s'.cell dev) bns = (s.iTab ino).cNode.gaps (s.cell dev) bns \ places bn

/-- The numbers at other slots are what they were. -/
lemma numberAt_of_slot_ne {cell cell' : Word → Block} {d d' : Dinode} {p : Nat × List Nat}
    (len : p.2.length ≤ addrLevel p.1) (indices : ∀ j ∈ p.2, j < 256) (addr : d'.addr p.1 = d.addr p.1)
    (same : ∀ c ∈ blockTree cell (addrLevel p.1) (d.addr p.1), cell' c = cell c) :
    d'.numberAt cell' p = d.numberAt cell p := by
  rw [Dinode.numberAt, Dinode.numberAt, addr]
  exact walk_congr (fun c hc j _ => congrArg (Block.word · j) (same c hc)) len indices

namespace Kernel.Mapping

variable (h : s.Mapping ino dev false L (mapSlot bn) (mapIndices bn) r s')
include h

/-- The logical block itself has the data that it had: a new block is blank. -/
lemma self_data : s'.fileData dev ino bn = s.fileData dev ino bn := by
  obtain ⟨t, c, L', grown, rfl, -, -, -, resolved⟩ := h
  have inode : (t.setInode ino c).iTab ino = c := Function.update_self ..
  have before := @Dinode.stored_eq (s.cell dev) (s.iTab ino).cNode bn
  have after := @Dinode.stored_eq ((t.setInode ino c).cell dev) c.cNode bn
  obtain ⟨x, -, from', fill⟩ := resolved.fill rfl
  rw [Kernel.fileData, Kernel.fileData, inode, Dinode.data, Dinode.data, before, after]
  by_cases hole : pathTo (s.cell dev) (mapIndices bn) ((s.iTab ino).cNode.addr (mapSlot bn)) = 0
  · rw [if_pos hole]
    split
    · rfl
    · next there =>
      by_cases short : L.length < missing 0 (fun c j => (s.cell dev c).word j) (mapIndices bn)
          ((s.iTab ino).cNode.addr (mapSlot bn))
      · exact absurd (fill.failed hole short).2 there
      · obtain ⟨y, e, path⟩ := fill.taken hole (Nat.le_of_not_lt short)
        refine Block.ext_word fun i hi => ?_
        rw [Block.word_zero, pathTo, path]
        exact (fill.blank y e i hi).trans (if_pos hole)
  · obtain ⟨addr, b, e, -, view⟩ := resolved.same (.inl hole)
    have cells : (t.setInode ino c).cell dev = s.cell dev := by
      rw [e]
      exact Kernel.cell_of_view view
    rw [cells, addr]

variable (f : s.FileAt dev ino L)
include f

/-- The blocks of the list and of the file are together what they were. -/
lemma file : ∃ L', s'.FileAt dev ino L' ∧ (r ≠ NULLBLK →
    L'.length + (s.iTab ino).cNode.lacking (s.cell dev) bn = L.length) := by
  obtain ⟨t, c, L', grown, rfl, mapped, sum, -, resolved⟩ := h
  have inode : (t.setInode ino c).iTab ino = c := Function.update_self ..
  obtain ⟨x, res, -, fill⟩ := resolved.fill rfl
  refine ⟨L', ⟨grown.good, fun bp => ?_, ?_, ?_, grown.list, ?_, ?_⟩, fun some => ?_⟩
  · exact (congrFun grown.held bp).trans (f.idle bp)
  · rw [inode, mapped.eq]
    exact f.own
  · rw [inode, mapped.eq]
    exact f.mode
  · rw [inode]
    exact sum ▸ f.nodup
  · rw [inode]
    exact sum ▸ f.valid
  · cases x with
    | none => exact absurd res some
    | some y => exact fill.paid y rfl

/-- The other logical blocks are where they were, with the data that they had. -/
lemma others (ne : m ≠ bn) : s'.fileBlock dev ino m = s.fileBlock dev ino m ∧
    s'.fileData dev ino m = s.fileData dev ino m := by
  have same : s'.fileBlock dev ino m = s.fileBlock dev ino m := h.own f.nodup ne
  refine ⟨same, ?_⟩
  rw [fileData_eq, fileData_eq, same]
  split
  · rfl
  · next there =>
    by_cases slot : mapSlot m = mapSlot bn
    · obtain ⟨t, c, L', grown, rfl, -, -, -, resolved⟩ := h
      obtain ⟨x, -, -, fill⟩ := resolved.fill rfl
      have len : (mapIndices m).length = (mapIndices bn).length := by
        rw [length_mapIndices, length_mapIndices, slot]
      have kept := fill.leaves _ len mapIndices_lt (mapIndices_inj slot ne)
      refine Block.ext_word fun i hi => ?_
      rw [Kernel.fileBlock, Dinode.stored_eq, slot] at there
      rw [Kernel.fileBlock, Dinode.stored_eq, slot]
      exact kept there i hi
    · obtain ⟨t, c, L', grown, rfl, -⟩ := h
      refine grown.content (dev, _) fun _ => ?_
      exact notMem_of_slot_ne f.nodup mapSlot_lt mapSlot_lt slot (fileBlock_mem there)

/-- Whether there was place for the data. -/
lemma outcome : (r = NULLBLK → L.length < (s.iTab ino).cNode.lacking (s.cell dev) bn ∧ s'.udata.uError = .enospc) ∧
    (r ≠ NULLBLK → r ≠ 0 ∧ s'.fileBlock dev ino bn = r ∧ s'.udata.uError = s.udata.uError) := by
  obtain ⟨t, c, L', grown, rfl, -, -, -, resolved⟩ := h
  have inode : (t.setInode ino c).iTab ino = c := Function.update_self ..
  have after := @Dinode.stored_eq ((t.setInode ino c).cell dev) c.cNode bn
  have before := @Dinode.stored_eq (s.cell dev) (s.iTab ino).cNode bn
  have error := resolved.error rfl
  obtain ⟨x, res, from', fill⟩ := resolved.fill rfl
  rw [Kernel.fileBlock, inode, after]
  cases x with
  | none =>
    have hole : pathTo (s.cell dev) (mapIndices bn) ((s.iTab ino).cNode.addr (mapSlot bn)) = 0 := by
      by_contra there
      exact Option.some_ne_none _ (fill.found there).1.symm
    have short := Nat.lt_of_not_le fun enough => by
      obtain ⟨y, e, -⟩ := fill.taken hole enough
      cases e
    refine ⟨fun _ => ⟨short, ?_⟩, fun some => absurd res some⟩
    rw [error, pathTo, (fill.failed hole short).2, if_pos rfl]
  | some y =>
    obtain ⟨y_ne, y_from⟩ := from' y rfl
    have res : r = y := res
    have valid : y ≠ NULLBLK := by
      cases y_from with
      | inl old =>
        refine f.valid y (Multiset.mem_add.mpr (.inr ?_))
        have there : s.fileBlock dev ino bn = y := before.trans old.symm
        exact there ▸ fileBlock_mem_blocks (there ▸ y_ne)
      | inr free => exact f.valid y (Multiset.mem_add.mpr (.inl free))
    have path : pathTo ((t.setInode ino c).cell dev) (mapIndices bn) (c.cNode.addr (mapSlot bn)) = y := by
      by_cases hole : pathTo (s.cell dev) (mapIndices bn) ((s.iTab ino).cNode.addr (mapSlot bn)) = 0
      · have enough := Nat.le_of_not_lt fun short => Option.some_ne_none _ (fill.failed hole short).1
        obtain ⟨z, e, path⟩ := fill.taken hole enough
        cases e
        exact path
      · obtain ⟨e, path⟩ := fill.found hole
        cases e
        exact path
    rw [res, path]
    refine ⟨fun e => absurd e valid, fun _ => ⟨y_ne, rfl, ?_⟩⟩
    rw [error, path, if_neg y_ne]

/-- The gaps on the way are filled, and no others. -/
lemma gaps (some : r ≠ NULLBLK) {bns : Finset Word} :
    (s'.iTab ino).cNode.gaps (s'.cell dev) bns = (s.iTab ino).cNode.gaps (s.cell dev) bns \ places bn := by
  obtain ⟨t, c, L', grown, rfl, -, -, slots, resolved⟩ := h
  have inode : (t.setInode ino c).iTab ino = c := Function.update_self ..
  obtain ⟨x, res, -, fill⟩ := resolved.fill rfl
  cases x with
  | none => exact absurd res some
  | some y =>
    have nodes := fill.nodes y rfl
    have number : ∀ m, ∀ p ∈ places m, c.cNode.numberAt ((t.setInode ino c).cell dev) p = 0 ↔
        (s.iTab ino).cNode.numberAt (s.cell dev) p = 0 ∧ p ∉ places bn := by
      intro m p hp
      obtain ⟨len, indices⟩ := places_bounds hp
      rw [mem_places, not_and]
      by_cases slot : p.1 = mapSlot bn
      · rw [Dinode.numberAt, Dinode.numberAt, slot, forall_prop_of_true rfl]
        rw [slot, ← length_mapIndices] at len
        exact nodes p.2 len indices
      · have lt : p.1 < 20 := (mem_places.mp hp).1 ▸ mapSlot_lt
        have same : c.cNode.numberAt ((t.setInode ino c).cell dev) p = (s.iTab ino).cNode.numberAt (s.cell dev) p :=
          numberAt_of_slot_ne len indices (slots _ lt slot) fun b hb =>
            grown.content (dev, b) fun _ => notMem_of_slot_ne f.nodup mapSlot_lt lt slot hb
        rw [same]
        exact (and_iff_left fun e => absurd e slot).symm
    ext p
    rw [inode, Dinode.gaps, Dinode.gaps, Finset.mem_sdiff, Finset.mem_filter, Finset.mem_filter, and_assoc]
    refine and_congr_right fun hp => ?_
    obtain ⟨m, -, hp⟩ := Finset.mem_biUnion.mp hp
    exact number m p hp

/-- The file with a block more. -/
lemma extended : ∃ L', s.Extended s' dev ino L L' bn r := by
  obtain ⟨L', file, paid⟩ := h.file f
  obtain ⟨full, given⟩ := h.outcome f
  have others := fun m ne => h.others f (m := m) ne
  have data : ∀ m, s'.fileData dev ino m = s.fileData dev ino m := by
    intro m
    by_cases e : m = bn
    · exact e ▸ h.self_data
    · exact (others m e).2
  have gaps : r ≠ NULLBLK → ∀ bns, (s'.iTab ino).cNode.gaps (s'.cell dev) bns =
      (s.iTab ino).cNode.gaps (s.cell dev) bns \ places bn :=
    fun some bns => h.gaps f some
  have frame : s' = ((s.withFs s'.bufs dev (s'.fsTab dev)).withError s'.udata.uError).setInode ino (s'.iTab ino) ∧
      (s.iTab ino).Mapped (s'.iTab ino) := by
    obtain ⟨t, c, L', grown, rfl, mapped, -⟩ := h
    have inode : (t.setInode ino c).iTab ino = c := Function.update_self ..
    rw [inode]
    exact ⟨congrArg (Kernel.setInode · ino c) grown.eq, mapped⟩
  refine ⟨L', frame.1, file, frame.2, fun m ne => (others m ne).1, data, full, fun some => ?_⟩
  obtain ⟨ne, block, error⟩ := given some
  exact ⟨ne, block, error, paid some, gaps some⟩

end Kernel.Mapping

/-- `bmap` for a write of a file. -/
lemma wp_bmap_file (hdev : dev < NDEVS) (h : s.FileAt dev ino L) :
    wp (bmap ino bn false) (fun r s' => ∃ L', s.Extended s' dev ino L L' bn r) (fun _ => False) s := by
  refine wp_mono (wp_bmap h.good hdev h.own h.not_bdev h.list h.nodup) (fun r s' got => got.extended h) fun _ stop => ?_
  exact View.not_stops_of_idle h.idle (by decide) stop

/-! ## A write to a block -/

/-- A file holds `data`, in the blocks that it had. -/
structure Kernel.SameBlocks (s s' : Kernel) (dev : Nat) (ino : Inoptr) (L : List Word) (data : Word → Block) :
    Prop where
  file : s'.FileAt dev ino L
  block : ∀ m, s'.fileBlock dev ino m = s.fileBlock dev ino m
  data : ∀ m, s'.fileData dev ino m = data m
  gaps : ∀ bns, (s'.iTab ino).cNode.gaps (s'.cell dev) bns = (s.iTab ino).cNode.gaps (s.cell dev) bns

/-- The same file has the same addresses. -/
lemma Cinode.SameFile.addr_eq {c c' : Cinode} (h : c.SameFile c') : c'.cNode.addr = c.cNode.addr := by
  funext j
  simp only [Dinode.addr, h.addr]

/-- Only the numbers on the way matter. -/
lemma gaps_congr {cell cell' : Word → Block} {d d' : Dinode} {bns : Finset Word}
    (h : ∀ m, ∀ p ∈ places m, d'.numberAt cell' p = d.numberAt cell p) : d'.gaps cell' bns = d.gaps cell bns := by
  refine Finset.filter_congr fun p hp => ?_
  obtain ⟨m, -, hp⟩ := Finset.mem_biUnion.mp hp
  rw [h m p hp]

/-- The end of the way to a logical block. -/
lemma end_mem_places : (mapSlot bn, mapIndices bn) ∈ places bn := mem_places.mpr ⟨rfl, List.prefix_rfl⟩

/-- The number of a block is at the end of its way. -/
lemma Dinode.stored_eq_numberAt {cell : Word → Block} {d : Dinode} :
    d.stored cell bn = d.numberAt cell (mapSlot bn, mapIndices bn) := stored_eq

/-- The numbers of the file are what they were, and its blocks. -/
lemma Kernel.FileAt.sameBlocks (h : s.FileAt dev ino L) {data : Word → Block} (good : s'.bufs.Good)
    (held : s'.bufs.view.held = s.bufs.view.held) (list : FreeList (s'.fsTab dev) (s'.cell dev) L)
    (same : (s.iTab ino).SameFile (s'.iTab ino))
    (blocks : (s'.iTab ino).cNode.blocks (s'.cell dev) = (s.iTab ino).cNode.blocks (s.cell dev))
    (number : ∀ m, ∀ p ∈ places m,
      (s'.iTab ino).cNode.numberAt (s'.cell dev) p = (s.iTab ino).cNode.numberAt (s.cell dev) p)
    (holds : ∀ m, (if s.fileBlock dev ino m = 0 then Block.zero else s'.cell dev (s.fileBlock dev ino m)) = data m) :
    s.SameBlocks s' dev ino L data := by
  have block : ∀ m, s'.fileBlock dev ino m = s.fileBlock dev ino m := by
    intro m
    rw [Kernel.fileBlock, Kernel.fileBlock, Dinode.stored_eq_numberAt, Dinode.stored_eq_numberAt]
    exact number m _ end_mem_places
  refine ⟨⟨good, fun bp => ?_, ?_, ?_, list, ?_, ?_⟩, block, fun m => ?_, fun bns => gaps_congr number⟩
  · rw [held]
    exact h.idle bp
  · rw [same.dev]
    exact h.own
  · rw [Cinode.getmode, same.mode]
    exact h.mode
  · rw [blocks]
    exact h.nodup
  · rw [blocks]
    exact h.valid
  · rw [fileData_eq, block, holds]

/-- A logical block that has a block is overwritten. -/
lemma Kernel.FileAt.put (h : s.FileAt dev ino L) (there : s.fileBlock dev ino bn ≠ 0) (good : s'.bufs.Good)
    (view : s'.bufs.view = s.bufs.view.put (dev, s.fileBlock dev ino bn) x) (fs : s'.fsTab = s.fsTab)
    (same : (s.iTab ino).SameFile (s'.iTab ino)) :
    s.SameBlocks s' dev ino L (Function.update (s.fileData dev ino) bn x) := by
  set b := s.fileBlock dev ino bn with hb
  have cells : ∀ c, s'.cell dev c = if c = b then x else s.cell dev c := by
    intro c
    simp only [Kernel.cell, view, View.put, Function.update_apply, Prod.mk.injEq, true_and]
  have off : ∀ c, c ≠ b → s'.cell dev c = s.cell dev c := fun c ne => (cells c).trans (if_neg ne)
  have mem := fileBlock_mem there
  have mem_blocks := fileBlock_mem_blocks there
  have addr := same.addr_eq
  have tree : (blockTree (s.cell dev) (addrLevel (mapSlot bn)) ((s.iTab ino).cNode.addr (mapSlot bn))).Nodup :=
    Multiset.nodup_of_le (blockTree_le_blocks mapSlot_lt) (Multiset.nodup_add.mp h.nodup).2.1
  have path : walk 0 (fun c j => (s.cell dev c).word j) (mapIndices bn) ((s.iTab ino).cNode.addr (mapSlot bn)) = b :=
    Dinode.stored_eq.symm
  -- the tree at the slot does not depend on the contents of a block at the bottom, and the others do not have it
  have own := sub_put tree length_mapIndices mapIndices_lt (path ▸ there) fun c ne j _ =>
    congrArg (Block.word · j) (off c (path ▸ ne))
  have rest : ∀ j < 20, j ≠ mapSlot bn → ∀ c ∈ blockTree (s.cell dev) (addrLevel j) ((s.iTab ino).cNode.addr j),
      s'.cell dev c = s.cell dev c := by
    intro j hj ne c hc
    refine off c fun e => notMem_of_slot_ne h.nodup mapSlot_lt hj ne hc ?_
    exact Multiset.mem_add.mpr (.inr (e ▸ mem))
  have blocks : (s'.iTab ino).cNode.blocks (s'.cell dev) = (s.iTab ino).cNode.blocks (s.cell dev) := by
    refine Finset.sum_congr rfl fun j hj => ?_
    rw [addr]
    by_cases e : j = mapSlot bn
    · rw [e]
      exact own.1
    · exact blockTree_congr (rest j (Finset.mem_range.mp hj) e)
  have number : ∀ m, ∀ p ∈ places m,
      (s'.iTab ino).cNode.numberAt (s'.cell dev) p = (s.iTab ino).cNode.numberAt (s.cell dev) p := by
    intro m p hp
    obtain ⟨len, indices⟩ := places_bounds hp
    by_cases e : p.1 = mapSlot bn
    · rw [Dinode.numberAt, Dinode.numberAt, addr]
      rw [e] at len ⊢
      exact own.2 p.2 len indices
    · have lt : p.1 < 20 := (mem_places.mp hp).1 ▸ mapSlot_lt
      exact numberAt_of_slot_ne len indices (congrFun addr _) (rest _ lt e)
  refine h.sameBlocks good (by rw [view, View.held_put]) ?_ same blocks number fun m => ?_
  · rw [fs]
    refine h.list.congr rfl rfl rfl rfl rfl rfl fun c hc => off c fun e => ?_
    exact notMem_of_nodup h.nodup hc (e ▸ mem_blocks)
  · by_cases e : m = bn
    · rw [e, if_neg there, cells, if_pos rfl, Function.update_self]
    · rw [Function.update_of_ne e, fileData_eq]
      split
      · rfl
      · next ne => exact off _ fun e' => e (h.block_inj there e')

/-- Nothing changes that the data of the file depend on. -/
lemma Kernel.FileAt.keep (h : s.FileAt dev ino L) (good : s'.bufs.Good) (view : s'.bufs.view = s.bufs.view)
    (fs : s'.fsTab = s.fsTab) (same : (s.iTab ino).SameFile (s'.iTab ino)) :
    s.SameBlocks s' dev ino L (s.fileData dev ino) := by
  have cells : s'.cell dev = s.cell dev := by
    funext c
    rw [Kernel.cell, view]
    rfl
  have addr := same.addr_eq
  refine h.sameBlocks good (by rw [view]) ?_ same ?_ (fun m p _ => ?_) fun m => ?_
  · rw [fs, cells]
    exact h.list
  · rw [Dinode.blocks, Dinode.blocks, cells, addr]
  · rw [Dinode.numberAt, Dinode.numberAt, cells, addr]
  · rw [cells, fileData_eq]

end Files

end Uzi
