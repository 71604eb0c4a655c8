import Uzi.Fs.OwnershipRuns

/-!
# The block map of a file

`Dinode.stored` is the number that the source documents for a logical block of a file. `bmap` reads it, or
makes it, and changes no other, and `f_trunc` gives all the blocks behind them back.
-/

namespace Uzi
open Exec BlockTree

/-- Entry `j` of the indirect block `b`, or 0 when there is no such block. -/
def entry (cell : Word → Block) (b : Word) (j : Nat) : Word := if b = 0 then 0 else (cell b).word j

/-- The number stored for the logical block `bn`, or 0 when there is none on the way. -/
def Dinode.stored (cell : Word → Block) (d : Dinode) (bn : Word) : Word :=
  if bn.toNat < 18 then d.addr bn.toNat
  else if bn.toNat < 274 then entry cell (d.addr 18) (bn.toNat - 18)
  else entry cell (entry cell (d.addr 19) ((bn.toNat - 274) / 256)) ((bn.toNat - 274) % 256)

/-- The number of blocks to be allocated before `bn` has one. -/
def Dinode.lacking (cell : Word → Block) (d : Dinode) (bn : Word) : Nat :=
  BlockTree.missing 0 (fun c j => (cell c).word j) (mapIndices bn) (d.addr (mapSlot bn))

section Stored

variable {cell cell' : Word → Block} {d d' : Dinode} {bn bn' : Word}

/-- The length of a way. -/
lemma length_mapIndices : (mapIndices bn).length = addrLevel (mapSlot bn) := by
  rw [mapIndices, mapSlot]
  split
  · next direct => exact (Nat.sub_eq_zero_of_le (Nat.le_of_lt_succ direct)).symm
  · split <;> rfl

/-- The indices of a way are below 256. -/
lemma mapIndices_lt : ∀ j ∈ mapIndices bn, j < 256 := by
  have lt := bn.isLt
  intro j hj
  rw [mapIndices] at hj
  split at hj
  · cases hj
  · split at hj
    · rw [List.mem_singleton] at hj
      omega
    · rw [List.mem_cons, List.mem_singleton] at hj
      omega

/-- Two logical blocks are reached from one slot by different indices. -/
lemma mapIndices_inj (slot : mapSlot bn' = mapSlot bn) (ne : bn' ≠ bn) : mapIndices bn' ≠ mapIndices bn := by
  intro e
  refine ne (BitVec.eq_of_toNat_eq ?_)
  rw [mapSlot, mapSlot] at slot
  rw [mapIndices, mapIndices] at e
  split at e
  · split at e
    · next a b => rwa [if_pos a, if_pos b] at slot
    · split at e <;> cases congrArg List.length e
  · split at e
    · split at e
      · cases congrArg List.length e
      · split at e
        · have entries := List.singleton_inj.mp e
          omega
        · cases congrArg List.length e
    · split at e
      · cases congrArg List.length e
      · split at e
        · cases congrArg List.length e
        · rw [List.cons.injEq, List.singleton_inj] at e
          omega

/-- The number is at the end of the path that `bmap` takes. -/
lemma Dinode.stored_eq : d.stored cell bn = pathTo cell (mapIndices bn) (d.addr (mapSlot bn)) := by
  rw [stored, mapIndices, mapSlot]
  split
  · rfl
  · split
    · rfl
    · by_cases nil : d.addr 19 = 0
      · rw [nil, pathTo, walk_nil]
        rfl
      · rw [pathTo, walk_cons nil, entry, entry, if_neg nil]
        rfl

/-- The numbers of a file depend on the contents of its blocks only. -/
lemma Dinode.stored_congr (addr : d'.addr (mapSlot bn) = d.addr (mapSlot bn))
    (h : ∀ c ∈ blockTree cell (addrLevel (mapSlot bn)) (d.addr (mapSlot bn)), cell' c = cell c) :
    d'.stored cell' bn = d.stored cell bn := by
  rw [stored_eq, stored_eq, addr]
  exact walk_congr (fun c hc j _ => congrArg (Block.word · j) (h c hc)) (Nat.le_of_eq length_mapIndices)
    mapIndices_lt

/-- A file keeps all its numbers as long as its blocks are not overwritten. -/
lemma Dinode.stored_of_blocks (h : ∀ c ∈ d.blocks cell, cell' c = cell c) :
    d.stored cell' bn = d.stored cell bn :=
  stored_congr rfl fun c hc => h c (Multiset.mem_of_le (blockTree_le_blocks mapSlot_lt) hc)

end Stored

/-- The trees at two slots of an inode have no block in common. -/
lemma notMem_of_slot_ne {cell : Word → Block} {d : Dinode} {L : List Word} {c : Word} {i j : Nat}
    (nodup : (↑L + d.blocks cell).Nodup) (hi : i < 20) (hj : j < 20) (ji : j ≠ i)
    (hc : c ∈ blockTree cell (addrLevel j) (d.addr j)) :
    c ∉ ↑L + blockTree cell (addrLevel i) (d.addr i) := by
  have split := Finset.add_sum_erase _ (fun j => blockTree cell (addrLevel j) (d.addr j)) (Finset.mem_range.mpr hi)
  rw [Dinode.blocks, ← split] at nodup
  have rest : c ∈ ∑ k ∈ (Finset.range 20).erase i, blockTree cell (addrLevel k) (d.addr k) :=
    Multiset.mem_sum.mpr ⟨j, Finset.mem_erase.mpr ⟨ji, Finset.mem_range.mpr hj⟩, hc⟩
  intro hm
  cases Multiset.mem_add.mp hm with
  | inl hL => exact notMem_of_nodup nodup hL (Multiset.mem_add.mpr (.inr rest))
  | inr hT => exact notMem_of_nodup (Multiset.nodup_add.mp nodup).2.1 hT rest

/-! ## `bmap` -/

/-- Every logical block of every file of the device maps as it did, block `bn` of `ip` apart: in the inodes
`I` in core and the inodes `rest` on the disk, and so on the other devices. -/
structure Kernel.MapsAsBefore (s s' : Kernel) (dev : Nat) (I : Finset Inoptr) (rest : List Dinode)
    (ip : Inoptr) (bn : Word) : Prop where
  own : ∀ m, m ≠ bn → (s'.iTab ip).cNode.stored (s'.cell dev) m = (s.iTab ip).cNode.stored (s.cell dev) m
  others : ∀ i ∈ I, i ≠ ip → ∀ m,
    (s'.iTab i).cNode.stored (s'.cell dev) m = (s.iTab i).cNode.stored (s.cell dev) m
  rest : ∀ d ∈ rest, ∀ m, d.stored (s'.cell dev) m = d.stored (s.cell dev) m
  inodes : ∀ i, i ≠ ip → s'.iTab i = s.iTab i
  devices : ∀ dev', dev' ≠ dev → s'.cell dev' = s.cell dev'

/-- What `bmap` returns and leaves, `L` being the free list. -/
structure Kernel.BlockMapped (s s' : Kernel) (dev : Nat) (I : Finset Inoptr) (rest : List Dinode) (L : List Word)
    (ip : Inoptr) (bn : Word) (rwflg : Bool) (r : Word) : Prop where
  read : rwflg = true → s.Shown s' ∧
    r = if (s.iTab ip).cNode.stored (s.cell dev) bn = 0 then NULLBLK else (s.iTab ip).cNode.stored (s.cell dev) bn
  found : (s.iTab ip).cNode.stored (s.cell dev) bn ≠ 0 →
    s.Shown s' ∧ r = (s.iTab ip).cNode.stored (s.cell dev) bn
  made : rwflg = false → (s.iTab ip).cNode.stored (s.cell dev) bn = 0 →
    (s.iTab ip).cNode.lacking (s.cell dev) bn ≤ L.length →
    r ∈ L ∧ (s'.iTab ip).cNode.stored (s'.cell dev) bn = r
  failed : rwflg = false → (s.iTab ip).cNode.stored (s.cell dev) bn = 0 →
    L.length < (s.iTab ip).cNode.lacking (s.cell dev) bn →
    r = NULLBLK ∧ (s'.iTab ip).cNode.stored (s'.cell dev) bn = 0
  same : s.MapsAsBefore s' dev I rest ip bn

section Mapped

variable {dev : Nat} {I : Finset Inoptr} {rest : List Dinode} {ip : Inoptr} {bn r : Word} {rwflg : Bool}
  {L : List Word} {s s' : Kernel}

/-- Nothing that is shown has changed. -/
lemma Kernel.Shown.mapsAsBefore (h : s.Shown s') : s.MapsAsBefore s' dev I rest ip bn := by
  obtain ⟨b, rfl, -, v⟩ := h
  have cells : ∀ dev, ({ s with bufs := b } : Kernel).cell dev = s.cell dev := fun dev => Kernel.cell_of_view v
  refine ⟨fun _ _ => ?_, fun _ _ _ _ => ?_, fun _ _ _ => ?_, fun _ _ => rfl, fun dev _ => cells dev⟩
  · rw [cells]
  · rw [cells]
  · rw [cells]

/-- The other logical blocks of the file. -/
lemma Kernel.Mapping.own (h : s.Mapping ip dev false L (mapSlot bn) (mapIndices bn) r s')
    (nodup : (↑L + (s.iTab ip).cNode.blocks (s.cell dev)).Nodup) {m : Word} (ne : m ≠ bn) :
    (s'.iTab ip).cNode.stored (s'.cell dev) m = (s.iTab ip).cNode.stored (s.cell dev) m := by
  obtain ⟨t, c, L', f, rfl, -, -, slots, resolved⟩ := h
  have inode : (t.setInode ip c).iTab ip = c := Function.update_self ..
  rw [inode]
  by_cases slot : mapSlot m = mapSlot bn
  · obtain ⟨x, -, -, fill⟩ := resolved.fill rfl
    have len : (mapIndices m).length = (mapIndices bn).length := by
      rw [length_mapIndices, length_mapIndices, slot]
    rw [Dinode.stored_eq, Dinode.stored_eq, slot]
    exact fill.others _ len mapIndices_lt (mapIndices_inj slot ne)
  · exact Dinode.stored_congr (slots _ mapSlot_lt slot) fun b hb =>
      f.content (dev, b) fun _ => notMem_of_slot_ne nodup mapSlot_lt mapSlot_lt slot hb

/-- What `bmap` may have overwritten. -/
lemma Kernel.Mapping.content (h : s.Mapping ip dev rwflg L (mapSlot bn) (mapIndices bn) r s') {n : Nat × Word}
    (off : n.1 = dev → n.2 ∉ ↑L + (s.iTab ip).cNode.blocks (s.cell dev)) :
    s'.bufs.view.content n = s.bufs.view.content n := by
  obtain ⟨t, c, L', f, rfl, -⟩ := h
  refine f.content n fun e hm => off e ?_
  exact Multiset.mem_of_le (add_le_add_right (blockTree_le_blocks mapSlot_lt) _) hm

/-- The other inodes are as before. -/
lemma Kernel.Mapping.inodes (h : s.Mapping ip dev rwflg L (mapSlot bn) (mapIndices bn) r s') {i : Inoptr}
    (ne : i ≠ ip) : s'.iTab i = s.iTab i := by
  obtain ⟨t, c, L', f, rfl, -⟩ := h
  rw [← f.iTab]
  exact Function.update_of_ne ne _ _

/-- What the value of `bmap` says. -/
lemma Kernel.Mapping.value (h : s.Mapping ip dev rwflg L (mapSlot bn) (mapIndices bn) r s')
    (same : s.MapsAsBefore s' dev I rest ip bn) : s.BlockMapped s' dev I rest L ip bn rwflg r := by
  obtain ⟨t, c, L', f, rfl, -, -, -, resolved⟩ := h
  have inode : (t.setInode ip c).iTab ip = c := Function.update_self ..
  refine ⟨fun flag => ?_, fun found => ?_, fun flag hole enough => ?_, fun flag hole short => ?_, same⟩
  · rw [Dinode.stored_eq]
    exact ⟨(resolved.same (.inr flag)).2, resolved.read flag⟩
  · rw [Dinode.stored_eq] at found ⊢
    refine ⟨(resolved.same (.inl found)).2, ?_⟩
    cases rwflg with
    | true => rw [resolved.read rfl, if_neg found]
    | false =>
      obtain ⟨x, res, -, fill⟩ := resolved.fill rfl
      rw [res, (fill.found found).1]
      rfl
  · rw [inode, Dinode.stored_eq]
    rw [Dinode.stored_eq] at hole
    obtain ⟨x, res, from', fill⟩ := resolved.fill flag
    obtain ⟨b, e, there⟩ := fill.taken hole enough
    obtain ⟨b_ne, b_from⟩ := from' b e
    rw [e] at res
    have r_eq : r = b := res
    subst r_eq
    refine ⟨?_, there⟩
    cases b_from with
    | inl old => exact absurd (old.trans hole) b_ne
    | inr free => exact free
  · rw [inode, Dinode.stored_eq]
    rw [Dinode.stored_eq] at hole
    obtain ⟨x, res, -, fill⟩ := resolved.fill flag
    obtain ⟨e, none⟩ := fill.failed hole short
    rw [e] at res
    exact ⟨res, none⟩

/-- `bmap` is the block map: it reads the number that is stored, or makes one, and no other logical block of
any file maps differently. -/
theorem bmap_stored (good : s.bufs.Good) (idle : ∀ bp, s.bufs.view.held bp = none) (hdev : dev < NDEVS)
    (list : FreeList (s.fsTab dev) (s.cell dev) L) (once : (↑L + ownedBlocks dev I rest s).Nodup)
    (files : ∀ i ∈ I, (s.iTab i).cDev = dev) (hip : ip ∈ I) (mode : (s.iTab ip).getmode ≠ F_BDEV) :
    wp (bmap ip bn rwflg) (fun r s' => s.BlockMapped s' dev I rest L ip bn rwflg r) (fun _ => False) s := by
  rw [Partition.owned_eq hip, ← add_assoc] at once
  have nodup := (Multiset.nodup_add.mp once).1
  refine wp_mono (wp_bmap good hdev (files ip hip) mode list nodup) ?_
    fun _ => View.not_stops_of_idle idle (by decide)
  intro r s' h
  refine h.value ?_
  cases rwflg with
  | true =>
    obtain ⟨t, c, L', f, rfl, -, -, -, resolved⟩ := h
    exact (resolved.same (.inr rfl)).2.mapsAsBefore
  | false =>
    have off : ∀ {M : Multiset Word}, M ≤ ∑ i ∈ I.erase ip, (s.iTab i).cNode.blocks (s.cell dev) +
        (rest.map (Dinode.blocks (s.cell dev))).sum → ∀ c ∈ M, s'.cell dev c = s.cell dev c :=
      fun le c hc => h.content fun _ hm => notMem_of_nodup once hm (Multiset.mem_of_le le hc)
    refine ⟨fun m => h.own nodup, fun i hi ne m => ?_, fun d hd m => ?_, fun i => h.inodes, fun dev' ne => ?_⟩
    · rw [h.inodes ne]
      refine Dinode.stored_of_blocks (off (le_trans ?_ (Multiset.le_add_right _ _)))
      exact Finset.single_le_sum (f := fun i => (s.iTab i).cNode.blocks (s.cell dev))
        (fun _ _ => Multiset.zero_le _) (Finset.mem_erase.mpr ⟨ne, hi⟩)
    · refine Dinode.stored_of_blocks (off (le_trans ?_ (Multiset.le_add_left _ _)))
      exact List.single_le_sum (fun _ _ => Multiset.zero_le _) _ (List.mem_map_of_mem hd)
    · funext c
      exact h.content (n := (dev', c)) fun e => absurd e ne

/-- The root directory of the small file system gets its first indirect block. -/
theorem bmap_stored_rootFs : wp (bmap 0 18 false)
    (fun r s' => rootFs.BlockMapped s' 0 {0} [] [4, 5] 0 18 false r) (fun _ => False) rootFs := by
  have held : ∀ bp, rootFs.bufs.view.held bp = none := congrFun (congrArg View.held Bufs.good_inited.2)
  refine bmap_stored Bufs.good_inited.1 held (by decide) partition_rootFs.list partition_rootFs.nodup ?_
    (Finset.mem_singleton_self 0) (by decide +kernel)
  intro i hi
  rfl

end Mapped

/-! ## Reading the block map -/

section Read

variable {dev : Nat} {ip : Inoptr} {bn : Word} {s s' s'' : Kernel}

/-- The number that a path has led to, for a caller that only reads. -/
def orNull (b : Word) : Word := if b = 0 then NULLBLK else b

/-- Nothing is shown. -/
lemma Kernel.Shown.refl (g : s.bufs.Good) : s.Shown s := ⟨s.bufs, rfl, g, rfl⟩

/-- What is shown, twice. -/
lemma Kernel.Shown.trans (h : s.Shown s') (h' : s'.Shown s'') : s.Shown s'' := by
  obtain ⟨b, rfl, -, v⟩ := h
  obtain ⟨b', rfl, g', v'⟩ := h'
  exact ⟨b', rfl, g', v'.trans v⟩

/-- A way that is read only. -/
lemma wp_bmapRounds_read (hdev : dev < NDEVS) {rounds sh : Nat} {nb : Word} (g : s.bufs.Good)
    (idle : ∀ bp, s.bufs.view.held bp = none) (ne : nb ≠ 0) :
    wp (bmapRounds dev true bn rounds sh nb)
      (fun r s' => s.Shown s' ∧ r = orNull (pathTo (s.cell dev) (mapPath bn rounds sh) nb)) (fun _ => False) s := by
  induction rounds generalizing s sh nb with
  | zero => exact ⟨.refl g, (if_neg ne).symm⟩
  | succ rounds ih =>
    unfold bmapRounds
    rw [wp_bind]
    refine wp_mono (wp_breadPtr g hdev) ?_ fun e stop => View.not_stops_of_idle idle (by decide) stop
    intro bp s₁ got
    obtain ⟨b₁, e, g₁, free, hold⟩ := got
    subst e
    have held : b₁.view.held bp = some (dev, nb) := by rw [hold, View.held_hold]
    have data : (b₁.bufpool bp).bfData = s.cell dev nb := by
      rw [g₁.data held, hold, View.content_hold]
      rfl
    have path : pathTo (s.cell dev) (mapPath bn (rounds + 1) sh) nb =
        pathTo (s.cell dev) (mapPath bn rounds (sh - 8)) ((s.cell dev nb).word (bn >>> sh &&& 0xff).toNat) :=
      walk_cons ne
    rw [wp_bind, wp_get, wp_ite]
    show if (b₁.bufpool bp).bfData.word _ ≠ 0 then _ else _
    rw [data]
    split
    · next below =>
      rw [wp_bind]
      refine wp_post (wp_brelse_hold g₁ free hold) fun _ s₂ given => ?_
      obtain ⟨b₂, e, g₂, v⟩ := given
      subst e
      have shown : s.Shown { s with bufs := b₂ } := ⟨b₂, rfl, g₂, v⟩
      have cells : ({ s with bufs := b₂ } : Kernel).cell dev = s.cell dev := Kernel.cell_of_view v
      refine wp_mono (ih (s := { s with bufs := b₂ }) g₂ (fun bp => ?_) ?_) (fun r s₃ h => ?_) fun _ => id
      · rw [v]
        exact idle bp
      · exact data ▸ below
      · rw [cells] at h
        rw [path, ← data]
        exact ⟨shown.trans h.1, h.2⟩
    · next hole =>
      rw [wp_ite, if_pos rfl, wp_bind]
      refine wp_post (wp_brelse_hold g₁ free hold) fun _ s₂ given => ?_
      obtain ⟨b₂, e, g₂, v⟩ := given
      rw [path, not_not.mp hole, pathTo, walk_nil]
      exact ⟨⟨b₂, e, g₂, v⟩, rfl⟩

/-- `bmap` reads the number that is stored, whatever the blocks hold. -/
lemma wp_bmap_read (g : s.bufs.Good) (idle : ∀ bp, s.bufs.view.held bp = none) (hdev : (s.iTab ip).cDev < NDEVS)
    (mode : (s.iTab ip).getmode ≠ F_BDEV) :
    wp (bmap ip bn true)
      (fun r s' => s.Shown s' ∧ r = orNull ((s.iTab ip).cNode.stored (s.cell (s.iTab ip).cDev) bn))
      (fun _ => False) s := by
  have addr : ∀ (slot sh : Nat) (n : Word), mapSlot bn = slot → mapPath n (addrLevel slot) sh = mapIndices bn →
      wp (bmapAddr ip slot true (bmapRounds (s.iTab ip).cDev true n (addrLevel slot) sh))
        (fun r s' => s.Shown s' ∧ r = orNull ((s.iTab ip).cNode.stored (s.cell (s.iTab ip).cDev) bn))
        (fun _ => False) s := by
    intro slot sh n slot_eq path
    rw [Dinode.stored_eq, slot_eq, ← path]
    unfold bmapAddr
    rw [wp_bind, wp_get, wp_ite]
    split
    · next ne => exact wp_bmapRounds_read hdev g idle ne
    · next nil =>
      rw [wp_ite, if_pos rfl, not_not.mp nil, pathTo, walk_nil]
      exact ⟨.refl g, rfl⟩
  unfold bmap
  rw [wp_bind, wp_get, wp_ite, if_neg mode, wp_ite]
  split
  · next direct =>
    have lt : bn.toNat < 18 := direct
    have level : addrLevel bn.toNat = 0 := Nat.sub_eq_zero_of_le (Nat.le_of_lt_succ lt)
    have start := addr bn.toNat 0 bn (if_pos lt)
      ((mapPath_direct lt).trans (if_pos lt).symm)
    rw [level] at start
    exact start
  · next indirect =>
    have ge : ¬ bn.toNat < 18 := indirect
    have eq : (bn - 18).toNat = bn.toNat - 18 :=
      BitVec.toNat_sub_of_le (BitVec.le_def.mpr (Nat.le_of_not_lt ge))
    rw [wp_ite]
    split
    · next double =>
      rw [ne_eq, and_ff00_eq_zero, eq] at double
      have big : ¬ bn.toNat < 274 := by omega
      refine addr 19 _ _ ?_ ?_
      · rw [mapSlot, if_neg ge, if_neg big]
      · rw [mapIndices, if_neg ge, if_neg big]
        exact mapPath_double (Nat.le_of_not_lt big)
    · next single =>
      rw [ne_eq, not_not, and_ff00_eq_zero, eq] at single
      have small : bn.toNat < 274 := by omega
      refine addr 18 _ _ ?_ ?_
      · rw [mapSlot, if_neg ge, if_pos small]
      · rw [mapIndices, if_neg ge, if_pos small]
        exact mapPath_single (Nat.le_of_not_lt ge) small

end Read

/-! ## `f_trunc` -/

/-- What `f_trunc` leaves: the blocks of the file are on the free list, once more and once each. -/
structure Kernel.Truncated (s s' : Kernel) (dev : Nat) (L : List Word) (ino : Inoptr) : Prop where
  list : ∃ L' : List Word, FreeList (s'.fsTab dev) (s'.cell dev) L' ∧
    (L' : Multiset Word) = ↑L + (s.iTab ino).cNode.blocks (s.cell dev)
  count : (s'.fsTab dev).sTfree.toNat = (s.fsTab dev).sTfree.toNat + ((s.iTab ino).cNode.blocks (s.cell dev)).card
  addr : (s'.iTab ino).cNode.iAddr = fun _ => 0
  size : (s'.iTab ino).cNode.iSize = ⟨0, 0⟩
  dirty : (s'.iTab ino).cDirty = true
  others : ∀ i, i ≠ ino → s'.iTab i = s.iTab i
  content : ∀ n, (n.1 = dev → n.2 ∉ ↑L + (s.iTab ino).cNode.blocks (s.cell dev)) →
    s'.bufs.view.content n = s.bufs.view.content n

/-- `f_trunc` frees exactly the blocks of the file. It stops when one of them is outside the data area. -/
theorem fTrunc_frees {dev : Nat} {ino : Inoptr} {L : List Word} {s : Kernel} (good : s.bufs.Good)
    (idle : ∀ bp, s.bufs.view.held bp = none) (hdev : dev < NDEVS) (own : (s.iTab ino).cDev = dev)
    (list : FreeList (s.fsTab dev) (s.cell dev) L)
    (once : ((s.iTab ino).cNode.blocks (s.cell dev)).Nodup)
    (used : ∀ b ∈ (s.iTab ino).cNode.blocks (s.cell dev), b ∉ L) :
    wp (fTrunc ino) (fun _ s' => s.Truncated s' dev L ino)
      (fun e => e = .validblkInvalidBlk ∧
        ∃ b ∈ (s.iTab ino).cNode.blocks (s.cell dev), ¬ s.DataBlock dev b) s := by
  have nodup : (↑L + (s.iTab ino).cNode.blocks (s.cell dev)).Nodup :=
    Multiset.nodup_add.mpr ⟨Multiset.coe_nodup.mpr list.nodup, once,
      Multiset.disjoint_left.mpr fun hL hb => used _ hb (Multiset.mem_coe.mp hL)⟩
  refine wp_mono (wp_fTrunc good hdev own list nodup) ?_ fun e stop => ?_
  · rintro _ _ ⟨t, L', f, sum, rfl⟩
    have self : (t.setInode ino (s.iTab ino).truncated).iTab ino = (s.iTab ino).truncated := Function.update_self ..
    refine ⟨⟨L', f.list, sum⟩, ?_, ?_, ?_, ?_, fun i hi => ?_, fun n hn => f.content n fun e hm => ?_⟩
    · have card := congrArg Multiset.card sum
      rw [Multiset.card_add, Multiset.coe_card, Multiset.coe_card] at card
      exact f.list.tfree.trans (by rw [card, list.tfree])
    · rw [self]
      rfl
    · rw [self]
      rfl
    · rw [self]
      rfl
    · rw [← f.iTab]
      exact Function.update_of_ne hi _ _
    · exact hn e (sum ▸ Multiset.mem_coe.mpr hm)
  · cases stop with
    | inl held => exact (View.not_stops_of_idle idle (by decide) held).elim
    | inr bad => exact bad

/-- The root directory of the small file system gives its block back. -/
theorem fTrunc_frees_rootFs : wp (fTrunc 0) (fun _ s' => rootFs.Truncated s' 0 [4, 5] 0)
    (fun e => e = .validblkInvalidBlk ∧
      ∃ b ∈ (rootFs.iTab 0).cNode.blocks (rootFs.cell 0), ¬ rootFs.DataBlock 0 b) rootFs := by
  have held : ∀ bp, rootFs.bufs.view.held bp = none := congrFun (congrArg View.held Bufs.good_inited.2)
  have nodup := partition_rootFs.nodup
  rw [Partition.owned_eq (Finset.mem_singleton_self 0), ← add_assoc] at nodup
  have own := (Multiset.nodup_add.mp nodup).1
  refine fTrunc_frees Bufs.good_inited.1 held (by decide) rfl partition_rootFs.list
    (Multiset.nodup_add.mp own).2.1 fun b hb hL => ?_
  exact notMem_of_nodup own (Multiset.mem_coe.mpr hL) hb

end Uzi
