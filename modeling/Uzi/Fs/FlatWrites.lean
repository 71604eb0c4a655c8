import Uzi.Fs.OwnershipRuns
import Uzi.Fs.WriteCount
import Uzi.Lib.FlatFile

/-!
# Writes of flat files

The regular files and directories of a device that are in core, with the positions in the open file table, are flat
files (`Kernel.flat`): a `_write` goes through blocks, indirect blocks, the free list and the buffers, and what it does
is to overwrite bytes of one flat file.
-/

namespace Uzi
open Exec BlockTree FlatFile

variable {s s' : Kernel} {dev : Nat} {I : Finset Inoptr} {rest : List Dinode} {L : List Word} {ino : Inoptr}
  {n m : Word}

/-! ## Files in order -/

/-- Every block of the device has one place, no buffer is held, and the files `I` have sizes and positions in bounds. -/
structure Kernel.InOrder (s : Kernel) (dev : Nat) (I : Finset Inoptr) (rest : List Dinode) (L : List Word) : Prop where
  owned : OwnershipInv dev I rest s L
  idle : ∀ bp, s.bufs.view.held bp = none
  mode : ∀ i ∈ I, (s.iTab i).getmode = F_REG ∨ (s.iTab i).getmode = F_DIR
  size : ∀ i ∈ I, (s.iTab i).cNode.iSize.Norm
  pos : ∀ j, (s.ofTab j).oPtr.Norm

/-- The files other than `ino` are what they were. -/
structure Kernel.LeavesOthers (s s' : Kernel) (dev : Nat) (I : Finset Inoptr) (ino : Inoptr) : Prop where
  inodes : ∀ i, i ≠ ino → s'.iTab i = s.iTab i
  data : ∀ i ∈ I, i ≠ ino → ∀ bn, s'.fileData dev i bn = s.fileData dev i bn
  blocks : ∀ i ∈ I, i ≠ ino → ∀ bn, s'.fileBlock dev i bn = s.fileBlock dev i bn

/-- The others are left. -/
lemma Kernel.LeavesOthers.refl : s.LeavesOthers s dev I ino :=
  ⟨fun _ _ => rfl, fun _ _ _ _ => rfl, fun _ _ _ _ => rfl⟩

/-- The others are left, twice. -/
lemma Kernel.LeavesOthers.trans {s'' : Kernel} (h : s.LeavesOthers s' dev I ino) (h' : s'.LeavesOthers s'' dev I ino) :
    s.LeavesOthers s'' dev I ino :=
  ⟨fun i ne => (h'.inodes i ne).trans (h.inodes i ne), fun i hi ne bn => (h'.data i hi ne bn).trans (h.data i hi ne bn),
    fun i hi ne bn => (h'.blocks i hi ne bn).trans (h.blocks i hi ne bn)⟩

/-- A file is what it was. -/
structure Kernel.KeepsFile (s s' : Kernel) (dev : Nat) (ino : Inoptr) : Prop where
  size : (s'.iTab ino).cNode.iSize = (s.iTab ino).cNode.iSize
  data : ∀ bn, s'.fileData dev ino bn = s.fileData dev ino bn
  block : ∀ bn, s'.fileBlock dev ino bn = s.fileBlock dev ino bn

/-- Another file is kept. -/
lemma Kernel.LeavesOthers.keepsFile {i : Inoptr} (h : s.LeavesOthers s' dev I ino) (hi : i ∈ I) (ne : i ≠ ino) :
    s.KeepsFile s' dev i :=
  ⟨congrArg (fun c => c.cNode.iSize) (h.inodes i ne), h.data i hi ne, h.blocks i hi ne⟩

/-- A file does not depend on the buffers that are in use. -/
lemma Kernel.keepsFile_of_view (view : s'.bufs.view = s.bufs.view)
    (addr : (s'.iTab ino).cNode.addr = (s.iTab ino).cNode.addr)
    (size : (s'.iTab ino).cNode.iSize = (s.iTab ino).cNode.iSize) : s.KeepsFile s' dev ino := by
  have cells : s'.cell dev = s.cell dev := Kernel.cell_of_view view
  have stored : ∀ bn, s'.fileBlock dev ino bn = s.fileBlock dev ino bn := fun bn => by
    rw [Kernel.fileBlock, Kernel.fileBlock, cells, Dinode.stored_eq, Dinode.stored_eq, addr]
  refine ⟨size, fun bn => ?_, stored⟩
  rw [Kernel.fileData_eq, Kernel.fileData_eq, stored, cells]

/-- A file keeps its data as long as its blocks are not overwritten. -/
lemma Dinode.data_of_blocks {cell cell' : Word → Block} {d : Dinode} {bn : Word}
    (h : ∀ c ∈ d.blocks cell, cell' c = cell c) : d.data cell' bn = d.data cell bn := by
  have same : d.stored cell' bn = d.stored cell bn := Dinode.stored_of_blocks h
  rw [Dinode.data, Dinode.data, same]
  split
  · rfl
  · next there =>
    have slot : mapSlot bn < 20 := mapSlot_lt
    refine h _ (Multiset.mem_of_le (blockTree_le_blocks slot) ?_)
    rw [Dinode.stored_eq] at there ⊢
    exact walk_mem (Nat.le_of_eq length_mapIndices) mapIndices_lt there

/-- A block of one inode, or a free one, is in no other. -/
lemma OwnershipInv.apart (h : OwnershipInv dev I rest s L) (hip : ino ∈ I) {i : Inoptr} (hi : i ∈ I) (ne : i ≠ ino)
    {c : Word} (hc : c ∈ (s.iTab i).cNode.blocks (s.cell dev)) :
    c ∉ ↑L + (s.iTab ino).cNode.blocks (s.cell dev) := by
  have nodup := h.partition.nodup
  rw [Partition.owned_eq hip, ← add_assoc] at nodup
  refine fun hm => notMem_of_nodup nodup hm (Multiset.mem_add.mpr (.inl ?_))
  exact Multiset.mem_sum.mpr ⟨i, Finset.mem_erase.mpr ⟨ne, hi⟩, hc⟩

/-- Only free blocks and blocks of `ino` change. -/
lemma OwnershipInv.leavesOthers (h : OwnershipInv dev I rest s L) (hip : ino ∈ I)
    (inodes : ∀ i, i ≠ ino → s'.iTab i = s.iTab i)
    (content : ∀ c, c ∉ ↑L + (s.iTab ino).cNode.blocks (s.cell dev) → s'.cell dev c = s.cell dev c) :
    s.LeavesOthers s' dev I ino := by
  refine ⟨inodes, fun i hi ne bn => ?_, fun i hi ne bn => ?_⟩
  · rw [Kernel.fileData, Kernel.fileData, inodes i ne]
    exact Dinode.data_of_blocks fun c hc => content c (h.apart hip hi ne hc)
  · rw [Kernel.fileBlock, Kernel.fileBlock, inodes i ne]
    exact Dinode.stored_of_blocks fun c hc => content c (h.apart hip hi ne hc)

namespace Kernel.InOrder

variable (h : s.InOrder dev I rest L) (hip : ino ∈ I)
include h hip

/-- Each of the files is consistent with the free list. -/
lemma fileAt : s.FileAt dev ino L := by
  obtain ⟨nodup, range⟩ := h.owned.part hip
  refine ⟨h.owned.good, h.idle, (h.owned.inodes ino hip).1, h.mode ino hip, h.owned.partition.list, nodup, ?_⟩
  intro b hb null
  subst null
  have inside := h.owned.partition.range (b := NULLBLK) ?_
  · have last := (s.fsTab dev).sFsize.isLt
    have null : NULLBLK.toNat = 2 ^ 16 - 1 := rfl
    have lt := BitVec.lt_def.mp inside.2
    omega
  · rw [Partition.owned_eq hip, ← add_assoc]
    exact Multiset.mem_add.mpr (.inl hb)

/-- The inode changes, but for what the blocks depend on, and nothing else does. -/
lemma keep (good : s'.bufs.Good) (view : s'.bufs.view = s.bufs.view) (fs : s'.fsTab = s.fsTab)
    (inodes : ∀ i, i ≠ ino → s'.iTab i = s.iTab i) (same : (s.iTab ino).SameFile (s'.iTab ino))
    (size : (s'.iTab ino).cNode.iSize.Norm) (pos : ∀ j, (s'.ofTab j).oPtr.Norm) :
    s'.InOrder dev I rest L ∧ s.LeavesOthers s' dev I ino ∧ ∀ bn, s'.fileData dev ino bn = s.fileData dev ino bn := by
  have cells : s'.cell dev = s.cell dev := Kernel.cell_of_view view
  have kept := (h.fileAt hip).keep good view fs same
  have blocks : (s'.iTab ino).cNode.blocks (s'.cell dev) = (s.iTab ino).cNode.blocks (s.cell dev) := by
    rw [cells, Dinode.blocks, Dinode.blocks, same.addr_eq]
  have mode : (s'.iTab ino).getmode = (s.iTab ino).getmode := by
    rw [Cinode.getmode, same.mode]
    rfl
  refine ⟨⟨⟨good, fun i hi => ?_, ?_⟩, fun bp => ?_, fun i hi => ?_, fun i hi => ?_, pos⟩, ?_, kept.data⟩
  · by_cases e : i = ino
    · subst e
      rw [mode, same.dev]
      exact h.owned.inodes i hi
    · rw [inodes i e]
      exact h.owned.inodes i hi
  · refine h.owned.partition.move hip kept.file.list (fs ▸ .refl) inodes (fun c _ => congrFun cells c) ?_
    rw [blocks]
  · rw [view]
    exact h.idle bp
  · by_cases e : i = ino
    · subst e
      rw [mode]
      exact h.mode i hi
    · rw [inodes i e]
      exact h.mode i hi
  · by_cases e : i = ino
    · subst e
      exact size
    · rw [inodes i e]
      exact h.size i hi
  · exact h.owned.leavesOthers hip inodes fun c _ => congrFun cells c

end Kernel.InOrder

/-! ## A round of a write -/

/-- The blocks of a file do not depend on the contents of those with its data. -/
lemma Kernel.FileAt.blocks_put {bn : Word} (h : s.FileAt dev ino L) (there : s.fileBlock dev ino bn ≠ 0)
    (addr : (s'.iTab ino).cNode.addr = (s.iTab ino).cNode.addr)
    (off : ∀ c, c ≠ s.fileBlock dev ino bn → s'.cell dev c = s.cell dev c) :
    (s'.iTab ino).cNode.blocks (s'.cell dev) = (s.iTab ino).cNode.blocks (s.cell dev) := by
  have path : walk 0 (fun c j => (s.cell dev c).word j) (mapIndices bn) ((s.iTab ino).cNode.addr (mapSlot bn)) =
      s.fileBlock dev ino bn := Dinode.stored_eq.symm
  have tree : (blockTree (s.cell dev) (addrLevel (mapSlot bn)) ((s.iTab ino).cNode.addr (mapSlot bn))).Nodup :=
    Multiset.nodup_of_le (blockTree_le_blocks mapSlot_lt) (Multiset.nodup_add.mp h.nodup).2.1
  refine Finset.sum_congr rfl fun j hj => ?_
  rw [addr]
  by_cases e : j = mapSlot bn
  · rw [e]
    exact (sub_put tree length_mapIndices mapIndices_lt (path ▸ there) fun c ne k _ =>
      congrArg (Block.word · k) (off c (path ▸ ne))).1
  · refine blockTree_congr fun c hc => off c fun own => ?_
    refine notMem_of_slot_ne h.nodup mapSlot_lt (Finset.mem_range.mp hj) e hc (Multiset.mem_add.mpr (.inr ?_))
    exact own ▸ fileBlock_mem there

/-- A file of the device has been changed, with blocks of the free list, and the others have not. -/
def Kernel.Changed (s s' : Kernel) (dev : Nat) (I : Finset Inoptr) (rest : List Dinode) (ino : Inoptr) : Prop :=
  (∃ L, s'.InOrder dev I rest L) ∧ s.LeavesOthers s' dev I ino

namespace Kernel.InOrder

variable (h : s.InOrder dev I rest L) (hip : ino ∈ I)
include h hip

/-- A block of the file is overwritten. -/
lemma put {bn : Word} {x : Block} (there : s.fileBlock dev ino bn ≠ 0) (good : s'.bufs.Good)
    (view : s'.bufs.view = s.bufs.view.put (dev, s.fileBlock dev ino bn) x) (fs : s'.fsTab = s.fsTab)
    (iTab : s'.iTab = s.iTab) (ofTab : s'.ofTab = s.ofTab) : s.Changed s' dev I rest ino := by
  have file := h.fileAt hip
  have same : (s.iTab ino).SameFile (s'.iTab ino) := iTab ▸ ⟨rfl, rfl, rfl, rfl, rfl⟩
  have put := file.put there good view fs same
  have inodes : ∀ i, s'.iTab i = s.iTab i := congrFun iTab
  have off : ∀ c, c ≠ s.fileBlock dev ino bn → s'.cell dev c = s.cell dev c := by
    intro c ne
    rw [Kernel.cell, view]
    exact View.content_put_of_ne fun e => ne (Prod.ext_iff.mp e).2
  have blocks : (s'.iTab ino).cNode.blocks (s'.cell dev) = (s.iTab ino).cNode.blocks (s.cell dev) :=
    file.blocks_put there (by rw [inodes]) off
  have content : ∀ c, c ∉ ↑L + (s.iTab ino).cNode.blocks (s.cell dev) → s'.cell dev c = s.cell dev c := by
    refine fun c out => off c fun e => out (Multiset.mem_add.mpr (.inr ?_))
    exact e ▸ fileBlock_mem_blocks there
  refine ⟨⟨L, ⟨good, fun i hi => ?_, ?_⟩, put.file.idle, fun i hi => ?_, fun i hi => ?_, fun j => ?_⟩, ?_⟩
  · rw [inodes]
    exact h.owned.inodes i hi
  · refine h.owned.partition.move hip put.file.list (fs ▸ .refl) (fun i _ => inodes i) content ?_
    rw [blocks]
  · rw [inodes]
    exact h.mode i hi
  · rw [inodes]
    exact h.size i hi
  · rw [ofTab]
    exact h.pos j
  · exact h.owned.leavesOthers hip (fun i _ => inodes i) content

/-- `bmap` takes blocks for one file. -/
lemma wp_bmap_changed (hdev : dev < NDEVS) {bn : Word} :
    wp (bmap ino bn false) (fun _ s' => s.Changed s' dev I rest ino) (fun _ => False) s := by
  have file := h.fileAt hip
  have stops : ∀ {e N}, ¬ s.bufs.view.Stops 1 N e := View.not_stops_of_idle h.idle (by decide)
  have maps : wp (bmap ino bn false) _ _ s := wp_bmap h.owned.good hdev file.own file.not_bdev file.list file.nodup
  refine wp_mono (maps.and (h.owned.bmap hdev hip)) (fun r s' got => ?_) fun _ stop => stops stop.1
  obtain ⟨mapping, L', owned⟩ := got
  obtain ⟨L'', ext⟩ := mapping.extended file
  have inodes : ∀ i, i ≠ ino → s'.iTab i = s.iTab i := fun i => mapping.inodes
  have ofTab : s'.ofTab = s.ofTab := by
    rw [ext.eq]
    rfl
  refine ⟨⟨L', owned, ext.file.idle, fun i hi => ?_, fun i hi => ?_, fun j => ?_⟩, ?_⟩
  · by_cases e : i = ino
    · exact e ▸ ext.file.mode
    · rw [inodes i e]
      exact h.mode i hi
  · by_cases e : i = ino
    · rw [e, ext.mapped.eq]
      exact h.size ino hip
    · rw [inodes i e]
      exact h.size i hi
  · rw [ofTab]
    exact h.pos j
  · exact h.owned.leavesOthers hip inodes fun c out => mapping.content fun _ => out

/-- A round of `writei` changes one file. -/
lemma wp_writeRound_changed (hdev : dev < NDEVS)
    (fits : s.udata.uOffset.oOffset.toNat + (chunk s.target n s.udata.uOffset.oOffset).toNat ≤ 512) :
    wp (writeRound ino dev false n) (fun _ s' => s.Changed s' dev I rest ino) (fun _ => False) s := by
  unfold writeRound
  rw [wp_bind, wp_get, wp_bind]
  refine wp_mono ((wp_bmap_file hdev (h.fileAt hip)).and (h.wp_bmap_changed hip hdev)) (fun r s₁ got => ?_)
    fun _ bad => bad.1
  obtain ⟨⟨L', ext⟩, ⟨L₁, h₁⟩, others⟩ := got
  rw [wp_ite]
  split
  · exact ⟨⟨L₁, h₁⟩, others⟩
  · next some =>
    obtain ⟨ne, block, error, -⟩ := ext.given some
    have udata : s₁.udata = s.udata := by
      rw [ext.eq, error]
      rfl
    refine wp_writeBlock h₁.owned.good h₁.idle hdev (by rw [udata]) fits rfl fun b' g' v' => ?_
    rw [roundEnd, wp_bind, wp_bind, wp_advance, wp_ite, if_neg Bool.false_ne_true]
    generalize hs : Kernel.withUdata _ _ = s₂
    have bufs : s₂.bufs = b' := hs ▸ rfl
    rw [← bufs, ← block] at v'
    have changed : s₁.Changed s₂ dev I rest ino :=
      h₁.put hip (block ▸ ne) (bufs ▸ g') v' (hs ▸ rfl) (hs ▸ rfl) (hs ▸ rfl)
    exact ⟨changed.1, others.trans changed.2⟩

end Kernel.InOrder

/-! ## The bytes of a file -/

/-- The byte of a file at a position, zero where no position gets to. -/
noncomputable def Kernel.byteAt (s : Kernel) (dev : Nat) (ino : Inoptr) (q : Nat) : Byte :=
  if q < 2 ^ 25 then (s.fileData dev ino (BitVec.ofNat 16 (q / 512))).byte (q % 512) else 0

/-- The bytes of a file are those of its blocks. -/
lemma Kernel.byteAt_congr {i : Inoptr} (h : ∀ bn, s'.fileData dev i bn = s.fileData dev i bn) :
    s'.byteAt dev i = s.byteAt dev i := by
  funext q
  rw [Kernel.byteAt, Kernel.byteAt, h]

/-- Bytes of one logical block are overwritten. -/
lemma Kernel.byteAt_setBytes {o : Off} {a : Nat} {u : UData} (fits : o.oOffset.toNat + a ≤ 512)
    (h : ∀ bn, s'.fileData dev ino bn = Function.update (s.fileData dev ino) o.oBlkno
      ((s.fileData dev ino o.oBlkno).setBytes o.oOffset.toNat a u.source) bn) :
    s'.byteAt dev ino = overwrite (s.byteAt dev ino) o.val (u.bytes u.uBase a) := by
  have start : o.val = 512 * o.oBlkno.toNat + o.oOffset.toNat := rfl
  have blk := o.oBlkno.isLt
  have source : u.bytes u.uBase a = slice u.source 0 a := slice_congr fun k _ => by
    rw [UData.source, Nat.zero_add]
  rw [source, overwrite_slice]
  funext q
  rw [Kernel.byteAt, Kernel.byteAt]
  by_cases reached : q < 2 ^ 25
  · rw [if_pos reached, if_pos reached, h, Function.update_apply]
    have same : BitVec.ofNat 16 (q / 512) = o.oBlkno ↔ q / 512 = o.oBlkno.toNat := by
      rw [← BitVec.toNat_inj, BitVec.toNat_ofNat, Nat.mod_eq_of_lt (by omega)]
    by_cases here : q / 512 = o.oBlkno.toNat
    · rw [if_pos (same.mpr here), byte_setBytes (Nat.mod_lt q (by decide)), same.mpr here, Nat.zero_add]
      by_cases inside : o.val ≤ q ∧ q < o.val + a
      · rw [if_pos inside, if_pos (by omega)]
        exact congrArg u.source (by omega)
      · rw [if_neg inside, if_neg (by omega)]
    · rw [if_neg (mt same.mp here), if_neg (by omega)]
  · rw [if_neg reached, if_neg reached, if_neg (by omega)]

/-! ## The loop of a write -/

/-- After `k` rounds of a write of `n` bytes, of which `m` are left: those that are not are in the file. -/
structure Kernel.FillsFile (s s' : Kernel) (dev : Nat) (I : Finset Inoptr) (rest : List Dinode) (ino : Inoptr)
    (n m : Word) (k : Nat) : Prop where
  writing : s.Writing s' dev ino n m k
  changed : s.Changed s' dev I rest ino
  size : (s'.iTab ino).cNode.iSize = (s.iTab ino).cNode.iSize
  mem : s'.udata.mem = s.udata.mem
  bytes : s'.byteAt dev ino =
    overwrite (s.byteAt dev ino) s.udata.uOffset.val (s.udata.bytes s.udata.uBase (n.toNat - m.toNat))

/-- Bytes have been written. -/
structure Kernel.HasFilled (s s' : Kernel) (dev : Nat) (I : Finset Inoptr) (rest : List Dinode) (ino : Inoptr)
    (k : Nat) : Prop where
  call : s.SameCall s'
  changed : s.Changed s' dev I rest ino
  size : (s'.iTab ino).cNode.iSize = (s.iTab ino).cNode.iSize
  mem : s'.udata.mem = s.udata.mem
  norm : s'.udata.uOffset.Norm
  pos : s'.udata.uOffset.val = s.udata.uOffset.val + k
  bytes : s'.byteAt dev ino = overwrite (s.byteAt dev ino) s.udata.uOffset.val (s.udata.bytes s.udata.uBase k)

section Loop

variable {k : Nat}

/-- The position after the bytes that have been transferred. -/
lemma Kernel.Underway.pos (h : s.Underway s' false n m k) (room : s.udata.uOffset.val + n.toNat < 2 ^ 25) :
    s'.udata.uOffset.val = s.udata.uOffset.val + (n.toNat - m.toNat) := by
  rw [h.val rfl, Nat.mod_eq_of_lt (by omega)]

/-- One round more. -/
lemma Kernel.FillsFile.next (hdev : dev < NDEVS) (hip : ino ∈ I) (nes : s.target = .nes → n.toNat < 2 ^ 15)
    (room : s.udata.uOffset.val + n.toNat < 2 ^ 25) (h : s.FillsFile s' dev I rest ino n m k) (ne : left m = true) :
    wp (writeRound ino dev false m)
      (fun r s'' => (∀ m', r = some m' → s.FillsFile s'' dev I rest ino n m' (k + 1)) ∧
        (r = none → s.HasFilled s'' dev I rest ino (n.toNat - m.toNat) ∧ s''.udata.uError = .enospc))
      (fun _ => False) s' := by
  obtain ⟨⟨L, ordered⟩, others⟩ := h.changed
  have file := ordered.fileAt hip
  have norm := h.writing.underway.norm
  have fewer := h.writing.underway.least
  have offset : s'.udata.uOffset.oOffset.toNat < 512 := norm
  obtain ⟨⟨pos, inside⟩, le⟩ :=
    chunk_bounds norm (fun t => by have := nes (h.writing.underway.target ▸ t); omega) ne
  rw [toInt_of_lt (by omega)] at inside
  have fits : s'.udata.uOffset.oOffset.toNat + (chunk s'.target m s'.udata.uOffset.oOffset).toNat ≤ 512 := by
    omega
  have round := ((wp_writeRound_file (n := m) hdev file fits).and
    (ordered.wp_writeRound_changed (n := m) hip hdev fits)).and (h.writing.next hdev nes ne)
  refine wp_mono round (fun r s'' got => ?_) fun _ bad => bad.2
  obtain ⟨⟨⟨L', outcome⟩, ordered', others'⟩, moved, -⟩ := got
  have changed : s.Changed s'' dev I rest ino := ⟨ordered', others.trans others'⟩
  cases outcome with
  | inl full =>
    obtain ⟨e, full⟩ := full
    obtain ⟨call, offset⟩ := full.call
    have mem : s''.udata.mem = s'.udata.mem := by
      rw [full.eq]
      rfl
    refine ⟨fun m' e' => absurd (e.symm.trans e') nofun, fun _ => ⟨?_, (full.full rfl).2⟩⟩
    refine ⟨h.writing.call.trans call, changed, ?_, mem.trans h.mem, offset ▸ norm, ?_, ?_⟩
    · rw [full.mapped.eq]
      exact h.size
    · rw [offset, h.writing.underway.pos room]
    · rw [Kernel.byteAt_congr full.data, h.bytes]
  | inr wrote =>
    obtain ⟨e, wrote⟩ := wrote
    have mem : s''.udata.mem = s'.udata.mem := by
      rw [wrote.udata]
      rfl
    refine ⟨fun m' e' => ?_, fun e' => absurd (e.symm.trans e') nofun⟩
    refine ⟨moved m' e', changed, ?_, mem.trans h.mem, ?_⟩
    · rw [wrote.mapped.eq]
      exact h.size
    · cases e.symm.trans e'
      have base := h.writing.underway.base
      have done : n.toNat - (m - chunk s'.target m s'.udata.uOffset.oOffset).toNat =
          n.toNat - m.toNat + (chunk s'.target m s'.udata.uOffset.oOffset).toNat := by
        rw [BitVec.toNat_sub_of_le le]
        have lt := BitVec.le_def.mp le
        omega
      have source : s'.udata.bytes s'.udata.uBase (chunk s'.target m s'.udata.uOffset.oOffset).toNat =
          s.udata.bytes (s.udata.uBase + (n.toNat - m.toNat)) (chunk s'.target m s'.udata.uOffset.oOffset).toNat := by
        rw [UData.bytes, h.mem, show s'.udata.uBase = s.udata.uBase + (n.toNat - m.toNat) by omega]
        rfl
      have length : (s.udata.bytes s.udata.uBase (n.toNat - m.toNat)).length = n.toNat - m.toNat := length_slice
      rw [Kernel.byteAt_setBytes fits wrote.data, h.bytes, done, UData.bytes_add, ← overwrite_append, length,
        ← h.writing.underway.pos room, source]

/-- The loop of `writei` writes the bytes from the first one on, and stops before the last one with `ENOSPC` only. -/
lemma wp_writeRounds_flat (hdev : dev < NDEVS) (hip : ino ∈ I) (nes : s.target = .nes → n.toNat < 2 ^ 15)
    (norm : s.udata.uOffset.Norm) (room : s.udata.uOffset.val + n.toNat < 2 ^ 25) (h : s.InOrder dev I rest L) :
    wp (rounds left .hang (writeRound ino dev false) n.toNat n)
      (fun _ s' => ∃ k ≤ n.toNat, s.HasFilled s' dev I rest ino k ∧ (k < n.toNat → s'.udata.uError = .enospc))
      (fun _ => False) s := by
  have filling : ∀ {k s' m}, Reaches left (writeRound ino dev false) s n k s' m →
      s.FillsFile s' dev I rest ino n m k := by
    intro k s' m reached
    refine reached.invariant (I := fun k s' m => s.FillsFile s' dev I rest ino n m k) ?_ fun k s' m before goes => ?_
    · have first : Reaches left (writeRound ino dev false) s n 0 s n := .start
      refine ⟨⟨reaches_underway writeRound_moves nes norm first, ⟨rfl, rfl, rfl, rfl⟩, ⟨L, h.fileAt hip⟩, Iff.rfl⟩,
        ⟨⟨L, h⟩, .refl⟩, rfl, rfl, ?_⟩
      rw [Nat.sub_self]
      exact overwrite_nil.symm
    · exact wp_mono (before.next hdev hip nes room goes) (fun _ _ got => got.1) fun _ => False.elim
  refine wp_mono wp_rounds (fun _ s' => ?_) fun e => ?_
  · intro ⟨k, s'', m, reached, ended⟩
    have here := filling reached
    cases ended with
    | inl done =>
      obtain ⟨none, same⟩ := done
      have zero : m = 0 := not_not.mp (of_decide_eq_false none)
      subst same zero
      have pos := here.writing.underway.pos room
      exact ⟨n.toNat, Nat.le_refl _, ⟨here.writing.call, here.changed, here.size, here.mem,
        here.writing.underway.norm, pos, here.bytes⟩, fun lt => absurd lt (Nat.lt_irrefl _)⟩
    | inr broken =>
      obtain ⟨goes, round⟩ := broken
      obtain ⟨filled, error⟩ := ((here.next hdev hip nes room goes).ok round).2 rfl
      exact ⟨n.toNat - m.toNat, Nat.sub_le _ _, filled, fun _ => error⟩
  · intro ⟨k, s'', m, reached, goes, stopped⟩
    have here := filling reached
    cases stopped with
    | inl error => exact (here.next hdev hip nes room goes).error error
    | inr out =>
      have least := here.writing.underway.least
      have pos : m.toNat ≠ 0 := fun zero => of_decide_eq_true goes (BitVec.eq_of_toNat_eq zero)
      omega

end Loop

/-! ## The flat files -/

/-- The files `I` of a device and the positions of the open file table. -/
noncomputable def Kernel.flat (s : Kernel) (dev : Nat) (I : Finset Inoptr) : Files I (Fin OFTSIZE) Byte where
  bytes i := s.byteAt dev i
  size i := (s.iTab i).cNode.iSize.val
  pos j := (s.ofTab j).oPtr.val

section Calls

variable {i : I} {d : Word} {buf : Nat}

/-- `rwsetup` sets times of the inode, and takes the position of the descriptor. -/
lemma wp_rwsetup_open {Q : Option Inoptr → Kernel → Prop} {E : Panic → Prop} {rwflag : Bool} (h : s.Describes d ino)
    (access : (s.ofTab (s.udata.ofIndex d)).oAccess ≠ if rwflag then .wronly else .rdonly)
    (post : ∀ c, (s.iTab ino).SameFile c → c.cNode.iSize = (s.iTab ino).cNode.iSize →
      Q (some ino) (s.setUp d ino buf n c)) :
    wp (rwsetup d buf n rwflag) Q E s := by
  have h₁ : (s.withUdata { s.udata with uBase := buf, uCount := n }).Describes d ino :=
    ⟨h.low, h.high, h.used, h.index, h.inode, h.magic⟩
  unfold rwsetup setftime
  rw [wp_bind, wp_modifyUdata, wp_bind, wp_getinode_some h₁]
  simp only
  rw [wp_bind, wp_get, wp_ite, if_neg]
  · rw [wp_bind, wp_bind, wp_get, wp_modifyInode, wp_bind, wp_modifyUdata, wp_pure]
    exact post _ ⟨rfl, rfl, rfl, rfl, rfl⟩ rfl
  · exact access

/-- `rwsetup` leaves the files as they are. -/
lemma Kernel.InOrder.setUp (h : s.InOrder dev I rest L) (hip : ino ∈ I) {c : Cinode}
    (same : (s.iTab ino).SameFile c) (size : c.cNode.iSize = (s.iTab ino).cNode.iSize) (d : Word) (buf : Nat)
    (n : Word) :
    (s.setUp d ino buf n c).InOrder dev I rest L ∧ s.LeavesOthers (s.setUp d ino buf n c) dev I ino ∧
      ∀ bn, (s.setUp d ino buf n c).fileData dev ino bn = s.fileData dev ino bn := by
  have inode : (s.setUp d ino buf n c).iTab ino = c := Kernel.iTab_setInode
  refine h.keep hip h.owned.good rfl rfl (fun i ne => Function.update_of_ne ne _ _) (inode.symm ▸ same) ?_ h.pos
  rw [inode, size]
  exact h.size ino hip

/-- A call that leaves the other files alone, and moves one position. -/
lemma Kernel.flat_eq {f : Files I (Fin OFTSIZE) Byte} {j : Fin OFTSIZE} (others : s.LeavesOthers s' dev I i)
    (ofTab : ∀ j', j' ≠ j → s'.ofTab j' = s.ofTab j') (bytes : f.bytes i = s'.byteAt dev i)
    (size : f.size i = (s'.iTab i).cNode.iSize.val) (pos : f.pos j = (s'.ofTab j).oPtr.val)
    (rest : ∀ i', i' ≠ i → f.bytes i' = s.byteAt dev i' ∧ f.size i' = (s.iTab i').cNode.iSize.val)
    (rest_pos : ∀ j', j' ≠ j → f.pos j' = (s.ofTab j').oPtr.val) : s'.flat dev I = f := by
  have files : (s'.flat dev I).bytes = f.bytes ∧ (s'.flat dev I).size = f.size := by
    constructor <;> funext i'
    all_goals by_cases e : i' = i
    · rw [e, bytes]
      rfl
    · rw [(rest i' e).1]
      exact Kernel.byteAt_congr (others.data i' i'.2 fun e' => e (Subtype.ext e'))
    · rw [e, size]
      rfl
    · rw [(rest i' e).2, ← others.inodes i' fun e' => e (Subtype.ext e')]
      rfl
  have positions : (s'.flat dev I).pos = f.pos := by
    funext j'
    by_cases e : j' = j
    · rw [e, pos]
      rfl
    · rw [rest_pos j' e, ← ofTab j' e]
      rfl
  calc s'.flat dev I = ⟨(s'.flat dev I).bytes, (s'.flat dev I).size, (s'.flat dev I).pos⟩ := rfl
    _ = ⟨f.bytes, f.size, f.pos⟩ := by rw [files.1, files.2, positions]

/-- `updoff` moves one position. -/
lemma Kernel.InOrder.updoff (h : s.InOrder dev I rest L) (hip : ino ∈ I) {j : Fin OFTSIZE} {o : Off} (norm : o.Norm) :
    (s.setOft j { s.ofTab j with oPtr := o }).InOrder dev I rest L ∧
      s.LeavesOthers (s.setOft j { s.ofTab j with oPtr := o }) dev I ino ∧
      ∀ bn, (s.setOft j { s.ofTab j with oPtr := o }).fileData dev ino bn = s.fileData dev ino bn := by
  refine h.keep hip h.owned.good rfl rfl (fun _ _ => rfl) ⟨rfl, rfl, rfl, rfl, rfl⟩ (h.size ino hip) fun j' => ?_
  by_cases e : j' = j
  · rw [e, Kernel.ofTab_setOft]
    exact norm
  · rw [show (s.setOft j _).ofTab j' = s.ofTab j' from Function.update_of_ne e _ _]
    exact h.pos j'

/-- Bytes have been written, and the file is as long as it was, or as the last of them asks for. -/
structure Kernel.HasWritten (s s' : Kernel) (dev : Nat) (I : Finset Inoptr) (rest : List Dinode) (ino : Inoptr)
    (k : Nat) : Prop where
  call : s.SameCall s'
  changed : s.Changed s' dev I rest ino
  size : (s'.iTab ino).cNode.iSize.val = max (s.iTab ino).cNode.iSize.val (s.udata.uOffset.val + k)
  mem : s'.udata.mem = s.udata.mem
  norm : s'.udata.uOffset.Norm
  pos : s'.udata.uOffset.val = s.udata.uOffset.val + k
  bytes : s'.byteAt dev ino = overwrite (s.byteAt dev ino) s.udata.uOffset.val (s.udata.bytes s.udata.uBase k)

/-- `writei` writes a flat file. -/
lemma wp_writei_flat (hdev : dev < NDEVS) (hip : ino ∈ I) (nes : s.target = .nes → s.udata.uCount.toNat < 2 ^ 15)
    (norm : s.udata.uOffset.Norm) (room : s.udata.uOffset.val + s.udata.uCount.toNat < 2 ^ 25)
    (h : s.InOrder dev I rest L) :
    wp (writei ino)
      (fun r s' => r = .returned ∧ ∃ k ≤ s.udata.uCount.toNat, s.HasWritten s' dev I rest ino k ∧
        (k < s.udata.uCount.toNat → s'.udata.uError = .enospc))
      (fun _ => False) s := by
  rw [wp_writei_entry (h.fileAt hip).writeEntry]
  refine wp_post (wp_writeRounds_flat hdev hip nes norm room h) fun _ s₁ got => ?_
  obtain ⟨k, le, filled, error⟩ := got
  obtain ⟨⟨L₁, h₁⟩, others⟩ := filled.changed
  rw [if_neg Bool.false_ne_true]
  refine wp_post wp_growSize fun _ s₂ got => ?_
  obtain ⟨resized, grown⟩ := got
  have eq := resized.eq
  have old := h₁.size ino hip
  have size := grown old filled.norm
  have bufs : s₂.bufs = s₁.bufs := by
    rw [eq]
    rfl
  have call : s₁.SameCall s₂ ∧ s₂.udata.uOffset = s₁.udata.uOffset := resized.call
  have norm₂ : (s₂.iTab ino).cNode.iSize.Norm := by
    rw [size]
    split
    · exact filled.norm
    · exact old
  obtain ⟨h₂, others₂, data⟩ := h₁.keep hip (bufs ▸ h₁.owned.good) (congrArg Bufs.view bufs) (eq ▸ rfl)
    (fun i ne => eq ▸ Function.update_of_ne ne _ _) resized.same norm₂ fun j => call.1.ofTab ▸ h₁.pos j
  refine ⟨rfl, k, le, ⟨filled.call.trans call.1, ⟨⟨L₁, h₂⟩, others.trans others₂⟩, ?_, ?_, call.2 ▸ filled.norm, ?_, ?_⟩,
    fun lt => (congrArg UData.uError resized.udata).trans (error lt)⟩
  · rw [size, filled.size, ← filled.pos]
    split
    · next lt => exact (max_eq_right (Nat.le_of_lt lt)).symm
    · next ge => exact (max_eq_left (Nat.le_of_not_lt ge)).symm
  · rw [resized.udata, filled.mem]
  · rw [call.2, filled.pos]
  · rw [Kernel.byteAt_congr data, filled.bytes]

/-- `_write` is a write of a flat file, which is cut short with `ENOSPC` only. -/
lemma wp_write_flat (hdev : dev < NDEVS) (h : s.InOrder dev I rest L) (opened : s.Describes d i)
    (access : (s.ofTab (s.udata.ofIndex d)).oAccess ≠ .rdonly) (nes : s.target = .nes → n.toNat < 2 ^ 15)
    (room : (s.position d).val + n.toNat < 2 ^ 25) :
    wp (_write d buf n)
      (fun r s' => r = some n ∧ s'.udata.ofIndex d = s.udata.ofIndex d ∧ (∃ L', s'.InOrder dev I rest L') ∧
        s.LeavesOthers s' dev I i ∧ ∃ k ≤ n.toNat, (k < n.toNat → s'.udata.uError = .enospc) ∧
          s'.flat dev I = (s.flat dev I).after (.write (s.udata.ofIndex d) i (s.udata.bytes buf k)))
      (fun _ => False) s := by
  have hip : (i : Inoptr) ∈ I := i.2
  unfold _write
  rw [wp_bind]
  refine wp_rwsetup_open opened access fun c same size => ?_
  obtain ⟨h₁, others, data⟩ := h.setUp hip same size d buf n
  have inode : (s.setUp d i buf n c).iTab i = c := Kernel.iTab_setInode
  simp only
  unfold writeTo
  rw [wp_bind]
  refine wp_post (wp_writei_flat hdev hip nes (h.pos _) room h₁) fun r s₁ got => ?_
  obtain ⟨e, k, le, written, error⟩ := got
  subst e
  have index : s₁.udata.ofIndex d = s.udata.ofIndex d := by
    unfold UData.ofIndex UData.file
    rw [written.call.uFiles]
    rfl
  unfold updoff
  simp only
  rw [wp_bind, wp_bind, wp_get, wp_modifyOft, index, wp_bind, wp_get, wp_pure]
  obtain ⟨⟨L₁, h₁⟩, others₁⟩ := written.changed
  obtain ⟨h₂, others₂, data₂⟩ := h₁.updoff hip (j := s.udata.ofIndex d) written.norm
  have pos : (s.setUp d i buf n c).udata.uOffset.val = (s.flat dev I).pos (s.udata.ofIndex d) := rfl
  have length : (s.udata.bytes buf k).length = k := length_slice
  have all := (others.trans others₁).trans others₂
  refine ⟨congrArg _ written.call.uCount, index, ⟨L₁, h₂⟩, all, k, le, error, ?_⟩
  refine Kernel.flat_eq all (fun j' ne => ?_) ?_ ?_ ?_ (fun i' ne => ?_)
    (j := s.udata.ofIndex d) fun j' ne => ?_
  · refine (Function.update_of_ne ne _ _).trans ?_
    rw [written.call.ofTab]
    rfl
  · rw [Kernel.byteAt_congr data₂, written.bytes, Kernel.byteAt_congr data, pos]
    exact Function.update_self ..
  · refine (Function.update_self ..).trans ?_
    rw [length]
    refine Eq.trans ?_ written.size.symm
    rw [inode, size, pos]
    rfl
  · refine (Function.update_self ..).trans ?_
    rw [length, Kernel.ofTab_setOft]
    exact written.pos.symm
  · exact ⟨Function.update_of_ne ne _ _, Function.update_of_ne ne _ _⟩
  · exact Function.update_of_ne ne _ _

end Calls

end Uzi
