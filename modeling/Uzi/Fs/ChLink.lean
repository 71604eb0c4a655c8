import Mathlib.Order.Interval.Finset.Nat
import Uzi.Fs.RootDirectory
import Uzi.Fs.WriteCount

/-!
# New entries in a directory

`ch_link` replaces the first slot of a directory with the name that it looks for, or adds a slot at the end when that
name is empty and no slot is unused. The other slots keep their entries.
-/

namespace Uzi
open Exec

/-! ## Entries as bytes -/

/-- An entry is what its bytes say. -/
lemma Direct.ofBytes_byte {d : Direct} : Direct.ofBytes d.byte = d := by
  have word : ((d.dIno >>> 8).setWidth 8 ++ d.dIno.setWidth 8 : Word) = d.dIno := by
    ext i hi
    rw [BitVec.getElem_append]
    split
    · rw [BitVec.getElem_setWidth, BitVec.getLsbD_eq_getElem]
    · rw [BitVec.getElem_setWidth, BitVec.getLsbD_ushiftRight, Nat.add_sub_cancel' (by omega), BitVec.getLsbD_eq_getElem]
  have name : (fun i : Fin 14 => d.byte (2 + i)) = d.dName := by
    funext i
    have lt := i.isLt
    rw [byte, if_neg (by omega), if_neg (by omega), Nat.add_sub_cancel_left, Direct.name, dif_pos lt]
  calc Direct.ofBytes d.byte = ⟨(d.dIno >>> 8).setWidth 8 ++ d.dIno.setWidth 8, fun i => d.byte (2 + i)⟩ := rfl
    _ = ⟨d.dIno, d.dName⟩ := by rw [word, name]

section Slots

variable {s s' : Kernel} {dev : Nat} {wd : Inoptr} {L L' : List Word} {i j k n : Nat}

/-- Bytes of slot `j` are written, and the other slots are what they were. -/
lemma slot_write {f : Nat → Byte} (hj : j < 2 ^ 21) (hi : i < 2 ^ 21)
    (data : ∀ m, s'.fileData dev wd m = Function.update (s.fileData dev wd) (BitVec.ofNat 16 (j / 32))
      ((s.fileData dev wd (BitVec.ofNat 16 (j / 32))).setBytes (16 * (j % 32)) 16 f) m) :
    s'.slot dev wd i = if i = j then Direct.ofBytes f else s.slot dev wd i := by
  rw [Kernel.slot, data]
  by_cases block : i / 32 = j / 32
  · rw [block, Function.update_self, Block.direct]
    split
    · next same =>
      refine Direct.ofBytes_congr fun k hk => ?_
      rw [same, byte_setBytes (by omega), if_pos (by omega), Nat.add_sub_cancel_left]
    · next other =>
      rw [Kernel.slot, block]
      refine Direct.ofBytes_congr fun k hk => ?_
      rw [byte_setBytes (by omega), if_neg (by omega)]
  · have ne : (BitVec.ofNat 16 (i / 32)) ≠ BitVec.ofNat 16 (j / 32) := by
      intro e
      have nat := congrArg BitVec.toNat e
      rw [BitVec.toNat_ofNat, BitVec.toNat_ofNat] at nat
      omega
    rw [Function.update_of_ne ne, if_neg fun e => block (by rw [e])]
    rfl

/-- A directory has fewer blocks than there are block numbers. -/
lemma Kernel.DirAt.bound (h : s.DirAt dev wd L) : (s.iTab wd).cNode.iSize.val ≤ 512 * 65534 := by
  by_contra large
  have there : ∀ i < 65535, s.fileBlock dev wd (BitVec.ofNat 16 i) ≠ 0 := by
    intro i hi
    refine h.whole _ ?_
    rw [BitVec.toNat_ofNat]
    omega
  have maps : ∀ i ∈ Finset.range 65535, (s.fileBlock dev wd (BitVec.ofNat 16 i)).toNat ∈ Finset.Icc 1 65534 := by
    intro i hi
    have ne := there i (Finset.mem_range.mp hi)
    have valid := h.file.valid _ (Multiset.mem_add.mpr (.inr (fileBlock_mem_blocks ne)))
    have lt := (s.fileBlock dev wd (BitVec.ofNat 16 i)).isLt
    have pos : (s.fileBlock dev wd (BitVec.ofNat 16 i)).toNat ≠ 0 := fun e => ne (BitVec.eq_of_toNat_eq e)
    have last : (s.fileBlock dev wd (BitVec.ofNat 16 i)).toNat ≠ 65535 := fun e => valid (BitVec.eq_of_toNat_eq e)
    exact Finset.mem_Icc.mpr ⟨by omega, by omega⟩
  have inj : Set.InjOn (fun i => (s.fileBlock dev wd (BitVec.ofNat 16 i)).toNat) (Finset.range 65535) := by
    intro i hi k hk e
    have hi := Finset.mem_range.mp hi
    have hk := Finset.mem_range.mp hk
    have nat := congrArg BitVec.toNat (h.file.block_inj (there k hk) (BitVec.eq_of_toNat_eq e))
    rw [BitVec.toNat_ofNat, BitVec.toNat_ofNat] at nat
    omega
  have card := Finset.card_le_card_of_injOn _ maps inj
  rw [Finset.card_range, Nat.card_Icc] at card
  omega

/-- Behind the end of a directory there are zeros up to the end of the block. -/
lemma Kernel.DirAt.blank (h : s.DirAt dev wd L) (le : s.nslots wd ≤ i)
    (block : i / 32 = (s.iTab wd).cNode.iSize.oBlkno.toNat) : s.slot dev wd i = Direct.blank := by
  have slots := h.slots
  have val : (s.iTab wd).cNode.iSize.val =
    512 * (s.iTab wd).cNode.iSize.oBlkno.toNat + (s.iTab wd).cNode.iSize.oOffset.toNat := rfl
  have offset : (s.iTab wd).cNode.iSize.oOffset.toNat < 512 := h.norm
  unfold Kernel.nslots Off.slots at le
  rw [Kernel.slot, Direct.blank, Block.direct, block, BitVec.ofNat_toNat, BitVec.setWidth_eq]
  exact Direct.ofBytes_congr fun k hk => h.tail _ (by omega) (by omega)

/-! ## Writing a slot -/

/-- There is no block for slot `j`, or for an index on the way to it. -/
def Kernel.NoRoom (s : Kernel) (dev : Nat) (wd : Inoptr) (j : Nat) : Prop :=
  (s.fsTab dev).sTfree.toNat < (s.iTab wd).cNode.lacking (s.cell dev) (BitVec.ofNat 16 (j / 32))

/-- A slot of the directory has a block. -/
lemma Kernel.DirAt.room (h : s.DirAt dev wd L) (lt : j < s.nslots wd) : ¬ s.NoRoom dev wd j := by
  have there : s.fileBlock dev wd (BitVec.ofNat 16 (j / 32)) ≠ 0 := by
    refine h.whole _ ?_
    rw [BitVec.toNat_ofNat]
    unfold Kernel.nslots Off.slots at lt
    omega
  have none : (s.iTab wd).cNode.lacking (s.cell dev) (BitVec.ofNat 16 (j / 32)) = 0 := by
    rw [Kernel.fileBlock, Dinode.stored_eq] at there
    exact BlockTree.missing_of_walk there
  rw [Kernel.NoRoom, none]
  exact Nat.not_lt_zero _

/-- The slots and the size of the directory are what they were. -/
structure Kernel.SameSlots (s s' : Kernel) (dev : Nat) (wd : Inoptr) : Prop where
  file : ∃ L, s'.FileAt dev wd L
  size : (s'.iTab wd).cNode.iSize = (s.iTab wd).cNode.iSize
  slot : s'.slot dev wd = s.slot dev wd

/-- Slot `j` has been written, in the directory or at its end. -/
structure Kernel.SlotWritten (s s' : Kernel) (dev : Nat) (wd : Inoptr) (j : Nat) (d : Direct) : Prop where
  file : ∃ L, s'.FileAt dev wd L
  norm : (s'.iTab wd).cNode.iSize.Norm
  size : (s'.iTab wd).cNode.iSize.val = max (s.iTab wd).cNode.iSize.val (16 * (j + 1))
  whole : ∀ bn : Word, 512 * bn.toNat < (s'.iTab wd).cNode.iSize.val → s'.fileBlock dev wd bn ≠ 0
  slot : ∀ i < 2 ^ 21, s'.slot dev wd i = if i = j then d else s.slot dev wd i

/-- The blocks of the directory when slot `j` has been written. -/
lemma Kernel.DirAt.whole_of_wrote (h : s.DirAt dev wd L) (le : j ≤ s.nslots wd)
    (there : s'.fileBlock dev wd (BitVec.ofNat 16 (j / 32)) ≠ 0)
    (others : ∀ m, m ≠ BitVec.ofNat 16 (j / 32) → s'.fileBlock dev wd m = s.fileBlock dev wd m) {bn : Word}
    (lt : 512 * bn.toNat < max (s.iTab wd).cNode.iSize.val (16 * (j + 1))) : s'.fileBlock dev wd bn ≠ 0 := by
  unfold Kernel.nslots Off.slots at le
  by_cases block : bn = BitVec.ofNat 16 (j / 32)
  · exact block ▸ there
  · rw [others bn block]
    refine h.whole bn (Nat.lt_of_not_le fun past => block (BitVec.eq_of_toNat_eq ?_))
    have bound := bn.isLt
    rw [BitVec.toNat_ofNat]
    omega

/-- `writei` of a slot writes it, or there is no room. -/
lemma wp_writei_slot {d : Direct} (hdev : dev < NDEVS) (h : s.DirAt dev wd L) (norm : s.udata.uOffset.Norm)
    (val : s.udata.uOffset.val = 16 * j) (le : j ≤ s.nslots wd) (count : s.udata.uCount = 16)
    (source : ∀ i < 16, s.udata.source i = d.byte i) :
    wp (writei wd)
      (fun r s' => r = .returned ∧ (s.NoRoom dev wd j ∧ s'.udata.uError = .enospc ∧ s.SameSlots s' dev wd ∨
        ¬ s.NoRoom dev wd j ∧ s'.udata.uError = s.udata.uError ∧ s.SlotWritten s' dev wd j d))
      (fun _ => False) s := by
  have bound := h.bound
  have slots := h.slots
  have few := le
  unfold Kernel.nslots Off.slots at few
  obtain ⟨block, offset⟩ := slot_block norm val
  have amount : chunk s.target 16 s.udata.uOffset.oOffset = 16 := chunk_slot offset
  have round := wp_writeRound_file (n := 16) hdev h.file
  rw [amount] at round
  have fits : s.udata.uOffset.oOffset.toNat + (16 : Word).toNat ≤ 512 := by
    rw [show (16 : Word).toNat = 16 from rfl]
    omega
  rw [wp_writei_entry h.file.writeEntry, count]
  refine wp_rounds_one (by decide) (wp_post (round fits) fun r s₁ got => ?_)
  obtain ⟨L', outcome⟩ := got
  rw [if_neg Bool.false_ne_true]
  cases outcome with
  | inl full =>
    obtain ⟨e, ext⟩ := full
    refine ⟨fun b' e' => absurd (e.symm.trans e') nofun, wp_post wp_growSize fun _ s₂ got => ?_⟩
    obtain ⟨resized, size⟩ := got
    obtain ⟨short, error⟩ := ext.full rfl
    have same := resized.sameBlocks ext.file
    have size₁ : (s₁.iTab wd).cNode.iSize = (s.iTab wd).cNode.iSize := by rw [ext.mapped.eq]
    have offset₁ : s₁.udata.uOffset = s.udata.uOffset := by
      rw [ext.eq]
      rfl
    refine ⟨rfl, .inl ⟨?_, ?_, ⟨L', same.file⟩, ?_, funext fun i => ?_⟩⟩
    · rw [Kernel.NoRoom, h.file.list.tfree, ← block]
      exact short
    · rw [resized.udata]
      exact error
    · rw [size (size₁ ▸ h.norm) (offset₁ ▸ norm), size₁, offset₁, if_neg (by omega)]
    · rw [Kernel.slot, Kernel.slot, same.data, ext.data]
  | inr wrote =>
    obtain ⟨e, wrote⟩ := wrote
    refine ⟨fun b' e' => ?_, wp_post wp_growSize fun _ s₂ got => ?_⟩
    · cases e.symm.trans e'
      rfl
    obtain ⟨resized, size⟩ := got
    have same := resized.sameBlocks wrote.file
    have moved := addoff_natCast (t := s.target) (n := 16) norm (by decide)
    have offset₁ : s₁.udata.uOffset = addoff s.target s.udata.uOffset (16 : Nat) := by
      rw [wrote.udata]
      show addoff s.target s.udata.uOffset (cint s.target 16) = _
      rw [cint_of_lt (by decide)]
      rfl
    have size₁ : (s₁.iTab wd).cNode.iSize = (s.iTab wd).cNode.iSize := by rw [wrote.mapped.eq]
    have end₁ : s₁.udata.uOffset.val = 16 * (j + 1) := by
      rw [offset₁, moved.2]
      omega
    have size₂ := size (size₁ ▸ h.norm) (offset₁ ▸ moved.1)
    rw [size₁, end₁] at size₂
    have val₂ : (s₂.iTab wd).cNode.iSize.val = max (s.iTab wd).cNode.iSize.val (16 * (j + 1)) := by
      rw [size₂]
      split
      · next grows => rw [end₁, max_eq_right (Nat.le_of_lt grows)]
      · next stays => rw [max_eq_left (Nat.le_of_not_lt stays)]
    have put : ∀ m, s₂.fileData dev wd m = Function.update (s.fileData dev wd) (BitVec.ofNat 16 (j / 32))
        ((s.fileData dev wd (BitVec.ofNat 16 (j / 32))).setBytes (16 * (j % 32)) 16 s.udata.source) m := by
      intro m
      rw [same.data, wrote.data, block, offset]
      rfl
    refine ⟨rfl, .inr ⟨?_, ?_, ⟨L', same.file⟩, ?_, val₂, fun bn lt => ?_, fun i hi => ?_⟩⟩
    · have paid := wrote.paid
      rw [Kernel.NoRoom, h.file.list.tfree, ← block]
      omega
    · rw [resized.udata, wrote.udata]
      rfl
    · rw [size₂]
      split
      · exact offset₁ ▸ moved.1
      · exact h.norm
    · refine h.whole_of_wrote le ?_ (fun m ne => ?_) (val₂ ▸ lt)
      · rw [same.block, ← block]
        exact wrote.there
      · rw [same.block]
        exact wrote.others m (block ▸ ne)
    · rw [slot_write (by omega) hi put]
      split
      · rw [Direct.ofBytes_congr source, Direct.ofBytes_byte]
      · rfl

/-! ## The directory when an entry has been linked -/

/-- The offset at the end of the block. -/
def Off.roundUp (o : Off) : Off := if o.oOffset ≠ 0 then ⟨o.oBlkno + 1, 0⟩ else o

/-- A position is rounded up to the next block. -/
lemma Off.Norm.roundUp {o : Off} (norm : o.Norm) (le : o.val ≤ 512 * 65535) :
    o.roundUp.oOffset = 0 ∧ o.roundUp.val = 512 * ((o.val + 511) / 512) := by
  have offset : o.oOffset.toNat < 512 := norm
  have val : o.val = 512 * o.oBlkno.toNat + o.oOffset.toNat := rfl
  unfold Off.roundUp
  split
  · next part =>
    have pos : o.oOffset.toNat ≠ 0 := fun e => part (BitVec.eq_of_toNat_eq e)
    have blkno : (o.oBlkno + 1).toNat = o.oBlkno.toNat + 1 := by
      rw [BitVec.toNat_add, show (1 : Word).toNat = 1 from rfl]
      omega
    refine ⟨rfl, ?_⟩
    show 512 * (o.oBlkno + 1).toNat + 0 = _
    omega
  · next full =>
    have zero : o.oOffset = 0 := not_not.mp full
    have nat : o.oOffset.toNat = 0 := congrArg BitVec.toNat zero
    exact ⟨zero, by omega⟩

/-- The offset in front of an entry. -/
lemma Off.Norm.backUp {o : Off} (norm : o.Norm) (val : o.val = 16 * (j + 1)) :
    o.backUp.Norm ∧ o.backUp.val = 16 * j := by
  have offset : o.oOffset.toNat < 512 := norm
  have sum : o.val = 512 * o.oBlkno.toNat + o.oOffset.toNat := rfl
  have blk := o.oBlkno.isLt
  unfold Off.backUp
  split
  · next zero =>
    have zero : o.oOffset.toNat = 0 := congrArg BitVec.toNat zero
    have blkno : (o.oBlkno - 1).toNat = o.oBlkno.toNat - 1 := by
      rw [BitVec.toNat_sub, show (1 : Word).toNat = 1 from rfl]
      omega
    refine ⟨(by decide : (512 - 16 : Word).toNat < 512), ?_⟩
    show 512 * (o.oBlkno - 1).toNat + 496 = _
    omega
  · next inside =>
    have ne : o.oOffset.toNat ≠ 0 := fun e => inside (BitVec.eq_of_toNat_eq e)
    have back : (o.oOffset - 16).toNat = o.oOffset.toNat - 16 := by
      rw [BitVec.toNat_sub, show (16 : Word).toNat = 16 from rfl]
      omega
    constructor
    · show (o.oOffset - 16).toNat < 512
      omega
    · show 512 * o.oBlkno.toNat + (o.oOffset - 16).toNat = _
      omega

/-- Slot `j` has the entry `d`, and the others have what they had. The size covers whole blocks, and is no smaller. -/
structure Kernel.Linked (s s' : Kernel) (dev : Nat) (wd : Inoptr) (j : Nat) (d : Direct) : Prop where
  file : ∃ L, s'.FileAt dev wd L
  whole : ∀ bn : Word, 512 * bn.toNat < (s'.iTab wd).cNode.iSize.val → s'.fileBlock dev wd bn ≠ 0
  size : (s'.iTab wd).cNode.iSize.oOffset = 0
  covers : s.nslots wd ≤ s'.nslots wd
  inside : j < s'.nslots wd
  slot : s'.slot dev wd j = d
  others : ∀ i < s.nslots wd, i ≠ j → s'.slot dev wd i = s.slot dev wd i
  added : ∀ i, s.nslots wd ≤ i → i < s'.nslots wd → i ≠ j → s'.slot dev wd i = Direct.blank

/-- The size is rounded up. -/
lemma Kernel.SlotWritten.linked {d : Direct} (h : s.SlotWritten s' dev wd j d) (dir : s.DirAt dev wd L)
    (le : j ≤ s.nslots wd) {s'' : Kernel} (resized : s'.Resized s'' wd)
    (size : (s''.iTab wd).cNode.iSize = (s'.iTab wd).cNode.iSize.roundUp) : s.Linked s'' dev wd j d := by
  obtain ⟨L', file⟩ := h.file
  have same := resized.sameBlocks file
  have bound := dir.bound
  have slots := dir.slots
  have grown := h.size
  have blkno := dir.norm.blkno
  have few : 16 * (j + 1) ≤ (s.iTab wd).cNode.iSize.val + 16 := by
    unfold Kernel.nslots Off.slots at le
    omega
  obtain ⟨offset, val⟩ := h.norm.roundUp (by omega)
  have nslots : s''.nslots wd = 32 * ((max (s.iTab wd).cNode.iSize.val (16 * (j + 1)) + 511) / 512) := by
    rw [Kernel.nslots, Off.slots, size, val, grown]
    omega
  have nslots₀ : s.nslots wd = (s.iTab wd).cNode.iSize.val / 16 := rfl
  have slot : ∀ i < s''.nslots wd, s''.slot dev wd i = if i = j then d else s.slot dev wd i := by
    intro i hi
    rw [Kernel.slot, same.data]
    exact h.slot i (by omega)
  have inside : j < s''.nslots wd := by omega
  refine ⟨⟨L', same.file⟩, fun bn lt => ?_, by rw [size]; exact offset, by omega, inside, ?_, fun i hi ne => ?_,
    fun i le' hi ne => ?_⟩
  · rw [same.block]
    refine h.whole bn ?_
    rw [size, val] at lt
    omega
  · rw [slot j inside, if_pos rfl]
  · rw [slot i (by omega), if_neg ne]
  · rw [slot i hi, if_neg ne]
    exact dir.blank le' (by omega)

/-! ## The call -/

/-- A search leaves the blocks. -/
lemma Kernel.Scanned.cell (h : s.Scanned s') : s'.cell dev = s.cell dev := Kernel.cell_of_view h.view

/-- A search leaves the room. -/
lemma Kernel.Scanned.noRoom (h : s.Scanned s') : s'.NoRoom dev wd j ↔ s.NoRoom dev wd j := by
  unfold Kernel.NoRoom
  rw [h.cell, h.iTab, h.eq]

/-- A search leaves the slots. -/
lemma Kernel.Scanned.sameSlots (h : s.Scanned s') (file : s.FileAt dev wd L) {s'' : Kernel}
    (same : s'.SameSlots s'' dev wd) : s.SameSlots s'' dev wd :=
  ⟨same.file, by rw [same.size, h.iTab], by rw [same.slot, h.slot file]⟩

/-- A slot that is written after a search. -/
lemma Kernel.Scanned.slotWritten (h : s.Scanned s') (file : s.FileAt dev wd L) {s'' : Kernel} {d : Direct}
    (written : s'.SlotWritten s'' dev wd j d) : s.SlotWritten s'' dev wd j d := by
  have size := written.size
  have slot := written.slot
  rw [h.iTab] at size
  rw [h.slot file] at slot
  exact ⟨written.file, written.norm, size, written.whole, slot⟩

/-- The same slots. -/
lemma Kernel.SameSlots.refl (file : s.FileAt dev wd L) : s.SameSlots s dev wd := ⟨⟨L, file⟩, rfl, rfl⟩

/-- The end of `ch_link`: the entry is written, and the size covers the whole block. -/
def chLinkWrite (wd : Inoptr) : K Bool := do
  entryTransfer writei wd
  if (← get).udata.uError ≠ .ok then pure false
  else do
    setftime wd (A_TIME ||| M_TIME ||| C_TIME)
    let size := ((← get).iTab wd).cNode.iSize
    if size.oOffset ≠ 0 then
      modifyInode wd fun c => { c with cNode := { c.cNode with iSize := ⟨size.oBlkno + 1, 0⟩ } }
    pure true

/-- The write of `ch_link`, after a search. -/
lemma wp_chLinkWrite {d : Direct} (hdev : dev < NDEVS) (dir : s.DirAt dev wd L) (h : s.Scanned s')
    (error : s.udata.uError = .ok) (norm : s'.udata.uOffset.Norm) (val : s'.udata.uOffset.val = 16 * j)
    (le : j ≤ s.nslots wd) (source : ∀ i < 16, s'.udata.mem (CURENTRY + i) = d.byte i) :
    wp (chLinkWrite wd)
      (fun r s'' => r = false ∧ s.NoRoom dev wd j ∧ s.SameSlots s'' dev wd ∨
        r = true ∧ ¬ s.NoRoom dev wd j ∧ s.Linked s'' dev wd j d) (fun _ => False) s' := by
  have ready : s.Scanned s'.atEntry := h.withUdata rfl
  have le' : j ≤ s'.atEntry.nslots wd := by
    unfold Kernel.nslots
    rw [ready.iTab]
    exact le
  unfold chLinkWrite setftime
  rw [wp_bind]
  refine wp_entryTransfer (wp_post (wp_writei_slot hdev (ready.dirAt dir) norm val le' rfl source) fun r s₂ got => ?_)
  obtain ⟨e, outcome⟩ := got
  refine ⟨e, ?_⟩
  rw [ready.noRoom] at outcome
  rw [wp_bind, wp_get, wp_ite]
  cases outcome with
  | inl full =>
    obtain ⟨short, code, same⟩ := full
    rw [if_pos (by rw [code]; decide)]
    exact .inl ⟨rfl, short, ready.sameSlots dir.file same⟩
  | inr done =>
    obtain ⟨room, code, written⟩ := done
    have written := ready.slotWritten dir.file written
    rw [if_neg (by rw [code, ready.error, error]; decide)]
    rw [wp_bind, wp_bind, wp_get, wp_modifyInode, wp_bind, wp_get]
    generalize timed : s₂.setInode wd _ = s₃
    have resized : s₂.Resized s₃ wd := timed ▸ Kernel.resized_setInode ⟨rfl, rfl, rfl, rfl, rfl⟩
    have size₃ : (s₃.iTab wd).cNode.iSize = (s₂.iTab wd).cNode.iSize := by rw [← timed, Kernel.iTab_setInode]
    dsimp only
    rw [wp_ite]
    split
    · next part =>
      rw [wp_bind, wp_modifyInode]
      refine .inr ⟨rfl, room, written.linked dir le (resized.trans (Kernel.resized_setInode ?_)) ?_⟩
      · exact ⟨rfl, rfl, rfl, rfl, rfl⟩
      · rw [Kernel.iTab_setInode, Off.roundUp, ← size₃, if_pos part]
    · next full =>
      refine .inr ⟨rfl, room, written.linked dir le resized ?_⟩
      rw [Off.roundUp, ← size₃, if_neg full]

/-- The slot that `ch_link` looks for: the first with the name, or the end of the file for an empty name. -/
noncomputable def Kernel.slotFor (s : Kernel) (dev : Nat) (wd : Inoptr) (oldname : Nat → Byte) : Option Nat :=
  ((List.range (s.nslots wd)).find? fun j => namecomp oldname (s.slot dev wd j).name).or
    (if oldname 0 = 0 then some (s.nslots wd) else none)

/-- `ch_link` is to change slot `j`, and can. -/
def Kernel.Links (s : Kernel) (dev : Nat) (wd : Inoptr) (oldname : Nat → Byte) (j : Nat) : Prop :=
  getperm s wd &&& OTH_WR ≠ 0 ∧ s.slotFor dev wd oldname = some j ∧ ¬ s.NoRoom dev wd j

/-- The inode number for an entry. -/
def Kernel.numOf (s : Kernel) (nindex : Option Inoptr) : Word := nindex.elim 0 fun ino => (s.iTab ino).cNum

variable {oldname newname : Nat → Byte} {nindex : Option Inoptr}

/-- The search keeps the number of the node. -/
lemma Kernel.Scanned.number (h : s.Scanned s') (nindex : Option Inoptr) :
    (match nindex with
      | some nindex => (s'.iTab nindex).cNum
      | none => 0) = s.numOf nindex := by
  cases nindex with
  | none => rfl
  | some ino => exact congrArg Cinode.cNum (congrFun h.iTab ino)

/-- The search ends at the slot that `ch_link` looks for, or there is none. -/
lemma Kernel.Searched.slotFor (h : s.Searched s' dev wd oldname 0 j) :
    j ≤ s.nslots wd ∧ s.slotFor dev wd oldname =
      if s'.udata.uCount = 0 ∧ oldname 0 ≠ 0 then none else some j := by
  have before : ∀ i < j, (!(namecomp oldname (s.slot dev wd i).name)) = true := fun i hi =>
    Bool.not_eq_true' _ ▸ h.before i (Nat.zero_le i) hi
  cases h.ends with
  | inl found =>
    obtain ⟨lt, name, count, -⟩ := found
    have first : (List.range (s.nslots wd)).find? (fun j => namecomp oldname (s.slot dev wd j).name) = some j :=
      List.find?_range_eq_some.mpr ⟨name, List.mem_range.mpr lt, before⟩
    refine ⟨Nat.le_of_lt lt, ?_⟩
    have more : s'.udata.uCount ≠ 0 := by
      rw [count]
      decide
    rw [Kernel.slotFor, first, Option.some_or, if_neg fun e => more e.1]
  | inr ended =>
    obtain ⟨last, count, -⟩ := ended
    have none : (List.range (s.nslots wd)).find? (fun j => namecomp oldname (s.slot dev wd j).name) = none :=
      List.find?_range_eq_none.mpr fun i hi => before i (last ▸ hi)
    refine ⟨Nat.le_of_eq last, ?_⟩
    rw [Kernel.slotFor, none, Option.none_or, last]
    by_cases empty : oldname 0 = 0
    · rw [if_pos empty, if_neg fun e => e.2 empty]
    · rw [if_neg empty, if_pos ⟨count, empty⟩]

/-- `ch_link` changes the slot that it looks for and no other one, and returns 1, or it changes no slot and returns 0:
when the caller may not write, when the name is not there, and when there is no block for a new slot. -/
theorem wp_chLink (hdev : dev < NDEVS) (dir : s.DirAt dev wd L) (error : s.udata.uError = .ok) :
    wp (chLink wd oldname newname nindex)
      (fun r s' => (∃ j, r = true ∧ s.Links dev wd oldname j ∧
          s.Linked s' dev wd j (Direct.ofName (s.numOf nindex) newname)) ∨
        r = false ∧ (∀ j, ¬ s.Links dev wd oldname j) ∧ s.SameSlots s' dev wd) (fun _ => False) s := by
  unfold chLink
  rw [wp_bind, wp_get, wp_ite]
  split
  · next denied =>
    have same : s.SameBlocks (s.withError .eperm) dev wd L (s.fileData dev wd) :=
      dir.file.keep dir.file.good rfl rfl ⟨rfl, rfl, rfl, rfl, rfl⟩
    unfold setError
    rw [wp_bind, wp_modify]
    refine .inr ⟨rfl, fun j links => links.1 denied, ⟨L, same.file⟩, rfl, funext fun i => ?_⟩
    exact congrArg (Block.direct · (i % 32)) (same.data _)
  · next may =>
    have start : s.Scanned (s.withUdata { s.udata with uOffset := ⟨0, 0⟩ }) :=
      (Kernel.Scanned.refl dir.file.good).withUdata rfl
    have bound := dir.bound
    have few : s.nslots wd < 2 ^ 26 := by
      unfold Kernel.nslots Off.slots
      omega
    have search := @wp_chLinkSearch _ dev wd L 0 oldname (2 ^ 26) hdev (start.dirAt dir)
      (by exact (by decide : (0 : Nat) < 512)) rfl (Nat.zero_le _) (by rw [Nat.zero_add]; exact few)
    rw [wp_bind, wp_modifyUdata, wp_bind]
    refine wp_post search fun _ s₁ got => ?_
    obtain ⟨j, searched⟩ := got
    have searched := start.searched dir.file searched
    obtain ⟨le, slotFor⟩ := searched.slotFor
    have same := searched.scanned.sameBlocks dir.file
    rw [wp_bind, wp_get, wp_ite]
    split
    · next nowhere =>
      rw [if_pos nowhere] at slotFor
      refine .inr ⟨rfl, fun j links => absurd (slotFor.symm.trans links.2.1) nofun, ⟨L, same.file⟩, ?_, ?_⟩
      · rw [searched.scanned.iTab]
      · exact searched.scanned.slot dir.file
    · next there =>
      rw [if_neg there] at slotFor
      have number := searched.scanned.number nindex
      have ends : ∀ t : Kernel, s.Scanned t → t.udata.uOffset.Norm → t.udata.uOffset.val = 16 * j →
          t.udata.mem = putBytes s₁.udata.mem CURENTRY 16 (Direct.ofName (s.numOf nindex) newname).byte →
          wp (chLinkWrite wd)
            (fun r s' => (∃ j, r = true ∧ s.Links dev wd oldname j ∧
              s.Linked s' dev wd j (Direct.ofName (s.numOf nindex) newname)) ∨
              r = false ∧ (∀ j, ¬ s.Links dev wd oldname j) ∧ s.SameSlots s' dev wd) (fun _ => False) t := by
        intro t scanned norm val mem
        have source : ∀ i < 16, t.udata.mem (CURENTRY + i) = (Direct.ofName (s.numOf nindex) newname).byte i := by
          intro i hi
          rw [mem, putBytes_of_lt hi]
        refine wp_post (wp_chLinkWrite hdev dir scanned error norm val le source) fun r s' got => ?_
        cases got with
        | inl full =>
          obtain ⟨e, short, same⟩ := full
          refine .inr ⟨e, fun k links => links.2.2 ?_, same⟩
          cases slotFor.symm.trans links.2.1
          exact short
        | inr done =>
          obtain ⟨e, room, linked⟩ := done
          exact .inl ⟨j, e, ⟨may, slotFor, room⟩, linked⟩
      rw [wp_bind, wp_get, wp_bind, wp_modifyUdata, wp_bind, wp_get, wp_ite]
      have mem := congrArg (fun n => putBytes s₁.udata.mem CURENTRY 16 (Direct.ofName n newname).byte) number
      cases searched.ends with
      | inl found =>
        obtain ⟨-, -, count, val⟩ := found
        have more : s₁.udata.uCount ≠ 0 := by
          rw [count]
          decide
        obtain ⟨norm, back⟩ := searched.norm.backUp val
        refine (if_pos more).mpr ?_
        rw [wp_bind, wp_modifyUdata]
        refine ends _ ?_ norm back mem
        exact (searched.scanned.withUdata rfl).withUdata rfl
      | inr ended =>
        obtain ⟨-, count, val⟩ := ended
        refine (if_neg (not_not.mpr count)).mpr (ends _ ?_ searched.norm val mem)
        exact searched.scanned.withUdata rfl

end Slots

/-! ## The root directory of a small file system -/

/-- The root of the small disk. -/
lemma node_rootFs : (rootFs.iTab 0).cNode = Mkfs.rootNode 3 :=
  congrArg (Dinode.ofBlock · 1) (Mkfs.mkfs_inodes 6 (by decide : 3 ≤ (3 : Word).toNat))

/-- The small disk is as mkfs leaves it. -/
lemma formatted_rootFs : Formatted rootFs 0 6 3 := ⟨formatted_freshFs.cells, formatted_freshFs.loaded⟩

/-- The slots of its root directory. -/
lemma slot_rootFs {j : Nat} (lt : j < 32) : rootFs.slot 0 0 j = Mkfs.dirbuf.direct j := by
  rw [formatted_rootFs.slot node_rootFs (by decide) (by omega), if_pos lt]

/-- The size of its root directory. -/
lemma size_rootFs : (rootFs.iTab 0).cNode.iSize = ⟨0, 32⟩ := congrArg Dinode.iSize node_rootFs

/-- Its root is a directory without holes. -/
lemma dirAt_rootFs : rootFs.DirAt 0 0 [4, 5] := by
  have blocks : (rootFs.iTab 0).cNode.blocks (rootFs.cell 0) = {3} := by
    rw [node_rootFs]
    exact Mkfs.blocks_rootNode (by decide)
  have data : rootFs.fileData 0 0 0 = Mkfs.dirbuf := by
    rw [Kernel.fileData_eq, Kernel.fileBlock_root node_rootFs, if_pos rfl, if_neg (by decide), formatted_rootFs.cells]
    exact Mkfs.mkfs_dirbuf 6 (by decide)
  have nodup : (↑([4, 5] : List Word) + {3} : Multiset Word).Nodup := by decide
  have valid : ∀ b ∈ (↑([4, 5] : List Word) + {3} : Multiset Word), b ≠ NULLBLK := by
    rintro b mem rfl
    exact absurd mem (by decide)
  have idle : ∀ bp, rootFs.bufs.view.held bp = none := congrFun (congrArg View.held Bufs.good_inited.2)
  have list : FreeList (rootFs.fsTab 0) (rootFs.cell 0) [4, 5] := partition_rootFs.list
  have mode : (rootFs.iTab 0).getmode = F_DIR := by
    rw [Cinode.getmode, node_rootFs, Mkfs.iMode_rootNode]
    decide
  refine ⟨⟨Bufs.good_inited.1, idle, rfl, .inr mode, list, ?_, fun b mem => valid b ?_⟩, ?_, ?_, fun bn lt => ?_,
    fun i le hi => ?_⟩
  · rwa [blocks]
  · rwa [blocks] at mem
  · rw [size_rootFs]
    exact (by decide : (32 : Nat) < 512)
  · rw [size_rootFs]
    rfl
  · rw [size_rootFs] at lt
    have first : bn = 0 := BitVec.eq_of_toNat_eq (by
      change 512 * bn.toNat < 32 at lt
      show bn.toNat = 0
      omega)
    rw [Kernel.fileBlock_root node_rootFs, if_pos first]
    decide
  · rw [size_rootFs] at le ⊢
    rw [data]
    exact Mkfs.byte_dirbuf le hi

/-- The first empty name of the root directory is behind its two entries. -/
lemma links_rootFs : rootFs.Links 0 0 (fun _ => 0) 2 := by
  have nslots := Kernel.nslots_root node_rootFs
  have there : rootFs.fileBlock 0 0 (BitVec.ofNat 16 (2 / 32)) ≠ 0 := by
    rw [Kernel.fileBlock_root node_rootFs]
    decide
  refine ⟨by decide +kernel, ?_, ?_⟩
  · rw [Kernel.slotFor, nslots, List.find?_range_eq_none.mpr, Option.none_or]
    · rfl
    · intro j lt
      rw [slot_rootFs (by omega)]
      obtain rfl | rfl : j = 0 ∨ j = 1 := by omega
      · decide
      · decide
  · rw [Kernel.fileBlock, Dinode.stored_eq] at there
    rw [Kernel.NoRoom, Dinode.lacking, BlockTree.missing_of_walk there]
    exact Nat.not_lt_zero _

/-- The root directory gets a third entry, and keeps its two. -/
theorem wp_chLink_rootFs : ∃ r s', chLink 0 (fun _ => 0) (fun _ => 0x61) (some 0) rootFs = .ok (r, s') ∧ r = true ∧
    s'.slot 0 0 0 = Mkfs.dirbuf.direct 0 ∧ s'.slot 0 0 1 = Mkfs.dirbuf.direct 1 ∧
    s'.slot 0 0 2 = Direct.ofName ROOTINODE fun _ => 0x61 := by
  have nslots := Kernel.nslots_root node_rootFs
  have error : rootFs.udata.uError = .ok := rfl
  have hdev : 0 < NDEVS := by decide
  obtain ⟨r, s', returned, got⟩ := wp.returns (wp_chLink hdev dirAt_rootFs error)
  refine ⟨r, s', returned, ?_⟩
  cases got with
  | inl linked =>
    obtain ⟨j, e, links, linked⟩ := linked
    obtain rfl : j = 2 := Option.some.inj (links.2.1.symm.trans links_rootFs.2.1)
    refine ⟨e, ?_, ?_, linked.slot⟩
    · rw [linked.others 0 (by omega) (by decide), slot_rootFs (by decide)]
    · rw [linked.others 1 (by omega) (by decide), slot_rootFs (by decide)]
  | inr fails => exact absurd links_rootFs (fails.2.1 2)

end Uzi
