import Uzi.Fs.FileRounds
import Uzi.Fs.Path

/-!
# The slots of a directory

A directory is a table of slots of 16 bytes (`Kernel.DirAt`, `Kernel.slot`). `ch_link` reads it slot by slot, until a
name matches or the file ends.
-/

namespace Uzi
open Exec

/-- A block of zeros. -/
lemma Block.byte_zero {i : Nat} : Block.zero.byte i = 0 := by
  rw [byte, word_zero]
  split <;> rfl

/-- An entry of zeros. -/
def Direct.blank : Direct := Direct.ofBytes fun _ => 0

/-- The number of slots in a file. -/
def Off.slots (size : Off) : Nat := size.val / 16

/-- Slot `j` of a directory. -/
noncomputable def Kernel.slot (s : Kernel) (dev : Nat) (wd : Inoptr) (j : Nat) : Direct :=
  (s.fileData dev wd (BitVec.ofNat 16 (j / 32))).direct (j % 32)

/-- A consistent directory in whole slots, without holes, and with zeros between its end and that of its block. -/
structure Kernel.DirAt (s : Kernel) (dev : Nat) (wd : Inoptr) (L : List Word) : Prop where
  file : s.FileAt dev wd L
  norm : (s.iTab wd).cNode.iSize.Norm
  slots : (s.iTab wd).cNode.iSize.val % 16 = 0
  whole : ∀ bn : Word, 512 * bn.toNat < (s.iTab wd).cNode.iSize.val → s.fileBlock dev wd bn ≠ 0
  tail : ∀ i, (s.iTab wd).cNode.iSize.oOffset.toNat ≤ i → i < 512 →
    (s.fileData dev wd (s.iTab wd).cNode.iSize.oBlkno).byte i = 0

/-- The slots of the directory. -/
def Kernel.nslots (s : Kernel) (wd : Inoptr) : Nat := (s.iTab wd).cNode.iSize.slots

section Arithmetic

variable {o size : Off} {t : Target}

/-- A read of a slot reads all of it, or there is none left. -/
lemma readLimit_slot (ho : o.Norm) (hs : size.Norm) (slot : o.val % 16 = 0) (slots : size.val % 16 = 0)
    (le : o.val ≤ size.val) : readLimit t 16 size o = if o.val < size.val then 16 else 0 := by
  have lo : o.oOffset.toNat < 512 := ho
  have ls : size.oOffset.toNat < 512 := hs
  have vo : o.val = 512 * o.oBlkno.toNat + o.oOffset.toNat := rfl
  have vs : size.val = 512 * size.oBlkno.toNat + size.oOffset.toNat := rfl
  have blk : (size.oBlkno - o.oBlkno).toNat = size.oBlkno.toNat - o.oBlkno.toNat :=
    BitVec.toNat_sub_of_le (BitVec.le_def.mpr (by omega))
  cases t with
  | nes =>
    unfold readLimit
    dsimp only
    rw [blk]
    split
    · next far => rw [if_pos (by omega)]
    · next near =>
      have dist : (512 * (size.oBlkno - o.oBlkno) + (size.oOffset - o.oOffset)).toNat = size.val - o.val := by
        rw [BitVec.toNat_add, BitVec.toNat_mul, blk, BitVec.toNat_sub, show (512 : Word).toNat = 512 from rfl]
        omega
      have signed : (512 * (size.oBlkno - o.oBlkno) + (size.oOffset - o.oOffset)).toInt = _ := toInt_of_lt (by omega)
      rw [signed, dist, show (16 : Word).toInt = 16 from rfl]
      split
      · rw [min_eq_left (by omega)]
        rfl
      · rw [show size.val - o.val = 0 by omega]
        rfl
  | fsutil =>
    unfold readLimit
    dsimp only
    split
    · next far => rw [if_pos (by omega)]
    · next near =>
      have signed : size.oOffset.toInt = _ := toInt_of_lt (by omega)
      have signed' : o.oOffset.toInt = _ := toInt_of_lt (by omega)
      rw [signed, signed', show ((16 : Word).toNat : Int) = 16 from rfl]
      split
      · rw [min_eq_left (by omega)]
        rfl
      · rw [min_eq_right (by omega),
          show 512 * ((size.oBlkno.toNat : Int) - o.oBlkno.toNat) + (size.oOffset.toNat - o.oOffset.toNat) = 0 by omega]
        rfl

end Arithmetic

/-! ## Reading a slot -/

/-- Nothing has changed but the buffers that are in use and what a transfer works with. -/
structure Kernel.Scanned (s s' : Kernel) : Prop where
  eq : s' = { s with bufs := s'.bufs, udata := s'.udata }
  good : s'.bufs.Good
  view : s'.bufs.view = s.bufs.view
  udata : s'.udata = { s.udata with
    uBase := s'.udata.uBase, uCount := s'.udata.uCount, uOffset := s'.udata.uOffset, mem := s'.udata.mem }

section Slots

variable {s s' s'' : Kernel} {dev : Nat} {wd : Inoptr} {L : List Word} {j k : Nat}

/-- Nothing has been looked at. -/
lemma Kernel.Scanned.refl (good : s.bufs.Good) : s.Scanned s := ⟨rfl, good, rfl, rfl⟩

/-- A search, and another one. -/
lemma Kernel.Scanned.trans (h : s.Scanned s') (h' : s'.Scanned s'') : s.Scanned s'' where
  eq := by
    calc s'' = { s' with bufs := s''.bufs, udata := s''.udata } := h'.eq
      _ = { s with bufs := s''.bufs, udata := s''.udata } := by rw [h.eq]
  good := h'.good
  view := h'.view.trans h.view
  udata := by rw [h'.udata, h.udata]

/-- A search leaves the in-core inodes. -/
lemma Kernel.Scanned.iTab (h : s.Scanned s') : s'.iTab = s.iTab := by
  rw [h.eq]

/-- A search leaves the error. -/
lemma Kernel.Scanned.error (h : s.Scanned s') : s'.udata.uError = s.udata.uError := by
  rw [h.udata]

/-- Only a transfer is prepared. -/
lemma Kernel.Scanned.withUdata (h : s.Scanned s') {u : UData}
    (udata : u = { s'.udata with uBase := u.uBase, uCount := u.uCount, uOffset := u.uOffset, mem := u.mem }) :
    s.Scanned (s'.withUdata u) :=
  h.trans ⟨rfl, h.good, rfl, udata⟩

/-- A directory that has been read is the same. -/
lemma Kernel.Scanned.sameBlocks (h : s.Scanned s') (file : s.FileAt dev wd L) :
    s.SameBlocks s' dev wd L (s.fileData dev wd) := by
  refine file.keep h.good h.view ?_ ?_
  · rw [h.eq]
  · rw [h.iTab]
    exact ⟨rfl, rfl, rfl, rfl, rfl⟩

/-- A search leaves the slots. -/
lemma Kernel.Scanned.slot (h : s.Scanned s') (file : s.FileAt dev wd L) : s'.slot dev wd = s.slot dev wd := by
  funext j
  rw [Kernel.slot, Kernel.slot, (h.sameBlocks file).data]

/-- A search leaves a directory a directory. -/
lemma Kernel.Scanned.dirAt (h : s.Scanned s') (dir : s.DirAt dev wd L) : s'.DirAt dev wd L := by
  have same := h.sameBlocks dir.file
  have iTab := h.iTab
  refine ⟨same.file, ?_, ?_, fun bn => ?_, fun i => ?_⟩
  · exact iTab ▸ dir.norm
  · exact iTab ▸ dir.slots
  · rw [iTab, same.block]
    exact dir.whole bn
  · rw [iTab, same.data]
    exact dir.tail i

/-- Slot `k` begins at byte `16 * k` of the file. -/
lemma slot_block {o : Off} (norm : o.Norm) (val : o.val = 16 * k) :
    o.oBlkno = BitVec.ofNat 16 (k / 32) ∧ o.oOffset.toNat = 16 * (k % 32) := by
  have blk := norm.blkno
  have lt := o.oBlkno.isLt
  refine ⟨BitVec.eq_of_toNat_eq ?_, ?_⟩
  · rw [BitVec.toNat_ofNat]
    omega
  · rw [norm.offset]
    omega

/-- A slot is in one block. -/
lemma chunk_slot {t : Target} {o : Off} (offset : o.oOffset.toNat = 16 * (k % 32)) : chunk t 16 o.oOffset = 16 := by
  have count : (16 : Word).toNat = 16 := rfl
  have amount : (chunk t 16 o.oOffset).toNat = _ := chunk_toNat (fun _ => by rw [count]; decide) (by omega)
  refine BitVec.eq_of_toNat_eq ?_
  rw [amount, count]
  omega

/-- Only 16 bytes matter to an entry. -/
lemma Direct.ofBytes_congr {f g : Nat → Byte} (h : ∀ i < 16, f i = g i) : Direct.ofBytes f = Direct.ofBytes g := by
  rw [ofBytes, ofBytes, h 0 (by decide), h 1 (by decide)]
  congr 1
  funext i
  exact h _ (by omega)

/-- The memory where bytes have been put. -/
lemma putBytes_of_lt {mem f : Nat → Byte} {base n i : Nat} (hi : i < n) : putBytes mem base n f (base + i) = f i := by
  rw [putBytes, if_pos (by omega), Nat.add_sub_cancel_left]

/-- What a read of `ch_link` leaves at slot `k`: the slot, or the end of the file. -/
structure Kernel.SlotRead (s s' : Kernel) (dev : Nat) (wd : Inoptr) (k : Nat) : Prop where
  scanned : s.Scanned s'
  norm : s'.udata.uOffset.Norm
  read : k < s.nslots wd → s'.udata.uCount = 16 ∧ s'.udata.uOffset.val = 16 * (k + 1) ∧
    s'.udata.curentry = s.slot dev wd k
  ends : k = s.nslots wd → s'.udata.uCount = 0 ∧ s'.udata.uOffset.val = 16 * k

/-- A read of a slot. -/
lemma wp_readi_slot (hdev : dev < NDEVS) (h : s.DirAt dev wd L) (norm : s.udata.uOffset.Norm)
    (val : s.udata.uOffset.val = 16 * k) (le : k ≤ s.nslots wd) (count : s.udata.uCount = 16)
    (base : s.udata.uBase = CURENTRY) :
    wp (readi wd) (fun r s' => r = .returned ∧ s.SlotRead s' dev wd k) (fun _ => False) s := by
  have slots := h.slots
  have blk := (s.iTab wd).cNode.iSize.oBlkno.isLt
  have size_offset : (s.iTab wd).cNode.iSize.oOffset.toNat < 512 := h.norm
  have size_val : (s.iTab wd).cNode.iSize.val = 512 * (s.iTab wd).cNode.iSize.oBlkno.toNat +
    (s.iTab wd).cNode.iSize.oOffset.toNat := rfl
  unfold Kernel.nslots Off.slots at le
  obtain ⟨block, offset⟩ := slot_block norm val
  have inside : s.udata.uOffset.oOffset.toNat < 512 := norm
  rw [wp_readi_entry h.file.readEntry, count, readLimit_slot norm h.norm (by omega) slots (by omega)]
  split
  · next more =>
    have kept : s.Scanned (s.withCount 16) := (Kernel.Scanned.refl h.file.good).withUdata rfl
    have file := (kept.sameBlocks h.file).file
    have amount : chunk (s.withCount 16).target 16 (s.withCount 16).udata.uOffset.oOffset = 16 := chunk_slot offset
    have there : s.fileBlock dev wd s.udata.uOffset.oBlkno ≠ 0 := by
      refine h.whole _ ?_
      rw [norm.blkno]
      omega
    refine wp_rounds_one (by decide) ?_
    have round := wp_readRound_file (s := s.withCount 16) (n := 16) hdev file
    have fits : s.udata.uOffset.oOffset.toNat + (16 : Word).toNat ≤ 512 := by
      rw [show (16 : Word).toNat = 16 from rfl]
      omega
    rw [amount] at round
    refine wp_post (round fits there) fun r s' got => ?_
    obtain ⟨e, bytes⟩ := got
    refine ⟨fun b' e' => ?_, rfl, ?_⟩
    · cases e.symm.trans e'
      rfl
    have moved := addoff_natCast (t := s.target) (n := 16) norm (by decide)
    have off : s'.udata.uOffset = addoff s.target s.udata.uOffset (16 : Nat) := by
      rw [bytes.udata]
      show addoff s.target s.udata.uOffset (cint s.target 16) = _
      rw [cint_of_lt (by decide)]
      rfl
    have base : (s.withCount 16).udata.uBase = CURENTRY := base
    have mem : s'.udata.mem = putBytes (s.withCount 16).udata.mem CURENTRY (16 : Word).toNat fun i =>
        (s.fileData dev wd s.udata.uOffset.oBlkno).byte (s.udata.uOffset.oOffset.toNat + i) := by
      rw [bytes.udata, ← base]
      rfl
    have entry : s'.udata.curentry = s.slot dev wd k := by
      rw [UData.curentry, mem, Kernel.slot, Block.direct, ← block, ← offset]
      exact Direct.ofBytes_congr fun i hi => putBytes_of_lt hi
    refine ⟨kept.trans ⟨bytes.eq, bytes.good, bytes.view, ?_⟩, off ▸ moved.1, fun _ => ⟨?_, ?_, entry⟩, fun e => ?_⟩
    · rw [bytes.udata]
      rfl
    · rw [bytes.udata]
      rfl
    · rw [off, moved.2]
      omega
    · unfold Kernel.nslots Off.slots at e
      omega
  · next none =>
    have zero : s.withCount 0 = s.withUdata { s.udata with uCount := 0 } := rfl
    refine wp_rounds_none rfl ⟨rfl, (Kernel.Scanned.refl h.file.good).withUdata rfl, norm, fun lt => ?_, fun _ => ?_⟩
    · unfold Kernel.nslots Off.slots at lt
      omega
    · exact ⟨rfl, val⟩

/-- A transfer of a slot is prepared. -/
def Kernel.atEntry (s : Kernel) : Kernel := s.withUdata { s.udata with uCount := 16, uBase := CURENTRY }

/-- A transfer of one entry. -/
lemma wp_entryTransfer {transfer : Inoptr → K Progress} {Q : PUnit → Kernel → Prop} {E : Panic → Prop}
    (h : wp (transfer wd) (fun r s' => r = .returned ∧ Q ⟨⟩ s') E s.atEntry) : wp (entryTransfer transfer wd) Q E s := by
  unfold entryTransfer
  rw [wp_bind, wp_modifyUdata, wp_bind]
  refine wp_post h fun r s' got => ?_
  obtain ⟨e, post⟩ := got
  subst e
  exact post

/-- A read of `ch_link` gets the slot at the file offset, or there is none left. -/
lemma wp_readEntry (hdev : dev < NDEVS) (h : s.DirAt dev wd L) (norm : s.udata.uOffset.Norm)
    (val : s.udata.uOffset.val = 16 * k) (le : k ≤ s.nslots wd) :
    wp (entryTransfer readi wd) (fun _ s' => s.SlotRead s' dev wd k) (fun _ => False) s := by
  have kept : s.Scanned s.atEntry := (Kernel.Scanned.refl h.file.good).withUdata rfl
  refine wp_entryTransfer (wp_post (wp_readi_slot hdev (kept.dirAt h) norm val le rfl rfl) fun r s' got => ?_)
  obtain ⟨e, read⟩ := got
  refine ⟨e, kept.trans read.scanned, read.norm, fun lt => ?_, read.ends⟩
  rw [← kept.slot h.file]
  exact read.read lt

/-! ## The search -/

/-- The search of `ch_link` has gone from slot `k` to slot `j`: to the first with the name, or to the end. -/
structure Kernel.Searched (s s' : Kernel) (dev : Nat) (wd : Inoptr) (oldname : Nat → Byte) (k j : Nat) : Prop where
  scanned : s.Scanned s'
  norm : s'.udata.uOffset.Norm
  le : k ≤ j
  before : ∀ i, k ≤ i → i < j → namecomp oldname (s.slot dev wd i).name = false
  ends : j < s.nslots wd ∧ namecomp oldname (s.slot dev wd j).name = true ∧ s'.udata.uCount = 16 ∧
      s'.udata.uOffset.val = 16 * (j + 1) ∨
    j = s.nslots wd ∧ s'.udata.uCount = 0 ∧ s'.udata.uOffset.val = 16 * j

variable {oldname : Nat → Byte}

/-- A search that goes on after a search. -/
lemma Kernel.Scanned.searched (h : s.Scanned s') (file : s.FileAt dev wd L)
    (searched : s'.Searched s'' dev wd oldname k j) : s.Searched s'' dev wd oldname k j := by
  have before := searched.before
  have ends := searched.ends
  unfold Kernel.nslots at ends
  rw [h.iTab, h.slot file] at ends
  rw [h.slot file] at before
  exact ⟨h.trans searched.scanned, searched.norm, searched.le, before, ends⟩

/-- One more slot without the name in front. -/
lemma Kernel.Searched.cons (h : s.Searched s' dev wd oldname (k + 1) j)
    (other : namecomp oldname (s.slot dev wd k).name = false) : s.Searched s' dev wd oldname k j := by
  refine ⟨h.scanned, h.norm, Nat.le_of_succ_le h.le, fun i le lt => ?_, h.ends⟩
  cases Nat.eq_or_lt_of_le le with
  | inl e => exact e ▸ other
  | inr lt' => exact h.before i lt' lt

/-- The search of `ch_link` finds the slot, or the end. -/
lemma wp_chLinkSearch {fuel : Nat} (hdev : dev < NDEVS) (h : s.DirAt dev wd L) (norm : s.udata.uOffset.Norm)
    (val : s.udata.uOffset.val = 16 * k) (le : k ≤ s.nslots wd) (enough : s.nslots wd < k + fuel) :
    wp (chLinkSearch wd oldname fuel) (fun _ s' => ∃ j, s.Searched s' dev wd oldname k j) (fun _ => False) s := by
  induction fuel generalizing s k with
  | zero => omega
  | succ fuel ih =>
    unfold chLinkSearch
    rw [wp_bind]
    refine wp_post (wp_readEntry hdev h norm val le) fun _ s₁ read => ?_
    rw [wp_bind, wp_get, wp_ite]
    cases Nat.eq_or_lt_of_le le with
    | inl last =>
      obtain ⟨count, offset⟩ := read.ends last
      rw [if_pos (.inl count)]
      exact ⟨k, read.scanned, read.norm, Nat.le_refl k, fun i le lt => absurd lt (Nat.not_lt.mpr le),
        .inr ⟨last, count, offset⟩⟩
    | inr more =>
      obtain ⟨count, offset, entry⟩ := read.read more
      split
      · next stop =>
        rw [count, entry] at stop
        have found := stop.resolve_left (by decide)
        exact ⟨k, read.scanned, read.norm, Nat.le_refl k, fun i le lt => absurd lt (Nat.not_lt.mpr le),
          .inl ⟨more, found, count, offset⟩⟩
      · next on =>
        rw [not_or, entry] at on
        have other : namecomp oldname (s.slot dev wd k).name = false := Bool.eq_false_iff.mpr on.2
        have nslots : s₁.nslots wd = s.nslots wd := by
          unfold Kernel.nslots
          rw [read.scanned.iTab]
        refine wp_post (ih (read.scanned.dirAt h) read.norm offset (by omega) (by omega)) fun _ s₂ got => ?_
        obtain ⟨j, searched⟩ := got
        exact ⟨j, (read.scanned.searched h.file searched).cons other⟩

end Slots

end Uzi
