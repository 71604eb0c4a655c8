import Uzi.Fs.ChLink
import Uzi.Fs.FlatFiles
import Uzi.Fs.Names
import Uzi.Lib.Dictionary

/-!
# Directories are dictionaries

A directory in order is a dictionary from names to inode numbers (`Kernel.names`), and on a device whose files are in
order every `ch_link` lets one entry of one directory give way to another one, whatever reads and writes there are of
other files. `srch_dir` goes on to open the inode that the dictionary has.
-/

namespace Uzi
open Exec FlatFile Dictionary

variable {s s' s'' : Kernel} {dev : Nat} {I : Finset Inoptr} {rest : List Dinode} {L : List Word} {wd : Inoptr}
  {i j : Nat}

/-! ## Directories in order -/

/-- The name and the number in slot `j`. -/
noncomputable def Kernel.entry (s : Kernel) (dev : Nat) (wd : Inoptr) (j : Nat) : List Byte × Word :=
  ((s.slot dev wd j).stem, (s.slot dev wd j).dIno)

/-- The inode numbers that a directory has for names. -/
noncomputable def Kernel.names (s : Kernel) (dev : Nat) (wd : Inoptr) : List Byte → Option Word :=
  Dictionary.names [] (s.entry dev wd) (s.nslots wd)

/-- The directory has whole slots, no holes, nothing behind its end, and no name twice. -/
structure Kernel.Tidy (s : Kernel) (dev : Nat) (wd : Inoptr) : Prop where
  slots : (s.iTab wd).cNode.iSize.val % 16 = 0
  whole : ∀ bn : Word, 512 * bn.toNat < (s.iTab wd).cNode.iSize.val → s.fileBlock dev wd bn ≠ 0
  blank : ∀ i, s.nslots wd ≤ i → i < 2 ^ 21 → s.slot dev wd i = Direct.blank
  distinct : Distinct [] (s.entry dev wd) (s.nslots wd)

/-- The bytes of an entry. -/
lemma Direct.byte_ofBytes {f : Nat → Byte} (hi : i < 16) : (Direct.ofBytes f).byte i = f i := by
  rw [byte]
  split
  · next low =>
    rw [low]
    exact BitVec.setWidth_append_eq_right
  · next =>
    split
    · next high =>
      rw [high]
      show ((f 1 ++ f 0) >>> 8).setWidth 8 = f 1
      ext k hk
      rw [BitVec.getElem_setWidth, BitVec.getLsbD_ushiftRight, BitVec.getLsbD_append, if_neg (by omega),
        Nat.add_sub_cancel_left, BitVec.getLsbD_eq_getElem]
    · next =>
      rw [name, dif_pos (show i - 2 < 14 by omega)]
      exact congrArg f (by show 2 + (i - 2) = i; omega)

/-- A directory in order is one of the files in order. -/
lemma Kernel.InOrder.dirAt (h : s.InOrder dev I rest L) (hip : wd ∈ I) (tidy : s.Tidy dev wd) : s.DirAt dev wd L := by
  refine ⟨h.fileAt hip, h.size wd hip, tidy.slots, tidy.whole, fun i le lt => ?_⟩
  have offset : (s.iTab wd).cNode.iSize.oOffset.toNat < 512 := h.size wd hip
  have val : (s.iTab wd).cNode.iSize.val =
    512 * (s.iTab wd).cNode.iSize.oBlkno.toNat + (s.iTab wd).cNode.iSize.oOffset.toNat := rfl
  have slots := tidy.slots
  have blk := (s.iTab wd).cNode.iSize.oBlkno.isLt
  set k := 32 * (s.iTab wd).cNode.iSize.oBlkno.toNat + i / 16 with hk
  have past : s.nslots wd ≤ k := by
    unfold Kernel.nslots Off.slots
    omega
  have blank := congrArg (Direct.byte · (i % 16)) (tidy.blank k past (by omega))
  have block : BitVec.ofNat 16 (k / 32) = (s.iTab wd).cNode.iSize.oBlkno := by
    apply BitVec.eq_of_toNat_eq
    rw [BitVec.toNat_ofNat]
    omega
  simp only [Kernel.slot, Block.direct, Direct.blank] at blank
  rw [Direct.byte_ofBytes (Nat.mod_lt i (by decide)), Direct.byte_ofBytes (Nat.mod_lt i (by decide)), block] at blank
  rw [← blank]
  exact congrArg _ (by omega)

/-- Reading leaves the files in order. -/
lemma Kernel.InOrder.scanned (h : s.InOrder dev I rest L) (hip : wd ∈ I) (scanned : s.Scanned s') :
    s'.InOrder dev I rest L ∧ s.LeavesOthers s' dev I wd := by
  have iTab := scanned.iTab
  have ofTab : s'.ofTab = s.ofTab := by rw [scanned.eq]
  have fsTab : s'.fsTab = s.fsTab := by rw [scanned.eq]
  have kept := h.keep hip scanned.good scanned.view fsTab (fun i _ => congrFun iTab i)
    (iTab ▸ ⟨rfl, rfl, rfl, rfl, rfl⟩) (iTab ▸ h.size wd hip) (ofTab ▸ h.pos)
  exact ⟨kept.1, kept.2.1⟩

/-! ## A slot is written -/

/-- A file keeps the blocks that it has when a slot is written. -/
lemma wp_writei_blocks (hdev : dev < NDEVS) (file : s.FileAt dev wd L) (norm : s.udata.uOffset.Norm)
    (val : s.udata.uOffset.val = 16 * j) (count : s.udata.uCount = 16) :
    wp (writei wd) (fun _ s' => ∀ bn, s.fileBlock dev wd bn ≠ 0 → s'.fileBlock dev wd bn ≠ 0) (fun _ => False) s := by
  obtain ⟨-, offset⟩ := slot_block norm val
  have amount : chunk s.target 16 s.udata.uOffset.oOffset = 16 := chunk_slot offset
  have round := wp_writeRound_file (n := 16) hdev file
  rw [amount] at round
  have fits : s.udata.uOffset.oOffset.toNat + (16 : Word).toNat ≤ 512 := by
    rw [show (16 : Word).toNat = 16 from rfl]
    omega
  rw [wp_writei_entry file.writeEntry, count]
  refine wp_rounds_one (by decide) (wp_post (round fits) fun r s₁ got => ?_)
  obtain ⟨L', outcome⟩ := got
  rw [if_neg Bool.false_ne_true]
  cases outcome with
  | inl full =>
    obtain ⟨e, ext⟩ := full
    refine ⟨fun b' e' => absurd (e.symm.trans e') nofun, wp_post wp_growSize fun _ s₂ got => ?_⟩
    have same := got.1.sameBlocks ext.file
    intro bn there
    rw [same.block]
    by_cases block : bn = s.udata.uOffset.oBlkno
    · subst block
      rw [Kernel.fileBlock, Dinode.stored_eq] at there
      have none : (s.iTab wd).cNode.lacking (s.cell dev) s.udata.uOffset.oBlkno = 0 :=
        BlockTree.missing_of_walk there
      exact absurd (none ▸ (ext.full rfl).1) (Nat.not_lt_zero _)
    · rw [ext.others bn block]
      exact there
  | inr wrote =>
    obtain ⟨e, wrote⟩ := wrote
    refine ⟨fun b' e' => ?_, wp_post wp_growSize fun _ s₂ got => ?_⟩
    · cases e.symm.trans e'
      rfl
    have same := got.1.sameBlocks wrote.file
    intro bn there
    rw [same.block]
    by_cases block : bn = s.udata.uOffset.oBlkno
    · exact block ▸ wrote.there
    · rw [wrote.others bn block]
      exact there

/-- Nothing of the directory has changed, and nothing of the other files. -/
structure Kernel.Untouched (s s' : Kernel) (dev : Nat) (I : Finset Inoptr) (rest : List Dinode) (wd : Inoptr) : Prop
    where
  changed : s.Changed s' dev I rest wd
  ofTab : s'.ofTab = s.ofTab
  blocks : ∀ bn, s.fileBlock dev wd bn ≠ 0 → s'.fileBlock dev wd bn ≠ 0
  size : (s'.iTab wd).cNode.iSize = (s.iTab wd).cNode.iSize
  slot : s'.slot dev wd = s.slot dev wd

/-- Slot `j` of the directory has the entry `d`, the size covers whole blocks, and the other files have not changed. -/
structure Kernel.Filed (s s' : Kernel) (dev : Nat) (I : Finset Inoptr) (rest : List Dinode) (wd : Inoptr) (j : Nat)
    (d : Direct) : Prop where
  changed : s.Changed s' dev I rest wd
  ofTab : s'.ofTab = s.ofTab
  size : (s'.iTab wd).cNode.iSize.val = 512 * ((max (s.iTab wd).cNode.iSize.val (16 * (j + 1)) + 511) / 512)
  whole : ∀ bn : Word, 512 * bn.toNat < (s'.iTab wd).cNode.iSize.val → s'.fileBlock dev wd bn ≠ 0
  slot : ∀ i < 2 ^ 21, s'.slot dev wd i = if i = j then d else s.slot dev wd i

/-- The end of `ch_link` enters the entry, or there is no room. -/
lemma wp_chLinkWrite_filed {d : Direct} (hdev : dev < NDEVS) (h : s.InOrder dev I rest L) (hip : wd ∈ I)
    (tidy : s.Tidy dev wd) (scan : s.Scanned s') (error : s.udata.uError = .ok) (norm : s'.udata.uOffset.Norm)
    (val : s'.udata.uOffset.val = 16 * j) (le : j ≤ s.nslots wd)
    (source : ∀ i < 16, s'.udata.mem (CURENTRY + i) = d.byte i) :
    wp (chLinkWrite wd)
      (fun r s'' => r = false ∧ s.NoRoom dev wd j ∧ s.Untouched s'' dev I rest wd ∨
        r = true ∧ s.Filed s'' dev I rest wd j d) (fun _ => False) s' := by
  have dir := h.dirAt hip tidy
  have ready : s.Scanned s'.atEntry := scan.withUdata rfl
  obtain ⟨h₁, others⟩ := h.scanned hip ready
  have dir₁ := ready.dirAt dir
  have same₁ := ready.sameBlocks dir.file
  have bound := dir.bound
  have le' : j ≤ s'.atEntry.nslots wd := by
    unfold Kernel.nslots
    rw [ready.iTab]
    exact le
  have few := le
  unfold Kernel.nslots Off.slots at few
  have room : s'.atEntry.udata.uOffset.val + s'.atEntry.udata.uCount.toNat < 2 ^ 25 := by
    show s'.udata.uOffset.val + 16 < 2 ^ 25
    omega
  unfold chLinkWrite setftime
  rw [wp_bind]
  refine wp_entryTransfer (wp_mono (((wp_writei_slot hdev dir₁ norm val le' rfl source).and
    (wp_writei_flat hdev hip (fun _ => (by decide : (16 : Nat) < 2 ^ 15)) norm room h₁)).and
    (wp_writei_blocks hdev dir₁.file norm val rfl)) (fun r s₂ got => ?_) fun _ bad => bad.2)
  obtain ⟨⟨⟨e, outcome⟩, -, k, -, written, -⟩, blocks⟩ := got
  refine ⟨e, ?_⟩
  have changed : s.Changed s₂ dev I rest wd := ⟨written.changed.1, others.trans written.changed.2⟩
  have ofTab : s₂.ofTab = s.ofTab := by
    refine written.call.ofTab.trans ?_
    rw [ready.eq]
  have blocks : ∀ bn, s.fileBlock dev wd bn ≠ 0 → s₂.fileBlock dev wd bn ≠ 0 := fun bn there =>
    blocks bn (same₁.block bn ▸ there)
  rw [ready.noRoom] at outcome
  rw [wp_bind, wp_get, wp_ite]
  cases outcome with
  | inl full =>
    obtain ⟨short, code, same⟩ := full
    have same := ready.sameSlots dir.file same
    rw [if_pos (by rw [code]; decide)]
    exact .inl ⟨rfl, short, changed, ofTab, blocks, same.size, same.slot⟩
  | inr done =>
    obtain ⟨-, code, entered⟩ := done
    have entered := ready.slotWritten dir.file entered
    obtain ⟨L', file⟩ := entered.file
    obtain ⟨⟨L₂, h₂⟩, others₂⟩ := changed
    have grown := entered.size
    obtain ⟨offset, rounded⟩ := entered.norm.roundUp (by omega)
    -- what is left are changes of the inode, after which the size is rounded up
    have ends : ∀ t, s₂.Resized t wd → (t.iTab wd).cNode.iSize = (s₂.iTab wd).cNode.iSize.roundUp →
        s.Filed t dev I rest wd j d := by
      intro t resized size
      have eq := resized.eq
      have same := resized.sameBlocks file
      have bufs : t.bufs = s₂.bufs := by
        rw [eq]
        rfl
      have norm : (t.iTab wd).cNode.iSize.Norm := by
        unfold Off.Norm
        rw [size, offset]
        decide
      have ofTab' : t.ofTab = s₂.ofTab := by
        rw [eq]
        rfl
      obtain ⟨h₃, others₃, -⟩ := h₂.keep hip (bufs ▸ h₂.owned.good) (congrArg Bufs.view bufs) (eq ▸ rfl)
        (fun i ne => eq ▸ Function.update_of_ne ne _ _) resized.same norm fun k => ofTab' ▸ h₂.pos k
      refine ⟨⟨⟨L₂, h₃⟩, others₂.trans others₃⟩, ofTab'.trans ofTab, ?_, fun bn lt => ?_, fun i hi => ?_⟩
      · rw [size, rounded, grown]
      · rw [same.block]
        refine entered.whole bn ?_
        rw [size, rounded] at lt
        omega
      · rw [Kernel.slot, same.data]
        exact entered.slot i hi
    rw [if_neg (by rw [code, ready.error, error]; decide)]
    rw [wp_bind, wp_bind, wp_get, wp_modifyInode, wp_bind, wp_get]
    generalize timed : s₂.setInode wd _ = s₃
    have resized : s₂.Resized s₃ wd := timed ▸ Kernel.resized_setInode ⟨rfl, rfl, rfl, rfl, rfl⟩
    have size₃ : (s₃.iTab wd).cNode.iSize = (s₂.iTab wd).cNode.iSize := by rw [← timed, Kernel.iTab_setInode]
    dsimp only
    rw [wp_ite]
    split
    · next part =>
      rw [wp_bind, wp_modifyInode]
      refine .inr ⟨rfl, ends _ (resized.trans (Kernel.resized_setInode ⟨rfl, rfl, rfl, rfl, rfl⟩)) ?_⟩
      rw [Kernel.iTab_setInode, Off.roundUp, ← size₃, if_pos part]
    · next full =>
      refine .inr ⟨rfl, ends _ resized ?_⟩
      rw [Off.roundUp, ← size₃, if_neg full]

/-! ## One call -/

variable {oldname newname : Nat → Byte} {nindex : Option Inoptr} {num : Word}

/-- A blank entry has no name. -/
lemma stem_blank : Direct.blank.stem = [] := rfl

/-- The name and number in the slot that has been written. -/
lemma Kernel.Filed.overwritten (filed : s.Filed s' dev I rest wd j (Direct.ofName num newname))
    (dir : s.DirAt dev wd L) (tidy : s.Tidy dev wd) (le : j ≤ s.nslots wd) :
    Overwritten [] (s.entry dev wd) (s.nslots wd) (s'.entry dev wd) (s'.nslots wd) j (stem newname, num) := by
  have bound := dir.bound
  have slots : s.nslots wd = (s.iTab wd).cNode.iSize.val / 16 := rfl
  have slots' : s'.nslots wd = (s'.iTab wd).cNode.iSize.val / 16 := rfl
  have size := filed.size
  have entry : ∀ i < s'.nslots wd, i ≠ j → s'.entry dev wd i = s.entry dev wd i := fun i lt ne => by
    rw [Kernel.entry, Kernel.entry, filed.slot i (by omega), if_neg ne]
  refine ⟨by omega, by omega, ?_, entry, fun i past lt => ?_⟩
  · rw [Kernel.entry, filed.slot j (by omega), if_pos rfl, Direct.stem, Component.stem_copy]
    rfl
  · rw [Kernel.entry, tidy.blank i past (by omega), stem_blank]

/-- The directory is in order again, when no other slot has the name. -/
lemma Kernel.Filed.tidy (filed : s.Filed s' dev I rest wd j (Direct.ofName num newname)) (dir : s.DirAt dev wd L)
    (tidy : s.Tidy dev wd) (le : j ≤ s.nslots wd)
    (fresh : stem newname = (s.entry dev wd j).1 ∨ s.names dev wd (stem newname) = none) : s'.Tidy dev wd where
  slots := by
    rw [filed.size]
    omega
  whole := filed.whole
  blank i past lt := by
    have written := filed.overwritten dir tidy le
    have covers := written.covers
    have inside := written.inside
    rw [filed.slot i lt, if_neg (by omega)]
    exact tidy.blank i (by omega) lt
  distinct := (filed.overwritten dir tidy le).still_distinct tidy.distinct fresh

/-- The new entry has taken the place of the old one. -/
lemma Kernel.Filed.names (filed : s.Filed s' dev I rest wd j (Direct.ofName num newname)) (dir : s.DirAt dev wd L)
    (tidy : s.Tidy dev wd) (le : j ≤ s.nslots wd)
    (fresh : stem newname = (s.entry dev wd j).1 ∨ s.names dev wd (stem newname) = none) :
    s'.names dev wd = rebind [] (s.names dev wd) (s.entry dev wd j).1 (stem newname) num :=
  (filed.overwritten dir tidy le).names_eq tidy.distinct fresh

/-- With its slots and its blocks the directory is in order as before. -/
lemma Kernel.Tidy.same (tidy : s.Tidy dev wd) (size : (s'.iTab wd).cNode.iSize = (s.iTab wd).cNode.iSize)
    (slot : s'.slot dev wd = s.slot dev wd)
    (blocks : ∀ bn, s.fileBlock dev wd bn ≠ 0 → s'.fileBlock dev wd bn ≠ 0) :
    s'.Tidy dev wd ∧ s'.names dev wd = s.names dev wd := by
  have nslots : s'.nslots wd = s.nslots wd := by
    unfold Kernel.nslots
    rw [size]
  have entry : s'.entry dev wd = s.entry dev wd := by
    funext i
    rw [Kernel.entry, Kernel.entry, slot]
  refine ⟨⟨?_, fun bn lt => ?_, fun i past lt => ?_, ?_⟩, ?_⟩
  · rw [size]
    exact tidy.slots
  · rw [size] at lt
    exact blocks bn (tidy.whole bn lt)
  · rw [nslots] at past
    rw [slot]
    exact tidy.blank i past lt
  · rw [entry, nslots]
    exact tidy.distinct
  · rw [Kernel.names, entry, nslots]
    rfl

/-- A directory that is kept stays tidy. -/
lemma Kernel.KeepsFile.tidy (keeps : s.KeepsFile s' dev wd) (tidy : s.Tidy dev wd) :
    s'.Tidy dev wd ∧ s'.names dev wd = s.names dev wd := by
  refine tidy.same keeps.size (funext fun i => ?_) fun bn there => ?_
  · exact congrArg (Block.direct · (i % 32)) (keeps.data _)
  · rw [keeps.block]
    exact there

/-- How `ch_link` ends on a directory in order: an entry with the old name, or an unused slot, gets the new entry. It
changes nothing when the caller may not write, when there is no such entry, or when there is no room for a new slot. -/
def Kernel.ChLinked (s : Kernel) (dev : Nat) (I : Finset Inoptr) (rest : List Dinode) (wd : Inoptr)
    (oldname newname : Nat → Byte) (num : Word) (r : Bool) (s' : Kernel) : Prop :=
  (r = false ∧ s.Untouched s' dev I rest wd ∧
    (getperm s wd &&& OTH_WR ≠ 0 → ∀ i < s.nslots wd, (s.entry dev wd i).1 ≠ stem oldname)) ∨
  (r = true ∧ ∃ j ≤ s.nslots wd, (s.entry dev wd j).1 = stem oldname ∧
    s.Filed s' dev I rest wd j (Direct.ofName num newname))

/-- `ch_link` of a tidy directory. -/
lemma wp_chLink_filed (hdev : dev < NDEVS) (h : s.InOrder dev I rest L) (hip : wd ∈ I) (tidy : s.Tidy dev wd)
    (error : s.udata.uError = .ok) :
    wp (chLink wd oldname newname nindex) (s.ChLinked dev I rest wd oldname newname (s.numOf nindex)) (fun _ => False)
      s := by
  have dir := h.dirAt hip tidy
  have untouched : ∀ {t : Kernel}, s.Scanned t → s.Untouched t dev I rest wd := by
    intro t scan
    obtain ⟨h', others⟩ := h.scanned hip scan
    have same := scan.sameBlocks dir.file
    refine ⟨⟨⟨L, h'⟩, others⟩, by rw [scan.eq], fun bn there => ?_, by rw [scan.iTab], scan.slot dir.file⟩
    rw [same.block]
    exact there
  have other : ∀ {i : Nat}, namecomp oldname (s.slot dev wd i).name = false → (s.entry dev wd i).1 ≠ stem oldname :=
    fun no e => Bool.eq_false_iff.mp no (namecomp_iff.mpr e.symm)
  unfold chLink
  rw [wp_bind, wp_get, wp_ite]
  split
  · next denied =>
    unfold setError
    rw [wp_bind, wp_modify]
    have same : s.SameBlocks (s.withError .eperm) dev wd L (s.fileData dev wd) :=
      dir.file.keep dir.file.good rfl rfl ⟨rfl, rfl, rfl, rfl, rfl⟩
    have kept : (s.withError .eperm).InOrder dev I rest L ∧ s.LeavesOthers (s.withError .eperm) dev I wd ∧ _ :=
      h.keep hip h.owned.good rfl rfl (fun _ _ => rfl) ⟨rfl, rfl, rfl, rfl, rfl⟩ (h.size wd hip) h.pos
    obtain ⟨h', others, -⟩ := kept
    refine .inl ⟨rfl, ⟨⟨⟨L, h'⟩, others⟩, rfl, fun bn there => ?_, rfl, funext fun i => ?_⟩, fun may =>
      absurd denied may⟩
    · exact (same.block bn).symm ▸ there
    · exact congrArg (Block.direct · (i % 32)) (same.data _)
  · next may =>
    have start : s.Scanned (s.withUdata { s.udata with uOffset := ⟨0, 0⟩ }) :=
      (Kernel.Scanned.refl dir.file.good).withUdata rfl
    have bound := dir.bound
    have few : s.nslots wd < 2 ^ 26 := by
      unfold Kernel.nslots Off.slots
      omega
    have search := @wp_chLinkSearch _ dev wd L 0 oldname (2 ^ 26) hdev (start.dirAt dir)
      (by exact (by decide : (0 : Nat) < 512)) rfl (Nat.zero_le _) (by rw [Nat.zero_add]; exact few)
    rw [wp_bind, wp_modifyUdata, wp_bind]
    refine wp_post search fun _ s₁ got => ?_
    obtain ⟨j, searched⟩ := got
    have searched := start.searched dir.file searched
    have before : ∀ i < j, (s.entry dev wd i).1 ≠ stem oldname := fun i lt =>
      other (searched.before i (Nat.zero_le i) lt)
    rw [wp_bind, wp_get, wp_ite]
    split
    · next nowhere =>
      refine .inl ⟨rfl, untouched searched.scanned, fun _ => ?_⟩
      cases searched.ends with
      | inl found => exact absurd (found.2.2.1.symm.trans nowhere.1) (by decide)
      | inr ended => exact ended.1 ▸ before
    · next there =>
      have number := searched.scanned.number nindex
      -- the slot at hand is written, whether it is one of the directory or the one at the end
      have ends : ∀ t : Kernel, s.Scanned t → t.udata.uOffset.Norm → t.udata.uOffset.val = 16 * j →
          t.udata.mem = putBytes s₁.udata.mem CURENTRY 16 (Direct.ofName (s.numOf nindex) newname).byte →
          j ≤ s.nslots wd → (s.entry dev wd j).1 = stem oldname →
          wp (chLinkWrite wd) (s.ChLinked dev I rest wd oldname newname (s.numOf nindex)) (fun _ => False) t := by
        intro t scanned norm val mem le name
        have source : ∀ i < 16, t.udata.mem (CURENTRY + i) = (Direct.ofName (s.numOf nindex) newname).byte i := by
          intro i hi
          rw [mem, putBytes_of_lt hi]
        refine wp_post (wp_chLinkWrite_filed hdev h hip tidy scanned error norm val le source) fun r s' got => ?_
        cases got with
        | inl full =>
          obtain ⟨e, short, same⟩ := full
          refine .inl ⟨e, same, fun _ i lt => before i ?_⟩
          have last : ¬ j < s.nslots wd := fun lt => dir.room lt short
          omega
        | inr done => exact .inr ⟨done.1, j, le, name, done.2⟩
      rw [wp_bind, wp_get, wp_bind, wp_modifyUdata, wp_bind, wp_get, wp_ite]
      have mem := congrArg (fun n => putBytes s₁.udata.mem CURENTRY 16 (Direct.ofName n newname).byte) number
      cases searched.ends with
      | inl found =>
        -- the search has read past the slot that is to be written
        obtain ⟨lt, name, count, val⟩ := found
        have more : s₁.udata.uCount ≠ 0 := by
          rw [count]
          decide
        obtain ⟨norm, back⟩ := searched.norm.backUp val
        refine (if_pos more).mpr ?_
        rw [wp_bind, wp_modifyUdata]
        refine ends _ ?_ norm back mem (Nat.le_of_lt lt) (namecomp_iff.mp name).symm
        exact (searched.scanned.withUdata rfl).withUdata rfl
      | inr ended =>
        obtain ⟨last, count, val⟩ := ended
        have empty : oldname 0 = 0 := by
          by_contra ne
          exact there ⟨count, ne⟩
        have name : (s.entry dev wd j).1 = stem oldname := by
          rw [Kernel.entry, tidy.blank j (Nat.le_of_eq last.symm) (by
            unfold Kernel.nslots Off.slots at last
            omega), stem_blank, stem_eq, stemFrom_succ, if_pos (.inl empty)]
        refine (if_neg (not_not.mpr count)).mpr (ends _ ?_ searched.norm val mem (Nat.le_of_eq last) name)
        exact searched.scanned.withUdata rfl

/-! ## Looking a name up -/

variable {name : Nat → Byte} {k n : Nat}

/-- What `srch_dir` goes on with when the dictionary has `found`. -/
def openFound (dev : Nat) : Option Word → K (Option Inoptr)
  | none => pure none
  | some num => iOpen dev num

/-- An entry in a block. -/
lemma entry_block {e : Nat} (lt : e < 32) :
    s.entry dev wd (32 * k + e) = (((s.fileData dev wd (BitVec.ofNat 16 k)).direct e).stem,
      ((s.fileData dev wd (BitVec.ofNat 16 k)).direct e).dIno) := by
  have block : (32 * k + e) / 32 = k := by omega
  have index : (32 * k + e) % 32 = e := by omega
  rw [Kernel.entry, Kernel.slot, block, index]

/-- What is found in a block is in one of its slots. -/
lemma findName_some (found : (s.fileData dev wd (BitVec.ofNat 16 k)).findName name = some num) :
    ∃ e < 32, s.entry dev wd (32 * k + e) = (stem name, num) := by
  obtain ⟨e, hit, value⟩ := Option.map_eq_some_iff.mp found
  have lt := List.mem_range.mp (List.mem_of_find?_eq_some hit)
  have hit := List.find?_some hit
  have same := namecomp_iff.mp hit
  exact ⟨e, lt, (entry_block lt).trans (Prod.ext same.symm value)⟩

/-- A name that is not in a block. -/
lemma findName_none (found : (s.fileData dev wd (BitVec.ofNat 16 k)).findName name = none) :
    ∀ e < 32, (s.entry dev wd (32 * k + e)).1 ≠ stem name := by
  intro e lt same
  have none := List.find?_eq_none.mp (Option.map_eq_none_iff.mp found) e (List.mem_range.mpr lt)
  rw [entry_block lt] at same
  exact none (namecomp_iff.mpr same.symm)

/-- The number of blocks of a directory. -/
lemma Kernel.DirAt.nblocks (dir : s.DirAt dev wd L) :
    s.nslots wd ≤ 32 * (s.iTab wd).cNode.nblocks ∧ (s.iTab wd).cNode.nblocks < 2 ^ 16 ∧
      ∀ k < (s.iTab wd).cNode.nblocks, 512 * k < (s.iTab wd).cNode.iSize.val := by
  have bound := dir.bound
  have offset : (s.iTab wd).cNode.iSize.oOffset.toNat < 512 := dir.norm
  have val : (s.iTab wd).cNode.iSize.val =
    512 * (s.iTab wd).cNode.iSize.oBlkno.toNat + (s.iTab wd).cNode.iSize.oOffset.toNat := rfl
  have zero : (s.iTab wd).cNode.iSize.oOffset ≠ 0 ↔ (s.iTab wd).cNode.iSize.oOffset.toNat ≠ 0 := by
    rw [Ne, ← BitVec.toNat_inj]
    rfl
  unfold Kernel.nslots Off.slots Dinode.nblocks
  split
  · next part =>
    have part := zero.mp part
    exact ⟨by omega, by omega, fun k lt => by omega⟩
  · next full =>
    have full := not_not.mp (mt zero.mpr full)
    exact ⟨by omega, by omega, fun k lt => by omega⟩

/-- The loop of `srch_dir` finds what the dictionary has. -/
lemma wp_srchBlocks_names {Q : Option Inoptr → Kernel → Prop} {E : Panic → Prop} (hdev : dev < NDEVS)
    (dir : s.DirAt dev wd L) (tidy : s.Tidy dev wd) (named : stem name ≠ []) (shown : s.Shown s')
    (before : ∀ i < 32 * k, (s.entry dev wd i).1 ≠ stem name) (all : k + n = (s.iTab wd).cNode.nblocks)
    (post : ∀ t, s.Shown t → wp (openFound dev (s.names dev wd (stem name))) Q E t) :
    wp (srchBlocks wd name false n (BitVec.ofNat 16 k)) Q E s' := by
  obtain ⟨covers, few, inside⟩ := dir.nblocks
  induction n generalizing s' k with
  | zero =>
    have none : s.names dev wd (stem name) = none :=
      (names_eq_none tidy.distinct).mpr (.inr fun i lt => before i (by omega))
    have here := post s' shown
    rw [none] at here
    exact here
  | succ n ih =>
    obtain ⟨b', e', g', v'⟩ := shown
    have iTab : s'.iTab = s.iTab := by rw [e']
    have view : s'.bufs.view = s.bufs.view := by
      rw [e']
      exact v'
    have cells : s'.cell dev = s.cell dev := Kernel.cell_of_view view
    have own : (s'.iTab wd).cDev = dev := iTab ▸ dir.file.own
    have mode : (s'.iTab wd).getmode ≠ F_BDEV := iTab ▸ dir.file.not_bdev
    have good : s'.bufs.Good := by
      rw [e']
      exact g'
    have idle : ∀ bp, s'.bufs.view.held bp = none := by
      rw [view]
      exact dir.file.idle
    have there : s.fileBlock dev wd (BitVec.ofNat 16 k) ≠ 0 := by
      refine tidy.whole _ ?_
      rw [BitVec.toNat_ofNat, Nat.mod_eq_of_lt (by omega)]
      exact inside k (by omega)
    unfold srchBlocks
    rw [wp_bind]
    refine wp_mono (wp_bmap_read good idle (own.symm ▸ hdev) mode) (fun blk s₁ got => ?_) fun _ => False.elim
    obtain ⟨⟨b₁, e₁, g₁, v₁⟩, blk_eq⟩ := got
    have block : blk = s.fileBlock dev wd (BitVec.ofNat 16 k) := by
      rw [blk_eq, own, iTab, cells]
      exact if_neg there
    have own₁ : (s₁.iTab wd).cDev = dev := by
      rw [e₁]
      exact own
    have shown₁ : s.Shown s₁ := ⟨b₁, by rw [e₁, e'], g₁, v₁.trans view⟩
    rw [wp_bind, wp_get, wp_bind, own₁]
    have good₁ : s₁.bufs.Good := by
      rw [e₁]
      exact g₁
    have idle₁ : ∀ bp, s₁.bufs.view.held bp = none := by
      rw [e₁]
      exact v₁ ▸ idle
    refine wp_mono (wp_breadPtr good₁ hdev) ?_ fun _ stop => (View.not_stops_of_idle idle₁ (by decide) stop).elim
    intro bp s₂ got
    obtain ⟨b₂, e₂, g₂, free, hold⟩ := got
    have held : b₂.view.held bp = some (dev, blk) := by rw [hold, View.held_hold]
    have data : (s₂.buf bp).bfData = s.fileData dev wd (BitVec.ofNat 16 k) := by
      rw [Kernel.fileData_eq, if_neg there, ← block]
      show (s₂.bufs.bufpool bp).bfData = _
      rw [e₂]
      refine (g₂.data held).trans ?_
      rw [hold, View.content_hold, e₁]
      exact (congrArg (View.content · (dev, blk)) v₁).trans (congrFun cells blk)
    have release : wp (brelse bp) (fun _ t => s.Shown t) E s₂ := by
      subst e₂
      exact wp_mono (wp_brelse_hold g₂ free hold) (fun _ t got => shown₁.trans got) fun _ => False.elim
    rw [wp_bind, wp_get, data]
    cases found : (s.fileData dev wd (BitVec.ofNat 16 k)).findName name with
    | some num =>
      obtain ⟨e, lt, entry⟩ := findName_some found
      have lt' : 32 * k + e < s.nslots wd := Nat.lt_of_not_le fun past => named (by
        have blank := tidy.blank _ past (by omega)
        have key := congrArg Prod.fst entry
        rw [Kernel.entry, blank, stem_blank] at key
        exact key.symm)
      have some : s.names dev wd (stem name) = some num :=
        (names_eq_some tidy.distinct).mpr ⟨named, _, lt', entry⟩
      simp only
      rw [wp_bind]
      refine wp_post release fun _ t shown => ?_
      have own : (t.iTab wd).cDev = dev := by
        obtain ⟨b, e, -⟩ := shown
        rw [e]
        exact dir.file.own
      have here := post t shown
      rw [some] at here
      rw [wp_bind, wp_get, own]
      exact here
    | none =>
      simp only
      rw [wp_bind]
      refine wp_post release fun _ t shown => ?_
      have next : (BitVec.ofNat 16 k + 1 : Word) = BitVec.ofNat 16 (k + 1) := (BitVec.ofNat_add k 1).symm
      rw [next]
      refine ih shown (fun i lt => ?_) (by omega)
      by_cases old : i < 32 * k
      · exact before i old
      · have here := findName_none found (i - 32 * k) (by omega)
        rwa [Nat.add_sub_cancel' (Nat.le_of_not_lt old)] at here

/-- `srch_dir` opens what the dictionary has for the name, and changes nothing before it does so but the buffers that
are in use. -/
lemma srchDir_names (hdev : dev < NDEVS) (h : s.InOrder dev I rest L) (hip : wd ∈ I) (tidy : s.Tidy dev wd)
    (named : stem name ≠ []) :
    ∃ t, s.Shown t ∧ srchDir wd name s = openFound dev (s.names dev wd (stem name)) t := by
  have dir := h.dirAt hip tidy
  have few := dir.nblocks.2.1
  let found := openFound dev (s.names dev wd (stem name))
  have ends : wp (srchDir wd name) (fun r s' => ∃ t, s.Shown t ∧ found t = .ok (r, s'))
      (fun e => ∃ t, s.Shown t ∧ found t = .error e) s := by
    have post : ∀ t, s.Shown t → wp found (fun r s' => ∃ t, s.Shown t ∧ found t = .ok (r, s'))
        (fun e => ∃ t, s.Shown t ∧ found t = .error e) t := by
      intro t shown
      unfold wp
      cases run : found t with
      | ok r => exact ⟨t, shown, run⟩
      | error e => exact ⟨t, shown, run⟩
    have blocks := wp_srchBlocks_names (k := 0) hdev dir tidy named (.refl h.owned.good)
      (fun i lt => absurd lt (Nat.not_lt_zero i)) (Nat.zero_add _) post
    unfold srchDir
    rw [wp_bind, wp_get]
    cases s.target with
    | nes =>
      show wp (srchBlocks wd name false ((s.iTab wd).cNode.nblocks % 2 ^ 16) 0) _ _ s
      rw [Nat.mod_eq_of_lt few]
      exact blocks
    | fsutil =>
      show wp (srchBlocks wd name (decide ((s.iTab wd).cNode.nblocks = 2 ^ 16)) _ 0) _ _ s
      rw [decide_eq_false (Nat.ne_of_lt few)]
      exact blocks
  unfold wp at ends
  cases run : srchDir wd name s with
  | ok r =>
    rw [run] at ends
    obtain ⟨t, shown, e⟩ := ends
    exact ⟨t, shown, e.symm⟩
  | error e =>
    rw [run] at ends
    obtain ⟨t, shown, e⟩ := ends
    exact ⟨t, shown, e.symm⟩

/-- The slots have all bytes of the directory. -/
lemma byteAt_of_slots (slot : s'.slot dev wd = s.slot dev wd) : s'.byteAt dev wd = s.byteAt dev wd := by
  have byte : ∀ (t : Kernel) {q : Nat}, q < 2 ^ 25 → t.byteAt dev wd q = (t.slot dev wd (q / 16)).byte (q % 16) := by
    intro t q lt
    have block : q / 16 / 32 = q / 512 := Nat.div_div_eq_div_mul q 16 32
    rw [Kernel.byteAt, if_pos lt, Kernel.slot, Block.direct, Direct.byte_ofBytes (Nat.mod_lt q (by decide)), block]
    exact congrArg _ (by omega)
  funext q
  by_cases lt : q < 2 ^ 25
  · rw [byte s' lt, byte s lt, slot]
  · rw [Kernel.byteAt, Kernel.byteAt, if_neg lt, if_neg lt]

/-- The files and the directories are in order. -/
structure Kernel.Organised (s : Kernel) (dev : Nat) (I D : Finset Inoptr) (rest : List Dinode) : Prop where
  files : ∃ L, s.InOrder dev I rest L
  directories : ∀ wd ∈ D, s.Tidy dev wd

end Uzi
