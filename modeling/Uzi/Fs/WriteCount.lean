import Uzi.Fs.FileRounds
import Uzi.Fs.OpenFiles

/-!
# The count of a write

`writei` stops when there is no block left for the next one, and `_write` returns the count that it was asked for
all the same. So it reports what it has written if and only if the blocks that the file lacks on the ways to
the logical blocks that it writes are not more than the device has free.
-/

namespace Uzi
open Exec

variable {s s' : Kernel} {ino : Inoptr} {dev : Nat} {L L' : List Word} {n m : Word}

/-! ## The blocks that a write needs -/

/-- The logical blocks of the next `n` bytes. -/
def Off.blocks (o : Off) (n : Nat) : Finset Word :=
  (Finset.range n).image fun i => BitVec.ofNat 16 ((o.val + i) / 512)

/-- There are as many free blocks as the file lacks for the next `n` bytes. -/
def Kernel.Enough (s : Kernel) (dev : Nat) (ino : Inoptr) (o : Off) (n : Nat) : Prop :=
  ((s.iTab ino).cNode.gaps (s.cell dev) (o.blocks n)).card ≤ (s.fsTab dev).sTfree.toNat

section Needs

variable {o o' : Off} {k a : Nat} {w : Word}

/-- The bytes that are left in a block are in that block. -/
lemma Off.blocks_step (pos : 0 < a) (le : a ≤ k) (fits : o.oOffset.toNat + a ≤ 512)
    (val : o'.val = (o.val + a) % (512 * 2 ^ 16)) : o.blocks k = insert o.oBlkno (o'.blocks (k - a)) := by
  have start : o.val = 512 * o.oBlkno.toNat + o.oOffset.toNat := rfl
  have lt := o.oBlkno.isLt
  ext bn
  rw [Off.blocks, Off.blocks, Finset.mem_insert, Finset.mem_image, Finset.mem_image]
  constructor
  · intro ⟨i, hi, e⟩
    have hi := Finset.mem_range.mp hi
    by_cases here : i < a
    · refine .inl (e.symm.trans (BitVec.eq_of_toNat_eq ?_))
      rw [BitVec.toNat_ofNat]
      omega
    · refine .inr ⟨i - a, Finset.mem_range.mpr (by omega), e ▸ BitVec.eq_of_toNat_eq ?_⟩
      rw [BitVec.toNat_ofNat, BitVec.toNat_ofNat]
      omega
  · intro mem
    cases mem with
    | inl e =>
      refine ⟨0, Finset.mem_range.mpr (by omega), e ▸ BitVec.eq_of_toNat_eq ?_⟩
      rw [BitVec.toNat_ofNat]
      omega
    | inr mem =>
      obtain ⟨i, hi, e⟩ := mem
      have hi := Finset.mem_range.mp hi
      refine ⟨a + i, Finset.mem_range.mpr (by omega), e ▸ BitVec.eq_of_toNat_eq ?_⟩
      rw [BitVec.toNat_ofNat, BitVec.toNat_ofNat]
      omega

/-- One byte is in the block at hand. -/
lemma Off.Norm.blocks_one (norm : o.Norm) : o.blocks 1 = {o.oBlkno} := by
  rw [Off.blocks, Finset.range_one, Finset.image_singleton, Nat.add_zero, ← norm.blkno]
  exact congrArg _ (BitVec.ofNat_toNat 16 o.oBlkno)

/-- There are blocks enough exactly if the gaps are not more than the free blocks. -/
lemma Kernel.FileAt.enough_iff (h : s.FileAt dev ino L) :
    s.Enough dev ino o k ↔ ((s.iTab ino).cNode.gaps (s.cell dev) (o.blocks k)).card ≤ L.length := by
  rw [Enough, h.list.tfree]

/-- No bytes need no block. -/
lemma enough_zero : s.Enough dev ino o 0 := by
  have none : (s.iTab ino).cNode.gaps (s.cell dev) (o.blocks 0) = ∅ := Finset.filter_empty _
  rw [Kernel.Enough, none, Finset.card_empty]
  exact Nat.zero_le _

/-- What a round takes is what the rounds after it do not need. -/
lemma Kernel.Wrote.enough (h : s.FileAt dev ino L) (wrote : s.Wrote s' dev ino L L' o.oBlkno w)
    (pos : 0 < a) (le : a ≤ k) (fits : o.oOffset.toNat + a ≤ 512) (val : o'.val = (o.val + a) % (512 * 2 ^ 16)) :
    s'.Enough dev ino o' (k - a) ↔ s.Enough dev ino o k := by
  have paid := wrote.paid
  rw [h.enough_iff, wrote.file.enough_iff, Off.blocks_step pos le fits val, card_gaps_insert, wrote.gaps]
  omega

/-- A round that is short of blocks needs more than there are. -/
lemma Kernel.Extended.not_enough {r : Word} (h : s.FileAt dev ino L) (full : s.Extended s' dev ino L L' o.oBlkno r)
    (none : r = NULLBLK) (norm : o.Norm) (pos : 0 < k) : ¬ s.Enough dev ino o k := by
  have short := (full.full none).1
  have mem : o.oBlkno ∈ o.blocks k := by
    refine Finset.mem_image.mpr ⟨0, Finset.mem_range.mpr pos, BitVec.eq_of_toNat_eq ?_⟩
    rw [Nat.add_zero, ← norm.blkno, BitVec.toNat_ofNat, Nat.mod_eq_of_lt o.oBlkno.isLt]
  have sub : (s.iTab ino).cNode.gaps (s.cell dev) {o.oBlkno} ⊆ (s.iTab ino).cNode.gaps (s.cell dev) (o.blocks k) :=
    gaps_mono (Finset.singleton_subset_iff.mpr mem)
  have more := Finset.card_le_card sub
  rw [card_gaps_singleton] at more
  rw [h.enough_iff]
  omega

end Needs

/-! ## All rounds -/

/-- The descriptors and the count of the call are the same. -/
structure Kernel.SameCall (s s' : Kernel) : Prop where
  target : s'.target = s.target
  ofTab : s'.ofTab = s.ofTab
  uFiles : s'.udata.uFiles = s.udata.uFiles
  uCount : s'.udata.uCount = s.udata.uCount

/-- The same call, twice. -/
lemma Kernel.SameCall.trans {s'' : Kernel} (h : s.SameCall s') (h' : s'.SameCall s'') : s.SameCall s'' :=
  ⟨h'.target.trans h.target, h'.ofTab.trans h.ofTab, h'.uFiles.trans h.uFiles, h'.uCount.trans h.uCount⟩

/-- A round leaves the call. -/
lemma Kernel.Wrote.call {bn a : Word} (h : s.Wrote s' dev ino L L' bn a) : s.SameCall s' := by
  refine ⟨?_, ?_, ?_, ?_⟩
  · rw [h.eq]
    rfl
  · rw [h.eq]
    rfl
  · rw [h.udata]
    rfl
  · rw [h.udata]
    rfl

/-- A block more leaves the call. -/
lemma Kernel.Extended.call {bn r : Word} (h : s.Extended s' dev ino L L' bn r) :
    s.SameCall s' ∧ s'.udata.uOffset = s.udata.uOffset := by
  refine ⟨⟨?_, ?_, ?_, ?_⟩, ?_⟩ <;>
  · rw [h.eq]
    rfl

/-- After `k` rounds of a write of `n` bytes, of which `m` are left. -/
structure Kernel.Writing (s s' : Kernel) (dev : Nat) (ino : Inoptr) (n m : Word) (k : Nat) : Prop where
  underway : s.Underway s' false n m k
  call : s.SameCall s'
  file : ∃ L, s'.FileAt dev ino L
  enough : s'.Enough dev ino s'.udata.uOffset m.toNat ↔ s.Enough dev ino s.udata.uOffset n.toNat

section Rounds

variable {k : Nat}

/-- The next round of a write. -/
lemma Kernel.Writing.next (hdev : dev < NDEVS) (nes : s.target = .nes → n.toNat < 2 ^ 15)
    (h : s.Writing s' dev ino n m k) (ne : left m = true) :
    wp (writeRound ino dev false m)
      (fun r s'' => (∀ m', r = some m' → s.Writing s'' dev ino n m' (k + 1)) ∧
        (r = none → s.SameCall s'' ∧ s''.udata.uOffset = s'.udata.uOffset ∧
          ¬ s.Enough dev ino s.udata.uOffset n.toNat)) (fun _ => False) s' := by
  obtain ⟨L, file⟩ := h.file
  have norm := h.underway.norm
  have fewer := h.underway.least
  have offset : s'.udata.uOffset.oOffset.toNat < 512 := norm
  obtain ⟨⟨pos, inside⟩, le⟩ := chunk_bounds norm (fun t => by have := nes (h.underway.target ▸ t); omega) ne
  rw [toInt_of_lt (by omega)] at inside
  have fits : s'.udata.uOffset.oOffset.toNat + (chunk s'.target m s'.udata.uOffset.oOffset).toNat ≤ 512 := by
    omega
  have round := (wp_writeRound_file (n := m) hdev file fits).and
    (h.underway.next writeRound_moves nes ne)
  refine wp_mono round (fun r s'' got => ?_) fun _ bad => bad.1
  obtain ⟨⟨L', outcome⟩, moved⟩ := got
  cases outcome with
  | inl full =>
    obtain ⟨e, full⟩ := full
    obtain ⟨call, offset⟩ := full.call
    refine ⟨fun m' e' => absurd (e.symm.trans e') nofun, fun _ => ⟨h.call.trans call, offset, ?_⟩⟩
    rw [← h.enough]
    exact full.not_enough file rfl norm (by omega)
  | inr wrote =>
    obtain ⟨e, wrote⟩ := wrote
    refine ⟨fun m' e' => ?_, fun e' => absurd (e.symm.trans e') nofun⟩
    refine ⟨moved m' e', h.call.trans wrote.call, ⟨L', wrote.file⟩, ?_⟩
    cases e.symm.trans e'
    have small : (chunk s'.target m s'.udata.uOffset.oOffset).toNat < 2 ^ 15 := by omega
    have val : s''.udata.uOffset.val = (s'.udata.uOffset.val +
        (chunk s'.target m s'.udata.uOffset.oOffset).toNat) % (512 * 2 ^ 16) := by
      rw [wrote.udata]
      show (addoff _ _ _).val = _
      rw [cint_of_lt small]
      exact (addoff_natCast norm (by omega)).2
    rw [← h.enough, BitVec.toNat_sub_of_le le]
    exact wrote.enough file pos le fits val

/-- The loop of `writei` gets as far as it was to if and only if there are blocks enough. -/
lemma wp_writeRounds (hdev : dev < NDEVS) (nes : s.target = .nes → n.toNat < 2 ^ 15)
    (norm : s.udata.uOffset.Norm) (h : s.FileAt dev ino L) :
    wp (rounds left .hang (writeRound ino dev false) n.toNat n)
      (fun _ s' => s.SameCall s' ∧
        (s'.udata.uOffset.val = (s.udata.uOffset.val + n.toNat) % (512 * 2 ^ 16) ↔
          s.Enough dev ino s.udata.uOffset n.toNat)) (fun _ => False) s := by
  have writing : ∀ {k s' m}, Reaches left (writeRound ino dev false) s n k s' m → s.Writing s' dev ino n m k := by
    intro k s' m reached
    refine reached.invariant (I := fun k s' m => s.Writing s' dev ino n m k) ?_ fun k s' m before goes => ?_
    · have first : Reaches left (writeRound ino dev false) s n 0 s n := .start
      exact ⟨reaches_underway writeRound_moves nes norm first, ⟨rfl, rfl, rfl, rfl⟩, ⟨L, h⟩, Iff.rfl⟩
    · exact wp_mono (before.next hdev nes goes) (fun _ _ got => got.1) fun _ => False.elim
  refine wp_mono wp_rounds (fun _ s' => ?_) fun e => ?_
  · intro ⟨k, s'', m, reached, ended⟩
    have here := writing reached
    have val := here.underway.val rfl
    cases ended with
    | inl done =>
      obtain ⟨none, same⟩ := done
      have zero : m = 0 := not_not.mp (of_decide_eq_false none)
      subst same zero
      refine ⟨here.call, iff_of_true val (here.enough.mp enough_zero)⟩
    | inr broken =>
      obtain ⟨goes, round⟩ := broken
      obtain ⟨call, offset, short⟩ := ((here.next hdev nes goes).ok round).2 rfl
      have pos : m.toNat ≠ 0 := fun zero => of_decide_eq_true goes (BitVec.eq_of_toNat_eq zero)
      have least := here.underway.least
      have lt := n.isLt
      refine ⟨call, iff_of_false (fun e => ?_) short⟩
      rw [offset, val] at e
      omega
  · intro ⟨k, s'', m, reached, goes, stopped⟩
    have here := writing reached
    cases stopped with
    | inl error => exact (here.next hdev nes goes).error error
    | inr out =>
      have least := here.underway.least
      have pos : m.toNat ≠ 0 := fun zero => of_decide_eq_true goes (BitVec.eq_of_toNat_eq zero)
      omega

/-- On the NES the first round of a write of `2^15` bytes or more leaves the buffer, or has no block. -/
lemma wp_writeRound_big (hdev : dev < NDEVS) (nes : s.target = .nes) (big : 2 ^ 15 ≤ n.toNat)
    (norm : s.udata.uOffset.Norm) (h : s.FileAt dev ino L) :
    wp (writeRound ino dev false n)
      (fun r s' => r = none ∧ s.SameCall s' ∧ s'.udata.uOffset = s.udata.uOffset ∧
        ¬ s.Enough dev ino s.udata.uOffset 1) (fun _ => s.Enough dev ino s.udata.uOffset 1) s := by
  have reads : ∀ b k, Within SamePlace (fun _ => True) (breadPtr dev b k) := fun _ _ => Quiet.breadPtr
  have offset : s.udata.uOffset.oOffset.toNat < 512 := norm
  have out : outside s.udata.uOffset.oOffset n := by
    refine ⟨fun zero => ?_, .inr ?_⟩
    · rw [zero] at big
      exact absurd big (by decide)
    · rw [toInt_of_lt (by omega)]
      omega
  unfold writeRound
  rw [wp_bind, wp_get, wp_bind, nes, chunk_of_le norm big]
  refine wp_mono (wp_bmap_file hdev h) (fun r s₁ got => ?_) fun _ => False.elim
  obtain ⟨L', ext⟩ := got
  obtain ⟨call, same⟩ := ext.call
  rw [wp_ite]
  split
  · next full => exact ⟨rfl, call, same, ext.not_enough h full norm Nat.one_pos⟩
  · next some =>
    have enough : s.Enough dev ino s.udata.uOffset 1 := by
      obtain ⟨-, -, -, paid, -⟩ := ext.given some
      rw [h.enough_iff, norm.blocks_one, card_gaps_singleton]
      omega
    rw [wp_bind]
    refine wp_mono (reads r _ s₁) (fun bp s₂ same₂ => ?_) fun _ _ => enough
    rw [← same, ← same₂.uOffset] at out
    unfold copyIn
    rw [wp_bind, wp_bind, wp_get, wp_ite, if_pos out]
    exact enough

/-- The bytes that `writei` tries to write. -/
def Target.tried (t : Target) (n : Word) : Nat := if t = .nes ∧ 2 ^ 15 ≤ n.toNat then 1 else n.toNat

/-- The rounds of a write, with the blocks that are lacking. -/
lemma wp_writeRounds_tried (hdev : dev < NDEVS) (norm : s.udata.uOffset.Norm) (h : s.FileAt dev ino L) :
    wp (rounds left .hang (writeRound ino dev false) n.toNat n)
      (fun _ s' => s.SameCall s' ∧
        (s'.udata.uOffset.val = (s.udata.uOffset.val + n.toNat) % (512 * 2 ^ 16) ↔
          s.Enough dev ino s.udata.uOffset (s.target.tried n)))
      (fun _ => s.Enough dev ino s.udata.uOffset (s.target.tried n)) s := by
  unfold Target.tried
  split
  · next huge =>
    obtain ⟨nes, big⟩ := huge
    have lt := n.isLt
    have goes : left n = true := decide_eq_true fun zero => by
      rw [zero] at big
      exact absurd big (by decide)
    have round := wp_writeRound_big hdev nes big norm h
    have stays : ∀ {k s' m}, Reaches left (writeRound ino dev false) s n k s' m → s' = s ∧ m = n := by
      intro k s' m reached
      refine reached.invariant (I := fun k s' m => s' = s ∧ m = n) ⟨rfl, rfl⟩ fun k s' m before _ => ?_
      obtain ⟨rfl, rfl⟩ := before
      exact wp_mono round (fun r s'' got b' e => absurd (got.1.symm.trans e) nofun) fun _ _ => trivial
    refine wp_mono wp_rounds (fun _ s' => ?_) fun e => ?_
    · intro ⟨k, s'', m, reached, ended⟩
      obtain ⟨rfl, rfl⟩ := stays reached
      cases ended with
      | inl done => exact absurd (goes.symm.trans done.1) nofun
      | inr broken =>
        obtain ⟨-, call, offset, short⟩ := round.ok broken.2
        refine ⟨call, iff_of_false (fun e => ?_) short⟩
        have val : s''.udata.uOffset.val = 512 * s''.udata.uOffset.oBlkno.toNat + s''.udata.uOffset.oOffset.toNat := rfl
        have blk := s''.udata.uOffset.oBlkno.isLt
        have off : s''.udata.uOffset.oOffset.toNat < 512 := norm
        rw [offset] at e
        omega
    · intro ⟨k, s'', m, reached, _, stopped⟩
      obtain ⟨rfl, rfl⟩ := stays reached
      cases stopped with
      | inl error => exact round.error error
      | inr out =>
        cases reached with
        | start => omega
        | next before goes round' =>
          obtain ⟨rfl, rfl⟩ := stays before
          exact absurd ((round.ok round').1) nofun
  · next small =>
    rw [not_and, Nat.not_le] at small
    exact wp_mono (wp_writeRounds hdev small norm h) (fun _ _ => id) fun _ => False.elim

end Rounds

/-! ## The call -/

/-- `d` is open, and describes an inode. -/
structure Kernel.Describes (s : Kernel) (d : Word) (ino : Inoptr) : Prop where
  low : 0 ≤ d.toInt
  high : d.toInt < UFTSIZE
  used : s.udata.file d &&& 0x80 = 0
  index : (s.udata.file d).toNat < OFTSIZE
  inode : (s.ofTab (s.udata.ofIndex d)).oInode = some ino
  magic : (s.iTab ino).cMagic = CMAGIC

/-- The file position of a descriptor. -/
def Kernel.position (s : Kernel) (d : Word) : Off := (s.ofTab (s.udata.ofIndex d)).oPtr

/-- `_write` fails. A count of 65535 is -1 on the NES, where an `int` has as many bits. -/
def Kernel.WriteFails (s : Kernel) (d v : Word) : Prop :=
  v = 0xffff ∧ (s.target = .nes ∨ (s.ofTab (s.udata.ofIndex d)).oAccess = .rdonly)

/-- A write with a good count does not fail. -/
lemma not_writeFails {d v : Word} (h : v ≠ 0xffff) : ¬ s.WriteFails d v := fun fails => h fails.1

/-- What `_write` returns is the distance by which it has moved the position. -/
def Kernel.WriteReports (s : Kernel) (d : Word) (buf : Nat) (n : Word) : Prop :=
  wp (_write d buf n)
    (fun r s' => ∀ v, r = some v → ¬ s.WriteFails d v →
      (s'.position d).val = ((s.position d).val + v.toNat) % (512 * 2 ^ 16)) (fun _ => True) s

section Call

variable {d : Word} {buf : Nat}

/-- A descriptor of a file has its inode. -/
lemma wp_getinode_some {Q : Option Inoptr → Kernel → Prop} {E : Panic → Prop} (h : s.Describes d ino) :
    wp (getinode d) Q E s ↔ Q (some ino) s := by
  have valid : ¬ (d.toInt < 0 ∨ (UFTSIZE : Int) ≤ d.toInt ∨ s.udata.file d &&& 0x80 ≠ 0) := by
    rw [not_or, not_or, not_lt, not_le, not_not]
    exact ⟨h.low, h.high, h.used⟩
  unfold getinode magic
  rw [wp_bind, wp_get, wp_ite, if_neg valid, wp_ite, if_neg (not_not.mpr h.index)]
  simp only [h.inode, wp_bind, wp_get, wp_ite, h.magic, ne_eq, not_true_eq_false, if_false, wp_pure]

/-- The kernel when `rwsetup` has prepared a write. -/
def Kernel.setUp (s : Kernel) (d : Word) (ino : Inoptr) (buf : Nat) (n : Word) (c : Cinode) : Kernel :=
  (s.setInode ino c).withUdata { s.udata with uBase := buf, uCount := n, uOffset := s.position d }

/-- `rwsetup` of a write sets the times of the inode, and takes the position of the descriptor. -/
lemma wp_rwsetup_write {Q : Option Inoptr → Kernel → Prop} {E : Panic → Prop} (h : s.Describes d ino)
    (access : (s.ofTab (s.udata.ofIndex d)).oAccess ≠ .rdonly)
    (post : ∀ c, (s.iTab ino).SameFile c → Q (some ino) (s.setUp d ino buf n c)) :
    wp (rwsetup d buf n false) Q E s := by
  have h₁ : (s.withUdata { s.udata with uBase := buf, uCount := n }).Describes d ino :=
    ⟨h.low, h.high, h.used, h.index, h.inode, h.magic⟩
  unfold rwsetup setftime
  rw [wp_bind, wp_modifyUdata, wp_bind, wp_getinode_some h₁]
  simp only
  rw [wp_bind, wp_get, wp_ite, if_neg]
  · rw [wp_bind, wp_bind, wp_get, wp_modifyInode, wp_bind, wp_modifyUdata, wp_pure]
    exact post _ ⟨rfl, rfl, rfl, rfl, rfl⟩
  · exact access

/-- A file that is open for reading only is not written. -/
lemma wp_rwsetup_rdonly {Q : Option Inoptr → Kernel → Prop} {E : Panic → Prop} (h : s.Describes d ino)
    (access : (s.ofTab (s.udata.ofIndex d)).oAccess = .rdonly) (post : ∀ s', Q none s') :
    wp (rwsetup d buf n false) Q E s := by
  have h₁ : (s.withUdata { s.udata with uBase := buf, uCount := n }).Describes d ino :=
    ⟨h.low, h.high, h.used, h.index, h.inode, h.magic⟩
  unfold rwsetup
  rw [wp_bind, wp_modifyUdata, wp_bind, wp_getinode_some h₁]
  simp only
  rw [wp_bind, wp_get, wp_ite, if_pos]
  · exact post _
  · exact access

/-- The new size leaves the call. -/
lemma Kernel.Resized.call (h : s.Resized s' ino) : s.SameCall s' ∧ s'.udata.uOffset = s.udata.uOffset := by
  refine ⟨⟨?_, ?_, ?_, ?_⟩, ?_⟩ <;>
  · rw [h.eq]
    rfl

/-- A write returns, with what it has written. -/
lemma wp_writei_file (hdev : dev < NDEVS) (norm : s.udata.uOffset.Norm) (h : s.FileAt dev ino L) :
    wp (writei ino)
      (fun r s' => r = .returned ∧ s.SameCall s' ∧
        (s'.udata.uOffset.val = (s.udata.uOffset.val + s.udata.uCount.toNat) % (512 * 2 ^ 16) ↔
          s.Enough dev ino s.udata.uOffset (s.target.tried s.udata.uCount)))
      (fun _ => s.Enough dev ino s.udata.uOffset (s.target.tried s.udata.uCount)) s := by
  rw [wp_writei_entry h.writeEntry]
  refine wp_post (wp_writeRounds_tried hdev norm h) fun _ s₁ got => ?_
  obtain ⟨call, iff⟩ := got
  rw [if_neg Bool.false_ne_true]
  refine wp_mono wp_growSize (fun _ s₂ got => ?_) fun _ => False.elim
  obtain ⟨call₂, offset⟩ := got.1.call
  rw [offset]
  exact ⟨rfl, call.trans call₂, iff⟩

/-- `_write` returns the count, and has got as far if and only if there were blocks enough. -/
lemma wp_write (hdev : dev < NDEVS) (opened : s.Describes d ino) (file : s.FileAt dev ino L)
    (norm : (s.position d).Norm) (access : (s.ofTab (s.udata.ofIndex d)).oAccess ≠ .rdonly) :
    wp (_write d buf n)
      (fun r s' => r = some n ∧ ((s'.position d).val = ((s.position d).val + n.toNat) % (512 * 2 ^ 16) ↔
        s.Enough dev ino (s.position d) (s.target.tried n)))
      (fun _ => s.Enough dev ino (s.position d) (s.target.tried n)) s := by
  unfold _write
  rw [wp_bind]
  refine wp_rwsetup_write opened access fun c same => ?_
  have inode : (s.setUp d ino buf n c).iTab ino = c := Kernel.iTab_setInode
  have kept : s.SameBlocks (s.setUp d ino buf n c) dev ino L (s.fileData dev ino) :=
    file.keep file.good rfl rfl (inode.symm ▸ same)
  have enough : (s.setUp d ino buf n c).Enough dev ino (s.position d) (s.target.tried n) ↔
      s.Enough dev ino (s.position d) (s.target.tried n) := by
    rw [kept.file.enough_iff, file.enough_iff, kept.gaps]
  have written := wp_writei_file hdev norm kept.file
  simp only
  unfold writeTo
  rw [wp_bind]
  refine wp_mono written (fun r s₁ got => ?_) fun _ => enough.mp
  obtain ⟨e, call, iff⟩ := got
  subst e
  have index : s₁.udata.ofIndex d = s.udata.ofIndex d := by
    unfold UData.ofIndex UData.file
    rw [call.uFiles]
    rfl
  unfold updoff
  simp only
  rw [wp_bind, wp_bind, wp_get, wp_modifyOft, index, wp_bind, wp_get, wp_pure]
  refine ⟨congrArg _ call.uCount, ?_⟩
  have moved : ∀ o, (s₁.setOft (s.udata.ofIndex d) o).position d = o.oPtr := by
    intro o
    rw [Kernel.position, show (s₁.setOft (s.udata.ofIndex d) o).udata = s₁.udata from rfl, index, Kernel.ofTab_setOft]
  rw [moved, ← enough]
  exact iff

/-- A write that reports what it has written has had blocks enough. -/
lemma enough_of_reports (hdev : dev < NDEVS) (opened : s.Describes d ino) (file : s.FileAt dev ino L)
    (norm : (s.position d).Norm) (access : (s.ofTab (s.udata.ofIndex d)).oAccess ≠ .rdonly)
    (returns : ¬ s.WriteFails d n) (reports : s.WriteReports d buf n) :
    s.Enough dev ino (s.position d) (s.target.tried n) := by
  by_contra short
  have write : wp (_write d buf n) _ _ s := wp_write hdev opened file norm access
  obtain ⟨r, s', ran, e, iff⟩ := (wp_mono write (fun _ _ => id) fun _ => short).returns
  exact short (iff.mp (wp.ok reports ran n e returns))

/-- `_write` of a regular file or directory reports what it has written if and only if it fails or there
are as many free blocks as the file lacks for the bytes to be written. -/
theorem write_reports (hdev : dev < NDEVS) (opened : s.Describes d ino) (file : s.FileAt dev ino L)
    (norm : (s.position d).Norm) :
    s.WriteReports d buf n ↔ (s.ofTab (s.udata.ofIndex d)).oAccess = .rdonly ∨ s.target = .nes ∧ n = 0xffff ∨
      s.Enough dev ino (s.position d) (s.target.tried n) := by
  by_cases access : (s.ofTab (s.udata.ofIndex d)).oAccess = .rdonly
  · refine iff_of_true ?_ (.inl access)
    unfold Kernel.WriteReports _write
    rw [wp_bind]
    refine wp_rwsetup_rdonly opened access fun s' v e fails => ?_
    cases e
    exact absurd ⟨rfl, .inr access⟩ fails
  · rw [or_iff_right access]
    constructor
    · intro reports
      by_cases count : s.target = .nes ∧ n = 0xffff
      · exact .inl count
      · refine .inr (enough_of_reports hdev opened file norm access (fun fails => count ?_) reports)
        exact ⟨fails.2.resolve_right access, fails.1⟩
    · intro enough
      refine wp_mono (wp_write hdev opened file norm access) (fun r s' got v e fails => ?_) fun _ _ => trivial
      obtain ⟨some, iff⟩ := got
      cases some.symm.trans e
      refine iff.mpr (enough.resolve_left fun count => fails ⟨count.2, .inl count.1⟩)

end Call

/-- An empty file on a device with two free blocks, open two bytes before the end of its last direct block. -/
def twoFree : Kernel :=
  { freshFs 6 3 with
    iTab := fun _ => ⟨CMAGIC, 0, 2, ⟨F_REG, 1, 0, 0, ⟨0, 0⟩, ⟨0, 0⟩, ⟨0, 0⟩, ⟨0, 0⟩, fun _ => 0⟩, 1, false⟩
    ofTab := fun _ => ⟨⟨17, 510⟩, some 0, .rdwr, 1⟩
    udata := { UData.zero with uFiles := fun _ => 0 } }

/-- The descriptor of that disk. -/
lemma describes_twoFree : twoFree.Describes 0 0 := by
  constructor <;> decide

/-- The file of that disk is empty. -/
lemma addr_twoFree {j : Nat} : (twoFree.iTab 0).cNode.addr j = 0 := by
  rw [Dinode.addr]
  split <;> rfl

/-- The file of that disk is in order. -/
lemma fileAt_twoFree : twoFree.FileAt 0 0 [4, 5] := by
  have list : FreeList (twoFree.fsTab 0) (twoFree.cell 0) [4, 5] := partition_rootFs.list
  have blocks : (twoFree.iTab 0).cNode.blocks (twoFree.cell 0) = 0 :=
    Finset.sum_eq_zero fun j _ => by rw [addr_twoFree, blockTree_zero]
  refine ⟨Bufs.good_inited.1, congrFun (congrArg View.held Bufs.good_inited.2), rfl, .inl rfl, list, ?_, ?_⟩
  · rw [blocks, add_zero]
    exact Multiset.coe_nodup.mpr list.nodup
  · rw [blocks, add_zero]
    intro b hb e
    subst e
    exact absurd (Multiset.mem_coe.mp hb) (by decide)

/-- An empty file lacks every block on the way. -/
lemma enough_twoFree {o : Off} {k : Nat} : twoFree.Enough 0 0 o k ↔ ((o.blocks k).biUnion places).card ≤ 2 := by
  have gaps : (twoFree.iTab 0).cNode.gaps (twoFree.cell 0) (o.blocks k) = (o.blocks k).biUnion places := by
    refine Finset.filter_true_of_mem fun p _ => ?_
    rw [Dinode.numberAt, addr_twoFree, pathTo, BlockTree.walk_nil]
  rw [fileAt_twoFree.enough_iff, gaps]
  rfl

/-- Two bytes need one block. -/
theorem write_reports_twoFree : twoFree.WriteReports 0 0 2 := by
  refine (write_reports (by decide) describes_twoFree fileAt_twoFree (by decide : (_ : Nat) < 512)).mpr (.inr (.inr ?_))
  exact enough_twoFree.mpr (by decide)

/-- Four bytes need a block, and an indirect block with another one. Two are written. -/
theorem not_write_reports : ¬ twoFree.WriteReports 0 0 4 := by
  have short : ¬ twoFree.Enough 0 0 (twoFree.position 0) (twoFree.target.tried 4) :=
    mt enough_twoFree.mp (by decide)
  have norm : (twoFree.position 0).Norm := (by decide : (_ : Nat) < 512)
  have access : (twoFree.ofTab (twoFree.udata.ofIndex 0)).oAccess ≠ .rdonly := by decide
  refine mt (enough_of_reports (by decide) describes_twoFree fileAt_twoFree norm access ?_) short
  exact not_writeFails (by decide)

end Uzi
