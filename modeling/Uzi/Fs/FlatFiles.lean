import Uzi.Fs.FlatReads
import Uzi.Fs.Seek

/-!
# Files are flat

Runs of `_read`, `_write` and `_seek` on the open files of a device, by any number of processes: between two calls
another process may be running, with descriptors and a memory of its own. What can be seen of such a run is a run of
flat files, so that the pieces in which files are written and read do not matter.
-/

namespace Uzi
open Exec FlatFile

variable {s s' s₁ s₂ : Kernel} {dev : Nat} {I : Finset Inoptr} {rest : List Dinode} {L : List Word} {i : I}

/-! ## Calls -/

/-- A call on an open file. -/
inductive FlatCall
  | read (d : Word) (buf : Nat) (n : Word)
  | write (d : Word) (buf : Nat) (n : Word)
  | seek (d offset flag : Word)

namespace FlatCall

/-- The descriptor. -/
def descriptor : FlatCall → Word
  | read d .. => d
  | write d .. => d
  | seek d .. => d

/-- The call, and the word that it returns. -/
def run : FlatCall → K (Option Word)
  | read d buf n => _read d buf n
  | write d buf n => _write d buf n
  | seek d offset flag => do
    let r ← _seek d offset flag
    pure (some r)

/-- The descriptor allows the call, and the buffer lies in the memory of the process. A read is cut at the end of the
file, and a write neither has a count that the NES takes for a negative one nor comes to the end of what an offset can
count. -/
def Fits (s : Kernel) (ino : Inoptr) : FlatCall → Prop
  | read d buf n => (s.ofTab (s.udata.ofIndex d)).oAccess ≠ .wronly ∧ s.layout.InUser buf n.toNat ∧
    readsExactly s.target n (s.iTab ino).cNode.iSize (s.position d)
  | write d buf n => (s.ofTab (s.udata.ofIndex d)).oAccess ≠ .rdonly ∧ s.layout.InUser buf n.toNat ∧
    (s.target = .nes → n.toNat < 2 ^ 15) ∧ (s.position d).val + n.toNat < 2 ^ 25
  | seek .. => True

/-- What a call that has returned `r` shows: the bytes that a read has put into the memory, and those that a write has
moved the position over. -/
def action (i : I) (s : Kernel) (r : Option Word) (s' : Kernel) : FlatCall → Action I (Fin OFTSIZE) Byte
  | read d buf n => .read (s.udata.ofIndex d) i n.toNat (s'.udata.bytes buf (r.getD 0).toNat)
  | write d buf _ => .write (s.udata.ofIndex d) i
    (s.udata.bytes buf ((s'.ofTab (s.udata.ofIndex d)).oPtr.val - (s.position d).val))
  | seek d _ _ => .seek (s.udata.ofIndex d) (s'.ofTab (s.udata.ofIndex d)).oPtr.val

/-- A read returns a count. A write returns the one that it was given: it has written all of its bytes exactly if the
device has the blocks that the file lacks for them, and else a first part of them, with `ENOSPC` in `u_error`. -/
def Counts (dev : Nat) (i : Inoptr) (s : Kernel) (r : Option Word) (s' : Kernel) : FlatCall → Prop
  | read .. => r ≠ none
  | write d _ n => r = some n ∧ ∃ k ≤ n.toNat, (s'.ofTab (s.udata.ofIndex d)).oPtr.val = (s.position d).val + k ∧
    (k = n.toNat ↔ s.Enough dev i (s.position d) n.toNat) ∧ (k < n.toNat → s'.udata.uError = .enospc)
  | seek .. => True

end FlatCall

/-- Calls of the processes that have the files `I` open, and what they show. -/
inductive FlatRun (I : Finset Inoptr) (s : Kernel) : List (Action I (Fin OFTSIZE) Byte) → Kernel → Prop
  | start : FlatRun I s [] s
  | switch {es : List (Action I (Fin OFTSIZE) Byte)} {s' : Kernel} (u : UData) (run : FlatRun I s es s') :
    FlatRun I s es (s'.withUdata u)
  | call {es : List (Action I (Fin OFTSIZE) Byte)} {s' s'' : Kernel} {c : FlatCall} {i : I} {r : Option Word}
      (run : FlatRun I s es s') (opened : s'.Describes c.descriptor i) (fits : c.Fits s' i)
      (returned : c.run s' = .ok (r, s'')) : FlatRun I s (es ++ [c.action i s' r s'']) s''

/-! ## One call -/

/-- Which process is running does not matter to the files. -/
lemma Kernel.InOrder.withUdata {u : UData} (h : s.InOrder dev I rest L) : (s.withUdata u).InOrder dev I rest L :=
  ⟨⟨h.owned.good, h.owned.inodes, h.owned.partition.list, h.owned.partition.once⟩, h.idle, h.mode, h.size, h.pos⟩

/-- `_seek` moves a position. -/
lemma wp_seek_flat {d offset flag : Word} (h : s.InOrder dev I rest L) (opened : s.Describes d i) :
    wp (_seek d offset flag)
      (fun _ s' => (∃ L', s'.InOrder dev I rest L') ∧ (∀ i' : I, s.KeepsFile s' dev i') ∧
        s'.flat dev I = (s.flat dev I).moved (s.udata.ofIndex d) (s'.ofTab (s.udata.ofIndex d)).oPtr.val)
      (fun _ => False) s := by
  have file : (s.iTab i).getmode ≠ F_PIPE := by
    cases h.mode i i.2 with
    | inl reg => exact reg ▸ by decide
    | inr dir => exact dir ▸ by decide
  unfold _seek
  rw [wp_bind, wp_getinode_some opened]
  simp only
  rw [wp_bind, wp_get, wp_ite, if_neg file]
  split
  · refine ⟨⟨L, h.withUdata⟩, fun i' => ⟨rfl, fun _ => rfl, fun _ => rfl⟩, ?_⟩
    exact Kernel.flat_eq (i := i) (j := s.udata.ofIndex d) .refl (fun _ _ => rfl) rfl rfl
      (Function.update_self ..) (fun _ _ => ⟨rfl, rfl⟩) fun _ ne => Function.update_of_ne ne _ _
  · next o _ =>
    obtain ⟨h', others, data⟩ := h.updoff i.2 (j := s.udata.ofIndex d) (seekLoop_spec (o := o)).1
    refine ⟨⟨L, h'⟩, fun i' => ⟨rfl, fun _ => rfl, fun _ => rfl⟩, ?_⟩
    exact Kernel.flat_eq (i := i) (j := s.udata.ofIndex d) others (fun _ ne => Function.update_of_ne ne _ _)
      (Kernel.byteAt_congr data).symm rfl (Function.update_self ..) (fun _ _ => ⟨rfl, rfl⟩)
      fun _ ne => Function.update_of_ne ne _ _

/-- A call does to the flat files what it shows, with the counts that it has to do it with, and leaves the files alone
that it does not write. -/
lemma FlatCall.wp_run {c : FlatCall} (hdev : dev < NDEVS) (h : s.InOrder dev I rest L)
    (opened : s.Describes c.descriptor i) (fits : c.Fits s i) :
    wp c.run
      (fun r s' => (∃ L', s'.InOrder dev I rest L') ∧ (s.flat dev I).Allows (c.action i s r s') ∧
        s'.flat dev I = (s.flat dev I).after (c.action i s r s') ∧ c.Counts dev i s r s' ∧
        ∀ i' : I, ¬ (c.action i s r s').Writes i' → s.KeepsFile s' dev i') (fun _ => False) s := by
  cases c with
  | read d buf n =>
    refine wp_post (wp_read_flat hdev h opened fits.1 fits.2.2) fun r s' got => ?_
    obtain ⟨⟨v, e, count⟩, ordered, others, keeps, flat, mem⟩ := got
    subst e
    have length : (slice ((s.flat dev I).bytes i) ((s.flat dev I).pos (s.udata.ofIndex d))
        (s.readable i d n)).length = s.readable i d n := length_slice
    have data : s'.udata.bytes buf v.toNat = slice ((s.flat dev I).bytes i)
        ((s.flat dev I).pos (s.udata.ofIndex d)) (s.readable i d n) := by
      have back := slice_overwrite (f := s.udata.mem) (p := buf) (Nat.le_of_eq length.symm)
      rw [← mem, List.take_of_length_le (Nat.le_of_eq length)] at back
      rw [count]
      exact back
    refine ⟨ordered, data, flat.trans ?_, nofun, fun i' _ => ?_⟩
    · show _ = Files.moved _ _ (_ + (s'.udata.bytes buf v.toNat).length)
      rw [data, length]
    · by_cases e : i' = i
      · exact e ▸ keeps
      · exact others.keepsFile i'.2 fun e' => e (Subtype.ext e')
  | write d buf n =>
    obtain ⟨access, -, nes, room⟩ := fits
    have norm : (s.position d).Norm := h.pos _
    have opened : s.Describes d i := opened
    have given : wp (_write d buf n) _ _ s := wp_write hdev opened (h.fileAt i.2) norm access
    refine wp_mono ((wp_write_flat hdev h opened access nes room).and given) (fun r s' got => ?_) fun _ bad => bad.1
    obtain ⟨⟨e, index, ordered, others, k, le, error, flat⟩, -, enough⟩ := got
    have length : (s.udata.bytes buf k).length = k := length_slice
    have moved : (s'.ofTab (s.udata.ofIndex d)).oPtr.val = (s.position d).val + k := by
      refine (congrArg (fun f => f.pos (s.udata.ofIndex d)) flat).trans ((Function.update_self ..).trans ?_)
      rw [length]
      rfl
    refine ⟨ordered, trivial, flat.trans ?_, ⟨e, k, le, moved, ?_, error⟩,
      fun i' no => others.keepsFile i'.2 fun e => no (Subtype.ext e.symm)⟩
    · rw [FlatCall.action, moved, Nat.add_sub_cancel_left]
    · have tried : s.target.tried n = n.toNat := if_neg fun big => absurd (nes big.1) (Nat.not_lt.mpr big.2)
      have all : ((s.position d).val + n.toNat) % (512 * 2 ^ 16) = (s.position d).val + n.toNat := Nat.mod_eq_of_lt room
      rw [Kernel.position, index, moved, all, tried] at enough
      exact Nat.add_left_cancel_iff.symm.trans enough
  | seek d offset flag =>
    show wp (_seek d offset flag >>= fun r => pure (some r)) _ _ s
    rw [wp_bind]
    exact wp_post (wp_seek_flat h opened) fun _ s' got => ⟨got.1, trivial, got.2.2, trivial, fun i' _ => got.2.1 i'⟩

/-! ## Runs -/

/-- A run of the calls is a run of the flat files. -/
lemma FlatRun.flat {es : List (Action I (Fin OFTSIZE) Byte)} (hdev : dev < NDEVS) (h : s.InOrder dev I rest L)
    (run : FlatRun I s es s') : (s.flat dev I).Run es (s'.flat dev I) ∧ ∃ L', s'.InOrder dev I rest L' := by
  induction run with
  | start => exact ⟨.start, L, h⟩
  | switch u _ ih =>
    obtain ⟨flat, L', h'⟩ := ih
    exact ⟨flat, L', h'.withUdata⟩
  | call _ opened fits returned ih =>
    obtain ⟨flat, L', h'⟩ := ih
    obtain ⟨ordered, allowed, eq, -⟩ := (FlatCall.wp_run hdev h' opened fits).ok returned
    exact ⟨eq ▸ .next flat allowed, ordered⟩

/-- What calls of any processes show of the open files of a device is a run of flat files, and every call that fits
returns, a write with all that it was given or, where the device is short of blocks, a first part. -/
theorem files_are_flat {es : List (Action I (Fin OFTSIZE) Byte)} (hdev : dev < NDEVS) (h : s.InOrder dev I rest L)
    (run : FlatRun I s es s') :
    (s.flat dev I).Run es (s'.flat dev I) ∧
      ∀ (c : FlatCall) (i : I), s'.Describes c.descriptor i → c.Fits s' i →
        ∃ r s'', c.run s' = .ok (r, s'') ∧ c.Counts dev i s' r s'' := by
  obtain ⟨flat, L', h'⟩ := run.flat hdev h
  refine ⟨flat, fun c i opened fits => ?_⟩
  obtain ⟨r, s'', ran, -, -, -, counts, -⟩ := wp.returns (FlatCall.wp_run hdev h' opened fits)
  exact ⟨r, s'', ran, counts⟩

/-- The file of three bytes. -/
def theFile : ({0} : Finset Inoptr) := ⟨0, Finset.mem_singleton_self 0⟩

/-- The write of four bytes is within the bounds. -/
lemma fits_shortFile : (FlatCall.write 0 PROGBASE 4).Fits shortFile theFile := by
  refine ⟨?_, ?_, ?_, ?_⟩ <;> decide

/-- A process writes to the file, and another one runs. -/
theorem files_are_flat_shortFile : ∃ r s' es, FlatRun {0} shortFile es (s'.withUdata UData.zero) ∧ es.length = 1 ∧
    (shortFile.flat 0 {0}).Run es (s'.flat 0 {0}) ∧
      FlatCall.Counts 0 theFile shortFile r s' (.write 0 PROGBASE 4) := by
  have returns := (files_are_flat (by decide) inOrder_shortFile (.start (I := {0}))).2
  obtain ⟨r, s', ran, counts⟩ := returns (.write 0 PROGBASE 4) theFile describes_shortFile fits_shortFile
  have run := (FlatRun.start.call describes_shortFile fits_shortFile ran).switch UData.zero
  exact ⟨r, s', _, run, rfl, (files_are_flat (by decide) inOrder_shortFile run).1, counts⟩

/-- What is written through one descriptor, in any pieces and up to the end of the file at least, is read through
another one from where the first has begun, in any other pieces, whatever is done to other files in between. Files that
are not written stay as they are. -/
theorem written_is_read {es es' : List (Action I (Fin OFTSIZE) Byte)} {j j' : Fin OFTSIZE} (hdev : dev < NDEVS)
    (h : s.InOrder dev I rest L) (writing : FlatRun I s es s₁) (reading : FlatRun I s₁ es' s₂)
    (alone : ∀ e ∈ es, e.Writes i → e.place = j) (writes : ∀ e ∈ es, e.place = j → ∃ data, e = .write j i data)
    (unwritten : ∀ e ∈ es', ¬ e.Writes i) (reads : ∀ e ∈ es', e.place = j' → ∃ n data, e = .read j' i n data)
    (le : (s.ofTab j).oPtr.val ≤ (s.iTab i).cNode.iSize.val)
    (covered : (s.iTab i).cNode.iSize.val ≤ (s.ofTab j).oPtr.val + (es.flatMap (Action.put j)).length)
    (same : (s₁.ofTab j').oPtr = (s.ofTab j).oPtr) :
    es'.flatMap (Action.got j') = (es.flatMap (Action.put j)).take (es'.map (Action.asked j')).sum ∧
      (s₂.iTab i).cNode.iSize.val = (s.ofTab j).oPtr.val + (es.flatMap (Action.put j)).length ∧
      ∀ i' : I, (∀ e ∈ es ++ es', ¬ e.Writes i') → s₂.byteAt dev i' = s.byteAt dev i' ∧
        (s₂.iTab i').cNode.iSize.val = (s.iTab i').cNode.iSize.val := by
  obtain ⟨wrote, L₁, h₁⟩ := writing.flat hdev h
  obtain ⟨read, -⟩ := reading.flat hdev h₁
  have start : (s₁.flat dev I).pos j' = (s.flat dev I).pos j := congrArg Off.val same
  refine ⟨wrote.written_read read alone writes unwritten reads le covered start, ?_, fun i' other => ?_⟩
  · have grown : (s₁.flat dev I).size i = _ := (wrote.writes alone writes le).2.2
    exact (read.file unwritten).2.trans (grown.trans (max_eq_right covered))
  · obtain ⟨bytes, size⟩ := wrote.file fun e he => other e (List.mem_append_left _ he)
    obtain ⟨bytes', size'⟩ := read.file fun e he => other e (List.mem_append_right _ he)
    exact ⟨bytes'.trans bytes, size'.trans size⟩

/-- A process whose descriptors are the second entry of the table. -/
def reader : UData := { UData.zero with uFiles := fun _ => 1 }

/-- The run of the write. -/
lemma run_shortFile :
    wp (FlatCall.write 0 PROGBASE 4).run (fun _ s₁ =>
      (s₁.ofTab 0).oPtr = ⟨0, 5⟩ ∧ (s₁.ofTab 1).oPtr = ⟨0, 1⟩ ∧ (s₁.ofTab 1).oInode = some 0 ∧
        (s₁.ofTab 1).oAccess ≠ .wronly ∧ (s₁.iTab 0).cMagic = CMAGIC ∧ s₁.layout.InUser PROGBASE 3 ∧
        readsExactly s₁.target 3 (s₁.iTab 0).cNode.iSize ⟨0, 1⟩) (fun _ => False) shortFile := by
  decide +kernel

/-- Of the four bytes that have been written over the last two of the file the first three are read. -/
theorem written_is_read_shortFile : ∃ es es' s₁ s₂, FlatRun {0} shortFile es s₁ ∧ FlatRun {0} s₁ es' s₂ ∧
    (es.flatMap (Action.put 0)).length = 4 ∧ es'.flatMap (Action.got 1) = (es.flatMap (Action.put 0)).take 3 := by
  obtain ⟨r, s₁, wrote, moved, pos, inode, access, magic, user, inside⟩ := run_shortFile.returns
  have writing := FlatRun.start.call describes_shortFile fits_shortFile wrote
  have written : FlatCall.action theFile shortFile r s₁ (.write 0 PROGBASE 4) =
      .write 0 theFile (shortFile.udata.bytes PROGBASE 4) := by
    rw [FlatCall.action, show shortFile.udata.ofIndex 0 = 0 by decide, moved]
    rfl
  rw [List.nil_append, written] at writing
  have opened : (s₁.withUdata reader).Describes 0 theFile :=
    ⟨by decide, by decide, (by decide : reader.file 0 &&& 0x80 = 0), (by decide : (reader.file 0).toNat < OFTSIZE),
      inode, magic⟩
  have fits : (FlatCall.read 0 PROGBASE 3).Fits (s₁.withUdata reader) theFile := by
    rw [← pos] at inside
    exact ⟨access, user, inside⟩
  have turn : FlatRun {0} s₁ [] (s₁.withUdata reader) := .switch reader .start
  have ordered := (writing.flat (by decide) inOrder_shortFile).2
  obtain ⟨L, h₁⟩ := ordered
  obtain ⟨r', s₂, got, -⟩ := (files_are_flat (by decide) h₁ turn).2 (.read 0 PROGBASE 3) theFile opened fits
  have reading := turn.call (c := .read 0 PROGBASE 3) opened fits got
  have read : FlatCall.action theFile (s₁.withUdata reader) r' s₂ (.read 0 PROGBASE 3) =
      .read 1 theFile 3 (s₂.udata.bytes PROGBASE (r'.getD 0).toNat) := rfl
  rw [List.nil_append, read] at reading
  have back := written_is_read (i := theFile) (j := 0) (by decide) inOrder_shortFile writing reading
    (fun e he _ => List.mem_singleton.mp he ▸ rfl) (fun e he _ => ⟨_, List.mem_singleton.mp he⟩)
    (fun e he => List.mem_singleton.mp he ▸ id) (fun e he _ => ⟨_, _, List.mem_singleton.mp he⟩)
    (by decide) (by decide) pos
  exact ⟨_, _, s₁, s₂, writing, reading, rfl, back.1⟩

end Uzi
