import Uzi.Fs.OpenFiles

/-!
# Opening and closing over whole runs

The system calls that open and close files keep every `o_refs` equal to the number of descriptors of the
entry, in any order and at every exit, but for three: `_pipe` when one descriptor is left, `_pipe` with a
pointer that leads out of the memory of the process, and `_dup2` of an open descriptor onto itself.
-/

namespace Uzi
open Exec RefCount

/-- Every `o_refs` is the number of descriptors of the entry, and every open descriptor has an entry with
an inode. -/
structure Kernel.FilesCounted (s : Kernel) : Prop where
  count : ∀ i, (s.ofTab i).oRefs.toNat = refs s.udata.uFiles (oftByte i)
  opened : ∀ j, ¬ isClosed (s.udata.uFiles j) →
    ∃ i, s.udata.uFiles j = oftByte i ∧ (s.ofTab i).oInode ≠ none

/-- The counts, with nothing held. -/
lemma filesCounted_iff {s : Kernel} : s.FilesCounted ↔ Counted s.ofTab s.udata.uFiles 0 :=
  ⟨fun h => ⟨h.count, h.opened⟩, fun h => ⟨h.count, h.opened⟩⟩

/-- The files are counted together with the references `held` of other processes, whose entries have kept
their inodes from `s`, and so has what lies behind the open file table. -/
structure Settled (held : Multiset (Fin OFTSIZE)) (s s' : Kernel) : Prop where
  counted : Counted s'.ofTab s'.udata.uFiles held
  bss : s'.ofBss = s.ofBss
  inodes : InodesStay held s.ofTab s'.ofTab

variable {s₀ s : Kernel} {u : Fin UFTSIZE} {i : Fin OFTSIZE} {held : Multiset (Fin OFTSIZE)}

/-- A call that leaves the files. -/
lemma Settled.same {s' : Kernel} (h : Settled held s₀ s) (same : SameFiles s s') : Settled held s₀ s' := by
  obtain ⟨tab, bss, files⟩ := same
  exact ⟨by rw [tab, files]; exact h.counted, bss.trans h.bss, tab ▸ h.inodes⟩

/-! ## Exits -/

/-- A reference to entry `i` is held, and descriptor `u` is closed. -/
structure Opening (held : Multiset (Fin OFTSIZE)) (s₀ s : Kernel) (u : Fin UFTSIZE) (i : Fin OFTSIZE) :
    Prop where
  counted : Counted s.ofTab s.udata.uFiles (i ::ₘ held)
  closed : isClosed (s.udata.uFiles u)
  bss : s.ofBss = s₀.ofBss
  inodes : InodesStay held s₀.ofTab s.ofTab

/-- A call that leaves the files. -/
lemma Opening.same {s' : Kernel} (h : Opening held s₀ s u i) (same : SameFiles s s') : Opening held s₀ s' u i := by
  obtain ⟨tab, bss, files⟩ := same
  exact ⟨by rw [tab, files]; exact h.counted, by rw [files]; exact h.closed, bss.trans h.bss, tab ▸ h.inodes⟩

/-- The failing exits of `_open` give the entry back. -/
lemma wp_openFailed (h : Opening held s₀ s u i) :
    wp (openFailed u i) (fun _ s' => Settled held s₀ s') (fun _ => True) s := by
  unfold openFailed
  rw [wp_bind]
  refine wp_post (wp_oftDeref h.counted) fun _ s₁ ⟨counted, bss, same, inodes⟩ => ?_
  refine ⟨?_, bss.trans h.bss, h.inodes.trans inodes⟩
  show Counted s₁.ofTab (Function.update s₁.udata.uFiles u 0xff) held
  rw [same]
  exact counted.reset h.closed isClosed_minus_one

/-- The failing exits of `_creat` give the entry back. -/
lemma wp_creatFailed (h : Opening held s₀ s u i) :
    wp (creatFailed i) (fun _ s' => Settled held s₀ s') (fun _ => True) s := by
  unfold creatFailed
  rw [wp_bind]
  refine wp_post (wp_oftDeref h.counted) fun _ s₁ ⟨counted, bss, same, inodes⟩ => ?_
  exact ⟨by rw [same]; exact counted, bss.trans h.bss, h.inodes.trans inodes⟩

/-- The entry gets an inode. -/
lemma Opening.setInode {o : Oft} (h : Opening held s₀ s u i) (count : o.oRefs = (s.ofTab i).oRefs)
    (inode : o.oInode ≠ none) : Opening held s₀ (s.setOft i o) u i :=
  ⟨h.counted.move (by rw [count]) (fun _ _ => rfl) fun _ _ => inode, h.closed, h.bss,
    h.inodes.trans (.update fun _ _ => inode)⟩

/-- The descriptor takes the reference over. -/
lemma Opening.done {s' : Kernel} (h : Opening held s₀ s u i) (inode : (s.ofTab i).oInode ≠ none)
    (tab : s'.ofTab = s.ofTab) (files : s'.udata.uFiles = Function.update s.udata.uFiles u (oftByte i))
    (bss : s'.ofBss = s.ofBss) : Settled held s₀ s' := by
  refine ⟨?_, bss.trans h.bss, tab ▸ h.inodes⟩
  rw [tab, files]
  exact h.counted.enter h.closed inode

/-- The start of `_open` and `_creat`. -/
lemma wp_alloc {k : Fin UFTSIZE → Fin OFTSIZE → K Word} {full : Fin UFTSIZE → K Word} (h : Settled held s₀ s)
    (hk : ∀ u i s', Opening held s₀ s' u i → wp (k u i) (fun _ s' => Settled held s₀ s') (fun _ => True) s')
    (hfull : ∀ u s', Settled held s₀ s' → isClosed (s'.udata.uFiles u) →
      wp (full u) (fun _ s' => Settled held s₀ s') (fun _ => True) s') :
    wp (do
      match ← ufAlloc with
      | none => pure 0xffff
      | some u =>
        match ← oftAlloc with
        | none => full u
        | some i => k u i) (fun _ s' => Settled held s₀ s') (fun _ => True) s := by
  rw [wp_bind]
  refine wp_mono wp_ufAlloc (fun r s₁ ⟨same, found⟩ => ?_) fun _ => False.elim
  have h₁ := h.same same
  cases r with
  | none => exact h₁
  | some u =>
    have closed : isClosed (s₁.udata.uFiles u) := same.2.2 ▸ found
    rw [wp_bind]
    refine wp_mono (wp_oftAlloc h₁.counted) (fun r s₂ ⟨bss, files, inodes, post⟩ => ?_) fun _ => False.elim
    have inodes₂ := h₁.inodes.trans inodes
    cases r with
    | none =>
      refine hfull u s₂ ⟨?_, bss.trans h₁.bss, inodes₂⟩ (files ▸ closed)
      rw [post.1, files]
      exact h₁.counted
    | some i => exact hk u i s₂ ⟨files ▸ post.1, files ▸ closed, bss.trans h₁.bss, inodes₂⟩

/-! ## Opening -/

/-- `_open` keeps the counts. -/
lemma wp_open {name : CStr} {flag : Word} (h : Settled held s₀ s) :
    wp (_open name flag) (fun _ s' => Settled held s₀ s') (fun _ => True) s := by
  unfold _open
  rw [wp_ite]
  split
  · exact h.same ⟨rfl, rfl, rfl⟩
  · refine wp_alloc h (fun u i s₁ o₁ => ?_) fun u s₁ h₁ closed => ?_
    · rw [wp_bind]
      refine wp_post (Quiet.nOpen (R := SameFiles) s₁) fun r s₂ keeps => ?_
      have o₂ := o₁.same keeps
      obtain ⟨_ | ino, parent⟩ := r
      · exact wp_openFailed o₂
      · have o₃ := o₂.setInode (o := { s₂.ofTab i with oInode := some ino }) rfl (Option.some_ne_none ino)
        have failed : ∀ e, wp (do setError e; openFailed u i) (fun _ s' => Settled held s₀ s') (fun _ => True)
            (s₂.setOft i { s₂.ofTab i with oInode := some ino }) := fun e =>
          wp_bind.mpr (wp_openFailed (o₃.same ⟨rfl, rfl, rfl⟩))
        rw [wp_bind, wp_modifyOft, wp_bind, wp_get, wp_ite]
        split
        · exact failed _
        rw [wp_ite]
        split
        · exact failed _
        rw [wp_bind]
        refine wp_post (Quiet.openDevice (R := SameFiles) _) fun b s₄ keeps₄ => ?_
        have o₄ := o₃.same keeps₄
        rw [wp_ite]
        split
        · exact wp_bind.mpr (wp_openFailed (o₄.same ⟨rfl, rfl, rfl⟩))
        · have inode : (s₄.ofTab i).oInode ≠ none := by
            rw [keeps₄.1, Kernel.ofTab_setOft]
            exact Option.some_ne_none ino
          have o₅ := o₄.setInode (o := { s₄.ofTab i with oPtr := ⟨0, 0⟩, oAccess := .ofFlag flag }) rfl inode
          exact o₅.done (by rwa [Kernel.ofTab_setOft]) rfl rfl rfl
    · exact ⟨h₁.counted.reset closed isClosed_minus_one, h₁.bss, h₁.inodes⟩

/-- The last part of `_creat` keeps the counts. -/
lemma wp_creatDone {ino : Inoptr} (o : Opening held s₀ s u i) :
    wp (creatDone u i ino) (fun _ s' => Settled held s₀ s') (fun _ => True) s := by
  have inode : (some ino : Option Inoptr) ≠ none := Option.some_ne_none ino
  have o₁ := o.setInode (o := { s.ofTab i with oPtr := ⟨0, 0⟩, oInode := some ino, oAccess := .wronly })
    rfl inode
  exact o₁.done (by rwa [Kernel.ofTab_setOft]) rfl rfl rfl

/-- The references of an entry that is set to its beginning. -/
@[simp] lemma Oft.rewind_oRefs {o : Oft} {ino : Inoptr} : (o.rewind ino).oRefs = o.oRefs := by
  unfold Oft.rewind
  split <;> rfl

/-- The inode of an entry that is set to its beginning. -/
@[simp] lemma Oft.rewind_oInode {o : Oft} {ino : Inoptr} : (o.rewind ino).oInode = o.oInode := by
  unfold Oft.rewind
  split <;> rfl

/-- `_creat` of a file that is there keeps the counts. -/
lemma wp_creatOld {ino : Inoptr} {parent : Option Inoptr} (o : Opening held s₀ s u i) :
    wp (creatOld u i ino parent) (fun _ s' => Settled held s₀ s') (fun _ => True) s := by
  cases parent with
  | none => trivial
  | some parent =>
    unfold creatOld
    rw [wp_bind]
    refine wp_post (Quiet.iDeref (R := SameFiles) s) fun _ s₁ keeps₁ => ?_
    have o₁ := o.same keeps₁
    have failed : ∀ e, wp (do iDeref ino; setError e; creatFailed i) (fun _ s' => Settled held s₀ s')
        (fun _ => True) s₁ := by
      intro e
      rw [wp_bind]
      refine wp_post (Quiet.iDeref (R := SameFiles) s₁) fun _ s₂ keeps₂ => ?_
      exact wp_bind.mpr (wp_creatFailed ((o₁.same keeps₂).same ⟨rfl, rfl, rfl⟩))
    rw [wp_bind, wp_get, wp_ite]
    split
    · exact failed _
    rw [wp_ite]
    split
    · exact failed _
    rw [wp_ite]
    split
    · rw [wp_bind]
      refine wp_post (Quiet.fTrunc (R := SameFiles) s₁) fun _ s₂ keeps₂ => ?_
      have o₂ := o₁.same keeps₂
      refine wp_creatDone ⟨o₂.counted.congr (fun j => ?_) fun j some => ?_, o₂.closed, o₂.bss,
        o₂.inodes.trans fun j _ some => ?_⟩
      · exact Oft.rewind_oRefs
      · rwa [Oft.rewind_oInode]
      · rwa [Oft.rewind_oInode]
    · exact wp_creatDone o₁

/-- `_creat` of a new file keeps the counts. -/
lemma wp_creatNew {name : CStr} {mode : Word} {parent : Option Inoptr} (o : Opening held s₀ s u i) :
    wp (creatNew u i name mode parent) (fun _ s' => Settled held s₀ s') (fun _ => True) s := by
  cases parent with
  | none => exact wp_creatFailed o
  | some parent =>
    unfold creatNew
    rw [wp_bind]
    refine wp_post (Transferring.newfile (R := SameFiles) s) fun r s₁ keeps₁ => ?_
    have o₁ := o.same keeps₁
    cases r with
    | none =>
      rw [wp_bind]
      refine wp_post (Quiet.iDeref (R := SameFiles) s₁) fun _ s₂ keeps₂ => ?_
      exact wp_creatFailed (o₁.same keeps₂)
    | some ino =>
      rw [wp_bind, wp_get, wp_bind]
      refine wp_post (Quiet.modifyInode (R := SameFiles) s₁) fun _ s₂ keeps₂ => ?_
      rw [wp_bind]
      refine wp_post (Quiet.setftime (R := SameFiles) s₂) fun _ s₃ keeps₃ => ?_
      rw [wp_bind]
      refine wp_post (Quiet.wrInode (R := SameFiles) s₃) fun _ s₄ keeps₄ => ?_
      exact wp_creatDone (((o₁.same keeps₂).same keeps₃).same keeps₄)

/-- `_creat` keeps the counts. -/
lemma wp_creat {name : CStr} {mode : Word} (h : Settled held s₀ s) :
    wp (_creat name mode) (fun _ s' => Settled held s₀ s') (fun _ => True) s := by
  refine wp_alloc h (fun u i s₁ o₁ => ?_) fun _ _ h₁ _ => h₁
  rw [wp_bind]
  refine wp_post (Quiet.nOpen (R := SameFiles) s₁) fun r s₂ keeps => ?_
  obtain ⟨_ | ino, parent⟩ := r
  · exact wp_creatNew (o₁.same keeps)
  · exact wp_creatOld (o₁.same keeps)

/-! ## Closing and copying -/

/-- `_close` keeps the counts. -/
lemma wp_close {d : Word} (h : Settled held s₀ s) :
    wp (_close d) (fun _ s' => Settled held s₀ s') (fun _ => True) s :=
  wp_post (wp_doclose h.counted) fun _ _ ⟨counted, bss, inodes, _⟩ =>
    ⟨counted, bss.trans h.bss, h.inodes.trans inodes⟩

/-- Another descriptor, that is closed, becomes a copy of an open one. -/
lemma wp_copyFile {d : Word} (h : Settled held s₀ s) (lt : d.toNat < UFTSIZE)
    (file : s.udata.uFiles (descriptor d) = oftByte i) (inode : (s.ofTab i).oInode ≠ none)
    (closed : isClosed (s.udata.uFiles u)) (few : held.count i ≤ 244) :
    wp (copyFile d u) (fun _ s' => Settled held s₀ s') (fun _ => True) s := by
  have ne : descriptor d ≠ u := fun e => not_isClosed_oftByte (file ▸ e ▸ closed)
  have value : s.udata.file d = oftByte i := (file_eq lt).trans file
  have index : (oftByte i).toNat = i := by
    have lt : i.val < 15 := i.isLt
    simp only [oftByte, BitVec.toNat_ofNat]
    omega
  -- the new reference is held until the descriptor is entered
  have size : refs s.udata.uFiles (oftByte i) ≤ 10 := refs_le
  have count := h.counted.count i
  have more : ((s.ofTab i).oRefs + 1).toNat = (s.ofTab i).oRefs.toNat + 1 := by
    rw [BitVec.toNat_add]
    show (_ + 1) % 256 = _
    omega
  have taken := h.counted.move (i := i) (o := { s.ofTab i with oRefs := (s.ofTab i).oRefs + 1 }) (m := i ::ₘ held)
    (by rw [more, Multiset.count_cons_self]; omega) (fun i' ne' => Multiset.count_cons_of_ne ne' _)
    fun _ some => some
  have done := taken.enter closed (by rwa [Function.update_self])
  unfold copyFile
  rw [wp_bind, wp_get, wp_bind, wp_setFile]
  generalize hs : s.setFile u (s.udata.file d) = s₁
  have files₁ : s₁.udata.uFiles = Function.update s.udata.uFiles u (oftByte i) := by
    rw [← hs, ← value]
    rfl
  have value₁ : s₁.udata.file d = oftByte i := by
    rw [file_eq lt, files₁, Function.update_of_ne ne, file]
  have tab₁ : s₁.ofTab = s.ofTab := hs ▸ rfl
  have bss₁ : s₁.ofBss = s.ofBss := hs ▸ rfl
  rw [wp_bind, wp_get, value₁, oftRef, wp_ite, if_pos (index ▸ i.isLt), wp_modifyOft, index]
  rw [show Fin.ofNat OFTSIZE i = i from Fin.ext (Nat.mod_eq_of_lt i.isLt)]
  refine ⟨?_, bss₁.trans h.bss, h.inodes.trans (tab₁ ▸ .update fun _ some => some)⟩
  show Counted (Function.update s₁.ofTab i _) s₁.udata.uFiles held
  rw [tab₁, files₁]
  exact done

/-- `_dup` keeps the counts. -/
lemma wp_dup {d : Word} (h : Settled held s₀ s) (few : ∀ i, held.count i ≤ 244) :
    wp (_dup d) (fun _ s' => Settled held s₀ s') (fun _ => True) s := by
  unfold _dup
  rw [wp_bind]
  refine wp_post wp_getinode fun r s₁ ⟨keeps₁, checked⟩ => ?_
  have h₁ := h.same keeps₁
  cases r with
  | none => exact h₁
  | some ino =>
    obtain ⟨lt, file, inode⟩ := checked
    rw [wp_bind]
    refine wp_mono wp_ufAlloc (fun r s₂ ⟨keeps₂, found⟩ => ?_) fun _ => False.elim
    have h₂ := h₁.same keeps₂
    have keeps := trans_of SameFiles keeps₁ keeps₂
    cases r with
    | none => exact h₂
    | some u =>
      rw [wp_bind]
      refine wp_post (wp_copyFile h₂ lt (by rw [keeps.2.2, file]) (by rwa [keeps.1]) ?_ (few _)) fun _ _ => id
      rw [keeps₂.2.2]
      exact found

/-- `_dup2` does not copy an open descriptor onto itself. -/
def Dup2Clean (oldd newd : Word) (s : Kernel) : Prop :=
  oldd = newd → oldd.toNat < UFTSIZE → isClosed (s.udata.uFiles (descriptor oldd))

/-- `_dup2` keeps the counts, but for an open descriptor on itself. -/
lemma wp_dup2 {d e : Word} (h : Settled held s₀ s) (few : ∀ i, held.count i ≤ 244) (clean : Dup2Clean d e s) :
    wp (_dup2 d e) (fun _ s' => Settled held s₀ s') (fun _ => True) s := by
  unfold _dup2
  rw [wp_bind]
  refine wp_post wp_getinode fun r s₁ ⟨keeps₁, checked⟩ => ?_
  have h₁ := h.same keeps₁
  cases r with
  | none => exact h₁
  | some ino =>
    obtain ⟨lt, file, inode⟩ := checked
    rw [wp_ite]
    split
    · exact h₁.same ⟨rfl, rfl, rfl⟩
    next valid =>
    rw [descriptor_iff, not_not] at valid
    have ne : descriptor d ≠ descriptor e := by
      intro same
      have values := congrArg Fin.val same
      have eq : d = e := BitVec.eq_of_toNat_eq (by
        rwa [descriptor, descriptor, Fin.val_ofNat, Fin.val_ofNat, Nat.mod_eq_of_lt lt,
          Nat.mod_eq_of_lt valid] at values)
      exact not_isClosed_oftByte (file ▸ clean eq lt)
    -- the descriptor that is copied stays open while the other one is closed
    have copy : ∀ s₂, Settled held s₀ s₂ → s₂.udata.uFiles (descriptor d) = s.udata.uFiles (descriptor d) →
        isClosed (s₂.udata.uFiles (descriptor e)) →
        wp (do copyFile d (descriptor e); pure (0 : Word)) (fun _ s' => Settled held s₀ s') (fun _ => True) s₂ := by
      intro s₂ h₂ file₂ closed
      rw [file] at file₂
      obtain ⟨i, hi, inode₂⟩ := h₂.counted.opened (descriptor d) (file₂ ▸ not_isClosed_oftByte)
      rw [wp_bind]
      exact wp_post (wp_copyFile h₂ lt hi inode₂ closed (few _)) fun _ _ => id
    rw [wp_bind, wp_get, wp_ite]
    split
    · next opened =>
      rw [wp_bind]
      refine wp_post (wp_doclose h₁.counted) fun _ s₂ ⟨counted, bss, inodes, files⟩ => ?_
      cases files with
      | inl same =>
        exact absurd (closed_iff.mpr (same.2 valid)) opened
      | inr files =>
        refine copy s₂ ⟨counted, bss.trans h₁.bss, h₁.inodes.trans inodes⟩ ?_ ?_
        · rw [files, Function.update_of_ne ne, keeps₁.2.2]
        · rw [files, Function.update_self]
          exact isClosed_minus_one
    · next closed =>
      exact copy s₁ h₁ (by rw [keeps₁.2.2]) (closed_iff.mp (not_not.mp closed))

/-! ## Pipes -/

/-- `_pipe` does not find exactly one closed descriptor, with an open file table entry for it, and the two
numbers it gives back at its end are stored in the memory of the process. -/
structure PipeClean (fildes : Nat) (s : Kernel) : Prop where
  leaksNone : (∃! u, isClosed (s.udata.uFiles u)) → ∀ i, (s.ofTab i).oRefs ≠ 0
  user : PipeEnds s → s.layout.InUser fildes 4

/-- `_pipe` has entered the number of entry `i` for the closed descriptor `u` already, while the reference
is still held. -/
structure Piping (held : Multiset (Fin OFTSIZE)) (s₀ s : Kernel) (files : Fin UFTSIZE → Byte) (u : Fin UFTSIZE)
    (i : Fin OFTSIZE) (own : Multiset (Fin OFTSIZE)) : Prop where
  counted : Counted s.ofTab files (own + held)
  closed : isClosed (files u)
  files : s.udata.uFiles = Function.update files u (oftByte i)
  bss : s.ofBss = s₀.ofBss
  inodes : InodesStay held s₀.ofTab s.ofTab

/-- A call that leaves the files. -/
lemma Piping.same {s' : Kernel} {files : Fin UFTSIZE → Byte} {own : Multiset (Fin OFTSIZE)}
    (h : Piping held s₀ s files u i own) (same : SameFiles s s') : Piping held s₀ s' files u i own :=
  ⟨same.1 ▸ h.counted, h.closed, same.2.2.trans h.files, same.2.1.trans h.bss, same.1 ▸ h.inodes⟩

/-- The failing exits of `_pipe` close the descriptor. -/
lemma wp_pipeFailed {files : Fin UFTSIZE → Byte} (h : Piping held s₀ s files u i 0) :
    wp (pipeFailed u) (fun _ s' => Settled held s₀ s') (fun _ => True) s := by
  refine ⟨?_, h.bss, h.inodes⟩
  show Counted s.ofTab (Function.update s.udata.uFiles u 0xff) held
  rw [h.files, Function.update_idem, ← zero_add held]
  exact h.counted.reset h.closed isClosed_minus_one

/-- One of the entries is given back. -/
lemma Piping.deref {files : Fin UFTSIZE → Byte} {own : Multiset (Fin OFTSIZE)} {k : Fin OFTSIZE}
    (h : Piping held s₀ s files u i (k ::ₘ own)) :
    wp (oftDeref k) (fun _ s' => Piping held s₀ s' files u i own) (fun _ => True) s :=
  wp_post (wp_oftDeref (Multiset.cons_add k own held ▸ h.counted)) fun _ _ ⟨counted, bss, same, inodes⟩ =>
    ⟨counted, h.closed, same.trans h.files, bss.trans h.bss,
      h.inodes.trans fun i mem => inodes i (Multiset.mem_add.mpr (.inr mem))⟩

/-- The last part of `_pipe` keeps the counts. -/
lemma wp_pipeDone {files : Fin UFTSIZE → Byte} {fildes : Nat} {u₂ : Fin UFTSIZE} {i₂ : Fin OFTSIZE}
    {ino : Inoptr} (h : Piping held s₀ s files u i {i₂, i}) (ne : u₂ ≠ u) (closed : isClosed (files u₂)) :
    wp (pipeDone fildes u u₂ i i₂ ino) (fun _ s' => Settled held s₀ s') (fun _ => True) s := by
  have inode : (some ino : Option Inoptr) ≠ none := Option.some_ne_none ino
  have counted := h.counted
  rw [Multiset.insert_eq_cons, Multiset.cons_add, Multiset.singleton_add] at counted
  have h₁ := counted.move (i := i)
    (o := { s.ofTab i with oPtr := ⟨0, 0⟩, oInode := some ino, oAccess := .rdonly }) rfl
    (fun _ _ => rfl) fun _ _ => inode
  generalize tab₁ : Function.update s.ofTab i _ = tab at h₁
  have inode₁ : (tab i).oInode ≠ none := by rwa [← tab₁, Function.update_self]
  have h₂ := h₁.move (i := i₂)
    (o := { tab i₂ with oPtr := ⟨0, 0⟩, oInode := some ino, oAccess := .wronly }) rfl
    (fun _ _ => rfl) fun _ _ => inode
  have inode₂ : (Function.update tab i₂
      { tab i₂ with oPtr := ⟨0, 0⟩, oInode := some ino, oAccess := .wronly } i).oInode ≠ none := by
    by_cases same : i = i₂
    · rwa [same, Function.update_self]
    · rwa [Function.update_of_ne same]
  have h₃ := h₂.enter closed (by rwa [Function.update_self])
  have h₄ : Counted _ _ held := Counted.enter (i := i) (j := u) h₃
    (by rw [Function.update_of_ne ne.symm]; exact h.closed) inode₂
  refine ⟨?_, h.bss, h.inodes.trans ?_⟩
  · show Counted (Function.update (Function.update s.ofTab i _) i₂ _)
      (Function.update s.udata.uFiles u₂ (oftByte i₂)) held
    rw [h.files, Function.update_comm ne.symm]
    subst tab₁
    exact h₄
  · exact InodesStay.trans (.update fun _ _ => inode) (.update fun _ _ => inode)

/-- `_pipe` keeps the counts, but for its slips. -/
lemma wp_pipe {fildes : Nat} (h : Settled held s₀ s) (clean : PipeClean fildes s) :
    wp (_pipe fildes) (fun _ s' => Settled held s₀ s') (fun _ => True) s := by
  unfold _pipe
  rw [wp_bind]
  refine wp_mono wp_ufAlloc (fun r s₁ ⟨keeps₁, found⟩ => ?_) fun _ => False.elim
  have h₁ := h.same keeps₁
  cases r with
  | none => exact h₁
  | some u =>
    rw [wp_bind]
    refine wp_mono (wp_oftAlloc h₁.counted) (fun r s₂ ⟨bss₂, files₂, inodes₂, post⟩ => ?_) fun _ => False.elim
    have inodes₂ := h₁.inodes.trans inodes₂
    cases r with
    | none =>
      refine ⟨?_, bss₂.trans h₁.bss, inodes₂⟩
      rw [post.1, files₂]
      exact h₁.counted
    | some i =>
      obtain ⟨counted, free⟩ := post
      have closed : isClosed (s₁.udata.uFiles u) := keeps₁.2.2 ▸ found
      rw [wp_bind, wp_setFile, wp_bind]
      have p : Piping held s₀ (s₂.setFile u (oftByte i)) s₁.udata.uFiles u i {i} :=
        ⟨counted, closed, by rw [← files₂]; rfl, bss₂.trans h₁.bss, inodes₂⟩
      refine wp_mono wp_ufAlloc (fun r s₃ ⟨keeps₃, found₃⟩ => ?_) fun _ => False.elim
      rw [p.files] at found₃
      have p₃ := p.same keeps₃
      cases r with
      | none =>
        -- there was one closed descriptor only
        have unique : ∃! u, isClosed (s.udata.uFiles u) := by
          refine ⟨u, found, fun v hv => not_not.mp fun ne => found₃ v ?_⟩
          rw [Function.update_of_ne ne, keeps₁.2.2]
          exact hv
        exact absurd (keeps₁.1 ▸ free) (clean.leaksNone unique i)
      | some u₂ =>
        change isClosed _ at found₃
        have ne : u₂ ≠ u := by
          rintro rfl
          rw [Function.update_self] at found₃
          exact not_isClosed_oftByte found₃
        have closed₂ : isClosed (s₁.udata.uFiles u₂) := by
          rwa [Function.update_of_ne ne] at found₃
        rw [wp_bind]
        refine wp_mono (wp_oftAlloc p₃.counted) (fun r s₄ ⟨bss₄, files₄, inodes₄, post₄⟩ => ?_) fun _ => False.elim
        have inodes₄ := p₃.inodes.trans inodes₄.of_cons
        cases r with
        | none =>
          have p₄ : Piping held s₀ s₄ s₁.udata.uFiles u i {i} :=
            ⟨by rw [post₄.1]; exact p₃.counted, closed, files₄.trans p₃.files, bss₄.trans p₃.bss, inodes₄⟩
          rw [wp_bind]
          exact wp_post p₄.deref fun _ _ p₅ => wp_pipeFailed p₅
        | some i₂ =>
          have p₄ : Piping held s₀ s₄ s₁.udata.uFiles u i {i₂, i} :=
            ⟨Multiset.cons_add i₂ {i} held ▸ post₄.1, closed, files₄.trans p₃.files, bss₄.trans p₃.bss, inodes₄⟩
          rw [wp_bind, wp_get, wp_bind]
          refine wp_post (Quiet.iOpen (R := SameFiles) s₄) fun r s₅ keeps₅ => ?_
          have p₅ := p₄.same keeps₅
          cases r with
          | none =>
            rw [Multiset.pair_comm] at p₅
            rw [wp_bind]
            refine wp_post p₅.deref fun _ s₆ p₆ => ?_
            rw [wp_bind]
            exact wp_post p₆.deref fun _ _ p₇ => wp_pipeFailed p₇
          | some ino => exact wp_pipeDone p₅ ne closed₂

/-! ## Runs -/

/-- A system call that opens or closes files. -/
inductive FileCall
  | open (name : CStr) (flag : Word)
  | creat (name : CStr) (mode : Word)
  | close (uindex : Word)
  | dup (oldd : Word)
  | dup2 (oldd newd : Word)
  | pipe (fildes : Nat)

namespace FileCall

/-- The call. -/
def run : FileCall → K Word
  | .open name flag => _open name flag
  | .creat name mode => _creat name mode
  | .close uindex => _close uindex
  | .dup oldd => _dup oldd
  | .dup2 oldd newd => _dup2 oldd newd
  | .pipe fildes => _pipe fildes

/-- The call is neither a `_dup2` of an open descriptor onto itself, nor a `_pipe` for which there is exactly
one closed descriptor and a free entry of the open file table, nor one that stores outside the memory of the
process. -/
def Clean : FileCall → Kernel → Prop
  | .dup2 oldd newd => Dup2Clean oldd newd
  | .pipe fildes => PipeClean fildes
  | _ => fun _ => True

/-- Each call keeps the counts. -/
lemma wp_run (c : FileCall) (h : Settled held s₀ s) (few : ∀ i, held.count i ≤ 244) (clean : c.Clean s) :
    wp c.run (fun _ s' => Settled held s₀ s') (fun _ => True) s := by
  cases c with
  | «open» name flag => exact wp_open h
  | creat name mode => exact wp_creat h
  | close d => exact wp_close h
  | dup d => exact wp_dup h few
  | dup2 d e => exact wp_dup2 h few clean
  | pipe fildes => exact wp_pipe h clean

end FileCall

/-- A run of calls from `s`, each of them made where `ok` allows it. -/
inductive FileRun (ok : FileCall → Kernel → Prop) (s : Kernel) : Kernel → Prop
  | start : FileRun ok s s
  | call {s' s'' : Kernel} {c : FileCall} {r : Word} (run : FileRun ok s s') (allowed : ok c s')
      (returned : c.run s' = .ok (r, s'')) : FileRun ok s s''

/-- A run keeps the counts. -/
lemma FileRun.settled {s s' : Kernel} (run : FileRun FileCall.Clean s s') (h : s.FilesCounted) :
    Settled 0 s s' := by
  induction run with
  | start => exact ⟨filesCounted_iff.mp h, rfl, .refl⟩
  | call _ clean returned ih => exact (FileCall.wp_run _ ih (fun _ => Nat.zero_le _) clean).ok returned

/-- In every run without these calls, every `o_refs` is the number of descriptors of its entry, every
open descriptor has an entry with an inode, and nothing behind the open file table is touched. -/
theorem files_counted {s s' : Kernel} (run : FileRun FileCall.Clean s s') (h : s.FilesCounted) :
    s'.FilesCounted ∧ s'.ofBss = s.ofBss :=
  ⟨filesCounted_iff.mpr (run.settled h).counted, (run.settled h).bss⟩

/-- A process with one open file, which it has under the descriptors below `n`. -/
def Kernel.oneFile (n : Nat) : Kernel :=
  let s := Kernel.zeroed fun _ _ => Block.zero
  { s with
    iTab := fun _ =>
      { s.iTab 0 with cMagic := CMAGIC, cRefs := 1, cNode := { (s.iTab 0).cNode with iMode := F_REG, iNlink := 1 } }
    ofTab := Function.update s.ofTab 0 ⟨⟨0, 0⟩, some 0, .rdonly, BitVec.ofNat 8 n⟩
    udata := { s.udata with uFiles := fun j => if j.val < n then 0 else 0xff } }

/-- The counts of a process with one open file. -/
lemma oneFile_counted : (Kernel.oneFile 1).FilesCounted := ⟨by decide, by decide⟩

/-- A descriptor is copied and closed. -/
theorem files_counted_dup : ∃ s', FileRun FileCall.Clean (Kernel.oneFile 1) s' ∧
    s'.FilesCounted ∧ s'.ofBss = (Kernel.oneFile 1).ofBss := by
  have run : wp (FileCall.dup 0).run (fun _ _ => True) (fun _ => False) (Kernel.oneFile 1) := by
    decide +kernel
  obtain ⟨r, s', returned, -⟩ := run.returns
  have run := @FileRun.call FileCall.Clean (Kernel.oneFile 1) _ s' (.dup 0) r .start trivial returned
  exact ⟨s', run, files_counted run oneFile_counted⟩

/-- With nine of the ten descriptors open `_pipe` fails and leaves an entry with a reference and no
descriptor, and `_dup2` of a descriptor onto itself counts a reference outside the open file table. -/
theorem not_files_counted :
    (∃ s', FileRun (fun _ _ => True) (Kernel.oneFile 9) s' ∧ ¬ s'.FilesCounted) ∧
      ∃ s', FileRun (fun _ _ => True) (Kernel.oneFile 1) s' ∧ s'.ofBss ≠ (Kernel.oneFile 1).ofBss := by
  constructor
  · have leak : wp (FileCall.pipe PROGBASE).run
        (fun _ s' => (s'.ofTab 1).oRefs = 1 ∧ ∀ j, s'.udata.uFiles j ≠ oftByte 1) (fun _ => False)
        (Kernel.oneFile 9) := by decide +kernel
    obtain ⟨r, s', returned, refs_one, none⟩ := leak.returns
    refine ⟨s', .call .start trivial returned, fun counted => ?_⟩
    have free : refs s'.udata.uFiles (oftByte 1) = 0 :=
      Finset.card_eq_zero.mpr (Finset.filter_eq_empty_iff.mpr fun j _ => none j)
    have count := counted.count 1
    rw [refs_one, free] at count
    exact absurd count (by decide)
  · have touched : wp (FileCall.dup2 0 0).run (fun _ s' => s'.ofBss 255 = 1) (fun _ => False)
        (Kernel.oneFile 1) := by decide +kernel
    obtain ⟨r, s', returned, one⟩ := touched.returns
    refine ⟨s', .call .start trivial returned, fun same => ?_⟩
    rw [same] at one
    exact absurd one (by decide)

end Uzi
