import Uzi.Fs.Footprint
import Uzi.Lib.RefCount

/-!
# The reference counts of open files

The open file table and the descriptors of a process: `Counted tab files held` says that every `o_refs`
is the number of descriptors of the entry, together with the references `held` that the code at hand has
not entered yet, and that every open descriptor has an entry with an inode. One spec lemma for each
function that touches the two tables.
-/

namespace Uzi
open Exec RefCount

/-- Neither the open file table nor the descriptors have changed. -/
def SameFiles (s s' : Kernel) : Prop :=
  s'.ofTab = s.ofTab ∧ s'.ofBss = s.ofBss ∧ s'.udata.uFiles = s.udata.uFiles

instance : Transferring SameFiles where
  refl _ := ⟨rfl, rfl, rfl⟩
  trans _ _ _ h h' := ⟨h'.1.trans h.1, h'.2.1.trans h.2.1, h'.2.2.trans h.2.2⟩
  bufs _ _ := ⟨rfl, rfl, rfl⟩
  fsTab _ _ _ _ := ⟨rfl, rfl, rfl⟩
  iTab _ _ := ⟨rfl, rfl, rfl⟩
  nexti _ _ := ⟨rfl, rfl, rfl⟩
  error _ _ := ⟨rfl, rfl, rfl⟩
  woken _ _ := ⟨rfl, rfl, rfl⟩
  transfer _ _ _ _ _ _ := ⟨rfl, rfl, rfl⟩
  ptab _ _ := ⟨rfl, rfl, rfl⟩

/-! ## Entries of `u_files` -/

/-- Whether an entry of `u_files` is that of a closed descriptor. -/
def isClosed (x : Byte) : Prop := x &&& 0x80 ≠ 0

instance {x : Byte} : Decidable (isClosed x) := by
  unfold isClosed
  infer_instance

/-- A descriptor is closed when its byte says so. -/
lemma closed_iff {u : UData} {j : Fin UFTSIZE} : u.closed j = true ↔ isClosed (u.uFiles j) := by
  unfold UData.closed isClosed
  exact decide_eq_true_iff

/-- Different entries have different bytes. -/
lemma oftByte_injective : Function.Injective oftByte := by
  intro i i' h
  have hi : i.val < 15 := i.isLt
  have hi' : i'.val < 15 := i'.isLt
  have e := congrArg BitVec.toNat h
  simp only [oftByte, BitVec.toNat_ofNat] at e
  exact Fin.ext (by omega)

/-- The byte of an entry is not that of a closed descriptor. -/
lemma not_isClosed_oftByte {i : Fin OFTSIZE} : ¬ isClosed (oftByte i) := by
  revert i
  decide

/-- The byte of a closed descriptor. -/
lemma isClosed_minus_one : isClosed 0xff := by decide

/-- The byte of the entry of a byte. -/
lemma oftByte_ofIndex {x : Byte} (h : x.toNat < OFTSIZE) : oftByte (Fin.ofNat OFTSIZE x.toNat) = x := by
  have lt : x.toNat < 15 := h
  refine BitVec.eq_of_toNat_eq ?_
  simp only [oftByte, BitVec.toNat_ofNat, Fin.ofNat]
  rw [Nat.mod_eq_of_lt h]
  omega

/-! ## Counts -/

/-- The counts are right when the references `held` are added, and open descriptors have inodes. -/
structure Counted (tab : Fin OFTSIZE → Oft) (files : Fin UFTSIZE → Byte)
    (held : Multiset (Fin OFTSIZE)) : Prop where
  count : ∀ i, (tab i).oRefs.toNat = refs files (oftByte i) + held.count i
  opened : ∀ j, ¬ isClosed (files j) → ∃ i, files j = oftByte i ∧ (tab i).oInode ≠ none

namespace Counted

variable {tab tab' : Fin OFTSIZE → Oft} {files : Fin UFTSIZE → Byte} {held : Multiset (Fin OFTSIZE)}
  {i : Fin OFTSIZE} {j : Fin UFTSIZE} {x : Byte}

/-- Only the counts matter, and that there is an inode. -/
lemma congr (h : Counted tab files held) (count : ∀ i, (tab' i).oRefs = (tab i).oRefs)
    (inode : ∀ i, (tab i).oInode ≠ none → (tab' i).oInode ≠ none) : Counted tab' files held where
  count i := by rw [count i, h.count i]
  opened j hj := by
    obtain ⟨i, hi, some⟩ := h.opened j hj
    exact ⟨i, hi, inode i some⟩

/-- A descriptor is closed, and its reference is held. -/
lemma close (h : Counted tab files held) (hj : files j = oftByte i) (hx : isClosed x) :
    Counted tab (Function.update files j x) (i ::ₘ held) where
  count i' := by
    have e := refs_update (f := files) (j := j) (x := x) (y := oftByte i')
    have ne : x ≠ oftByte i' := fun e => not_isClosed_oftByte (e ▸ hx)
    rw [if_neg ne, hj, Nat.add_zero] at e
    rw [h.count, ← e, Multiset.count_cons]
    by_cases same : i' = i
    · rw [if_pos same, if_pos (by rw [same])]
      omega
    · rw [if_neg same, if_neg fun e => same (oftByte_injective e).symm]
      omega
  opened j' hj' := by
    by_cases same : j' = j
    · rw [same, Function.update_self] at hj'
      exact absurd hx hj'
    · rw [Function.update_of_ne same] at hj' ⊢
      exact h.opened j' hj'

/-- A closed descriptor takes over a reference that is held. -/
lemma enter (h : Counted tab files (i ::ₘ held)) (hj : isClosed (files j)) (inode : (tab i).oInode ≠ none) :
    Counted tab (Function.update files j (oftByte i)) held where
  count i' := by
    have e := refs_update (f := files) (j := j) (x := oftByte i) (y := oftByte i')
    have ne : files j ≠ oftByte i' := fun e => not_isClosed_oftByte (e ▸ hj)
    rw [if_neg ne, Nat.add_zero] at e
    rw [h.count, e, Multiset.count_cons]
    by_cases same : i' = i
    · rw [if_pos same, if_pos (by rw [same])]
      omega
    · rw [if_neg same, if_neg fun e => same (oftByte_injective e).symm]
      omega
  opened j' hj' := by
    by_cases same : j' = j
    · rw [same, Function.update_self]
      exact ⟨i, rfl, inode⟩
    · rw [Function.update_of_ne same] at hj' ⊢
      exact h.opened j' hj'

/-- A closed descriptor stays closed. -/
lemma reset (h : Counted tab files held) (hj : isClosed (files j)) (hx : isClosed x) :
    Counted tab (Function.update files j x) held where
  count i := by
    have e := refs_update (f := files) (j := j) (x := x) (y := oftByte i)
    rw [if_neg fun e => not_isClosed_oftByte (e ▸ hj), if_neg fun e => not_isClosed_oftByte (e ▸ hx)] at e
    rw [h.count]
    omega
  opened j' hj' := by
    by_cases same : j' = j
    · rw [same, Function.update_self] at hj'
      exact absurd hx hj'
    · rw [Function.update_of_ne same] at hj' ⊢
      exact h.opened j' hj'

/-- An entry without references has neither descriptors nor held references. -/
lemma free (h : Counted tab files held) (hi : (tab i).oRefs = 0) :
    (∀ j, files j ≠ oftByte i) ∧ held.count i = 0 := by
  have e := h.count i
  rw [hi] at e
  have zero : (0 : Byte).toNat = 0 := rfl
  refine ⟨fun j hj => ?_, by omega⟩
  have pos := refs_pos hj
  omega

/-- An entry changes its count by a held reference. -/
lemma move {m : Multiset (Fin OFTSIZE)} {o : Oft} (h : Counted tab files held)
    (count : o.oRefs.toNat + held.count i = (tab i).oRefs.toNat + m.count i)
    (others : ∀ i', i' ≠ i → m.count i' = held.count i')
    (inode : (∃ j, files j = oftByte i) → (tab i).oInode ≠ none → o.oInode ≠ none) :
    Counted (Function.update tab i o) files m where
  count i' := by
    by_cases same : i' = i
    · subst same
      have e := h.count i'
      rw [Function.update_self]
      omega
    · rw [Function.update_of_ne same, others i' same, h.count]
  opened j hj := by
    obtain ⟨i', hi', some⟩ := h.opened j hj
    refine ⟨i', hi', ?_⟩
    by_cases same : i' = i
    · subst same
      rw [Function.update_self]
      exact inode ⟨j, hi'⟩ some
    · rwa [Function.update_of_ne same]

end Counted

/-- The entries of these references keep their inodes. -/
def InodesStay (held : Multiset (Fin OFTSIZE)) (tab tab' : Fin OFTSIZE → Oft) : Prop :=
  ∀ i ∈ held, (tab i).oInode ≠ none → (tab' i).oInode ≠ none

namespace InodesStay

variable {tab tab' tab'' : Fin OFTSIZE → Oft} {held : Multiset (Fin OFTSIZE)} {i : Fin OFTSIZE}

/-- The same inodes. -/
lemma refl : InodesStay held tab tab := fun _ _ => id

/-- The inodes stay, twice. -/
lemma trans (h : InodesStay held tab tab') (h' : InodesStay held tab' tab'') : InodesStay held tab tab'' :=
  fun i mem some => h' i mem (h i mem some)

/-- Fewer entries are held. -/
lemma of_cons (h : InodesStay (i ::ₘ held) tab tab') : InodesStay held tab tab' :=
  fun i' mem => h i' (Multiset.mem_cons_of_mem mem)

/-- One entry changes, and keeps its inode if it has references. -/
lemma update {o : Oft} (h : i ∈ held → (tab i).oInode ≠ none → o.oInode ≠ none) :
    InodesStay held tab (Function.update tab i o) := by
  intro i' mem some
  by_cases same : i' = i
  · subst same
    rw [Function.update_self]
    exact h mem some
  · rwa [Function.update_of_ne same]

end InodesStay

/-! ## The tables -/

variable {s : Kernel} {files : Fin UFTSIZE → Byte} {held : Multiset (Fin OFTSIZE)} {i : Fin OFTSIZE}

/-- The kernel with another open file table entry at `of`. -/
def Kernel.setOft (s : Kernel) (of : Fin OFTSIZE) (o : Oft) : Kernel :=
  { s with ofTab := Function.update s.ofTab of o }

/-- The entry that has been set. -/
@[simp] lemma Kernel.ofTab_setOft {of : Fin OFTSIZE} {o : Oft} : (s.setOft of o).ofTab of = o :=
  Function.update_self ..

/-- A change of an entry. -/
lemma wp_modifyOft {of : Fin OFTSIZE} {f : Oft → Oft} {Q : PUnit → Kernel → Prop} {E : Panic → Prop} :
    wp (modifyOft of f) Q E s ↔ Q ⟨⟩ (s.setOft of (f (s.ofTab of))) := Iff.rfl

/-- The kernel with another value of descriptor `j`. -/
def Kernel.setFile (s : Kernel) (j : Fin UFTSIZE) (x : Byte) : Kernel :=
  s.withUdata { s.udata with uFiles := Function.update s.udata.uFiles j x }

/-- A change of a descriptor. -/
lemma wp_setFile {j : Fin UFTSIZE} {x : Byte} {Q : PUnit → Kernel → Prop} {E : Panic → Prop} :
    wp (setFile j x) Q E s ↔ Q ⟨⟩ (s.setFile j x) := Iff.rfl

/-- `oft_alloc` gives out an entry without references. -/
lemma wp_oftAlloc (h : Counted s.ofTab files held) :
    wp oftAlloc
      (fun r s' => s'.ofBss = s.ofBss ∧ s'.udata.uFiles = s.udata.uFiles ∧ InodesStay held s.ofTab s'.ofTab ∧
        match r with
        | some i => Counted s'.ofTab files (i ::ₘ held) ∧ (s.ofTab i).oRefs = 0
        | none => s'.ofTab = s.ofTab ∧ ∀ i, (s.ofTab i).oRefs ≠ 0)
      (fun _ => False) s := by
  unfold oftAlloc
  rw [wp_bind, wp_get]
  split
  · next j found =>
    have zero : (s.ofTab j).oRefs = 0 := by simpa using List.find?_some found
    obtain ⟨unused, free⟩ := h.free zero
    have inodes : InodesStay held s.ofTab (s.setOft j { s.ofTab j with oRefs := 1, oInode := none }).ofTab :=
      .update fun mem => absurd mem (Multiset.count_eq_zero.mp free)
    refine ⟨rfl, rfl, inodes, h.move ?_ (fun i ne => Multiset.count_cons_of_ne ne _) fun ⟨j', e⟩ => ?_, zero⟩
    · rw [Multiset.count_cons_self, free, zero]
      rfl
    · exact absurd e (unused j')
  · next missing =>
    refine ⟨rfl, rfl, .refl, rfl, fun i zero => ?_⟩
    have no := List.find?_eq_none.mp missing i (List.mem_finRange i)
    exact no (decide_eq_true zero)

/-- `oft_deref` gives up a reference. -/
lemma wp_oftDeref (h : Counted s.ofTab files (i ::ₘ held)) :
    wp (oftDeref i)
      (fun _ s' => Counted s'.ofTab files held ∧ s'.ofBss = s.ofBss ∧ s'.udata.uFiles = s.udata.uFiles ∧
        InodesStay held s.ofTab s'.ofTab)
      (fun _ => True) s := by
  unfold oftDeref
  have e := h.count i
  rw [Multiset.count_cons_self] at e
  have less : ((s.ofTab i).oRefs - 1).toNat = (s.ofTab i).oRefs.toNat - 1 := by
    rw [BitVec.toNat_sub_of_le (by rw [BitVec.le_def]; show 1 ≤ _; omega)]
    rfl
  have h₁ := h.move (i := i) (o := { s.ofTab i with oRefs := (s.ofTab i).oRefs - 1 }) (m := held) (by
    rw [less, Multiset.count_cons_self]
    omega) (fun i' ne => (Multiset.count_cons_of_ne ne held).symm) fun _ some => some
  rw [wp_bind, wp_modifyOft, wp_bind, wp_get, wp_ite]
  generalize hs : s.setOft i { s.ofTab i with oRefs := (s.ofTab i).oRefs - 1 } = s₁
  have tab : s₁.ofTab = Function.update s.ofTab i { s.ofTab i with oRefs := (s.ofTab i).oRefs - 1 } :=
    hs ▸ rfl
  have bss : s₁.ofBss = s.ofBss := hs ▸ rfl
  have same : s₁.udata.uFiles = s.udata.uFiles := hs ▸ rfl
  have inodes : InodesStay held s.ofTab s₁.ofTab := tab ▸ .update fun _ some => some
  rw [← tab] at h₁
  split
  · next zero =>
    split
    · exact ⟨h₁, bss, same, inodes⟩
    · next ino hino =>
      -- the entry is free: no descriptor is left that could miss its inode
      rw [wp_bind]
      refine wp_post (Quiet.iDeref (R := SameFiles) s₁) fun _ s₂ keeps => ?_
      rw [wp_modifyOft]
      have h₂ : Counted s₂.ofTab files held := keeps.1 ▸ h₁
      have zero₂ : (s₂.ofTab i).oRefs = 0 := keeps.1 ▸ zero
      obtain ⟨none, free⟩ := h₂.free zero₂
      refine ⟨h₂.move rfl (fun _ _ => rfl) fun ⟨j, hj⟩ => absurd hj (none j), ?_, ?_, ?_⟩
      · exact keeps.2.1.trans bss
      · exact keeps.2.2.trans same
      · rw [← keeps.1] at inodes
        exact inodes.trans (.update fun mem => absurd mem (Multiset.count_eq_zero.mp free))
  · exact ⟨h₁, bss, same, inodes⟩

/-- `uf_alloc` gives out a closed descriptor. -/
lemma wp_ufAlloc :
    wp ufAlloc
      (fun r s' => SameFiles s s' ∧
        match r with
        | some j => isClosed (s.udata.uFiles j)
        | none => ∀ j, ¬ isClosed (s.udata.uFiles j))
      (fun _ => False) s := by
  unfold ufAlloc
  rw [wp_bind, wp_get]
  split
  · next j found =>
    have closed : s.udata.closed j = true := by simpa using List.find?_some found
    exact ⟨⟨rfl, rfl, rfl⟩, closed_iff.mp closed⟩
  · next missing =>
    refine ⟨⟨rfl, rfl, rfl⟩, fun j closed => ?_⟩
    exact List.find?_eq_none.mp missing j (List.mem_finRange j) (closed_iff.mpr closed)

/-- An `int16` is a descriptor if and only if it is below `UFTSIZE` as an unsigned number. -/
lemma descriptor_iff {d : Word} : (d.toInt < 0 ∨ (UFTSIZE : Int) ≤ d.toInt) ↔ ¬ d.toNat < UFTSIZE := by
  have lt := d.isLt
  simp only [UFTSIZE, BitVec.toInt_eq_toNat_cond]
  split <;> omega

/-- The entry of an open descriptor. -/
lemma file_eq {u : UData} {d : Word} (h : d.toNat < UFTSIZE) : u.file d = u.uFiles (descriptor d) := by
  rw [UData.file, dif_pos h]
  congr 1
  exact Fin.ext (Nat.mod_eq_of_lt h).symm

/-- What `getinode` has checked when it gives an inode, and when it does not. -/
lemma wp_getinode {d : Word} :
    wp (getinode d)
      (fun r s' => SameFiles s s' ∧
        match r with
        | some _ => d.toNat < UFTSIZE ∧ s.udata.uFiles (descriptor d) = oftByte (s.udata.ofIndex d) ∧
          (s.ofTab (s.udata.ofIndex d)).oInode ≠ none
        | none => d.toNat < UFTSIZE → isClosed (s.udata.uFiles (descriptor d)))
      (fun _ => True) s := by
  unfold getinode
  rw [wp_bind, wp_get, wp_ite]
  split
  · next invalid =>
    rw [← or_assoc, descriptor_iff] at invalid
    refine ⟨⟨rfl, rfl, rfl⟩, fun lt => ?_⟩
    cases invalid with
    | inl beyond => exact absurd lt beyond
    | inr closed => rwa [file_eq lt] at closed
  · next valid =>
    rw [← or_assoc, descriptor_iff, not_or, not_not] at valid
    have lt := valid.1
    rw [wp_ite]
    split
    · trivial
    · next index =>
      rw [not_not] at index
      split
      · trivial
      · next ino hino =>
        rw [wp_bind]
        refine wp_post (Quiet.magic (R := SameFiles) s) fun _ s' keeps => ⟨keeps, lt, ?_, ?_⟩
        · rw [← file_eq lt, UData.ofIndex, oftByte_ofIndex index]
        · rw [hino]
          exact Option.some_ne_none ino

/-- `doclose` closes an open descriptor and gives up its reference. -/
lemma wp_doclose {d : Word} (h : Counted s.ofTab s.udata.uFiles held) :
    wp (doclose d)
      (fun _ s' => Counted s'.ofTab s'.udata.uFiles held ∧ s'.ofBss = s.ofBss ∧
        InodesStay held s.ofTab s'.ofTab ∧
        (s'.udata.uFiles = s.udata.uFiles ∧ (d.toNat < UFTSIZE → isClosed (s.udata.uFiles (descriptor d))) ∨
          s'.udata.uFiles = Function.update s.udata.uFiles (descriptor d) 0xff))
      (fun _ => True) s := by
  unfold doclose
  rw [wp_bind]
  refine wp_post (wp_getinode (s := s)) fun r s₁ ⟨keeps, checked⟩ => ?_
  obtain ⟨tab, bss, same⟩ := keeps
  cases r with
  | none => exact ⟨by rwa [tab, same], bss, tab ▸ .refl, .inl ⟨same, checked⟩⟩
  | some ino =>
    obtain ⟨-, file, -⟩ := checked
    have index : s₁.udata.ofIndex d = s.udata.ofIndex d := by
      unfold UData.ofIndex UData.file
      rw [same]
    have rest : ∀ s₂, SameFiles s s₂ → wp (do
        setFile (descriptor d) 0xff
        oftDeref (s.udata.ofIndex d)
        pure (0 : Word))
        (fun _ s' => Counted s'.ofTab s'.udata.uFiles held ∧ s'.ofBss = s.ofBss ∧
          InodesStay held s.ofTab s'.ofTab ∧
          (s'.udata.uFiles = s.udata.uFiles ∧
              (d.toNat < UFTSIZE → isClosed (s.udata.uFiles (descriptor d))) ∨
            s'.udata.uFiles = Function.update s.udata.uFiles (descriptor d) 0xff))
        (fun _ => True) s₂ := by
      rintro s₂ ⟨tab₂, bss₂, same₂⟩
      have closed := h.close file isClosed_minus_one
      rw [wp_bind, wp_setFile, wp_bind]
      rw [← tab₂] at closed
      refine wp_post (wp_oftDeref (s := s₂.setFile _ _) closed) fun _ s₃ done => ?_
      obtain ⟨h₃, bss₃, same₃, inodes₃⟩ := done
      have files₃ : s₃.udata.uFiles = Function.update s.udata.uFiles (descriptor d) 0xff := by
        rw [same₃, ← same₂]
        rfl
      exact ⟨files₃ ▸ h₃, bss₃.trans bss₂, tab₂ ▸ inodes₃, .inr files₃⟩
    rw [wp_bind, wp_get, index]
    rw [wp_ite]
    split
    · rw [wp_bind]
      refine wp_post (Quiet.dClose (R := SameFiles) s₁) fun _ s₂ keeps => rest s₂ ?_
      exact trans_of SameFiles ⟨tab, bss, same⟩ keeps
    · exact rest s₁ ⟨tab, bss, same⟩

end Uzi
