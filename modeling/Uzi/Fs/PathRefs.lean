import Uzi.Fs.Footprint
import Mathlib.Algebra.Order.Group.Multiset

/-!
# The references of a path search

`n_open` carries references along in two pointers: `Kernel.Holding s₀ s l` says that the counts are those of
`s₀` and one more for every pointer in `l`. Every step of `n_open` moves a reference, and at its exits the
pointers are what it returns. Nothing is asked of the directories and of the mount table.
-/

namespace Uzi
open Exec

/-- The references of the in-core inodes are the same. -/
def SameRefs (s s' : Kernel) : Prop := ∀ i, (s'.iTab i).cRefs = (s.iTab i).cRefs

instance : IsPreorder Kernel SameRefs where
  refl _ _ := rfl
  trans _ _ _ h h' i := (h' i).trans (h i)

/-- A change of a node that keeps its count. -/
lemma SameRefs.setInode {s : Kernel} {ino : Inoptr} {c : Cinode} (h : c.cRefs = (s.iTab ino).cRefs) :
    SameRefs s (s.setInode ino c) := by
  intro i
  by_cases e : i = ino
  · rw [e, Kernel.iTab_setInode]
    exact h
  · rw [Kernel.iTab_setInode_of_ne e]

instance : Filling SameRefs where
  bufs _ _ _ := rfl
  fsTab _ _ _ _ _ := rfl
  error _ _ _ := rfl
  file _ _ _ h := .setInode h.refs
  nodes _ _ _ h := .setInode h
  next _ _ _ := rfl
  wakes _ _ _ := rfl
  transfer _ _ _ _ _ _ _ := rfl
  ptab _ _ _ := rfl

/-- The counts are those of `s₀`, and one more for every pointer in `l`. -/
def Kernel.Carries (s₀ s : Kernel) (l : Multiset Inoptr) : Prop :=
  ∀ i, (s.iTab i).cRefs = (s₀.iTab i).cRefs + (l.count i : Byte)

/-- A pointer with a reference is found without one only when there were 254 before. -/
def Kernel.Crowded (s₀ : Kernel) (e : Panic) : Prop := e = .inodeFreed → ∃ i, 254 ≤ (s₀.iTab i).cRefs.toNat

instance {s₀ : Kernel} : Halting s₀.Crowded where
  halt h e := by
    rw [e] at h
    cases h

/-- The pointers that a function returns. -/
def pointers : Option Inoptr → Multiset Inoptr
  | none => 0
  | some p => {p}

/-- No pointer owns nothing. -/
lemma pointers_none {l : Multiset Inoptr} : pointers none + l = l := zero_add l

/-- A pointer owns its inode. -/
lemma pointers_some {p : Inoptr} {l : Multiset Inoptr} : pointers (some p) + l = p ::ₘ l := Multiset.singleton_add p l

namespace Kernel.Carries

variable {s₀ s s' : Kernel} {l : Multiset Inoptr} {p : Inoptr}

/-- Nothing is taken at the beginning. -/
lemma start : s.Carries s 0 := by
  intro i
  rw [Multiset.count_zero, Nat.cast_zero, add_zero]

/-- What leaves the counts. -/
lemma same (h : s₀.Carries s l) (r : SameRefs s s') : s₀.Carries s' l := fun i => (r i).trans (h i)

/-- One more reference is taken. -/
lemma add {c : Cinode} (h : s₀.Carries s l) (e : c.cRefs = (s.iTab p).cRefs + 1) :
    s₀.Carries (s.setInode p c) (p ::ₘ l) := by
  intro i
  by_cases same : i = p
  · rw [same, Kernel.iTab_setInode, e, h p, Multiset.count_cons_self, Nat.cast_succ, add_assoc]
  · rw [Kernel.iTab_setInode_of_ne same, h i, Multiset.count_cons_of_ne same]

/-- A reference is given back. -/
lemma drop {c : Cinode} (h : s₀.Carries s (p ::ₘ l)) (e : c.cRefs = (s.iTab p).cRefs - 1) :
    s₀.Carries (s.setInode p c) l := by
  intro i
  by_cases same : i = p
  · rw [same, Kernel.iTab_setInode, e, h p, Multiset.count_cons_self, Nat.cast_succ, ← add_assoc,
      add_sub_cancel_right]
  · rw [Kernel.iTab_setInode_of_ne same, h i, Multiset.count_cons_of_ne same]

/-- The count of a pointer that is carried is not 0. -/
lemma crowded (h : s₀.Carries s (p ::ₘ l)) (few : l.card ≤ 1) (zero : (s.iTab p).cRefs = 0) :
    254 ≤ (s₀.iTab p).cRefs.toNat := by
  have sum := congrArg BitVec.toNat ((h p).symm.trans zero)
  have count : l.count p ≤ 1 := (Multiset.count_le_card p l).trans few
  have cast : ((Multiset.count p (p ::ₘ l) : Nat) : Byte).toNat = l.count p + 1 := by
    rw [Multiset.count_cons_self, BitVec.natCast_eq_ofNat, BitVec.toNat_ofNat]
    exact Nat.mod_eq_of_lt (by omega)
  have lt := (s₀.iTab p).cRefs.isLt
  rw [BitVec.toNat_add, cast] at sum
  have none : (0 : Byte).toNat = 0 := rfl
  omega

/-- Code that leaves the references alone. -/
lemma within {α : Type} {c : K α} {E : Panic → Prop} (h : s₀.Carries s l) (w : Within SameRefs E c) :
    wp c (fun _ s' => s₀.Carries s' l) E s :=
  wp_post (w s) fun _ _ => h.same

/-! ## References taken and given back -/

/-- `i_ref` takes a reference. -/
lemma wp_iRef (h : s₀.Carries s l) : wp (iRef p) (fun _ s' => s₀.Carries s' (p ::ₘ l)) s₀.Crowded s := by
  unfold iRef
  rw [wp_bind, wp_modifyInode]
  exact (h.add rfl).within (.bind .get fun _ => .ite (.throw (Halting.halt rfl)) .pure)

/-- `i_deref` gives a reference back. -/
lemma wp_iDeref (h : s₀.Carries s (p ::ₘ l)) (few : l.card ≤ 1) :
    wp (iDeref p) (fun _ s' => s₀.Carries s' l) s₀.Crowded s := by
  unfold iDeref
  rw [wp_bind]
  refine wp_post (h.within Quiet.magic) fun _ s₁ h₁ => ?_
  rw [wp_bind, wp_get, wp_ite]
  split
  · next zero => exact fun _ => ⟨p, h₁.crowded few zero⟩
  · have wake : Within SameRefs s₀.Crowded (wakeup (.inode p)) := .modify fun s => Counting.wakes s p
    rw [wp_bind, wp_get]
    refine wp_when (fun s' => s₀.Carries s' (p ::ₘ l)) (fun _ => h₁.within wake) (fun _ => h₁) fun s₂ h₂ => ?_
    rw [wp_bind, wp_modifyInode]
    -- the rest writes the inode
    refine (h₂.drop rfl).within (.bind .get fun _ => .when Quiet.fTrunc fun _ => .bind .get fun _ => .ite ?_ .pure)
    exact .ite (.bind (Quiet.modifyNode fun _ => rfl) fun _ => .bind Quiet.iFree fun _ => Quiet.wrInode) Quiet.wrInode

/-- `i_open` takes a reference of what it returns. -/
lemma wp_iOpenFound {new : Bool} (h : s₀.Carries s l) :
    wp (iOpenFound p new) (fun r s' => s₀.Carries s' (pointers r + l)) s₀.Crowded s := by
  have taken : s₀.Carries (s.setInode p { s.iTab p with cRefs := (s.iTab p).cRefs + 1 }) (pointers (some p) + l) := by
    rw [pointers_some]
    exact h.add rfl
  unfold iOpenFound
  simp only [wp_bind, wp_get, wp_ite, wp_pure, wp_modifyInode]
  split
  · split
    · rwa [pointers_none]
    · exact taken
  · split
    · rwa [pointers_none]
    · exact taken

/-- `iOpenAt` takes what it returns. -/
lemma wp_iOpenAt {dev : Nat} {num : Word} {new : Bool} (h : s₀.Carries s l) :
    wp (iOpenAt dev num new) (fun r s' => s₀.Carries s' (pointers r + l)) s₀.Crowded s := by
  unfold iOpenAt
  rw [wp_bind, wp_get, wp_ite]
  split
  · rwa [wp_pure, pointers_none]
  · rw [wp_bind]
    refine wp_post (h.within Quiet.iSearch) fun r s₁ h₁ => ?_
    split
    · exact h₁.wp_iOpenFound
    · rw [wp_bind]
      refine wp_post (h₁.within Quiet.setError) fun _ s₂ h₂ => ?_
      rwa [wp_pure, pointers_none]
    · rw [wp_bind]
      refine wp_post (h₁.within Quiet.breadPtr) fun _ s₂ h₂ => ?_
      rw [wp_bind, wp_get, wp_bind]
      refine wp_post (h₂.within (Quiet.modifyNode fun _ => rfl)) fun _ s₃ h₃ => ?_
      rw [wp_bind]
      refine wp_post (h₃.within Quiet.brelse) fun _ s₄ h₄ => ?_
      rw [wp_bind]
      exact wp_post (h₄.within (Quiet.modifyNode fun _ => rfl)) fun _ s₅ h₅ => h₅.wp_iOpenFound

/-- `i_open` takes what it returns. -/
lemma wp_iOpen {dev : Nat} {num : Word} (h : s₀.Carries s l) :
    wp (iOpen dev num) (fun r s' => s₀.Carries s' (pointers r + l)) s₀.Crowded s := by
  unfold iOpen
  rw [wp_ite]
  split
  · exact Halting.halt (E := s₀.Crowded) rfl
  · rw [wp_ite]
    split
    · rw [wp_bind]
      refine wp_post (h.within Quiet.iAlloc) fun b s₁ h₁ => ?_
      rw [wp_ite]
      split
      · rw [wp_bind]
        refine wp_post (h₁.within Quiet.setError) fun _ s₂ h₂ => ?_
        rwa [wp_pure, pointers_none]
      · exact h₁.wp_iOpenAt
    · exact h.wp_iOpenAt

/-! ## The search of a path -/

/-- `srch_dir` opens what it finds. -/
lemma wp_srchBlocks {wd : Inoptr} {name : Nat → Byte} {wraps : Bool} {n : Nat} {cur : Word} (h : s₀.Carries s l) :
    wp (srchBlocks wd name wraps n cur) (fun r s' => s₀.Carries s' (pointers r + l)) s₀.Crowded s := by
  induction n generalizing s cur with
  | zero =>
    unfold srchBlocks
    rw [wp_ite]
    split
    · exact Halting.halt (E := s₀.Crowded) rfl
    · rwa [wp_pure, pointers_none]
  | succ n ih =>
    unfold srchBlocks
    rw [wp_bind]
    refine wp_post (h.within Quiet.bmap) fun _ s₁ h₁ => ?_
    rw [wp_bind, wp_get, wp_bind]
    refine wp_post (h₁.within Quiet.breadPtr) fun _ s₂ h₂ => ?_
    rw [wp_bind, wp_get]
    split
    · rw [wp_bind]
      refine wp_post (h₂.within Quiet.brelse) fun _ s₃ h₃ => ?_
      rw [wp_bind, wp_get]
      exact h₃.wp_iOpen
    · rw [wp_bind]
      exact wp_post (h₂.within Quiet.brelse) fun _ s₃ h₃ => ih h₃

/-- `srch_dir` takes what it returns. -/
lemma wp_srchDir {wd : Inoptr} {name : Nat → Byte} (h : s₀.Carries s l) :
    wp (srchDir wd name) (fun r s' => s₀.Carries s' (pointers r + l)) s₀.Crowded s := by
  unfold srchDir
  rw [wp_bind, wp_get]
  split
  · exact h.wp_srchBlocks
  · exact h.wp_srchBlocks

/-- A mount point is given back for the root of what is mounted there. -/
lemma wp_throughMount {ninode : Option Inoptr} (h : s₀.Carries s (pointers ninode + l)) (few : l.card ≤ 1) :
    wp (throughMount ninode) (fun r s' => s₀.Carries s' (pointers r + l)) s₀.Crowded s := by
  cases ninode with
  | none => exact h
  | some p =>
    unfold throughMount srchMt
    rw [wp_bind]
    refine wp_post (h.within Quiet.magic) fun _ s₁ h₁ => ?_
    rw [wp_bind, wp_get]
    split
    · rw [pointers_some] at h₁
      rw [wp_bind]
      exact wp_post (h₁.wp_iDeref few) fun _ s₂ h₂ => h₂.wp_iOpen
    · exact h₁

/-- The root of a mounted device is given back for its mount point. -/
lemma wp_upMount {wd : Inoptr} {name : Nat → Byte} (h : s₀.Carries s {wd}) :
    wp (upMount name wd) (fun r s' => s₀.Carries s' {r}) s₀.Crowded s := by
  unfold upMount
  rw [wp_bind, wp_get, wp_ite]
  split
  · split
    · exact Halting.halt (E := s₀.Crowded) rfl
    · next temp _ =>
      rw [wp_bind, wp_modifyInode, wp_bind]
      have both := h.add (p := temp) (c := { s.iTab temp with cRefs := (s.iTab temp).cRefs + 1 }) rfl
      rw [show ({wd} : Multiset Inoptr) = wd ::ₘ 0 from rfl, Multiset.cons_swap] at both
      exact wp_post (both.wp_iDeref (Nat.le_of_eq (Multiset.card_singleton temp))) fun _ s₂ h₂ => h₂
  · exact h

/-- What `n_open` returns. -/
lemma wp_nOpenEnd {parent : Bool} {wd : Inoptr} {ninode : Option Inoptr} (h : s₀.Carries s (pointers ninode + {wd})) :
    wp (nOpenEnd parent wd ninode) (fun r s' => s₀.Carries s' (pointers r.1 + pointers r.2)) s₀.Crowded s := by
  unfold nOpenEnd
  rw [wp_ite]
  split
  · exact h
  · rw [add_comm, Multiset.singleton_add] at h
    have few : (pointers ninode).card ≤ 1 := by
      cases ninode with
      | none => exact Nat.zero_le 1
      | some p => exact Nat.le_refl 1
    rw [wp_bind]
    refine wp_post (h.wp_iDeref few) fun _ s₁ h₁ => ?_
    have done : ∀ s₂, s₀.Carries s₂ (pointers ninode) → s₀.Carries s₂ (pointers ninode + pointers none) := by
      intro s₂ h₂
      rwa [add_comm, pointers_none]
    refine wp_when (fun s₂ => s₀.Carries s₂ (pointers ninode)) (fun _ => h₁.within Quiet.setError) (fun _ => h₁) ?_
    exact done

/-- A name without a directory takes what it returns. -/
lemma wp_nOpenNodir {wd : Inoptr} (h : s₀.Carries s {wd}) :
    wp (nOpenNodir wd) (fun r s' => s₀.Carries s' (pointers r.1 + pointers r.2)) s₀.Crowded s := by
  unfold nOpenNodir
  rw [wp_bind]
  exact wp_post (h.wp_iDeref (l := 0) (Nat.zero_le 1)) fun _ s₁ h₁ => h₁

/-- The loop of `n_open` carries a reference for each of its pointers. -/
lemma wp_nOpenLoop {name : CStr} {parent : Bool} {rounds i : Nat} {wd : Inoptr} {ninode : Option Inoptr}
    (h : s₀.Carries s (pointers ninode + {wd})) :
    wp (nOpenLoop name parent rounds wd ninode i)
      (fun r s' => s₀.Carries s' (pointers r.1 + pointers r.2)) s₀.Crowded s := by
  induction rounds generalizing s wd ninode i with
  | zero => exact Halting.halt (E := s₀.Crowded) rfl
  | succ rounds ih =>
    unfold nOpenLoop
    rw [wp_bind]
    refine wp_post (h.wp_throughMount (Nat.le_of_eq (Multiset.card_singleton wd))) fun ninode s₁ h₁ => ?_
    rw [wp_ite]
    split
    · exact h₁.wp_nOpenEnd
    · cases ninode with
      | none =>
        rw [pointers_none] at h₁
        rw [wp_bind]
        exact wp_post (h₁.within Quiet.setError) fun _ s₂ h₂ => h₂.wp_nOpenNodir
      | some p =>
        -- the pointer to the directory takes over the reference of the other
        rw [add_comm, Multiset.singleton_add] at h₁
        rw [wp_bind]
        refine wp_post (h₁.wp_iDeref (Nat.le_of_eq (Multiset.card_singleton p))) fun _ s₂ h₂ => ?_
        have h₂ : s₀.Carries s₂ {p} := h₂
        rw [wp_bind, wp_get, wp_ite]
        split
        · rw [wp_bind]
          exact wp_post (h₂.within Quiet.setError) fun _ s₃ h₃ => h₃.wp_nOpenNodir
        · rw [wp_ite]
          split
          · rw [wp_bind]
            exact wp_post (h₂.within Quiet.setError) fun _ s₃ h₃ => h₃.wp_nOpenNodir
          · rw [wp_bind]
            refine wp_post h₂.wp_upMount fun wd s₃ h₃ => ?_
            rw [wp_bind]
            exact wp_post h₃.wp_srchDir fun ninode s₄ h₄ => ih h₄

/-- `n_open` takes what it returns. -/
lemma wp_nOpen {name : CStr} {parent : Bool} :
    wp (nOpen name parent) (fun r s' => s.Carries s' (pointers r.1 + pointers r.2)) s.Crowded s := by
  unfold nOpen
  rw [wp_bind, wp_get, wp_bind]
  refine wp_post start.wp_iRef fun _ s₁ h₁ => ?_
  rw [wp_bind]
  exact wp_post h₁.wp_iRef fun _ s₂ h₂ => h₂.wp_nOpenLoop

end Kernel.Carries

/-! ## The inode alone -/

section Alone

variable {s : Kernel} {name : CStr} {wd : Inoptr} {ninode : Option Inoptr}

/-- A name without a directory: no parent is returned. -/
lemma alone_nOpenNodir : wp (nOpenNodir wd) (fun r _ => r.2 = none) (fun _ => True) s := by
  unfold nOpenNodir
  rw [wp_bind]
  exact wp_post wp_true fun _ _ _ => rfl

/-- The end of a path: no parent is returned. -/
lemma alone_nOpenEnd : wp (nOpenEnd false wd ninode) (fun r _ => r.2 = none) (fun _ => True) s := by
  unfold nOpenEnd
  rw [wp_ite, if_neg Bool.false_ne_true, wp_bind]
  refine wp_post wp_true fun _ s₁ _ => ?_
  exact wp_when (fun _ => True) (fun _ => wp_true) (fun _ => trivial) fun _ _ => rfl

/-- The loop of `n_open` returns no parent to a caller that does not ask for it. -/
lemma alone_nOpenLoop {rounds i : Nat} :
    wp (nOpenLoop name false rounds wd ninode i) (fun r _ => r.2 = none) (fun _ => True) s := by
  induction rounds generalizing s wd ninode i with
  | zero => exact trivial
  | succ rounds ih =>
    have nodir : ∀ e wd s, wp (do setError e; nOpenNodir wd) (fun r _ => r.2 = none) (fun _ => True) s := by
      intro e wd s
      rw [wp_bind]
      exact wp_post wp_true fun _ _ _ => alone_nOpenNodir
    unfold nOpenLoop
    rw [wp_bind]
    refine wp_post wp_true fun ninode s₁ _ => ?_
    rw [wp_ite]
    split
    · exact alone_nOpenEnd
    · cases ninode with
      | none => exact nodir _ wd s₁
      | some p =>
        rw [wp_bind]
        refine wp_post wp_true fun _ s₂ _ => ?_
        rw [wp_bind, wp_get, wp_ite]
        split
        · exact nodir _ p s₂
        · rw [wp_ite]
          split
          · exact nodir _ p s₂
          · rw [wp_bind]
            refine wp_post wp_true fun wd s₃ _ => ?_
            rw [wp_bind]
            exact wp_post wp_true fun ninode s₄ _ => ih

/-- No parent is returned to who has not asked for one. -/
lemma alone_nOpen : wp (nOpen name false) (fun r _ => r.2 = none) (fun _ => True) s := by
  unfold nOpen
  rw [wp_bind, wp_get, wp_bind]
  refine wp_post wp_true fun _ s₁ _ => ?_
  rw [wp_bind]
  exact wp_post wp_true fun _ s₂ _ => alone_nOpenLoop

end Alone

/-- `n_open` is balanced: it takes one reference for each inode that it returns, and leaves all other counts as
they were. The parent is returned only to a caller that asks for it. It gives no reference back that is not there,
unless an inode had 254 of them before. -/
theorem nOpen_balanced {s : Kernel} {name : CStr} {parent : Bool} :
    wp (nOpen name parent)
      (fun r s' => (∀ i, (s'.iTab i).cRefs = (s.iTab i).cRefs + ((pointers r.1 + pointers r.2).count i : Byte)) ∧
        (parent = false → r.2 = none))
      (fun e => e = .inodeFreed → ∃ i, 254 ≤ (s.iTab i).cRefs.toNat) s := by
  have counts : wp (nOpen name parent) (fun r s' => s.Carries s' (pointers r.1 + pointers r.2)) s.Crowded s :=
    Kernel.Carries.wp_nOpen
  cases parent with
  | true => exact wp_post counts fun r s' held => ⟨held, fun asked => absurd asked.symm Bool.false_ne_true⟩
  | false => exact wp_mono (counts.and alone_nOpen) (fun r s' h => ⟨h.1, fun _ => h.2⟩) fun e h => h.1

end Uzi
