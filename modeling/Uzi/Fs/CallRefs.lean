import Uzi.Exec.UserBuffer
import Uzi.Fs.InodeRefs
import Uzi.Fs.Links

/-!
# References of the system calls

The system calls take references for their own pointers, and hand them over to the tables or give them back. Four of
their exits do not: `_unlink` keeps the directory in which it has not found the file, `_link` the directory in which
`ch_link` has failed, and `_creat` and `_mknod` give up a directory once more that `newfile` has given up already. A
call that takes none of these exits leaves the references to be those of the tables.
-/

namespace Uzi
open Exec

variable {s s' : Kernel}

/-! ## Calls that look a name up -/

/-- `n_open` returns a parent where it is asked for one, unless it returns nothing. -/
structure Asked (parent : Bool) (r : Option Inoptr × Option Inoptr) : Prop where
  alone : parent = false → r.2 = none
  nothing : parent = true → r.2 = none → r.1 = none

/-- A name without a directory. -/
lemma nOpenNodir_asked {parent : Bool} {wd : Inoptr} :
    wp (nOpenNodir wd) (fun r _ => Asked parent r) (fun _ => True) s := by
  unfold nOpenNodir
  rw [wp_bind]
  exact wp_post wp_true fun _ _ _ => ⟨fun _ => rfl, fun _ _ => rfl⟩

/-- The end of a path. -/
lemma nOpenEnd_asked {parent : Bool} {wd : Inoptr} {ninode : Option Inoptr} :
    wp (nOpenEnd parent wd ninode) (fun r _ => Asked parent r) (fun _ => True) s := by
  unfold nOpenEnd
  cases parent with
  | true => exact ⟨nofun, fun _ none => absurd none (Option.some_ne_none wd)⟩
  | false =>
    rw [wp_ite, if_neg Bool.false_ne_true, wp_bind]
    refine wp_post wp_true fun _ s₂ _ => ?_
    refine wp_when (fun _ => True) (fun _ => wp_true) (fun _ => trivial) fun s₃ _ => ?_
    exact ⟨fun _ => rfl, nofun⟩

/-- The components of a path. -/
lemma nOpenLoop_asked {name : CStr} {parent : Bool} {rounds i : Nat} {wd : Inoptr} {ninode : Option Inoptr} :
    wp (nOpenLoop name parent rounds wd ninode i) (fun r _ => Asked parent r) (fun _ => True) s := by
  induction rounds generalizing s wd ninode i with
  | zero => exact trivial
  | succ rounds ih =>
    unfold nOpenLoop
    rw [wp_bind]
    refine wp_post wp_true fun ninode s₁ _ => ?_
    rw [wp_ite]
    split
    · exact nOpenEnd_asked
    · cases ninode with
      | none =>
        rw [wp_bind]
        exact wp_post wp_true fun _ s₂ _ => nOpenNodir_asked
      | some p =>
        rw [wp_bind]
        refine wp_post wp_true fun _ s₂ _ => ?_
        rw [wp_bind, wp_get, wp_ite]
        split
        · rw [wp_bind]
          exact wp_post wp_true fun _ s₃ _ => nOpenNodir_asked
        · rw [wp_ite]
          split
          · rw [wp_bind]
            exact wp_post wp_true fun _ s₃ _ => nOpenNodir_asked
          · rw [wp_bind]
            refine wp_post wp_true fun wd s₃ _ => ?_
            rw [wp_bind]
            exact wp_post wp_true fun ninode s₄ _ => ih

/-- The parent is returned to who has asked for it. -/
lemma nOpen_asked {name : CStr} {parent : Bool} :
    wp (nOpen name parent) (fun r _ => Asked parent r) (fun _ => True) s := by
  unfold nOpen
  rw [wp_bind, wp_get, wp_bind]
  refine wp_post wp_true fun _ s₁ _ => ?_
  rw [wp_bind]
  exact wp_post wp_true fun _ s₂ _ => nOpenLoop_asked

/-- There are few owners. -/
lemma few_owners : s.owners.card ≤ 30 := by
  have few := card_owners (s := s)
  omega

/-- There are few owners with one more. -/
lemma few_cons {p : Inoptr} : (p ::ₘ s.owners).card ≤ 30 := by
  have few := card_owners (s := s)
  rw [Multiset.card_cons]
  omega

/-- There are few owners with two more. -/
lemma few_consBoth {p q : Inoptr} : (p ::ₘ q ::ₘ s.owners).card ≤ 30 := by
  have few := card_owners (s := s)
  rw [Multiset.card_cons, Multiset.card_cons]
  omega

/-- The references are counted at the beginning. -/
lemma Kernel.RefsCounted.start (h : s.RefsCounted) : s.Bears s s.owners := .start h.refs

namespace Kernel.Bears

variable {s₀ : Kernel} {k : Multiset Inoptr} {p : Inoptr}

/-- A name is looked up. -/
lemma wp_lookup {name : CStr} (h : s₀.Bears s k) (few : k.card ≤ 30) :
    wp (nOpen name false) (fun r s' => s₀.Bears s' (pointers r.1 + k)) Balanced s := by
  refine wp_mono ((h.wp_nOpen few).and nOpen_asked) (fun r s' ⟨taken, asked⟩ => ?_) fun _ stops => stops.1
  rwa [asked.alone rfl, show pointers .none = 0 from rfl, add_zero] at taken

/-- A name is looked up together with its directory. -/
lemma wp_lookupParent {name : CStr} (h : s₀.Bears s k) (few : k.card ≤ 30) :
    wp (nOpen name true)
      (fun r s' => s₀.Bears s' (pointers r.1 + pointers r.2 + k) ∧ (r.2 = none → r.1 = none) ∧
        nOpen name true s = .ok (r, s'))
      Balanced s :=
  wp_mono ((h.wp_nOpen few).run.and nOpen_asked) (fun _ _ ⟨⟨taken, found⟩, asked⟩ => ⟨taken, asked.nothing rfl, found⟩)
    fun _ stops => stops.1

/-- The last pointer is given back. -/
lemma wp_giveBack {α : Type} {a : α} (inUse : s₀.InUse) (h : s₀.Bears s (p ::ₘ s₀.owners)) :
    wp (do iDeref p; pure a) (fun _ s' => s'.RefsCounted) Balanced s := by
  rw [wp_bind]
  exact wp_post (h.wp_iDeref few_owners) fun _ s₁ h₁ => h₁.refsCounted inUse

/-- Two pointers are given back. -/
lemma wp_giveBackBoth {α : Type} {a : α} {q : Inoptr} (inUse : s₀.InUse)
    (h : s₀.Bears s (p ::ₘ q ::ₘ s₀.owners)) :
    wp (do iDeref p; iDeref q; pure a) (fun _ s' => s'.RefsCounted) Balanced s := by
  rw [wp_bind]
  exact wp_post (h.wp_iDeref few_cons) fun _ s₁ h₁ => h₁.wp_giveBack inUse

end Kernel.Bears

/-- `_chmod`. -/
lemma wp_chmod {path : CStr} {mode : Word} (h : s.RefsCounted) :
    wp (_chmod path mode) (fun _ s' => s'.RefsCounted) Balanced s := by
  unfold _chmod
  rw [wp_bind]
  refine wp_post (h.start.wp_lookup few_owners) fun r s₁ h₁ => ?_
  obtain ⟨ino, parent⟩ := r
  cases ino with
  | none =>
    rw [pointers_none] at h₁
    exact h₁.refsCounted h.inUse
  | some ino =>
    rw [pointers_some] at h₁
    rw [wp_bind, wp_get, wp_ite]
    split
    · rw [wp_bind]
      refine wp_post (h₁.wp_iDeref few_owners) fun _ s₂ h₂ => ?_
      rw [wp_bind]
      exact wp_post h₂.wp_setError fun _ s₃ h₃ => h₃.refsCounted h.inUse
    · rw [wp_bind]
      refine wp_post (h₁.wp_modifyNode fun _ => rfl) fun _ s₂ h₂ => ?_
      rw [wp_bind]
      exact wp_post h₂.wp_setftime fun _ s₃ h₃ => h₃.wp_giveBack h.inUse

/-- A program that leaves the references and the tables alone. -/
lemma Kernel.RefsCounted.within {α : Type} {c : K α} (h : s.RefsCounted) (refs : Within SameRefs Balanced c)
    (tables : Within SameOwners (fun _ => True) c) : wp c (fun _ s' => s'.RefsCounted) Balanced s :=
  wp_post (h.start.within refs tables) fun _ _ h₁ => h₁.refsCounted h.inUse

/-- Other data than the tables. -/
lemma Kernel.RefsCounted.withUdata {u : UData} (h : s.RefsCounted) (cwd : u.uCwd = s.udata.uCwd) :
    (s.withUdata u).RefsCounted := by
  refine ⟨?_, h.inUse⟩
  have owners : (s.withUdata u).owners = s.owners := SameOwners.owners (.of_eq rfl rfl rfl cwd)
  rw [owners]
  exact h.refs

/-- The lookup of `_access` keeps the references. -/
lemma wp_accessBy {path : CStr} {mode : Word} (h : s.RefsCounted) :
    wp (accessBy path mode) (fun _ s' => s'.RefsCounted) Balanced s := by
  unfold accessBy
  rw [wp_bind]
  refine wp_post (h.start.wp_lookup few_owners) fun r s₁ h₁ => ?_
  obtain ⟨ino, parent⟩ := r
  cases ino with
  | none =>
    rw [pointers_none] at h₁
    exact h₁.refsCounted h.inUse
  | some ino =>
    rw [pointers_some] at h₁
    rw [wp_bind, wp_get]
    refine wp_when (fun s₂ => s.Bears s₂ (ino ::ₘ s.owners)) (fun _ => h₁.wp_setError) (fun _ => h₁) ?_
    exact fun s₂ h₂ => h₂.wp_giveBack h.inUse

/-- `_access`. -/
lemma wp_access {path : CStr} {mode : Word} (h : s.RefsCounted) :
    wp (_access path mode) (fun _ s' => s'.RefsCounted) Balanced s := by
  unfold _access
  rw [wp_ite]
  split
  · rw [wp_bind]
    exact h.within Quiet.setError Quiet.setError
  · rw [wp_bind, wp_get, wp_bind, wp_modifyUdata, wp_bind]
    refine wp_post (wp_accessBy (h.withUdata rfl)) fun retval s₁ h₁ => ?_
    rw [wp_bind, wp_modifyUdata]
    exact h₁.withUdata rfl

/-- `stcpy` writes to the memory of the process. -/
lemma within_stcpy {R : Kernel → Kernel → Prop} {E : Panic → Prop} [Filling R] {ino : Inoptr} {buf : Word} :
    Within R E (stcpy bcopy ino buf) := by
  have copy : ∀ (dest : Word) n f, Within R E (bcopy dest n f) := fun _ _ _ =>
    .modify fun s => Filling.transfer s s.udata.uBase s.udata.uCount s.udata.uOffset _ s.udata.uError
  exact .bind .get fun _ => .bind (copy _ _ _) fun _ => .bind (copy _ _ _) fun _ => copy _ _ _

/-- `_stat`. -/
lemma wp_stat {path : CStr} {buf : Word} (h : s.RefsCounted) :
    wp (_stat bcopy path buf) (fun _ s' => s'.RefsCounted) Balanced s := by
  have check : ∀ {R : Kernel → Kernel → Prop} {E : Panic → Prop} [Buffering R] [Halting E],
      Within R E (valadr buf SIZEOF_STAT) :=
    .bind .get fun _ => .ite (.bind Quiet.setError fun _ => .pure) .pure
  unfold _stat
  rw [wp_bind]
  refine wp_post (h.start.within check check) fun valid s₁ h₁ => ?_
  rw [wp_ite]
  split
  · rw [wp_bind]
    refine wp_post (h₁.wp_lookup few_owners) fun r s₂ h₂ => ?_
    obtain ⟨ino, parent⟩ := r
    cases ino with
    | none =>
      rw [pointers_none] at h₂
      exact h₂.refsCounted h.inUse
    | some ino =>
      rw [pointers_some] at h₂
      rw [wp_bind]
      exact wp_post (h₂.within within_stcpy within_stcpy) fun _ s₃ h₃ => h₃.wp_giveBack h.inUse
  · exact h₁.refsCounted h.inUse

/-- The current directory is one of the owners. -/
lemma owners_cwd : s.owners = s.udata.uCwd ::ₘ (s.opened + s.mounts + {s.root}) := by
  unfold Kernel.owners
  rw [← Multiset.add_cons, Multiset.pair_comm]
  rfl

/-- `_chdir` takes over the reference to the new directory, and gives the one to the old directory back. -/
lemma wp_chdir {dir : CStr} (h : s.RefsCounted) : wp (_chdir dir) (fun _ s' => s'.RefsCounted) Balanced s := by
  unfold _chdir
  rw [wp_bind]
  refine wp_post (h.start.wp_lookup few_owners) fun r s₁ h₁ => ?_
  obtain ⟨newcwd, parent⟩ := r
  cases newcwd with
  | none =>
    rw [pointers_none] at h₁
    exact h₁.refsCounted h.inUse
  | some newcwd =>
    rw [pointers_some] at h₁
    rw [wp_bind, wp_get, wp_ite]
    split
    · rw [wp_bind]
      exact wp_post h₁.wp_setError fun _ s₂ h₂ => h₂.wp_giveBack h.inUse
    · have few := few_cons (s := s) (p := newcwd)
      rw [owners_cwd, Multiset.cons_swap, Multiset.card_cons] at few
      rw [owners_cwd, Multiset.cons_swap, ← h₁.tables.cwd] at h₁
      rw [wp_bind]
      refine wp_post (h₁.wp_iDeref (by omega)) fun _ s₂ h₂ => ?_
      rw [wp_bind, wp_modifyUdata]
      refine ⟨?_, fun j => ?_⟩
      · have owners : (s₂.withUdata { s₂.udata with uCwd := newcwd }).owners =
            newcwd ::ₘ (s₂.opened + s₂.mounts + {s₂.root}) := owners_cwd
        rw [owners, h₂.tables.opened, h₂.tables.mounted, h₂.tables.root]
        exact h₂.refs
      · have ofTab : (s₂.withUdata { s₂.udata with uCwd := newcwd }).ofTab = s.ofTab := h₂.tables.ofTab
        rw [ofTab]
        exact h.inUse j

/-! ## Calls that make and remove names -/

/-- `_unlink` does not find the directory without the file. -/
def UnlinkClean (path : CStr) (s : Kernel) : Prop := ∀ pino s', nOpen path true s ≠ .ok ((none, some pino), s')

/-- `ch_link` does not fail in `_link`. -/
def LinkClean (name1 name2 : CStr) (s : Kernel) : Prop :=
  ∀ ino parent s₁, nOpen name1 false s = .ok ((some ino, parent), s₁) →
    ¬ ((s₁.iTab ino).getmode = F_DIR ∧ ¬ super s₁) →
    ∀ parent2 s₂, nOpen name2 true s₁ = .ok ((none, some parent2), s₂) →
    (s₂.iTab ino).cDev = (s₂.iTab parent2).cDev →
    ∀ s₃, chLink parent2 s₂.emptyName (fun k => name2.chr (filename name2 + k)) (some ino) s₂ ≠ .ok (false, s₃)

/-- A new file can be entered where its name is to be. -/
def NewfileClean (name : CStr) (s : Kernel) : Prop :=
  ∀ parent s₁, nOpen name true s = .ok ((none, some parent), s₁) → ∀ s₂, newfile parent name s₁ ≠ .ok (none, s₂)

/-- `newfile` does not fail in `_mknod`. -/
def MknodClean (name : CStr) (s : Kernel) : Prop := super s → NewfileClean name (s.withError .ok)

/-- `_unlink` keeps the references. -/
lemma wp_unlink {path : CStr} (h : s.RefsCounted) (clean : UnlinkClean path s) :
    wp (_unlink path) (fun _ s' => s'.RefsCounted) Balanced s := by
  have noent : ∀ {s₁}, s.Bears s₁ s.owners →
      wp (do setError .enoent; pure 0xffff : K Word) (fun _ s' => s'.RefsCounted) Balanced s₁ := by
    intro s₁ h₁
    rw [wp_bind]
    exact wp_post h₁.wp_setError fun _ s₂ h₂ => h₂.refsCounted h.inUse
  unfold _unlink
  rw [wp_bind]
  refine wp_post (h.start.wp_lookupParent few_owners) fun r s₁ ⟨h₁, nothing, found⟩ => ?_
  obtain ⟨ino, pino⟩ := r
  cases pino with
  | none =>
    cases nothing rfl
    exact noent (by rwa [pointers_none, pointers_none] at h₁)
  | some pino =>
    cases ino with
    | none => exact absurd found (clean pino s₁)
    | some ino =>
      rw [add_assoc, pointers_some, pointers_some, Multiset.cons_swap] at h₁
      rw [wp_bind, wp_get, wp_ite]
      split
      · rw [wp_bind]
        exact wp_post h₁.wp_setError fun _ s₂ h₂ => h₂.wp_giveBackBoth h.inUse
      · rw [wp_bind, wp_get, wp_bind]
        refine wp_post h₁.wp_chLink_refs fun linked s₂ h₂ => ?_
        rw [wp_ite]
        split
        · unfold unlinkDone
          rw [wp_bind]
          refine wp_post (h₂.wp_modifyNode fun _ => rfl) fun _ s₃ h₃ => ?_
          rw [wp_bind]
          exact wp_post h₃.wp_setftime fun _ s₄ h₄ => h₄.wp_giveBackBoth h.inUse
        · exact h₂.wp_giveBackBoth h.inUse

/-- `_link` keeps the references. -/
lemma wp_link {name1 name2 : CStr} (h : s.RefsCounted) (clean : LinkClean name1 name2 s) :
    wp (_link name1 name2) (fun _ s' => s'.RefsCounted) Balanced s := by
  unfold _link
  rw [wp_bind]
  refine wp_post (h.start.wp_lookup few_owners).run fun r s₁ ⟨h₁, found⟩ => ?_
  obtain ⟨ino, parent⟩ := r
  cases ino with
  | none =>
    rw [pointers_none] at h₁
    exact h₁.refsCounted h.inUse
  | some ino =>
    rw [pointers_some] at h₁
    rw [wp_bind, wp_get, wp_ite]
    split
    · rw [wp_bind]
      exact wp_post h₁.wp_setError fun _ s₂ h₂ => h₂.wp_giveBack h.inUse
    · next allowed =>
      rw [wp_bind]
      refine wp_post (h₁.wp_lookupParent few_cons) fun r s₂ ⟨h₂, nothing, found₂⟩ => ?_
      obtain ⟨ino2, parent2⟩ := r
      cases parent2 with
      | none =>
        cases nothing rfl
        rw [pointers_none, pointers_none] at h₂
        exact h₂.wp_giveBack h.inUse
      | some parent2 =>
        cases ino2 with
        | some ino2 =>
          rw [add_assoc, pointers_some, pointers_some] at h₂
          rw [wp_bind]
          refine wp_post (h₂.wp_iDeref few_consBoth) fun _ s₃ h₃ => ?_
          rw [wp_bind]
          refine wp_post (h₃.wp_iDeref few_cons) fun _ s₄ h₄ => ?_
          rw [wp_bind]
          exact wp_post h₄.wp_setError fun _ s₅ h₅ => h₅.wp_giveBack h.inUse
        | none =>
          rw [pointers_none, pointers_some] at h₂
          rw [wp_bind, wp_get, wp_ite]
          split
          · rw [wp_bind]
            refine wp_post (h₂.wp_iDeref few_cons) fun _ s₃ h₃ => ?_
            rw [wp_bind]
            exact wp_post h₃.wp_setError fun _ s₄ h₄ => h₄.wp_giveBack h.inUse
          · next dev =>
            rw [wp_bind, wp_get, wp_bind]
            refine wp_post h₂.wp_chLink_refs.run fun linked s₃ ⟨h₃, made⟩ => ?_
            rw [wp_ite]
            split
            · unfold linkDone
              rw [wp_bind]
              refine wp_post (h₃.wp_modifyNode fun _ => rfl) fun _ s₄ h₄ => ?_
              rw [wp_bind]
              refine wp_post h₄.wp_wrInode fun _ s₅ h₅ => ?_
              rw [wp_bind]
              exact wp_post h₅.wp_setftime fun _ s₆ h₆ => h₆.wp_giveBackBoth h.inUse
            · next failed =>
              rw [Bool.not_eq_true] at failed
              rw [failed] at made
              exact absurd made (clean ino parent s₁ found allowed parent2 s₂ found₂ (not_not.mp dev) s₃)

/-- The last part of `_mknod` keeps the references. -/
lemma wp_mknodDone {s₀ : Kernel} {ino : Inoptr} {mode dev : Word} (inUse : s₀.InUse)
    (h : s₀.Bears s (ino ::ₘ s₀.owners)) : wp (mknodDone ino mode dev) (fun _ s' => s'.RefsCounted) Balanced s := by
  unfold mknodDone
  rw [wp_bind, wp_get, wp_bind]
  refine wp_post (h.wp_modifyNode fun _ => rfl) fun _ s₁ h₁ => ?_
  rw [wp_bind]
  refine wp_post (h₁.wp_modifyNode fun _ => rfl) fun _ s₂ h₂ => ?_
  rw [wp_bind]
  refine wp_post h₂.wp_setftime fun _ s₃ h₃ => ?_
  rw [wp_bind]
  exact wp_post h₃.wp_wrInode fun _ s₄ h₄ => h₄.wp_giveBack inUse

/-- `_mknod` keeps the references. -/
lemma wp_mknod {name : CStr} {mode dev : Word} (h : s.RefsCounted) (clean : MknodClean name s) :
    wp (_mknod name mode dev) (fun _ s' => s'.RefsCounted) Balanced s := by
  unfold _mknod
  rw [wp_bind]
  have start : s.Bears (s.withError .ok) s.owners := ⟨.of_eq rfl rfl rfl rfl, h.refs⟩
  show wp _ _ Balanced (s.withError .ok)
  rw [wp_bind, wp_get, wp_ite]
  split
  · rw [wp_bind]
    exact wp_post start.wp_setError fun _ s₁ h₁ => h₁.refsCounted h.inUse
  · next allowed =>
    rw [wp_bind]
    refine wp_post (start.wp_lookupParent few_owners) fun r s₁ ⟨h₁, nothing, found⟩ => ?_
    obtain ⟨ino, parent⟩ := r
    cases parent with
    | none =>
      cases nothing rfl
      rw [pointers_none, pointers_none] at h₁
      rw [wp_bind]
      exact wp_post h₁.wp_setError fun _ s₂ h₂ => h₂.refsCounted h.inUse
    | some parent =>
      cases ino with
      | some ino =>
        rw [add_assoc, pointers_some, pointers_some] at h₁
        rw [wp_bind]
        exact wp_post h₁.wp_setError fun _ s₂ h₂ => h₂.wp_giveBackBoth h.inUse
      | none =>
        rw [pointers_none, pointers_some] at h₁
        rw [wp_bind]
        refine wp_post (h₁.wp_newfile few_cons).run fun ino s₂ ⟨h₂, made⟩ => ?_
        cases ino with
        | some ino =>
          rw [pointers_some] at h₂
          exact wp_mknodDone h.inUse h₂
        | none => exact absurd made (clean (not_not.mp allowed) parent s₁ found s₂)

/-! ## Calls that open and close files -/

/-- Another descriptor. -/
lemma Kernel.RefsCounted.setFile {j : Fin UFTSIZE} {x : Byte} (h : s.RefsCounted) : (s.setFile j x).RefsCounted :=
  h.withUdata rfl

/-- An entry that holds the same inode. -/
lemma Kernel.RefsCounted.sameHolder {j : Fin OFTSIZE} {o : Oft} (h : s.RefsCounted)
    (refs : o.oRefs = (s.ofTab j).oRefs) (inode : o.oInode = (s.ofTab j).oInode) : (s.setOft j o).RefsCounted := by
  refine .setOft ?_ (fun i _ => h.inUse i) ?_
  · have same : openPointer o = openPointer (s.ofTab j) := by
      unfold openPointer
      rw [refs, inode]
    rw [same, ← Kernel.owners_eq]
    exact h.refs
  · rw [refs, inode]
    exact h.inUse j

/-- The exit `cantopen` of `_open`. -/
lemma wp_openFailed_refs {u : Fin UFTSIZE} {j : Fin OFTSIZE} (h : s.RefsCounted) (used : (s.ofTab j).oRefs ≠ 0) :
    wp (openFailed u j) (fun _ s' => s'.RefsCounted) Balanced s := by
  unfold openFailed
  rw [wp_bind]
  refine wp_post (wp_oftDeref_refs h used) fun _ s₁ ⟨h₁, _⟩ => ?_
  rw [wp_bind, wp_setFile]
  exact h₁.setFile

/-- `_open` keeps the references. -/
lemma wp_open_refs {name : CStr} {flag : Word} (h : s.RefsCounted) :
    wp (_open name flag) (fun _ s' => s'.RefsCounted) Balanced s := by
  unfold _open
  rw [wp_ite]
  split
  · rw [wp_bind]
    exact wp_post h.start.wp_setError fun _ s₁ h₁ => h₁.refsCounted h.inUse
  · rw [wp_bind]
    refine wp_post (h.within Quiet.ufAlloc Quiet.ufAlloc) fun uindex s₁ h₁ => ?_
    cases uindex with
    | none => exact h₁
    | some uindex =>
      rw [wp_bind]
      refine wp_post (wp_oftAlloc_refs h₁) fun oftindex s₂ ⟨h₂, _, fresh⟩ => ?_
      cases oftindex with
      | none => exact h₂.setFile
      | some j =>
        have fresh := (fresh j rfl).2
        rw [wp_bind]
        refine wp_post (h₂.start.wp_lookup few_owners) fun r s₃ h₃ => ?_
        obtain ⟨ino, parent⟩ := r
        cases ino with
        | none =>
          rw [pointers_none] at h₃
          exact wp_openFailed_refs (h₃.refsCounted h₂.inUse) (fresh.same h₃).used
        | some ino =>
          rw [pointers_some] at h₃
          rw [wp_bind, wp_modifyOft]
          have used := (fresh.ready h₃).used
          have h₄ := (fresh.ready h₃).done (o := { s₃.ofTab j with oInode := some ino }) rfl rfl
          generalize opened : s₃.setOft j { s₃.ofTab j with oInode := some ino } = s₄ at h₄
          have used₄ : (s₄.ofTab j).oRefs ≠ 0 := by rwa [← opened, Kernel.ofTab_setOft]
          have fails : ∀ e s₅, s₄.Bears s₅ s₄.owners →
              wp (do setError e; openFailed uindex j) (fun _ s' => s'.RefsCounted) Balanced s₅ := by
            intro e s₅ h₅
            rw [wp_bind]
            refine wp_post h₅.wp_setError fun _ s₆ h₆ => ?_
            exact wp_openFailed_refs (h₆.refsCounted h₄.inUse) (h₆.tables.ofTab ▸ used₄)
          rw [wp_bind, wp_get, wp_ite]
          split
          · exact fails _ _ h₄.start
          · rw [wp_ite]
            split
            · exact fails _ _ h₄.start
            · rw [wp_bind]
              refine wp_post (h₄.start.within Quiet.openDevice Quiet.openDevice) fun failed s₅ h₅ => ?_
              rw [wp_ite]
              split
              · exact fails _ _ h₅
              · rw [wp_bind, wp_setFile, wp_bind, wp_modifyOft]
                exact (h₅.refsCounted h₄.inUse).setFile.sameHolder rfl rfl

/-- `newfile` does not fail in `_creat`. -/
def CreatClean (name : CStr) (s : Kernel) : Prop :=
  ∀ u s₁ j s₂, ufAlloc s = .ok (some u, s₁) → oftAlloc s₁ = .ok (some j, s₂) → NewfileClean name s₂

/-- The failing exits of `_creat` keep the references. -/
lemma wp_creatFailed_refs {j : Fin OFTSIZE} (h : s.RefsCounted) (used : (s.ofTab j).oRefs ≠ 0) :
    wp (creatFailed j) (fun _ s' => s'.RefsCounted) Balanced s := by
  unfold creatFailed
  rw [wp_bind]
  exact wp_post (wp_oftDeref_refs h used) fun _ s₁ ⟨h₁, _⟩ => h₁

/-- The last part of `_creat` keeps the references. -/
lemma wp_creatDone_refs {u : Fin UFTSIZE} {j : Fin OFTSIZE} {ino : Inoptr} (h : s.OftReady j ino) :
    wp (creatDone u j ino) (fun _ s' => s'.RefsCounted) Balanced s := by
  unfold creatDone
  rw [wp_bind, wp_setFile, wp_bind, wp_modifyOft]
  exact Kernel.OftReady.done (s := s.setFile u (oftByte j)) ⟨h.refs, h.used, h.inUse⟩ rfl rfl

/-- The offsets of an inode are set back in all entries. -/
lemma Kernel.OftReady.rewind {j : Fin OFTSIZE} {ino p : Inoptr} (h : s.OftReady j ino) :
    Kernel.OftReady { s with ofTab := fun i => (s.ofTab i).rewind p } j ino := by
  have same : ∀ o : Oft, (o.rewind p).oRefs = o.oRefs ∧ (o.rewind p).oInode = o.oInode := by
    intro o
    unfold Oft.rewind
    split
    · exact ⟨rfl, rfl⟩
    · exact ⟨rfl, rfl⟩
  have holder : ∀ o : Oft, openPointer (o.rewind p) = openPointer o := by
    intro o
    unfold openPointer
    rw [(same o).1, (same o).2]
  have but : Kernel.ownersBut { s with ofTab := fun i => (s.ofTab i).rewind p } j = s.ownersBut j := by
    have others : Kernel.openedBut { s with ofTab := fun i => (s.ofTab i).rewind p } j = s.openedBut j :=
      Finset.sum_congr rfl fun i _ => congrArg pointers (holder (s.ofTab i))
    unfold Kernel.ownersBut
    rw [others]
    rfl
  refine ⟨but ▸ h.refs, ?_, fun i ne => ?_⟩
  · show ((s.ofTab j).rewind p).oRefs ≠ 0
    rw [(same _).1]
    exact h.used
  · show ((s.ofTab i).rewind p).oInode ≠ none → ((s.ofTab i).rewind p).oRefs ≠ 0
    rw [(same _).1, (same _).2]
    exact h.inUse i ne

/-- `_creat` of a file that is there keeps the references. -/
lemma wp_creatOld_refs {u : Fin UFTSIZE} {j : Fin OFTSIZE} {ino parent : Inoptr} (h : s.Fresh j)
    (b : s.Bears s' (ino ::ₘ parent ::ₘ s.owners)) :
    wp (creatOld u j ino (some parent)) (fun _ s' => s'.RefsCounted) Balanced s' := by
  have counted := h.toRefsCounted
  have fails : ∀ e s₁, s.Bears s₁ (ino ::ₘ s.owners) →
      wp (do iDeref ino; setError e; creatFailed j) (fun _ s' => s'.RefsCounted) Balanced s₁ := by
    intro e s₁ h₁
    rw [wp_bind]
    refine wp_post (h₁.wp_iDeref few_owners) fun _ s₂ h₂ => ?_
    rw [wp_bind]
    refine wp_post h₂.wp_setError fun _ s₃ h₃ => ?_
    exact wp_creatFailed_refs (h₃.refsCounted counted.inUse) (h.same h₃).used
  unfold creatOld
  rw [Multiset.cons_swap] at b
  rw [wp_bind]
  refine wp_post (b.wp_iDeref few_cons) fun _ s₁ h₁ => ?_
  rw [wp_bind, wp_get, wp_ite]
  split
  · exact fails _ _ h₁
  · rw [wp_ite]
    split
    · exact fails _ _ h₁
    · rw [wp_ite]
      split
      · rw [wp_bind]
        refine wp_post (h₁.within Quiet.fTrunc Quiet.fTrunc) fun _ s₂ h₂ => ?_
        rw [wp_bind, wp_modify]
        exact wp_creatDone_refs (h.ready h₂).rewind
      · exact wp_creatDone_refs (h.ready h₁)

/-- `_creat` keeps the references. -/
lemma wp_creat_refs {name : CStr} {mode : Word} (h : s.RefsCounted) (clean : CreatClean name s) :
    wp (_creat name mode) (fun _ s' => s'.RefsCounted) Balanced s := by
  unfold _creat
  rw [wp_bind]
  refine wp_post (h.start.within Quiet.ufAlloc Quiet.ufAlloc).run fun uindex s₁ ⟨h₁, found₁⟩ => ?_
  have h₁ := h₁.refsCounted h.inUse
  cases uindex with
  | none => exact h₁
  | some u =>
    rw [wp_bind]
    refine wp_post (wp_oftAlloc_refs h₁).run fun oftindex s₂ ⟨⟨h₂, _, fresh⟩, found₂⟩ => ?_
    cases oftindex with
    | none => exact h₂
    | some j =>
      have fresh := (fresh j rfl).2
      rw [wp_bind]
      refine wp_post (h₂.start.wp_lookupParent few_owners) fun r s₃ ⟨h₃, nothing, found₃⟩ => ?_
      obtain ⟨ino, parent⟩ := r
      cases parent with
      | none =>
        cases nothing rfl
        rw [pointers_none, pointers_none] at h₃
        exact wp_creatFailed_refs (h₃.refsCounted h₂.inUse) (fresh.same h₃).used
      | some parent =>
        cases ino with
        | some ino =>
          rw [add_assoc, pointers_some, pointers_some] at h₃
          exact wp_creatOld_refs fresh h₃
        | none =>
          rw [pointers_none, pointers_some] at h₃
          unfold creatNew
          rw [wp_bind]
          refine wp_post (h₃.wp_newfile few_cons).run fun ino s₄ ⟨h₄, made⟩ => ?_
          cases ino with
          | none => exact absurd made (clean u s₁ j s₂ found₁ found₂ parent s₃ found₃ s₄)
          | some ino =>
            rw [pointers_some] at h₄
            rw [wp_bind, wp_get, wp_bind]
            refine wp_post (h₄.wp_modifyNode fun _ => rfl) fun _ s₅ h₅ => ?_
            rw [wp_bind]
            refine wp_post h₅.wp_setftime fun _ s₆ h₆ => ?_
            rw [wp_bind]
            exact wp_post h₆.wp_wrInode fun _ s₇ h₇ => wp_creatDone_refs (fresh.ready h₇)

/-- `_close` keeps the references. -/
lemma wp_close_refs {d : Word} (h : s.RefsCounted) : wp (_close d) (fun _ s' => s'.RefsCounted) Balanced s := by
  have index : ∀ {s₁ : Kernel}, SameFiles s s₁ → s₁.udata.ofIndex d = s.udata.ofIndex d := by
    intro s₁ same
    unfold UData.ofIndex UData.file
    rw [same.2.2]
  have looked : Within SameRefs Balanced (getinode d) := Quiet.getinode
  have checked := (h.start.within looked Quiet.getinode).and wp_getinode
  unfold _close doclose
  rw [wp_bind]
  refine wp_mono checked (fun r s₁ ⟨h₁, same, valid⟩ => ?_) fun _ stops => stops.1
  cases r with
  | none => exact h₁.refsCounted h.inUse
  | some ino =>
    have used := h.inUse _ valid.2.2
    rw [wp_bind, wp_get, index same]
    refine wp_when (fun s₂ => s.Bears s₂ s.owners) (fun _ => h₁.within Quiet.dClose Quiet.dClose) (fun _ => h₁) ?_
    intro s₂ h₂
    rw [wp_bind, wp_setFile, wp_bind]
    have used₂ : ((s₂.setFile (descriptor d) 0xff).ofTab (s.udata.ofIndex d)).oRefs ≠ 0 := by
      show (s₂.ofTab (s.udata.ofIndex d)).oRefs ≠ 0
      rw [h₂.tables.ofTab]
      exact used
    exact wp_post (wp_oftDeref_refs (h₂.refsCounted h.inUse).setFile used₂) fun _ s₃ ⟨h₃, _⟩ => h₃

/-- The two entries of a pipe hold its inode. -/
lemma wp_pipeDone_refs {s₀ : Kernel} {fildes : Nat} {u1 u2 : Fin UFTSIZE} {j1 j2 : Fin OFTSIZE} {ino : Inoptr}
    (f1 : s₀.Fresh j1) (f2 : s₀.Fresh j2) (ne : j2 ≠ j1) (h : s₀.Bears s (ino ::ₘ s₀.owners)) :
    wp (pipeDone fildes u1 u2 j1 j2 ino) (fun _ s' => s'.RefsCounted) Balanced s := by
  unfold pipeDone
  rw [wp_bind, wp_setFile, wp_bind, wp_modifyOft]
  have ready := f1.ready h
  have first : ((s.setFile u2 (oftByte j2)).setOft j1
      { s.ofTab j1 with oPtr := ⟨0, 0⟩, oInode := some ino, oAccess := .rdonly }).RefsCounted :=
    Kernel.OftReady.done (s := s.setFile u2 (oftByte j2)) ⟨ready.refs, ready.used, ready.inUse⟩ rfl rfl
  have own : ((s.setFile u2 (oftByte j2)).setOft j1
      { s.ofTab j1 with oPtr := ⟨0, 0⟩, oInode := some ino, oAccess := .rdonly }).ofTab j2 = s₀.ofTab j2 := by
    show Function.update s.ofTab j1 _ j2 = s₀.ofTab j2
    rw [Function.update_of_ne ne, h.tables.ofTab]
  show wp _ _ Balanced ((s.setFile u2 (oftByte j2)).setOft j1
    { s.ofTab j1 with oPtr := ⟨0, 0⟩, oInode := some ino, oAccess := .rdonly })
  generalize (s.setFile u2 (oftByte j2)).setOft j1 _ = s₁ at first own
  have second : s₁.Fresh j2 := ⟨first, own ▸ f2.used, own ▸ f2.inode⟩
  rw [wp_bind, wp_modifyOft, wp_bind, wp_modifyInode, wp_bind, wp_modifyUdata]
  have more := first.start.shared (p := ino)
    (c := { s₁.iTab ino with
      cRefs := (s₁.iTab ino).cRefs + 1, cNode := { (s₁.iTab ino).cNode with iMode := F_PIPE ||| 0o777, iNlink := 0 } })
    rfl
  have both := (second.ready more).done
    (o := { s₁.ofTab j2 with oPtr := ⟨0, 0⟩, oInode := some ino, oAccess := .wronly }) rfl rfl
  exact both.withUdata rfl

/-- The failing exits of `_pipe` keep the references. -/
lemma wp_pipeFailed_refs {u : Fin UFTSIZE} (h : s.RefsCounted) :
    wp (pipeFailed u) (fun _ s' => s'.RefsCounted) Balanced s := by
  unfold pipeFailed
  rw [wp_bind, wp_setFile]
  exact h.setFile

/-- `_pipe` keeps the references. -/
lemma wp_pipe_refs {fildes : Nat} (h : s.RefsCounted) : wp (_pipe fildes) (fun _ s' => s'.RefsCounted) Balanced s := by
  unfold _pipe
  rw [wp_bind]
  refine wp_post (h.within Quiet.ufAlloc Quiet.ufAlloc) fun u1 s₁ h₁ => ?_
  cases u1 with
  | none => exact h₁
  | some u1 =>
    rw [wp_bind]
    refine wp_post (wp_oftAlloc_refs h₁) fun j1 s₂ ⟨h₂, _, fresh⟩ => ?_
    cases j1 with
    | none => exact h₂
    | some j1 =>
      obtain ⟨-, f1⟩ := fresh j1 rfl
      rw [wp_bind, wp_setFile]
      have h₃ : (s₂.setFile u1 (oftByte j1)).RefsCounted := h₂.setFile
      have f1 : (s₂.setFile u1 (oftByte j1)).Fresh j1 := ⟨h₃, f1.used, f1.inode⟩
      generalize s₂.setFile u1 (oftByte j1) = s₃ at h₃ f1
      rw [wp_bind]
      refine wp_post (h₃.start.within Quiet.ufAlloc Quiet.ufAlloc) fun u2 s₄ h₄ => ?_
      have f1 := f1.same h₄
      have h₄ := h₄.refsCounted h₃.inUse
      cases u2 with
      | none => exact wp_pipeFailed_refs h₄
      | some u2 =>
        rw [wp_bind]
        refine wp_post (wp_oftAlloc_refs h₄) fun j2 s₅ ⟨h₅, others, fresh⟩ => ?_
        cases j2 with
        | none =>
          have used : (s₅.ofTab j1).oRefs ≠ 0 := others j1 nofun ▸ f1.used
          rw [wp_bind]
          exact wp_post (wp_oftDeref_refs h₅ used) fun _ s₆ ⟨h₆, _⟩ => wp_pipeFailed_refs h₆
        | some j2 =>
          obtain ⟨zero, f2⟩ := fresh j2 rfl
          have ne : j2 ≠ j1 := fun e => f1.used (e ▸ zero)
          have same : s₅.ofTab j1 = s₄.ofTab j1 := others j1 fun e => ne (Option.some.inj e)
          have f1 : s₅.Fresh j1 := ⟨h₅, same ▸ f1.used, same ▸ f1.inode⟩
          rw [wp_bind, wp_get, wp_bind]
          refine wp_post (h₅.start.wp_iOpen few_owners) fun ino s₆ h₆ => ?_
          cases ino with
          | some ino =>
            rw [pointers_some] at h₆
            exact wp_pipeDone_refs f1 f2 ne h₆
          | none =>
            rw [pointers_none] at h₆
            have h₇ := h₆.refsCounted h₅.inUse
            rw [wp_bind]
            refine wp_post (wp_oftDeref_refs h₇ (f1.same h₆).used) fun _ s₇ ⟨h₇, others⟩ => ?_
            have used : (s₇.ofTab j2).oRefs ≠ 0 := others j2 ne ▸ (f2.same h₆).used
            rw [wp_bind]
            exact wp_post (wp_oftDeref_refs h₇ used) fun _ s₈ ⟨h₈, _⟩ => wp_pipeFailed_refs h₈

end Uzi
