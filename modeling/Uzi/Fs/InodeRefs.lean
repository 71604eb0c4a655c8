import Mathlib.Algebra.BigOperators.Group.Finset.Basic
import Mathlib.Algebra.Order.BigOperators.Group.Finset
import Uzi.Fs.OpenFiles
import Uzi.Fs.PathRefs

/-!
# Who holds the in-core inodes

An in-core inode is held by the entries of the open file table, by the mount table, as the root and as the current
directory: `Kernel.owners` are these pointers. While a call runs, its own pointers hold references as well:
`Kernel.Bears s₀ s l` says that the tables are those of `s₀`, and that the references are those of the tables and of the
pointers in `l`. One spec lemma for each function that takes or gives a reference.
-/

namespace Uzi
open Exec

/-! ## The tables -/

/-- The inode that an entry of the open file table holds. -/
def openPointer (o : Oft) : Option Inoptr := if o.oRefs = 0 then none else o.oInode

/-- The inode that an entry of the mount table holds. -/
def mountPointer (fs : Filesys) : Option Inoptr := if fs.sMounted = 0 then none else inoOfRaw fs.sMntpt

/-- The inodes that the open file table holds. -/
def Kernel.opened (s : Kernel) : Multiset Inoptr := ∑ j : Fin OFTSIZE, pointers (openPointer (s.ofTab j))

/-- The inodes that the mount table holds. -/
def Kernel.mounts (s : Kernel) : Multiset Inoptr := ∑ dev ∈ Finset.range NDEVS, pointers (mountPointer (s.fsTab dev))

/-- The inodes that are held while no call runs. -/
def Kernel.owners (s : Kernel) : Multiset Inoptr := s.opened + s.mounts + {s.root, s.udata.uCwd}

/-- The tables that hold inodes are the same. -/
structure SameOwners (s s' : Kernel) : Prop where
  ofTab : s'.ofTab = s.ofTab
  mounts : ∀ dev, (s.fsTab dev).SameMount (s'.fsTab dev)
  root : s'.root = s.root
  cwd : s'.udata.uCwd = s.udata.uCwd

/-- The same mount. -/
lemma Filesys.SameMount.refl {fs : Filesys} : fs.SameMount fs := ⟨Iff.rfl, rfl⟩

/-- The same mount, twice. -/
lemma Filesys.SameMount.trans {fs fs' fs'' : Filesys} (h : fs.SameMount fs') (h' : fs'.SameMount fs'') :
    fs.SameMount fs'' :=
  ⟨h'.mounted.trans h.mounted, h'.mntpt.trans h.mntpt⟩

/-- The same mount has the same mount point. -/
lemma Filesys.SameMount.mountPointer {fs fs' : Filesys} (h : fs.SameMount fs') :
    mountPointer fs' = mountPointer fs := by
  unfold Uzi.mountPointer
  rw [h.mntpt]
  exact if_congr h.mounted rfl rfl

/-- The owners are in these tables. -/
lemma SameOwners.of_eq {s s' : Kernel} (ofTab : s'.ofTab = s.ofTab) (fsTab : s'.fsTab = s.fsTab)
    (root : s'.root = s.root) (cwd : s'.udata.uCwd = s.udata.uCwd) : SameOwners s s' :=
  ⟨ofTab, fun _ => fsTab ▸ .refl, root, cwd⟩

instance : Transferring SameOwners where
  refl _ := .of_eq rfl rfl rfl rfl
  trans _ _ _ h h' :=
    ⟨h'.ofTab.trans h.ofTab, fun dev => (h.mounts dev).trans (h'.mounts dev), h'.root.trans h.root, h'.cwd.trans h.cwd⟩
  bufs _ _ := .of_eq rfl rfl rfl rfl
  fsTab s dev fs same := by
    refine ⟨rfl, fun d => ?_, rfl, rfl⟩
    show (s.fsTab d).SameMount (Function.update s.fsTab dev fs d)
    by_cases h : d = dev
    · subst h
      rwa [Function.update_self]
    · rw [Function.update_of_ne h]
      exact .refl
  iTab _ _ := .of_eq rfl rfl rfl rfl
  nexti _ _ := .of_eq rfl rfl rfl rfl
  error _ _ := .of_eq rfl rfl rfl rfl
  woken _ _ := .of_eq rfl rfl rfl rfl
  transfer _ _ _ _ _ _ := .of_eq rfl rfl rfl rfl
  ptab _ _ := .of_eq rfl rfl rfl rfl

/-- The same owners have the same open files. -/
lemma SameOwners.opened {s s' : Kernel} (h : SameOwners s s') : s'.opened = s.opened := by
  unfold Kernel.opened
  rw [h.ofTab]

/-- The same owners have the same mounts. -/
lemma SameOwners.mounted {s s' : Kernel} (h : SameOwners s s') : s'.mounts = s.mounts :=
  Finset.sum_congr rfl fun dev _ => congrArg pointers (h.mounts dev).mountPointer

/-- The same owners are the same multiset. -/
lemma SameOwners.owners {s s' : Kernel} (h : SameOwners s s') : s'.owners = s.owners := by
  unfold Kernel.owners
  rw [h.opened, h.mounted, h.root, h.cwd]

/-- A pointer owns at most one inode. -/
lemma card_pointers {p : Option Inoptr} : (pointers p).card ≤ 1 := by
  cases p with
  | none => exact Nat.zero_le 1
  | some p => exact Nat.le_refl 1

/-- There are at most 22 owners. -/
lemma card_owners {s : Kernel} : s.owners.card ≤ 22 := by
  have opened : s.opened.card ≤ 15 := by
    unfold Kernel.opened
    rw [Multiset.card_sum]
    refine (Finset.sum_le_sum fun j _ => card_pointers).trans ?_
    rw [Finset.sum_const, Finset.card_univ, Fintype.card_fin]
    exact Nat.le_refl 15
  have mounts : s.mounts.card ≤ 5 := by
    unfold Kernel.mounts
    rw [Multiset.card_sum]
    refine (Finset.sum_le_sum fun j _ => card_pointers).trans ?_
    rw [Finset.sum_const, Finset.card_range]
    exact Nat.le_refl 5
  unfold Kernel.owners
  rw [Multiset.card_add, Multiset.card_add, Multiset.insert_eq_cons, Multiset.card_cons, Multiset.card_singleton]
  omega

/-! ## The references -/

/-- The references are those of the pointers in `k`. -/
def Kernel.Counts (s : Kernel) (k : Multiset Inoptr) : Prop := ∀ i, (s.iTab i).cRefs = (k.count i : Byte)

/-- A small count does not wrap. -/
lemma Kernel.Counts.toNat {s : Kernel} {k : Multiset Inoptr} (h : s.Counts k) (few : k.card ≤ 30) (i : Inoptr) :
    (s.iTab i).cRefs.toNat = k.count i := by
  have le := Multiset.count_le_card i k
  rw [h i, BitVec.natCast_eq_ofNat, BitVec.toNat_ofNat]
  exact Nat.mod_eq_of_lt (by omega)

/-- Any panic but that of a reference too few. -/
abbrev Balanced (e : Panic) : Prop := e ≠ .inodeFreed

/-- The tables are those of `s₀`, and the references are those of the pointers in `k`. -/
structure Kernel.Bears (s₀ s : Kernel) (k : Multiset Inoptr) : Prop where
  tables : SameOwners s₀ s
  refs : s.Counts k

namespace Kernel.Bears

variable {s₀ s s' : Kernel} {k l : Multiset Inoptr} {p : Inoptr}

/-- What is counted at the beginning. -/
lemma start (h : s.Counts k) : s.Bears s k := ⟨refl_of SameOwners s, h⟩

/-- A call that takes the references `l`. -/
lemma carries (h : s₀.Bears s k) (c : s.Carries s' l) (tables : SameOwners s s') : s₀.Bears s' (l + k) := by
  refine ⟨trans_of SameOwners h.tables tables, fun i => ?_⟩
  rw [c i, h.refs i, Multiset.count_add, Nat.cast_add, add_comm]

/-- No count is near its end. -/
lemma balanced (h : s₀.Bears s k) (few : k.card ≤ 30) {e : Panic} (crowded : s.Crowded e) : Balanced e := by
  intro freed
  obtain ⟨i, many⟩ := crowded freed
  have le := Multiset.count_le_card i k
  rw [h.refs.toNat few i] at many
  omega

/-- Code that takes pointers. -/
lemma takes {α : Type} {c : K α} {f : α → Multiset Inoptr} (h : s₀.Bears s k) (few : k.card ≤ 30)
    (w : wp c (fun r s' => s.Carries s' (f r)) s.Crowded s) (tables : Within SameOwners (fun _ => True) c) :
    wp c (fun r s' => s₀.Bears s' (f r + k)) Balanced s :=
  wp_mono (w.and (tables s)) (fun _ _ ⟨taken, same⟩ => h.carries taken same)
    fun _ ⟨crowded, _⟩ => h.balanced few crowded

/-- Code that leaves the references and the tables alone. -/
lemma within {α : Type} {c : K α} (h : s₀.Bears s k) (refs : Within SameRefs Balanced c)
    (tables : Within SameOwners (fun _ => True) c) : wp c (fun _ s' => s₀.Bears s' k) Balanced s := by
  refine wp_mono ((refs s).and (tables s)) (fun _ s' ⟨same, kept⟩ => ?_) fun _ stops => stops.1
  have taken := h.carries (Kernel.Carries.start.same same) kept
  rwa [zero_add] at taken

/-- `n_open` takes the references that it returns. -/
lemma wp_nOpen {name : CStr} {parent : Bool} (h : s₀.Bears s k) (few : k.card ≤ 30) :
    wp (nOpen name parent) (fun r s' => s₀.Bears s' (pointers r.1 + pointers r.2 + k)) Balanced s :=
  h.takes few Kernel.Carries.wp_nOpen Quiet.nOpen

/-- `i_open` takes the reference that it returns. -/
lemma wp_iOpen {dev : Nat} {num : Word} (h : s₀.Bears s k) (few : k.card ≤ 30) :
    wp (iOpen dev num) (fun r s' => s₀.Bears s' (pointers r + k)) Balanced s := by
  refine h.takes few (wp_post (Kernel.Carries.start.wp_iOpen) fun r s' taken => ?_) Quiet.iOpen
  rwa [add_zero] at taken

/-- A reference is given back. -/
lemma wp_iDeref (h : s₀.Bears s (p ::ₘ k)) (few : k.card ≤ 30) :
    wp (iDeref p) (fun _ s' => s₀.Bears s' k) Balanced s := by
  generalize less : s.setInode p { s.iTab p with cRefs := (s.iTab p).cRefs - 1 } = t
  have tables : SameOwners s t := less ▸ Quiet.iTab s _
  have back : SameOwners t s := less ▸ .of_eq rfl rfl rfl rfl
  have one : t.Carries s {p} := by
    intro i
    by_cases e : i = p
    · rw [e, ← less, Kernel.iTab_setInode, Multiset.count_singleton_self]
      exact (sub_add_cancel _ 1).symm
    · rw [← less, Kernel.iTab_setInode_of_ne e, Multiset.count_singleton, if_neg e, Nat.cast_zero, add_zero]
  have rest : s₀.Bears t k := by
    refine ⟨trans_of SameOwners h.tables tables, fun i => ?_⟩
    have refs := h.refs i
    rw [one i, ← Multiset.singleton_add, Multiset.count_add, Nat.cast_add, add_comm] at refs
    exact add_left_cancel refs
  have kept : wp (iDeref p) (fun _ s' => SameOwners s s') (fun _ => True) s := Quiet.iDeref s
  refine wp_mono ((one.wp_iDeref (l := 0) (Nat.zero_le 1)).and kept) (fun _ s' ⟨given, same⟩ => ?_) fun _ stops => ?_
  · have after := rest.carries given (trans_of SameOwners back same)
    rwa [zero_add] at after
  · exact rest.balanced few stops.1

/-- Another pointer to an inode. -/
lemma shared {c : Cinode} (h : s₀.Bears s k) (more : c.cRefs = (s.iTab p).cRefs + 1) :
    s₀.Bears (s.setInode p c) (p ::ₘ k) := by
  refine ⟨trans_of SameOwners h.tables (Quiet.iTab s _), fun i => ?_⟩
  by_cases e : i = p
  · rw [e, Kernel.iTab_setInode, more, h.refs p, Multiset.count_cons_self, Nat.cast_succ]
  · rw [Kernel.iTab_setInode_of_ne e, h.refs i, Multiset.count_cons_of_ne e]

/-- `setError` takes no reference. -/
lemma wp_setError {e : Errno} (h : s₀.Bears s k) : wp (setError e) (fun _ s' => s₀.Bears s' k) Balanced s :=
  h.within Quiet.setError Quiet.setError

/-- `ch_link` takes no reference. -/
lemma wp_chLink_refs {wd : Inoptr} {oldname newname : Nat → Byte} {nindex : Option Inoptr} (h : s₀.Bears s k) :
    wp (chLink wd oldname newname nindex) (fun _ s' => s₀.Bears s' k) Balanced s :=
  h.within Filling.chLink Filling.chLink

/-- A change of a node takes no reference. -/
lemma wp_modifyNode {f : Cinode → Cinode} (h : s₀.Bears s k) (same : ∀ c, (f c).cRefs = c.cRefs) :
    wp (modifyInode p f) (fun _ s' => s₀.Bears s' k) Balanced s :=
  h.within (Quiet.modifyNode same) Quiet.modifyInode

/-- `wr_inode` takes no reference. -/
lemma wp_wrInode (h : s₀.Bears s k) : wp (wrInode p) (fun _ s' => s₀.Bears s' k) Balanced s :=
  h.within Quiet.wrInode Quiet.wrInode

/-- `setftime` takes no reference. -/
lemma wp_setftime {flag : Word} (h : s₀.Bears s k) : wp (setftime p flag) (fun _ s' => s₀.Bears s' k) Balanced s :=
  h.within Quiet.setftime Quiet.setftime

/-- `newfile` gives up the parent in any case. -/
lemma wp_newfile {pino : Inoptr} {name : CStr} (h : s₀.Bears s (pino ::ₘ k)) (few₁ : (pino ::ₘ k).card ≤ 30) :
    wp (newfile pino name) (fun r s' => s₀.Bears s' (pointers r + k)) Balanced s := by
  have few : k.card ≤ 29 := by
    rw [Multiset.card_cons] at few₁
    omega
  unfold newfile
  rw [wp_bind, wp_get, wp_bind]
  refine wp_post (h.wp_iOpen (by omega)) fun r s₁ h₁ => ?_
  cases r with
  | none =>
    rw [pointers_none] at h₁
    rw [wp_bind]
    refine wp_post (h₁.wp_iDeref (by omega)) fun _ s₂ h₂ => ?_
    rwa [← pointers_none (l := k)] at h₂
  | some nindex =>
    rw [pointers_some] at h₁
    rw [wp_bind]
    refine wp_post (h₁.wp_modifyNode fun _ => rfl) fun _ s₂ h₂ => ?_
    rw [wp_bind]
    refine wp_post h₂.wp_wrInode fun _ s₃ h₃ => ?_
    rw [wp_bind, wp_get, wp_bind]
    refine wp_post h₃.wp_chLink_refs fun linked s₄ h₄ => ?_
    rw [wp_ite]
    split
    · rw [Multiset.cons_swap] at h₄
      rw [Multiset.card_cons] at few₁
      rw [wp_bind]
      refine wp_post (h₄.wp_iDeref (by rw [Multiset.card_cons]; omega)) fun _ s₅ h₅ => ?_
      rwa [← pointers_some] at h₅
    · rw [wp_bind]
      refine wp_post (h₄.wp_iDeref (by omega)) fun _ s₅ h₅ => ?_
      rw [wp_bind]
      refine wp_post (h₅.wp_iDeref (by omega)) fun _ s₆ h₆ => ?_
      rwa [← pointers_none (l := k)] at h₆

end Kernel.Bears

/-! ## The open file table -/

/-- The inodes held by the entries of the open file table other than `j`. -/
def Kernel.openedBut (s : Kernel) (j : Fin OFTSIZE) : Multiset Inoptr :=
  ∑ k ∈ Finset.univ.erase j, pointers (openPointer (s.ofTab k))

/-- What all holders but entry `j` of the open file table hold. -/
def Kernel.ownersBut (s : Kernel) (j : Fin OFTSIZE) : Multiset Inoptr :=
  s.openedBut j + s.mounts + {s.root, s.udata.uCwd}

/-- The owners are one entry of the open file table and the rest. -/
lemma Kernel.owners_eq {s : Kernel} (j : Fin OFTSIZE) :
    s.owners = pointers (openPointer (s.ofTab j)) + s.ownersBut j := by
  have split : s.opened = pointers (openPointer (s.ofTab j)) + s.openedBut j :=
    (Finset.add_sum_erase Finset.univ _ (Finset.mem_univ j)).symm
  unfold Kernel.owners Kernel.ownersBut
  rw [split, add_assoc, add_assoc, add_assoc]

/-- Only entry `j` has changed. -/
lemma Kernel.ownersBut_setOft {s : Kernel} {j : Fin OFTSIZE} {o : Oft} :
    (s.setOft j o).ownersBut j = s.ownersBut j := by
  have same : (s.setOft j o).openedBut j = s.openedBut j := by
    refine Finset.sum_congr rfl fun k mem => ?_
    show pointers (openPointer (Function.update s.ofTab j o k)) = _
    rw [Function.update_of_ne (Finset.ne_of_mem_erase mem)]
  unfold Kernel.ownersBut
  rw [same]
  rfl

/-- The entry changes, the rest stays. -/
lemma Kernel.owners_setOft {s : Kernel} {j : Fin OFTSIZE} {o : Oft} :
    (s.setOft j o).owners = pointers (openPointer o) + s.ownersBut j := by
  rw [Kernel.owners_eq j, Kernel.ofTab_setOft, Kernel.ownersBut_setOft]

/-- The rest has at most 30 owners. -/
lemma Kernel.card_ownersBut {s : Kernel} {j : Fin OFTSIZE} : (s.ownersBut j).card ≤ 30 := by
  have le := Multiset.card_le_card (Multiset.le_add_left (s.ownersBut j) (pointers (openPointer (s.ofTab j))))
  rw [← Kernel.owners_eq] at le
  have small := card_owners (s := s)
  omega

/-- The entries of the open file table that have an inode are in use. -/
def Kernel.InUse (s : Kernel) : Prop := ∀ j, (s.ofTab j).oInode ≠ none → (s.ofTab j).oRefs ≠ 0

/-- The references are those of the tables. -/
structure Kernel.RefsCounted (s : Kernel) : Prop where
  refs : s.Counts s.owners
  inUse : s.InUse

/-- The owners are counted. -/
lemma Kernel.Bears.refsCounted {s₀ s : Kernel} (h : s₀.Bears s s₀.owners) (inUse : s₀.InUse) : s.RefsCounted := by
  refine ⟨h.tables.owners ▸ h.refs, fun j => ?_⟩
  rw [h.tables.ofTab]
  exact inUse j

/-- The same owners have the same rest. -/
lemma SameOwners.ownersBut {s s' : Kernel} {j : Fin OFTSIZE} (h : SameOwners s s') :
    s'.ownersBut j = s.ownersBut j := by
  unfold Kernel.ownersBut Kernel.openedBut
  rw [h.ofTab, h.mounted, h.root, h.cwd]

/-- An entry is changed together with the references. -/
lemma Kernel.RefsCounted.setOft {s : Kernel} {j : Fin OFTSIZE} {o : Oft}
    (refs : s.Counts (pointers (openPointer o) + s.ownersBut j))
    (inUse : ∀ i, i ≠ j → (s.ofTab i).oInode ≠ none → (s.ofTab i).oRefs ≠ 0) (own : o.oInode ≠ none → o.oRefs ≠ 0) :
    (s.setOft j o).RefsCounted := by
  refine ⟨Kernel.owners_setOft ▸ refs, fun i => ?_⟩
  by_cases e : i = j
  · rw [e, Kernel.ofTab_setOft]
    exact own
  · show (Function.update s.ofTab j o i).oInode ≠ none → (Function.update s.ofTab j o i).oRefs ≠ 0
    rw [Function.update_of_ne e]
    exact inUse i e

/-- An entry in use owns its inode. -/
lemma openPointer_of_ne {o : Oft} (h : o.oRefs ≠ 0) : openPointer o = o.oInode := if_neg h

/-- An entry without an inode owns none. -/
lemma openPointer_of_none {o : Oft} (h : o.oInode = none) : openPointer o = none := by
  unfold openPointer
  rw [h, ite_self]

section

variable {s s' : Kernel} {j : Fin OFTSIZE} {ino : Inoptr}

/-- Entry `j` of the open file table is ready for the inode `ino`. -/
structure Kernel.OftReady (s : Kernel) (j : Fin OFTSIZE) (ino : Inoptr) : Prop where
  refs : s.Counts (ino ::ₘ s.ownersBut j)
  used : (s.ofTab j).oRefs ≠ 0
  inUse : ∀ i, i ≠ j → (s.ofTab i).oInode ≠ none → (s.ofTab i).oRefs ≠ 0

/-- The entry gets the inode that it was made for. -/
lemma Kernel.OftReady.done {o : Oft} (h : s.OftReady j ino) (inode : o.oInode = some ino)
    (used : o.oRefs = (s.ofTab j).oRefs) : (s.setOft j o).RefsCounted := by
  have ne : o.oRefs ≠ 0 := used ▸ h.used
  refine .setOft ?_ h.inUse fun _ => ne
  rw [openPointer_of_ne ne, inode, pointers_some]
  exact h.refs

/-- What `oft_alloc` leaves. -/
structure Kernel.Fresh (s : Kernel) (j : Fin OFTSIZE) : Prop extends s.RefsCounted where
  used : (s.ofTab j).oRefs ≠ 0
  inode : (s.ofTab j).oInode = none

/-- A fresh entry stays fresh. -/
lemma Kernel.Fresh.same (h : s.Fresh j) (b : s.Bears s' s.owners) : s'.Fresh j :=
  ⟨b.refsCounted h.inUse, b.tables.ofTab ▸ h.used, b.tables.ofTab ▸ h.inode⟩

/-- A fresh entry is ready for an inode. -/
lemma Kernel.Fresh.ready (h : s.Fresh j) (b : s.Bears s' (ino ::ₘ s.owners)) :
    s'.OftReady j ino := by
  refine ⟨?_, b.tables.ofTab ▸ h.used, fun i _ => b.tables.ofTab ▸ h.inUse i⟩
  have refs := b.refs
  rwa [Kernel.owners_eq j, openPointer_of_none h.inode, pointers_none, ← b.tables.ownersBut] at refs

end

/-- `oft_alloc` gives out an entry that holds nothing. -/
lemma wp_oftAlloc_refs {s : Kernel} (h : s.RefsCounted) :
    wp oftAlloc
      (fun r s' => s'.RefsCounted ∧ (∀ i, r ≠ some i → s'.ofTab i = s.ofTab i) ∧
        ∀ j, r = some j → (s.ofTab j).oRefs = 0 ∧ s'.Fresh j)
      Balanced s := by
  unfold oftAlloc
  rw [wp_bind, wp_get]
  split
  · next j found =>
    have zero : (s.ofTab j).oRefs = 0 := by simpa using List.find?_some found
    have free : (s.ofTab j).oInode = none := not_not.mp fun ne => h.inUse j ne zero
    have counted : (s.setOft j { s.ofTab j with oRefs := 1, oInode := none }).RefsCounted := by
      refine .setOft ?_ (fun i _ => h.inUse i) (absurd rfl)
      have refs := h.refs
      rwa [Kernel.owners_eq j, openPointer_of_none free] at refs
    have fresh : (s.setOft j { s.ofTab j with oRefs := 1, oInode := none }).Fresh j := by
      refine ⟨counted, ?_, ?_⟩
      · rw [Kernel.ofTab_setOft]
        exact (by decide : (1 : Byte) ≠ 0)
      · rw [Kernel.ofTab_setOft]
    refine ⟨counted, fun i ne => ?_, fun i e => ?_⟩
    · exact Function.update_of_ne (fun e => ne (congrArg some e.symm)) _ _
    · cases e
      exact ⟨zero, fresh⟩
  · next missing =>
    rw [wp_bind]
    refine wp_post ((Kernel.Bears.start h.refs).wp_setError) fun _ s' h' => ?_
    exact ⟨h'.refsCounted h.inUse, fun i _ => congrFun h'.tables.ofTab i, nofun⟩

/-- `oft_deref` gives the inode back with the last reference to the entry. -/
lemma wp_oftDeref_refs {s : Kernel} {j : Fin OFTSIZE} (h : s.RefsCounted) (used : (s.ofTab j).oRefs ≠ 0) :
    wp (oftDeref j) (fun _ s' => s'.RefsCounted ∧ ∀ i, i ≠ j → s'.ofTab i = s.ofTab i) Balanced s := by
  have refs := h.refs
  rw [Kernel.owners_eq j, openPointer_of_ne used] at refs
  have others : ∀ {s : Kernel} {o : Oft} {i : Fin OFTSIZE}, i ≠ j → (s.setOft j o).ofTab i = s.ofTab i :=
    fun ne => Function.update_of_ne ne _ _
  unfold oftDeref
  rw [wp_bind, wp_modifyOft, wp_bind, wp_get, Kernel.ofTab_setOft, wp_ite]
  split
  · next zero =>
    split
    · next none =>
      rw [show (s.ofTab j).oInode = .none from none] at refs
      refine ⟨.setOft ?_ (fun i _ => h.inUse i) fun ne => absurd none ne, fun i ne => others ne⟩
      rwa [openPointer_of_none none]
    · next ino found =>
      rw [show (s.ofTab j).oInode = some ino from found, pointers_some] at refs
      generalize less : s.setOft j _ = s₁
      have ofTab : ∀ i, i ≠ j → s₁.ofTab i = s.ofTab i := fun i ne => less ▸ others ne
      have but : s₁.ownersBut j = s.ownersBut j := less ▸ Kernel.ownersBut_setOft
      have start : s₁.Bears s₁ (ino ::ₘ s₁.ownersBut j) := .start (but ▸ less ▸ refs)
      rw [wp_bind]
      refine wp_post (start.wp_iDeref Kernel.card_ownersBut) fun _ s₂ h₂ => ?_
      rw [wp_modifyOft]
      refine ⟨.setOft ?_ (fun i ne => ?_) (absurd rfl), fun i ne => ?_⟩
      · rw [openPointer_of_none rfl, pointers_none, h₂.tables.ownersBut]
        exact h₂.refs
      · rw [h₂.tables.ofTab, ofTab i ne]
        exact h.inUse i
      · rw [others ne, h₂.tables.ofTab, ofTab i ne]
  · next more =>
    refine ⟨.setOft ?_ (fun i _ => h.inUse i) fun _ => more, fun i ne => others ne⟩
    rwa [openPointer_of_ne more]

end Uzi
