import Uzi.Fs.InodeRuns
import Uzi.Fs.PathSearch
import Mathlib.Data.List.GetD

/-!
# `n_open` follows the path

The loop of `n_open` takes one component of the path in each round, with one pointer a step behind the other
(`Kernel.Ahead`). Where it goes up through a mount point only for `..`, it ends where the path leads.
-/

namespace Uzi
open Exec WriteBack

namespace Kernel

/-- Where the path leads whose components `cs` are left, when `n_open` has found `ninode` in `wd`. -/
def Ahead (s₀ s : Kernel) (wd : Inoptr) (cs : List (List Byte)) (lead : Lead (Nat × Word)) : Option Inoptr → Prop
  | some p => ∃ m, (s.iTab p).Names m ∧ s₀.Visitable m ∧ lead = s₀.tree.resolve dotSecond m cs
  | none => ∃ d, (s.iTab wd).Names d ∧ lead = if cs.isEmpty then .missing d else .nowhere

namespace Browsed

variable {s₀ s s' : Kernel} {wd p : Inoptr} {ninode : Option Inoptr} {parent : Bool} {m : Nat × Word}
  {lead : Lead (Nat × Word)} {name : CStr} {rounds i : Nat}

/-- What `n_open` returns, and holds. -/
def Ends (s₀ s' : Kernel) (parent : Bool) (lead : Lead (Nat × Word)) (r : Option Inoptr × Option Inoptr) : Prop :=
  s'.Leads parent r lead ∧ s₀.Browsed s' (pointers r.1 + pointers r.2)

/-- The end of a path. -/
lemma wp_nOpenEnd (nav : s₀.Navigable) (h : s₀.Browsed s (pointers ninode + {wd})) :
    wp (nOpenEnd parent wd ninode)
      (fun r s' => (r = (ninode, if parent then some wd else none) ∧ s.KeepsNames s') ∧
        s₀.Browsed s' (pointers r.1 + pointers r.2))
      (fun _ => False) s := by
  unfold nOpenEnd
  cases parent with
  | true => exact ⟨⟨rfl, fun _ _ => id⟩, h⟩
  | false =>
    rw [wp_ite, if_neg Bool.false_ne_true, wp_bind]
    have few : (pointers ninode).card ≤ 2 := by
      cases ninode with
      | none => exact Nat.zero_le 2
      | some p => exact Nat.le_succ 1
    rw [add_comm, Multiset.singleton_add] at h
    refine wp_post (h.wp_iDeref nav.roomy few) fun _ s₁ got => ?_
    obtain ⟨h₁, kept⟩ := got
    have done : ∀ s₂, s₀.Browsed s₂ (pointers ninode) ∧ s.KeepsNames s₂ →
        ((ninode, none) = (ninode, if false = true then some wd else none) ∧ s.KeepsNames s₂) ∧
          s₀.Browsed s₂ (pointers ninode + pointers none) := fun s₂ h₂ => by
      rw [add_comm, pointers_none]
      exact ⟨⟨rfl, h₂.2⟩, h₂.1⟩
    refine wp_when (fun s₂ => s₀.Browsed s₂ (pointers ninode) ∧ s.KeepsNames s₂) (fun _ => ?_)
      (fun _ => ⟨h₁, kept⟩) done
    exact wp_post h₁.wp_setError fun _ s₂ h₂ => ⟨h₂.1, fun i m names => h₂.2 i m (kept i m names)⟩

/-- The path leads nowhere. -/
lemma wp_nOpenNodir {e : Errno} (nav : s₀.Navigable) (h : s₀.Browsed s {wd}) :
    wp (do
        setError e
        nOpenNodir wd)
      (fun r s' => Ends s₀ s' parent .nowhere r) (fun _ => False) s := by
  unfold nOpenNodir
  rw [wp_bind]
  refine wp_post h.wp_setError fun _ s₁ h₁ => ?_
  rw [wp_bind]
  exact wp_post (h₁.1.wp_iDeref (l := 0) nav.roomy (Nat.zero_le 2)) fun _ s₂ h₂ => ⟨rfl, h₂.1⟩

/-- The path ends at what has been found. -/
lemma wp_nOpenEnd_found (nav : s₀.Navigable) (h : s₀.Browsed s (p ::ₘ {wd})) (names : (s.iTab p).Names m) :
    wp (nOpenEnd parent wd (some p)) (fun r s' => Ends s₀ s' parent (.node m) r) (fun _ => False) s := by
  rw [← pointers_some] at h
  refine wp_post (h.wp_nOpenEnd nav) fun r s' got => ?_
  obtain ⟨⟨e, kept⟩, h'⟩ := got
  refine ⟨⟨p, ?_, kept p m names⟩, h'⟩
  rw [e]

/-- The path ends at a name that is missing. -/
lemma wp_nOpenEnd_missing (nav : s₀.Navigable) (h : s₀.Browsed s {wd}) (names : (s.iTab wd).Names m) :
    wp (nOpenEnd parent wd none) (fun r s' => Ends s₀ s' parent (.missing m) r) (fun _ => False) s := by
  rw [← @pointers_none {wd}] at h
  refine wp_post (h.wp_nOpenEnd nav) fun r s' got => ?_
  obtain ⟨⟨e, kept⟩, h'⟩ := got
  subst e
  refine ⟨⟨rfl, fun asked => ⟨wd, if_pos asked, kept wd m names⟩⟩, h'⟩

/-- The permission to search a directory. -/
lemma getperm_eq (h : s₀.Browsed s {p}) (names : (s.iTab p).Names m) :
    getperm s p = (s₀.icache.content m).perm s₀.target s₀.udata := by
  rw [Uzi.getperm_eq, h.node_eq names, h.still.target, h.still.udata]
  rfl

/-- The directory is searched for a component, and the rest of the path followed from what is found. -/
lemma wp_nOpenSearch {m₀ : Nat × Word} {k : Nat} (nav : s₀.Navigable) (le : k ≤ name.len) (ne : name.chr k ≠ 0)
    (noSlash : name.chr k ≠ SLASH) (visit : s₀.Visitable m) (dir : s₀.tree.isDir m = true)
    (lead_eq : lead = s₀.tree.resolve dotSecond m₀ (name.rest k)) (through : s₀.tree.through m₀ = m)
    (ih : ∀ {s wd ninode}, s₀.Browsed s (pointers ninode + {wd}) →
      s₀.Ahead s wd (name.rest (name.skipComponent k)) lead ninode →
      wp (nOpenLoop name parent rounds wd ninode (name.skipComponent k)) (fun r s' => Ends s₀ s' parent lead r)
        (fun _ => False) s)
    (h : s₀.Browsed s {wd}) (names : (s.iTab wd).Names m) :
    wp (do
        let wd ← upMount (fun j => name.chr (k + j)) wd
        let ninode ← srchDir wd fun j => name.chr (k + j)
        nOpenLoop name parent rounds wd ninode (name.skipComponent k))
      (fun r s' => Ends s₀ s' parent lead r) (fun _ => False) s := by
  have dot : name.chr (k + 1) = DOT ↔ dotSecond (name.component k) = true :=
    (CStr.chr_succ_eq_dot le ne noSlash).trans decide_eq_true_iff.symm
  have c_ne : name.component k ≠ [] := by
    rw [CStr.component_eq le ne noSlash]
    exact List.cons_ne_nil _ _
  obtain ⟨visit', dir'⟩ : s₀.Visitable (s₀.tree.base dotSecond m (name.component k)) ∧ _ :=
    visitable_base nav visit dir
  have att := visit'.attached
  have search := nav.dirs _ visit' dir'
  rw [CStr.rest_eq_cons le ne noSlash, NameTree.resolve, through, if_pos dir] at lead_eq
  rw [wp_bind]
  refine wp_post (h.wp_upMount nav visit names dot) fun wd₁ s₁ got => ?_
  obtain ⟨names₁, h₁⟩ := got
  rw [wp_bind]
  refine wp_post (h₁.wp_srchDir nav att search dir' (CStr.stem_component le) c_ne names₁) fun r s₂ opens => ?_
  cases found : s₀.tree.entry (s₀.tree.base dotSecond m (name.component k)) (name.component k) with
  | some m' =>
    rw [found] at opens lead_eq
    obtain ⟨p, e, names₂, h₂⟩ := opens
    subst e
    rw [← pointers_some] at h₂
    exact ih h₂ ⟨m', names₂, .inl (search.openable c_ne found), lead_eq⟩
  | none =>
    rw [found] at opens lead_eq
    obtain ⟨e, h₂, kept⟩ := opens
    subst e
    rw [← @pointers_none {wd₁}] at h₂
    exact ih h₂ ⟨_, kept _ _ names₁, lead_eq⟩

/-- The loop of `n_open` ends where the path leads, by way of the names whose second character is a dot. -/
lemma wp_nOpenLoop (nav : s₀.Navigable) (le : i ≤ name.len) (enough : name.len - i < rounds)
    (h : s₀.Browsed s (pointers ninode + {wd})) (ahead : s₀.Ahead s wd (name.rest i) lead ninode) :
    wp (nOpenLoop name parent rounds wd ninode i) (fun r s' => Ends s₀ s' parent lead r) (fun _ => False) s := by
  induction rounds generalizing s wd ninode i with
  | zero => exact absurd enough (Nat.not_lt_zero _)
  | succ rounds ih =>
    have le' := (CStr.skipSlashes_spec le).1
    have noSlash := CStr.chr_skipSlashes le
    have low : i ≤ name.skipSlashes i := CStr.le_skipWhile
    rw [← CStr.rest_skipSlashes le] at ahead
    unfold nOpenLoop
    rw [wp_bind]
    generalize name.skipSlashes i = k at le' noSlash low ahead ⊢
    cases ninode with
    | none =>
      obtain ⟨d, names, lead_eq⟩ := ahead
      rw [pointers_none] at h
      show wp (if name.chr k = 0 then _ else _) _ _ s
      rw [wp_ite]
      split
      · next ended =>
        rw [CStr.rest_eq_nil le' ended] at lead_eq
        rw [lead_eq]
        exact h.wp_nOpenEnd_missing nav names
      · next ne =>
        rw [CStr.rest_eq_cons le' ne noSlash] at lead_eq
        rw [lead_eq]
        exact h.wp_nOpenNodir nav
    | some p =>
      obtain ⟨m, names, visit, lead_eq⟩ := ahead
      rw [pointers_some] at h
      refine wp_post (h.wp_throughMount nav names) fun r s₁ got => ?_
      obtain ⟨q, e, names₁, h₁⟩ := got
      subst e
      have visit₁ := visitable_through nav visit
      rw [wp_ite]
      split
      · next ended =>
        rw [CStr.rest_eq_nil le' ended] at lead_eq
        rw [lead_eq]
        exact h₁.wp_nOpenEnd_found nav names₁
      · next ne =>
        -- the pointer to the directory takes over the reference of the other
        rw [show ({wd} : Multiset Inoptr) = wd ::ₘ 0 from rfl, Multiset.cons_swap] at h₁
        rw [wp_bind]
        refine wp_post (h₁.wp_iDeref nav.roomy (Nat.le_succ 1)) fun _ s₂ got => ?_
        obtain ⟨h₂, kept⟩ := got
        have h₂ : s₀.Browsed s₂ {q} := h₂
        have names₂ := kept _ _ names₁
        have mode : (s₂.iTab q).getmode = F_DIR ↔ s₀.tree.isDir (s₀.tree.through m) = true := by
          rw [Cinode.getmode, h₂.node_eq names₂]
          exact decide_eq_true_iff.symm
        rw [wp_bind, wp_get, wp_ite]
        split
        · next file =>
          rw [CStr.rest_eq_cons le' ne noSlash, NameTree.resolve, if_neg (mt mode.mpr file)] at lead_eq
          rw [lead_eq]
          exact h₂.wp_nOpenNodir nav
        · next isDir =>
          have dir := mode.mp (not_not.mp isDir)
          have search := nav.dirs _ visit₁ dir
          rw [wp_ite, if_neg]
          · refine h₂.wp_nOpenSearch nav le' ne noSlash visit₁ dir lead_eq rfl ?_ names₂
            intro s₃ wd₃ ninode₃ h₃ ahead₃
            have more := CStr.lt_skipComponent le' ne noSlash
            have top := (CStr.skipComponent_spec le').1
            exact ih top (by omega) h₃ ahead₃
          · rw [h₂.getperm_eq names₂]
            exact search.perm

end Browsed

/-- `n_open` returns, with what the path leads to by way of the names whose second character is a dot. -/
lemma Navigable.wp_nOpen {s : Kernel} {name : CStr} {parent : Bool} (nav : s.Navigable) :
    wp (nOpen name parent)
      (fun r s' => Browsed.Ends s s' parent (s.tree.resolve dotSecond (s.startOf name) (name.rest 0)) r)
      (fun _ => False) s := by
  unfold nOpen
  rw [wp_bind, wp_get]
  have pinned : s.Pinned (if name.chr 0 = SLASH then s.root else s.udata.uCwd) := by
    split
    · exact nav.root
    · exact nav.cwd
  rw [startOf]
  generalize (if name.chr 0 = SLASH then s.root else s.udata.uCwd) = wd at pinned ⊢
  rw [wp_bind]
  refine wp_post ((Browsed.start nav.cached nav.unused nav.magic).wp_iRef nav (Nat.zero_le 1) pinned) fun _ s₁ h₁ => ?_
  rw [wp_bind]
  refine wp_post (h₁.wp_iRef nav (Nat.le_refl 1) pinned) fun _ s₂ h₂ => ?_
  have names := h₂.pinned_names pinned
  exact h₂.wp_nOpenLoop nav (Nat.zero_le _) (Nat.lt_succ_self _) ⟨_, names, .inr ⟨wd, pinned, rfl⟩, rfl⟩

end Kernel

/-- `n_open` returns what the path leads to, component by component, as long as the only name with a dot behind
its first character that is looked up at the root of a mounted device is `..`. -/
theorem nOpen_resolves {s : Kernel} {name : CStr} {parent : Bool} (nav : s.Navigable) (plain : s.Plain name) :
    wp (nOpen name parent) (fun r s' => s'.Leads parent r (s.resolve name)) (fun _ => False) s := by
  rw [← plain.resolve_eq]
  exact wp_post nav.wp_nOpen fun _ _ ends => ends.1

/-! ## Two devices -/

/-- A string of given characters. -/
def CStr.ofList (l : List Byte) (h : 0 ∉ l) : CStr where
  chr i := l.getD i 0
  len := l.length
  ne_zero i hi := by
    rw [List.getD_eq_getElem l 0 hi]
    exact fun e => h (e ▸ List.getElem_mem hi)
  terminated := List.getD_eq_default l 0 (Nat.le_refl _)

/-- A directory of `n` blocks, of which the first is block 3. -/
def dirInode (n : Word) : Dinode :=
  { Dinode.zero with iMode := F_DIR, iNlink := 1, iSize := ⟨n, 0⟩, iAddr := fun _ => if n = 0 then 0 else 3 }

/-- A block of inodes of which two are used. -/
def inodeBlock (d1 d2 : Dinode) : Block := (Block.zero.setDinode 1 d1).setDinode 2 d2

/-- A block of a directory with one entry, for inode 2. -/
def nameBlock (name : List Byte) : Block :=
  .ofBytes fun i => if i < 16 then (Direct.ofName 2 fun k => name.getD k 0).byte i else 0

/-- The root of device 0 names `m`, an empty directory, and the root of device 1 names the file `a.b`. -/
def twoDisks (dev : Nat) (n : Word) : Block :=
  if n = 2 then
    if dev = 0 then inodeBlock (dirInode 1) (dirInode 0)
    else inodeBlock (dirInode 1) { Dinode.zero with iMode := F_REG, iNlink := 1 }
  else if n = 3 then nameBlock (if dev = 0 then [0x6d] else [0x61, DOT, 0x62])
  else Block.zero

/-- Device 1 is mounted on directory `m` of device 0. -/
def twoDevices : Kernel :=
  { Kernel.inited twoDisks with
    iTab := fun i =>
      if i = 0 then ⟨CMAGIC, 0, ROOTINODE, dirInode 1, 2, false⟩
      else if i = 1 then ⟨CMAGIC, 0, 2, dirInode 0, 1, false⟩
      else .zero
    fsTab := fun dev =>
      { (Kernel.inited twoDisks).fsTab dev with
        sMounted := if dev ≤ 1 then SMOUNTED else 0
        sIsize := if dev ≤ 1 then 3 else 0
        sMntpt := if dev = 1 then 2 else 0 } }

/-- The inodes of a block. -/
lemma ofBlock_inodeBlock {d1 d2 : Dinode} {k : Nat} (hk : k < 8) :
    Dinode.ofBlock (inodeBlock d1 d2) k = if k = 2 then d2 else if k = 1 then d1 else .zero := by
  rw [inodeBlock]
  split
  · next e =>
    rw [e]
    exact Dinode.ofBlock_setDinode (by decide)
  · next two =>
    rw [Dinode.ofBlock_setDinode_of_ne hk two]
    split
    · next e =>
      rw [e]
      exact Dinode.ofBlock_setDinode (by decide)
    · next one =>
      rw [Dinode.ofBlock_setDinode_of_ne hk one]
      simp only [Dinode.ofBlock, Block.word_zero]
      rfl

/-- What is on the two disks. -/
lemma content_twoDevices {n : Nat × Word} : twoDevices.bufs.view.content n = twoDisks n.1 n.2 :=
  congrFun (congrArg View.content Bufs.good_inited.2) n

/-- The inodes of the two devices. -/
lemma diskInode_twoDevices {m : Nat × Word} (lt : m.2.toNat < 8) :
    twoDevices.diskInode m =
      if m.2 = 2 then if m.1 = 0 then dirInode 0 else { Dinode.zero with iMode := F_REG, iNlink := 1 }
      else if m.2 = 1 then dirInode 1 else .zero := by
  have blk : inodeBlk m.2 = 2 := by
    apply BitVec.eq_of_toNat_eq
    rw [inodeBlk_toNat, Nat.div_eq_of_lt lt]
    rfl
  have two : m.2.toNat = 2 ↔ m.2 = 2 := BitVec.toNat_inj (y := (2 : Word))
  have one : m.2.toNat = 1 ↔ m.2 = 1 := BitVec.toNat_inj (y := (1 : Word))
  rw [Kernel.diskInode, content_twoDevices, blk, inodeIdx_eq, Nat.mod_eq_of_lt lt, twoDisks, if_pos rfl]
  by_cases root : m.1 = 0
  · rw [if_pos root, if_pos root, ofBlock_inodeBlock lt]
    simp only [two, one]
  · rw [if_neg root, if_neg root, ofBlock_inodeBlock lt]
    simp only [two, one]

/-- There are two inodes in the table. -/
lemma iTab_twoDevices (i : Inoptr) : i = 0 ∨ i = 1 ∨ twoDevices.iTab i = .zero := by
  by_cases zero : i = 0
  · exact .inl zero
  · by_cases one : i = 1
    · exact .inr (.inl one)
    · exact .inr (.inr ((if_neg zero).trans (if_neg one)))

/-- The names of the two inodes. -/
lemma names_twoDevices {i : Inoptr} {m : Nat × Word} (names : (twoDevices.iTab i).Names m) :
    i = 0 ∧ m = (0, 1) ∨ i = 1 ∧ m = (0, 2) := by
  obtain e | e | e := iTab_twoDevices i
  · rw [e] at names
    exact .inl ⟨e, Prod.ext names.1.symm names.2.1.symm⟩
  · rw [e] at names
    exact .inr ⟨e, Prod.ext names.1.symm names.2.1.symm⟩
  · rw [e] at names
    exact absurd rfl names.num_ne

/-- The cache of the two devices. -/
lemma cached_twoDevices : twoDevices.Cached := by
  have root : twoDevices.HasInode (0, 1) := ⟨by decide, by decide⟩
  have dir : twoDevices.HasInode (0, 2) := ⟨by decide, by decide⟩
  refine ⟨Bufs.good_inited.1, congrFun (congrArg View.held Bufs.good_inited.2), ⟨?_, ?_⟩, fun i num => ?_, fun i magic => ?_⟩
  · intro i j m hi hj
    obtain ⟨ei, e⟩ | ⟨ei, e⟩ := names_twoDevices (Kernel.icache_name.mp hi)
    · obtain ⟨ej, -⟩ | ⟨-, e'⟩ := names_twoDevices (Kernel.icache_name.mp hj)
      · exact ei.trans ej.symm
      · exact absurd (e.symm.trans e') (by decide)
    · obtain ⟨-, e'⟩ | ⟨ej, -⟩ := names_twoDevices (Kernel.icache_name.mp hj)
      · exact absurd (e.symm.trans e') (by decide)
      · exact ei.trans ej.symm
  · intro i m hi _ _
    show (twoDevices.iTab i).cNode = _
    obtain ⟨ei, e⟩ | ⟨ei, e⟩ := names_twoDevices (Kernel.icache_name.mp hi)
    · rw [e, ei, Kernel.icache_back root, diskInode_twoDevices (by decide)]
      rfl
    · rw [e, ei, Kernel.icache_back dir, diskInode_twoDevices (by decide)]
      rfl
  · have own : (twoDevices.iTab i).Names (twoDevices.node i) := ⟨rfl, rfl, num⟩
    show twoDevices.HasInode (twoDevices.node i)
    obtain ⟨-, e⟩ | ⟨-, e⟩ := names_twoDevices own
    · rw [e]
      exact root
    · rw [e]
      exact dir
  · obtain e | e | e := iTab_twoDevices i
    · rw [e]
      decide
    · rw [e]
      decide
    · rw [e] at magic
      exact absurd magic (by decide)

/-- The inodes of the two devices. -/
lemma inode_twoDevices {m : Nat × Word} (dev : m.1 ≤ 1) (lt : m.2.toNat < 8) :
    twoDevices.icache.content m =
      if m.2 = 2 then if m.1 = 0 then dirInode 0 else { Dinode.zero with iMode := F_REG, iNlink := 1 }
      else if m.2 = 1 then dirInode 1 else .zero := by
  have has : twoDevices.HasInode m := by
    refine ⟨Nat.lt_of_le_of_lt dev (by decide), ?_⟩
    rw [BitVec.lt_def, inodeBlk_toNat, Nat.div_eq_of_lt lt]
    show 0 + 2 < (if m.1 ≤ 1 then (3 : Word) else 0).toNat
    rw [if_pos dev]
    decide
  have clean : ∀ i, twoDevices.icache.name i = some m → ¬ twoDevices.icache.dirty i := by
    intro i hi dirty
    obtain ⟨e, -⟩ | ⟨e, -⟩ := names_twoDevices (Kernel.icache_name.mp hi)
    · rw [e] at dirty
      exact Bool.false_ne_true dirty
    · rw [e] at dirty
      exact Bool.false_ne_true dirty
  rw [cached_twoDevices.coherent.content_eq_back clean, Kernel.icache_back has, diskInode_twoDevices lt]

/-- The devices that are mounted. -/
lemma Kernel.Attached.twoDevices {m : Nat × Word} (h : Uzi.twoDevices.Attached m) : m.1 ≤ 1 := by
  by_contra far
  have mounted : (if m.1 ≤ 1 then SMOUNTED else 0) = SMOUNTED := h.mounted
  rw [if_neg far] at mounted
  exact absurd mounted (by decide)

/-- There are eight inodes on each device. -/
lemma inodeEnd_twoDevices {dev : Nat} (h : dev ≤ 1) :
    (twoDevices.fsTab dev).inodeEnd twoDevices.target = 8 := by
  show (((if dev ≤ 1 then (3 : Word) else 0) - 2) * 8).toNat = 8
  rw [if_pos h]
  rfl

/-- The inodes that can be visited. -/
lemma Kernel.Visitable.twoDevices {m : Nat × Word} (h : Uzi.twoDevices.Visitable m) :
    m = (0, 1) ∨ m = (0, 2) ∨ m = (1, 1) ∨ m = (1, 2) := by
  have dev := h.attached.twoDevices
  obtain openable | ⟨i, pinned, e⟩ := h
  · have lt := openable.inode
    rw [inodeEnd_twoDevices dev] at lt
    have nlink := openable.nlink
    rw [inode_twoDevices dev lt] at nlink
    have num : m.2 = 2 ∨ m.2 = 1 := by
      by_contra none
      obtain ⟨two, one⟩ := not_or.mp none
      rw [if_neg two, if_neg one] at nlink
      exact nlink rfl
    have dev : m.1 = 0 ∨ m.1 = 1 := by omega
    obtain ⟨dev', num'⟩ := m
    cases dev with
    | inl e => cases num with
      | inl e' => exact .inr (.inl (Prod.ext e e'))
      | inr e' => exact .inl (Prod.ext e e')
    | inr e => cases num with
      | inl e' => exact .inr (.inr (.inr (Prod.ext e e')))
      | inr e' => exact .inr (.inr (.inl (Prod.ext e e')))
  · have own : (Uzi.twoDevices.iTab i).Names (Uzi.twoDevices.node i) := ⟨rfl, rfl, pinned.num⟩
    rw [← e]
    obtain ⟨-, e⟩ | ⟨-, e⟩ := names_twoDevices own
    · exact .inl e
    · exact .inr (.inl e)

/-- The inodes that are used can be opened. -/
lemma openable_twoDevices {m : Nat × Word} (dev : m.1 ≤ 1) (num : m.2 = 1 ∨ m.2 = 2) : twoDevices.Openable m := by
  have lt : m.2.toNat < 8 := by
    cases num with
    | inl e => rw [e]; decide
    | inr e => rw [e]; decide
  have used : (twoDevices.icache.content m).iNlink ≠ 0 ∧ (twoDevices.icache.content m).iMode &&& F_MASK ≠ 0 := by
    rw [inode_twoDevices dev lt]
    cases num with
    | inl e =>
      rw [e, if_neg (by decide), if_pos rfl]
      decide
    | inr e =>
      rw [if_pos e]
      split
      · decide
      · decide
  refine ⟨⟨Nat.lt_of_le_of_lt dev (by decide), if_pos dev, ?_⟩, ?_, ?_, used.1, used.2⟩
  · show 2 ≤ if m.1 ≤ 1 then (3 : Word) else 0
    rw [if_pos dev]
    decide
  · cases num with
    | inl e => rw [e]; decide
    | inr e => rw [e]; decide
  · rw [inodeEnd_twoDevices dev]
    exact lt

/-- The entries of the directory with one block. -/
lemma entries_twoDevices {dev : Nat} :
    (dirInode 1).entries (twoDevices.cell dev) = (nameBlock (if dev = 0 then [0x6d] else [0x61, DOT, 0x62])).entries := by
  have addr : (dirInode 1).stored (twoDevices.cell dev) (BitVec.ofNat 16 0) = 3 := rfl
  have one : (dirInode 1).nblocks = 0 + 1 := rfl
  rw [Dinode.entries, one, Dinode.entriesFrom_succ, addr, Kernel.cell, content_twoDevices]
  exact List.append_nil _

/-- The directories of the two devices can be searched. -/
lemma searchable_twoDevices {m : Nat × Word} (visit : twoDevices.Visitable m) (dir : twoDevices.tree.isDir m = true) :
    twoDevices.Searchable m := by
  have root : ∀ d : Dinode, d.perm twoDevices.target twoDevices.udata &&& OTH_EX ≠ 0 := fun d => by
    rw [Dinode.perm, if_pos (show twoDevices.udata.uEuid = 0 from rfl)]
    decide
  have top : ∀ dev ≤ 1, twoDevices.Searchable (dev, 1) := by
    intro dev le
    have lt : (1 : Word).toNat < 8 := by decide
    have ne : (1 : Word) ≠ 2 := by decide
    have node : twoDevices.icache.content (dev, 1) = dirInode 1 :=
      (inode_twoDevices (m := (dev, 1)) le lt).trans ((if_neg ne).trans (if_pos rfl))
    refine ⟨root _, ?_, fun k hk => ?_, fun e mem named => ?_⟩
    · rw [node]
      decide
    · rw [node] at hk ⊢
      obtain rfl : k = 0 := Nat.lt_one_iff.mp hk
      exact (by decide : (3 : Word) ≠ 0)
    · rw [node, entries_twoDevices] at mem
      refine openable_twoDevices le (.inr ?_)
      have all : ∀ name ∈ [[0x6d], [0x61, DOT, 0x62]], ∀ e ∈ (nameBlock name).entries, e.stem ≠ [] → e.dIno = 2 := by
        decide +kernel
      refine all _ ?_ e mem named
      split
      · exact List.mem_cons_self
      · exact List.mem_cons_of_mem _ List.mem_cons_self
  obtain e | e | e | e := visit.twoDevices
  · rw [e]
    exact top 0 (by decide)
  · have node : twoDevices.icache.content m = dirInode 0 := by
      rw [e]
      exact inode_twoDevices (Nat.zero_le 1) (by decide)
    refine ⟨root _, ?_, fun k hk => ?_, fun e mem => ?_⟩
    · rw [node]
      decide
    · rw [node] at hk
      exact absurd hk (Nat.not_lt_zero k)
    · rw [node] at mem
      cases mem
  · rw [e]
    exact top 1 (by decide)
  · have node : twoDevices.icache.content m = { Dinode.zero with iMode := F_REG, iNlink := 1 } := by
      rw [e]
      exact inode_twoDevices (Nat.le_refl 1) (by decide)
    have dir : decide ((twoDevices.icache.content m).iMode &&& F_MASK = F_DIR) = true := dir
    rw [node] at dir
    exact absurd dir (by decide)

/-- The two devices can be navigated. -/
lemma navigable_twoDevices : twoDevices.Navigable := by
  have kept : ∀ i : Inoptr, i = 0 ∨ i = 1 → twoDevices.Pinned i := by
    intro i e
    cases e with
    | inl e =>
      rw [e]
      exact ⟨by decide, by decide, (openable_twoDevices (Nat.zero_le 1) (.inl rfl)).toAttached⟩
    | inr e =>
      rw [e]
      exact ⟨by decide, by decide, (openable_twoDevices (Nat.zero_le 1) (.inr rfl)).toAttached⟩
  have entries : ∀ i, ((twoDevices.iTab i).cRefs = 0 → (twoDevices.iTab i).cDirty = false) ∧
      ((twoDevices.iTab i).cNum ≠ 0 → (twoDevices.iTab i).cMagic = CMAGIC) ∧
      (twoDevices.iTab i).cRefs.toNat + 2 < 2 * ITABSIZE := by
    intro i
    obtain e | e | e := iTab_twoDevices i
    · rw [e]
      decide
    · rw [e]
      decide
    · rw [e]
      decide
  refine
    { cached := cached_twoDevices
      unused := fun i => (entries i).1
      magic := fun i => (entries i).2.1
      root := kept 0 (.inl rfl)
      cwd := kept 0 (.inl rfl)
      rootdev := rfl
      mounts := fun dev hdev ne mounted => ?_
      tops := fun dev hdev mounted => ?_
      dirs := fun m => searchable_twoDevices
      room := ⟨2, 3, by decide, rfl, rfl⟩
      refs := fun i => (entries i).2.2 }
  · have le : dev ≤ 1 := by
      by_contra far
      exact absurd ((if_neg far).symm.trans mounted) (by decide)
    have one : dev = 1 := Nat.le_antisymm le (Nat.pos_of_ne_zero ne)
    rw [one]
    exact ⟨1, rfl, kept 1 (.inr rfl), by decide⟩
  · have le : dev ≤ 1 := by
      by_contra far
      exact absurd ((if_neg far).symm.trans mounted) (by decide)
    exact openable_twoDevices le (.inl rfl)

/-- What the two devices have under the names in them. -/
lemma tree_twoDevices :
    twoDevices.tree.isDir (0, 1) = true ∧ twoDevices.tree.isDir (1, 1) = true ∧
    twoDevices.tree.entry (0, 1) [0x6d] = some (0, 2) ∧
    twoDevices.tree.entry (1, 1) [0x61, DOT, 0x62] = some (1, 2) ∧
    twoDevices.tree.entry (0, 2) [0x61, DOT, 0x62] = none := by
  have root : twoDevices.icache.content (0, 1) = dirInode 1 := inode_twoDevices (Nat.zero_le 1) (by decide)
  have top : twoDevices.icache.content (1, 1) = dirInode 1 := inode_twoDevices (Nat.le_refl 1) (by decide)
  have dir : twoDevices.icache.content (0, 2) = dirInode 0 := inode_twoDevices (Nat.zero_le 1) (by decide)
  have m : findEntry (nameBlock [0x6d]).entries [0x6d] = some 2 := by decide +kernel
  have ab : findEntry (nameBlock [0x61, DOT, 0x62]).entries [0x61, DOT, 0x62] = some 2 := by decide +kernel
  refine ⟨decide_eq_true ?_, decide_eq_true ?_, ?_, ?_, ?_⟩
  · rw [root]
    decide
  · rw [top]
    decide
  · show (findEntry ((twoDevices.icache.content (0, 1)).entries (twoDevices.cell 0)) _).map _ = _
    rw [root, entries_twoDevices, if_pos rfl, m]
    rfl
  · show (findEntry ((twoDevices.icache.content (1, 1)).entries (twoDevices.cell 1)) _).map _ = _
    rw [top, entries_twoDevices, if_neg Nat.one_ne_zero, ab]
    rfl
  · show (findEntry ((twoDevices.icache.content (0, 2)).entries (twoDevices.cell 0)) _).map _ = _
    rw [dir]
    rfl

/-- The mount point leads to the root of device 1. -/
lemma through_twoDevices :
    twoDevices.tree.through (0, 1) = (0, 1) ∧ twoDevices.tree.through (0, 2) = (1, 1) ∧
    twoDevices.tree.through (1, 2) = (1, 2) := ⟨rfl, rfl, rfl⟩

/-- The path `/m`. -/
def pathM : CStr := .ofList [SLASH, 0x6d] (by decide)

/-- The path `/m/a.b`. -/
def pathAB : CStr := .ofList [SLASH, 0x6d, SLASH, 0x61, DOT, 0x62] (by decide)

/-- The path `/m` leads to the root of the device that is mounted there. -/
theorem nOpen_resolves_pathM :
    wp (nOpen pathM true) (fun r s' => s'.Leads true r (.node (1, 1))) (fun _ => False) twoDevices := by
  obtain ⟨dir, -, entry, -, -⟩ := tree_twoDevices
  obtain ⟨root, mount, -⟩ := through_twoDevices
  have names : pathM.rest 0 = [[0x6d]] := by decide
  have start : twoDevices.startOf pathM = (0, 1) := rfl
  have base : twoDevices.tree.base isDotDot (0, 1) [0x6d] = (0, 1) := rfl
  have plain : twoDevices.Plain pathM := by
    rw [Kernel.Plain, names, start]
    exact fun _ => ⟨fun top => absurd top (by decide), fun _ _ => trivial⟩
  have leads : twoDevices.resolve pathM = .node (1, 1) := by
    rw [Kernel.resolve, names, start, NameTree.resolve, root, if_pos dir, base, entry]
    exact congrArg Lead.node mount
  rw [← leads]
  exact nOpen_resolves navigable_twoDevices plain

/-- The file `/m/a.b` is there. -/
lemma resolve_pathAB : twoDevices.resolve pathAB = .node (1, 2) := by
  obtain ⟨dir, top, entry, file, -⟩ := tree_twoDevices
  obtain ⟨root, mount, this⟩ := through_twoDevices
  have names : pathAB.rest 0 = [[0x6d], [0x61, DOT, 0x62]] := by decide
  have start : twoDevices.startOf pathAB = (0, 1) := rfl
  have base : twoDevices.tree.base isDotDot (0, 1) [0x6d] = (0, 1) := rfl
  have stay : twoDevices.tree.base isDotDot (1, 1) [0x61, DOT, 0x62] = (1, 1) := rfl
  rw [Kernel.resolve, names, start]
  simp only [NameTree.resolve, root, dir, base, entry, mount, top, stay, file, this, if_true]

/-- By way of the names whose second character is a dot, it is looked for in the directory `m` below. -/
lemma resolve_dotSecond_pathAB :
    twoDevices.tree.resolve dotSecond (twoDevices.startOf pathAB) (pathAB.rest 0) = .missing (0, 2) := by
  obtain ⟨dir, top, entry, -, none⟩ := tree_twoDevices
  obtain ⟨root, mount, -⟩ := through_twoDevices
  have names : pathAB.rest 0 = [[0x6d], [0x61, DOT, 0x62]] := by decide
  have start : twoDevices.startOf pathAB = (0, 1) := rfl
  have base : twoDevices.tree.base dotSecond (0, 1) [0x6d] = (0, 1) := rfl
  have below : twoDevices.tree.base dotSecond (1, 1) [0x61, DOT, 0x62] = (0, 2) := rfl
  rw [names, start]
  simp only [NameTree.resolve, root, dir, base, entry, mount, top, below, none, List.isEmpty_nil, if_true]

/-- A file is not found where its name leads elsewhere. -/
lemma Kernel.Navigable.not_leads {s : Kernel} {name : CStr} {m d : Nat × Word} (nav : s.Navigable)
    (right : s.resolve name = .node m)
    (wrong : s.tree.resolve dotSecond (s.startOf name) (name.rest 0) = .missing d) :
    ¬ wp (nOpen name true) (fun r s' => s'.Leads true r (s.resolve name)) (fun _ => False) s := by
  intro leads
  have code : wp (nOpen name true) (fun r s' => Browsed.Ends s s' true (.missing d) r) (fun _ => False) s := by
    rw [← wrong]
    exact nav.wp_nOpen
  rw [right] at leads
  obtain ⟨r, s', ret, found⟩ := leads.returns
  obtain ⟨p, some, -⟩ := found
  have missing := (code.ok ret).1
  have none : r.1 = .none := missing.1
  rw [some] at none
  cases none

/-- The file `/m/a.b` is not found: `n_open` looks for it in the directory `m` below the mounted device. -/
theorem not_nOpen_resolves : twoDevices.Navigable ∧ twoDevices.resolve pathAB = .node (1, 2) ∧
    ¬ wp (nOpen pathAB true) (fun r s' => s'.Leads true r (twoDevices.resolve pathAB)) (fun _ => False) twoDevices :=
  ⟨navigable_twoDevices, resolve_pathAB, navigable_twoDevices.not_leads resolve_pathAB resolve_dotSecond_pathAB⟩

end Uzi
