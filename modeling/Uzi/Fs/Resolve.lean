import Uzi.Fs.BlockMap
import Uzi.Fs.InodeOpen
import Uzi.Fs.Path
import Uzi.Lib.NameTree

/-!
# What a path name means

The tree of names that lies in the directories of the mounted devices, and the components of a path name.
`namecomp` and the scans of `n_open` over the characters are brought in relation to them.
-/

namespace Uzi
open Exec

/-! ## Components of a name -/

/-- The characters of a name in a field of 14: it ends at a null or a slash. -/
def stem (f : Nat → Byte) : List Byte := ((List.range 14).map f).takeWhile fun c => c ≠ 0 ∧ c ≠ SLASH

/-- The first of `n` characters from `i` on, up to a null or a slash. -/
def stemFrom (f : Nat → Byte) (n i : Nat) : List Byte :=
  ((List.range' i n).map f).takeWhile fun c => c ≠ 0 ∧ c ≠ SLASH

/-- The stem is the stem of 14 characters. -/
lemma stem_eq {f : Nat → Byte} : stem f = stemFrom f 14 0 := by
  rw [stem, stemFrom, List.range_eq_range']

/-- One character more. -/
lemma stemFrom_succ {f : Nat → Byte} {n i : Nat} :
    stemFrom f (n + 1) i = if f i = 0 ∨ f i = SLASH then [] else f i :: stemFrom f n (i + 1) := by
  rw [stemFrom, List.range'_succ, List.map_cons, List.takeWhile_cons]
  by_cases stop : f i = 0 ∨ f i = SLASH
  · rw [if_pos stop, if_neg]
    rw [decide_eq_true_iff, ← not_or]
    exact not_not.mpr stop
  · rw [if_neg stop, if_pos]
    · rfl
    · rw [decide_eq_true_iff, ← not_or]
      exact stop

/-- The rounds of `namecomp` compare the stems. -/
lemma namecompRounds_iff {n1 n2 : Nat → Byte} {n : Nat} (le : n ≤ 14) :
    namecompRounds n1 n2 n = true ↔ stemFrom n1 n (14 - n) = stemFrom n2 n (14 - n) := by
  induction n with
  | zero => exact iff_of_true rfl rfl
  | succ n ih =>
    have i_eq : 14 - (n + 1) = 13 - n := by omega
    have next : 13 - n + 1 = 14 - n := by omega
    have ih := ih (Nat.le_of_succ_le le)
    rw [namecompRounds, i_eq, stemFrom_succ, stemFrom_succ, next]
    generalize 13 - n = i
    by_cases end1 : n1 i = 0 ∨ n1 i = SLASH
    · rw [if_pos end1, if_pos end1]
      by_cases end2 : n2 i = 0 ∨ n2 i = SLASH
      · rw [if_pos end2]
        exact iff_of_true (decide_eq_true end2) rfl
      · rw [if_neg end2]
        exact iff_of_false (mt of_decide_eq_true end2) (List.cons_ne_nil _ _).symm
    · rw [if_neg end1, if_neg end1]
      by_cases same : n1 i = n2 i
      · rw [if_neg (not_not.mpr same), ← same, if_neg end1, ih, List.cons.injEq, and_iff_right rfl]
      · rw [if_pos same]
        refine iff_of_false Bool.false_ne_true fun e => ?_
        split at e
        · exact List.cons_ne_nil _ _ e
        · exact same (List.cons.inj e).1

/-- `namecomp` compares what is in front of a null or a slash among the first 14 characters. -/
lemma namecomp_iff {n1 n2 : Nat → Byte} : namecomp n1 n2 = true ↔ stem n1 = stem n2 := by
  rw [namecomp, namecompRounds_iff (Nat.le_refl 14), stem_eq, stem_eq]

namespace CStr

/-- The characters of a string. -/
def bytes (s : CStr) : List Byte := (List.range s.len).map s.chr

/-- The components of the string from offset `i` on. -/
def rest (s : CStr) (i : Nat) : List (List Byte) := (s.bytes.drop i).components SLASH

/-- The component at offset `i`. -/
def component (s : CStr) (i : Nat) : List Byte := (s.bytes.drop i).takeWhile (· ≠ SLASH)

variable {s : CStr} {i j : Nat}

/-- The first of the characters that are left. -/
lemma drop_bytes (h : i < s.len) : s.bytes.drop i = s.chr i :: s.bytes.drop (i + 1) := by
  have lt : i < s.bytes.length := by rwa [bytes, List.length_map, List.length_range]
  rw [List.drop_eq_getElem_cons lt]
  simp only [bytes, List.getElem_map, List.getElem_range]

/-- No characters are left at the end. -/
lemma drop_bytes_len : s.bytes.drop s.len = [] := by
  apply List.drop_eq_nil_of_le
  rw [bytes, List.length_map, List.length_range]

/-- A character is before the end. -/
lemma lt_len (le : i ≤ s.len) (ne : s.chr i ≠ 0) : i < s.len := by
  refine Nat.lt_of_le_of_ne le fun e => ne ?_
  rw [e]
  exact s.terminated

/-- A scan over the characters drops those it goes over. -/
lemma drop_skipWhile {p q : Byte → Bool} (agree : ∀ c, c ≠ 0 → p c = q c) {n : Nat} (h : i + n = s.len) :
    skipWhile p s.chr n i ≤ s.len ∧ s.bytes.drop (skipWhile p s.chr n i) = (s.bytes.drop i).dropWhile q := by
  induction n generalizing i with
  | zero =>
    rw [Nat.add_zero] at h
    rw [skipWhile, h, drop_bytes_len]
    exact ⟨Nat.le_refl _, rfl⟩
  | succ n ih =>
    have lt : i < s.len := by omega
    rw [skipWhile, drop_bytes lt, List.dropWhile_cons, ← agree _ (s.ne_zero i lt)]
    split
    · exact ih (by omega)
    · exact ⟨Nat.le_of_lt lt, drop_bytes lt⟩

/-- `skipWhile` goes forward. -/
lemma le_skipWhile {p : Byte → Bool} {n : Nat} : i ≤ skipWhile p s.chr n i := by
  induction n generalizing i with
  | zero => exact Nat.le_refl i
  | succ n ih =>
    rw [skipWhile]
    split
    · exact (Nat.le_succ i).trans ih
    · exact Nat.le_refl i

/-- A component has characters to go over. -/
lemma lt_skipComponent (le : i ≤ s.len) (ne : s.chr i ≠ 0) (noSlash : s.chr i ≠ SLASH) : i < s.skipComponent i := by
  obtain ⟨n, e⟩ := Nat.exists_eq_add_of_lt (lt_len le ne)
  have left : s.len - i = n + 1 := by omega
  rw [skipComponent, left, skipWhile, if_pos (decide_eq_true ⟨noSlash, ne⟩)]
  exact le_skipWhile

/-- `skipSlashes` drops slashes. -/
lemma skipSlashes_spec (le : i ≤ s.len) :
    s.skipSlashes i ≤ s.len ∧ s.bytes.drop (s.skipSlashes i) = (s.bytes.drop i).dropWhile (· = SLASH) :=
  drop_skipWhile (fun _ _ => rfl) (Nat.add_sub_cancel' le)

/-- `skipComponent` drops a component. -/
lemma skipComponent_spec (le : i ≤ s.len) :
    s.skipComponent i ≤ s.len ∧ s.bytes.drop (s.skipComponent i) = (s.bytes.drop i).dropWhile (· ≠ SLASH) := by
  refine drop_skipWhile (fun c ne => ?_) (Nat.add_sub_cancel' le)
  rw [decide_eq_decide]
  exact and_iff_left ne

/-- Slashes in front of a component do not matter. -/
lemma rest_skipSlashes (le : i ≤ s.len) : s.rest (s.skipSlashes i) = s.rest i := by
  rw [rest, (skipSlashes_spec le).2, List.components_dropWhile, rest]

/-- Behind the slashes there is no slash. -/
lemma chr_skipSlashes (le : i ≤ s.len) : s.chr (s.skipSlashes i) ≠ SLASH := by
  obtain ⟨le', drop⟩ := skipSlashes_spec le
  generalize s.skipSlashes i = j at le' drop
  by_cases lt : j < s.len
  · have stop := List.head?_dropWhile_not (fun c => decide (c = SLASH)) (s.bytes.drop i)
    rw [← drop, drop_bytes lt] at stop
    simpa using stop
  · rw [Nat.le_antisymm le' (Nat.not_lt.mp lt), s.terminated]
    decide

/-- The component at a character that is no slash. -/
lemma component_eq (le : i ≤ s.len) (ne : s.chr i ≠ 0) (noSlash : s.chr i ≠ SLASH) :
    s.component i = s.chr i :: s.component (i + 1) := by
  rw [component, drop_bytes (lt_len le ne), List.takeWhile_cons, if_pos (decide_eq_true noSlash)]
  rfl

/-- The component at hand, and those behind it. -/
lemma rest_eq_cons (le : i ≤ s.len) (ne : s.chr i ≠ 0) (noSlash : s.chr i ≠ SLASH) :
    s.rest i = s.component i :: s.rest (s.skipComponent i) := by
  have first := component_eq le ne noSlash
  rw [component] at first
  rw [rest, List.components_takeWhile (by rw [first]; exact List.cons_ne_nil _ _), ← (skipComponent_spec le).2]
  rfl

/-- Nothing is left at the end. -/
lemma rest_eq_nil (le : i ≤ s.len) (zero : s.chr i = 0) : s.rest i = [] := by
  have e : i = s.len := by
    by_contra ne
    exact s.ne_zero i (Nat.lt_of_le_of_ne le ne) zero
  rw [rest, e, drop_bytes_len]
  rfl

/-- The characters that `namecomp` looks at. -/
lemma stemFrom_chr {n : Nat} (le : i ≤ s.len) : stemFrom s.chr n i = (s.component i).take n := by
  induction n generalizing i with
  | zero => rfl
  | succ n ih =>
    rw [stemFrom_succ]
    split
    · next stop =>
      by_cases lt : i < s.len
      · rw [component, drop_bytes lt, List.takeWhile_cons, if_neg]
        · rfl
        · rw [decide_eq_true_iff, not_not]
          exact stop.resolve_left (s.ne_zero i lt)
      · rw [component, Nat.le_antisymm le (Nat.not_lt.mp lt), drop_bytes_len]
        rfl
    · next go =>
      obtain ⟨ne, noSlash⟩ := not_or.mp go
      rw [component_eq le ne noSlash, List.take_succ_cons, ih (lt_len le ne)]

/-- The stem of a component is its first 14 characters. -/
lemma stem_component (le : i ≤ s.len) : stem (fun k => s.chr (i + k)) = (s.component i).take 14 := by
  rw [← stemFrom_chr le, stem, stemFrom, List.range'_eq_map_range, List.map_map]
  rfl

/-- The test for a dot behind the first character of a component. -/
lemma chr_succ_eq_dot (le : i ≤ s.len) (ne : s.chr i ≠ 0) (noSlash : s.chr i ≠ SLASH) :
    s.chr (i + 1) = DOT ↔ (s.component i)[1]? = some DOT := by
  rw [component_eq le ne noSlash, List.getElem?_cons_succ]
  have le' : i + 1 ≤ s.len := lt_len le ne
  constructor
  · intro dot
    have first := component_eq le' (by rw [dot]; decide) (by rw [dot]; decide)
    rw [first, List.getElem?_cons_zero, dot]
  · intro dot
    by_cases lt : i + 1 < s.len
    · rw [component, drop_bytes lt, List.takeWhile_cons] at dot
      split at dot
      · exact Option.some.inj dot
      · cases dot
    · rw [component, Nat.le_antisymm le' (Nat.not_lt.mp lt), drop_bytes_len] at dot
      cases dot

end CStr

/-! ## Directories -/

/-- The name of a directory entry. -/
def Direct.stem (d : Direct) : List Byte := Uzi.stem d.name

/-- The entries of a block. -/
def Block.entries (b : Block) : List Direct := (List.range 32).map b.direct

/-- The number of blocks of a directory. -/
def Dinode.nblocks (d : Dinode) : Nat :=
  if d.iSize.oOffset ≠ 0 then d.iSize.oBlkno.toNat + 1 else d.iSize.oBlkno.toNat

/-- The entries in `n` blocks of a directory from block `k` on. -/
def Dinode.entriesFrom (d : Dinode) (cell : Word → Block) (k n : Nat) : List Direct :=
  (List.range' k n).flatMap fun i => (cell (d.stored cell (BitVec.ofNat 16 i))).entries

/-- The entries of a directory. -/
def Dinode.entries (d : Dinode) (cell : Word → Block) : List Direct := d.entriesFrom cell 0 d.nblocks

/-- The inode number in the first entry that agrees with a name in 14 characters. -/
def findEntry (entries : List Direct) (c : List Byte) : Option Word :=
  (entries.find? fun e => e.stem = c.take 14).map Direct.dIno

/-- The permissions that `getperm` finds in an inode. -/
def Dinode.perm (d : Dinode) (t : Target) (u : UData) : Word :=
  if u.uEuid = 0 then 0o7
  else if sameId t d.iUid u.uEuid then d.iMode >>> 6 &&& 0o7
  else if sameId t d.iGid u.uEgid then d.iMode >>> 3 &&& 0o7
  else d.iMode &&& 0o7

/-- The permissions of an inode. -/
lemma getperm_eq {s : Kernel} {ino : Inoptr} : getperm s ino = (s.iTab ino).cNode.perm s.target s.udata := by
  simp only [getperm, super, Dinode.perm, decide_eq_true_eq]

/-- `findName` finds the inode number in the first entry of the block with the name. -/
lemma findName_eq {b : Block} {name : Nat → Byte} {c : List Byte} (h : stem name = c.take 14) :
    b.findName name = findEntry b.entries c := by
  rw [Block.findName, findEntry, Block.entries, List.find?_map, Option.map_map]
  congr 2
  funext e
  rw [Function.comp_apply, Bool.eq_iff_iff, namecomp_iff, h, decide_eq_true_iff, Direct.stem]
  exact eq_comm

/-- An entry of two lists, one behind the other. -/
lemma findEntry_append {l l' : List Direct} {c : List Byte} :
    findEntry (l ++ l') c = (findEntry l c).or (findEntry l' c) := by
  rw [findEntry, List.find?_append, findEntry, findEntry]
  cases List.find? _ l with
  | none => rfl
  | some e => rfl

/-- The entries of one block more. -/
lemma Dinode.entriesFrom_succ {d : Dinode} {cell : Word → Block} {k n : Nat} :
    d.entriesFrom cell k (n + 1) =
      (cell (d.stored cell (BitVec.ofNat 16 k))).entries ++ d.entriesFrom cell (k + 1) n := by
  rw [entriesFrom, List.range'_succ, List.flatMap_cons]
  rfl

/-- What is found is in an entry with the name. -/
lemma mem_of_findEntry {l : List Direct} {c : List Byte} {num : Word} (h : findEntry l c = some num) :
    ∃ e ∈ l, e.stem = c.take 14 ∧ e.dIno = num := by
  obtain ⟨e, found, e_num⟩ := Option.map_eq_some_iff.mp h
  have named := List.find?_some found
  exact ⟨e, List.mem_of_find?_eq_some found, by simpa using named, e_num⟩

/-! ## The tree of names -/

/-- The raw pointers of the entries. -/
lemma inoOfRaw_eq {w : Word} {i : Inoptr} : inoOfRaw w = some i ↔ w = i.raw := by
  have lt : i.val < 20 := i.isLt
  have raw : i.raw.toNat = i.val + 1 := by
    rw [Inoptr.raw, BitVec.toNat_ofNat]
    exact Nat.mod_eq_of_lt (by omega)
  constructor
  · intro h
    unfold inoOfRaw at h
    split at h
    · have e := congrArg Fin.val (Option.some.inj h)
      refine BitVec.eq_of_toNat_eq ?_
      rw [raw, ← e]
      exact (Nat.sub_add_cancel (And.left ‹_›)).symm
    · cases h
  · intro h
    unfold inoOfRaw
    rw [h, dif_pos ⟨by omega, by rw [raw]; exact lt⟩]
    congr 1
    apply Fin.ext
    show i.raw.toNat - 1 = i.val
    rw [raw, Nat.add_sub_cancel]

namespace Kernel

variable (s : Kernel)

/-- The inode that entry `i` of the table is one of. -/
def node (i : Inoptr) : Nat × Word := ((s.iTab i).cDev, (s.iTab i).cNum)

/-- The directory on which device `dev` is mounted. -/
def mountPoint (dev : Nat) : Option (Nat × Word) := (inoOfRaw (s.fsTab dev).sMntpt).map s.node

/-- The device that is mounted on inode `m`. -/
def mountedOn (m : Nat × Word) : Option Nat :=
  (List.range NDEVS).find? fun j => (s.fsTab j).sMounted = SMOUNTED ∧ s.mountPoint j = some m

/-- The names in the directories, over all that is mounted. -/
noncomputable def tree : NameTree (Nat × Word) (List Byte) where
  isDir m := (s.icache.content m).iMode &&& F_MASK = F_DIR
  entry m c := (findEntry ((s.icache.content m).entries (s.cell m.1)) c).map fun num => (m.1, num)
  through m :=
    match s.mountedOn m with
    | some j => (j, ROOTINODE)
    | none => m
  isTop m := m.2 = ROOTINODE ∧ m.1 ≠ s.rootdev
  below m := (s.mountPoint m.1).getD m

/-- Where a path name starts. -/
def startOf (name : CStr) : Nat × Word := s.node (if name.chr 0 = SLASH then s.root else s.udata.uCwd)

end Kernel

/-- What is mounted at a place. -/
lemma Kernel.mountedOn_some {s : Kernel} {m : Nat × Word} {j : Nat} (h : s.mountedOn m = some j) :
    j < NDEVS ∧ (s.fsTab j).sMounted = SMOUNTED ∧ s.mountPoint j = some m := by
  refine ⟨List.mem_range.mp (List.mem_of_find?_eq_some h), ?_⟩
  have test := List.find?_some h
  simpa using test

/-- The name `..`. -/
def isDotDot (c : List Byte) : Bool := c = [DOT, DOT]

/-- The names with a dot behind the first character. -/
def dotSecond (name : List Byte) : Bool := name[1]? = some DOT

/-- The inode that a path name leads to, component by component. -/
noncomputable def Kernel.resolve (s : Kernel) (name : CStr) : Lead (Nat × Word) :=
  s.tree.resolve isDotDot (s.startOf name) (name.rest 0)

/-- No component but `..` that is looked up at the root of a mounted device has a dot behind its first
character. -/
def Kernel.Plain (s : Kernel) (name : CStr) : Prop :=
  s.tree.Along isDotDot (fun m c => s.tree.isTop m → dotSecond c → c = [DOT, DOT]) (s.startOf name) (name.rest 0)

/-- In plain names the second character is enough. -/
lemma Kernel.Plain.resolve_eq {s : Kernel} {name : CStr} (h : s.Plain name) :
    s.tree.resolve dotSecond (s.startOf name) (name.rest 0) = s.resolve name := by
  have agree : ∀ m c, (s.tree.isTop m → dotSecond c → c = [DOT, DOT]) →
      s.tree.isTop m → dotSecond c = isDotDot c := by
    intro m c plain top
    rw [Bool.eq_iff_iff]
    constructor
    · exact fun dot => decide_eq_true (plain top dot)
    · intro dots
      rw [of_decide_eq_true dots]
      rfl
  exact NameTree.resolve_congr (h.mono agree)

/-- What `n_open` returns where a path leads there: an entry of the inode, or none and, where the directory is
asked for, an entry of the directory that lacks the last name. -/
def Kernel.Leads (s' : Kernel) (parent : Bool) (r : Option Inoptr × Option Inoptr) : Lead (Nat × Word) → Prop
  | .node m => ∃ p, r.1 = some p ∧ (s'.iTab p).Names m
  | .missing dir => r.1 = none ∧ (parent = true → ∃ p, r.2 = some p ∧ (s'.iTab p).Names dir)
  | .nowhere => r = (none, none)

/-! ## Trees that can be searched -/

/-- Inode `m` is one of a mounted device. -/
structure Kernel.Attached (s : Kernel) (m : Nat × Word) : Prop where
  dev : m.1 < NDEVS
  mounted : (s.fsTab m.1).sMounted = SMOUNTED
  isize : 2 ≤ (s.fsTab m.1).sIsize

/-- Inode `m` of a mounted device can be opened. -/
structure Kernel.Openable (s : Kernel) (m : Nat × Word) : Prop extends s.Attached m where
  num : m.2 ≠ 0
  inode : m.2.toNat < (s.fsTab m.1).inodeEnd s.target
  nlink : (s.icache.content m).iNlink ≠ 0
  mode : (s.icache.content m).iMode &&& F_MASK ≠ 0

/-- The kernel keeps a reference to entry `i`, which is one of an inode of a mounted device. -/
structure Kernel.Pinned (s : Kernel) (i : Inoptr) : Prop where
  refs : (s.iTab i).cRefs ≠ 0
  num : (s.iTab i).cNum ≠ 0
  attached : s.Attached (s.node i)

/-- Path names may lead to inode `m`: it can be opened, or has been opened. -/
def Kernel.Visitable (s : Kernel) (m : Nat × Word) : Prop := s.Openable m ∨ ∃ i, s.Pinned i ∧ s.node i = m

/-- Directory `m` may be searched, and has all its blocks, and what it names can be opened. -/
structure Kernel.Searchable (s : Kernel) (m : Nat × Word) : Prop where
  perm : (s.icache.content m).perm s.target s.udata &&& OTH_EX ≠ 0
  size : (s.icache.content m).nblocks < 2 ^ 16
  blocks : ∀ k < (s.icache.content m).nblocks, (s.icache.content m).stored (s.cell m.1) (BitVec.ofNat 16 k) ≠ 0
  entries : ∀ e ∈ (s.icache.content m).entries (s.cell m.1), e.stem ≠ [] → s.Openable (m.1, e.dIno)

/-- Every directory can be searched and every entry opened. The directories on which devices are mounted are in
the table, and there is room in it for two more inodes and in the counts for two more references. -/
structure Kernel.Navigable (s : Kernel) : Prop where
  cached : s.Cached
  unused : s.Unused
  magic : ∀ i, (s.iTab i).cNum ≠ 0 → (s.iTab i).cMagic = CMAGIC
  root : s.Pinned s.root
  cwd : s.Pinned s.udata.uCwd
  rootdev : inoOfRaw (s.fsTab s.rootdev).sMntpt = none
  mounts : ∀ dev < NDEVS, dev ≠ s.rootdev → (s.fsTab dev).sMounted = SMOUNTED →
    ∃ i, inoOfRaw (s.fsTab dev).sMntpt = some i ∧ s.Pinned i ∧ (s.iTab i).getmode = F_DIR
  tops : ∀ dev < NDEVS, (s.fsTab dev).sMounted = SMOUNTED → s.Openable (dev, ROOTINODE)
  dirs : ∀ m, s.Visitable m → s.tree.isDir m → s.Searchable m
  room : ∃ i j, i ≠ j ∧ (s.iTab i).cRefs = 0 ∧ (s.iTab j).cRefs = 0
  refs : ∀ i, (s.iTab i).cRefs.toNat + 2 < 2 * ITABSIZE

/-- A place that may be visited is attached. -/
lemma Kernel.Visitable.attached {s : Kernel} {m : Nat × Word} (h : s.Visitable m) : s.Attached m := by
  obtain openable | ⟨i, pinned, e⟩ := h
  · exact openable.toAttached
  · exact e ▸ pinned.attached

/-- What a directory has under a name can be opened. -/
lemma Kernel.Searchable.openable {s : Kernel} {d m : Nat × Word} {c : List Byte} (h : s.Searchable d) (ne : c ≠ [])
    (found : s.tree.entry d c = some m) : s.Openable m := by
  obtain ⟨num, found, e⟩ := Option.map_eq_some_iff.mp found
  obtain ⟨entry, mem, named, num_eq⟩ := mem_of_findEntry found
  rw [← e, ← num_eq]
  refine h.entries entry mem ?_
  rw [named]
  exact mt List.take_eq_nil_iff.mp (by simp [ne])

end Uzi
