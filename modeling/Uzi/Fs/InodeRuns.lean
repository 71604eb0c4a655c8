import Uzi.Fs.InodeOpen
import Uzi.Fs.OwnershipRuns

/-!
# The inode table over whole runs

Every order of `i_open`, `i_ref`, `i_deref`, `wr_inode` and `_sync`, and of changes that the holders of
entries make, keeps the table a coherent cache of the inodes, as long as no entry gets a reference that has
255 of them. `i_ref` has a limit, far below, but `i_open` has none, and the count is a `char`.
-/

namespace Uzi
open Exec WriteBack

/-- The kernel, and what every inode has last been given by the holders of its entry. -/
structure Inodes where
  k : Kernel
  latest : Nat × Word → Dinode

/-- A call, or a change that a holder makes of the node of an entry. -/
inductive InodeCall
  | iOpen (dev : Nat) (ino : Word)
  | iRef (ino : Inoptr)
  | iDeref (ino : Inoptr)
  | wrInode (ino : Inoptr)
  | sync
  | change (ino : Inoptr) (d : Dinode)

/-- No entry gets a reference that has 255 of them. -/
def InodeCall.Room (k : Kernel) : InodeCall → Prop
  | .iOpen dev num => ∀ i, (k.iTab i).Names (dev, num) → (k.iTab i).cRefs ≠ 255
  | .iRef ino => (k.iTab ino).cRefs ≠ 255
  | _ => True

/-- One call. An inode is opened by its number, on a device whose superblock gives it inode blocks, and a
holder changes an entry that has references, and marks it dirty. -/
inductive Inodes.Step (m : Inodes) : InodeCall → Inodes → Prop
  | iOpen {dev : Nat} {num : Word} {r : Option Inoptr} {k' : Kernel} (ne : num ≠ 0)
      (two : 2 ≤ (m.k.fsTab dev).sIsize) (ret : iOpen dev num m.k = .ok (r, k')) :
      Step m (.iOpen dev num) ⟨k', m.latest⟩
  | iRef {ino : Inoptr} {k' : Kernel} (ret : iRef ino m.k = .ok (⟨⟩, k')) : Step m (.iRef ino) ⟨k', m.latest⟩
  | iDeref {ino : Inoptr} {k' : Kernel} (ret : iDeref ino m.k = .ok (⟨⟩, k')) :
      Step m (.iDeref ino) ⟨k', m.k.derefed ino m.latest⟩
  | wrInode {ino : Inoptr} {k' : Kernel} (ret : wrInode ino m.k = .ok (⟨⟩, k')) :
      Step m (.wrInode ino) ⟨k', m.latest⟩
  | sync {k' : Kernel} (ret : _sync m.k = .ok (⟨⟩, k')) : Step m .sync ⟨k', m.latest⟩
  | change {ino : Inoptr} {d : Dinode} (held : (m.k.iTab ino).cRefs ≠ 0) :
      Step m (.change ino d)
        ⟨m.k.setInode ino { m.k.iTab ino with cNode := d, cDirty := true }, m.k.give ino d m.latest⟩

/-- A run of calls that are `ok`. -/
inductive Inodes.Run (ok : Kernel → InodeCall → Prop) (m₀ : Inodes) : Inodes → Prop
  | start : Run ok m₀ m₀
  | step {m m' : Inodes} {c : InodeCall} (run : Run ok m₀ m) (may : ok m.k c) (step : m.Step c m') : Run ok m₀ m'

/-- The zeroed entry. -/
def Cinode.zero : Cinode := ⟨0, 0, 0, .zero, 0, false⟩

/-- The table is zeroed, and no block is held. -/
structure Inodes.Start (m : Inodes) : Prop where
  good : m.k.bufs.Good
  released : ∀ bp, m.k.bufs.view.held bp = none
  zeroed : ∀ i, m.k.iTab i = .zero
  latest : m.latest = m.k.diskInode

/-- `i_open` has returned entry `i` for inode `n`: it has the latest contents and one reference more, no
other entry has changed, and an entry that has been taken over had no references. -/
structure Inodes.Opened (m : Inodes) (n : Nat × Word) (i : Inoptr) (k' : Kernel) : Prop where
  names : (k'.iTab i).Names n
  latest : (k'.iTab i).cNode = m.latest n
  refs : (k'.iTab i).cRefs.toNat = (if (m.k.iTab i).Names n then (m.k.iTab i).cRefs.toNat else 0) + 1
  others : ∀ j ≠ i, k'.iTab j = m.k.iTab j
  slot : (m.k.iTab i).Names n ∨ (m.k.iTab i).cRefs = 0 ∧ ∀ j, ¬ (m.k.iTab j).Names n

/-- The table is a coherent cache: no inode has two entries, an entry that is not dirty or has no references
agrees with the disk, and `i_open`, where it is `ok`, returns the latest contents or finds the table full. -/
structure Inodes.Coherent (ok : Kernel → InodeCall → Prop) (m : Inodes) : Prop where
  unique : ∀ i j, (m.k.iTab i).cNum ≠ 0 → (m.k.iTab i).cDev = (m.k.iTab j).cDev →
    (m.k.iTab i).cNum = (m.k.iTab j).cNum → i = j
  fresh : ∀ i, (m.k.iTab i).cNum ≠ 0 → (m.k.iTab i).cDirty = false ∨ (m.k.iTab i).cRefs = 0 →
    (m.k.iTab i).cNode = m.k.diskInode ((m.k.iTab i).cDev, (m.k.iTab i).cNum)
  opens : ∀ dev num, num ≠ 0 → 2 ≤ (m.k.fsTab dev).sIsize → ok m.k (.iOpen dev num) →
    wp (iOpen dev num) (fun r k' => ∀ i, r = some i → m.Opened (dev, num) i k') (fun _ => ¬ dev < NDEVS) m.k
  full : ∀ dev num, dev < NDEVS → num ≠ 0 → num.toNat < (m.k.fsTab dev).inodeEnd m.k.target →
    (∀ i, (m.k.iTab i).cRefs ≠ 0) → (∀ i, ¬ (m.k.iTab i).Names (dev, num)) →
    wp (iOpen dev num) (fun r k' => r = none ∧ k'.udata.uError = .enfile ∧ k'.iTab = m.k.iTab)
      (fun _ => False) m.k

/-- What every call keeps. -/
structure Inodes.Inv (m : Inodes) : Prop where
  cached : m.k.Cached
  unused : m.k.Unused
  latest : ∀ n, m.k.HasInode n → m.k.icache.content n = m.latest n

namespace Inodes

variable {m m₀ m' : Inodes} {k' : Kernel} {dev : Nat} {num : Word} {i ino : Inoptr} {n : Nat × Word}

/-- A reference that has been added is not lost where there was room for it. -/
lemma refs_ne_zero {c : Byte} (room : c ≠ 255) : c + 1 ≠ 0 := fun zero => room (eq_neg_of_add_eq_zero_left zero)

/-- A count with room does not wrap. -/
lemma toNat_refs {c : Byte} (room : c ≠ 255) : (c + 1).toNat = c.toNat + 1 := by
  have ne : c.toNat ≠ 255 := fun e => room (BitVec.eq_of_toNat_eq e)
  have lt := c.isLt
  have one : (1 : Byte).toNat = 1 := rfl
  rw [BitVec.toNat_add, one]
  omega

/-- The inode that has been opened is used. -/
lemma opened_unused (u : m.k.Unused) (room : InodeCall.Room m.k (.iOpen dev num))
    (o : m.k.Opened k' (dev, num) i) : k'.Unused := by
  intro j zero
  by_cases e : j = i
  · rw [e, o.refs] at zero
    split at zero
    · next names => exact absurd zero (refs_ne_zero (room i names))
    · exact absurd zero (by decide)
  · rw [o.others j e] at zero ⊢
    exact u j zero

/-- At the start the table is coherent. -/
lemma Inv.start (h : m.Start) : m.Inv := by
  have name : ∀ i, m.k.icache.name i = none := by
    intro i
    simp only [Kernel.icache, h.zeroed i, Cinode.zero, if_true]
  refine ⟨⟨h.good, h.released, ⟨fun hi => ?_, fun hi => ?_⟩, fun i hi => ?_, fun i hi => ?_⟩, fun i _ => ?_, fun n has => ?_⟩
  · rw [name] at hi
    cases hi
  · rw [name] at hi
    cases hi
  · rw [h.zeroed] at hi
    exact absurd rfl hi
  · rw [h.zeroed] at hi
    exact absurd hi (by decide)
  · rw [h.zeroed]
    rfl
  · rw [Cache.content_of_forall_ne fun i hi => ?_, Kernel.icache_back has, h.latest]
    rw [name] at hi
    cases hi

/-- The inodes of the kernel are the latest after a step of which that has been shown. -/
lemma Inv.shows (h : m.Inv) {f : (Nat × Word → Dinode) → Nat × Word → Dinode}
    (shows : m.k.Shows k' (f m.k.icache.content))
    (congr : ∀ n, m.k.icache.content n = m.latest n → f m.k.icache.content n = f m.latest n) :
    Inv ⟨k', f m.latest⟩ := by
  refine ⟨shows.cached, shows.unused, fun n has => ?_⟩
  have has : m.k.HasInode n := by
    rwa [Kernel.HasInode, shows.isize] at has
  exact (shows.content n).trans (congr n (h.latest n has))

/-- What is given to an inode depends on that inode. -/
lemma give_at {d : Dinode} {l l' : Nat × Word → Dinode} {s : Kernel} (h : l n = l' n) :
    s.give ino d l n = s.give ino d l' n := by
  unfold Kernel.give
  rw [h]

/-- Every call keeps the invariant where there is room for its reference. -/
lemma Inv.step {c : InodeCall} (h : m.Inv) (room : c.Room m.k) (step : m.Step c m') : m'.Inv := by
  cases step with
  | @iOpen dev num r k' ne two ret =>
    have out := (h.cached.wp_iOpen h.unused ne two).ok ret
    have keeps : m.k.Keeps k' ∧ k'.Unused := by
      cases r with
      | none => exact out
      | some i => exact ⟨Kernel.Opened.keeps out, opened_unused h.unused room out⟩
    exact h.shows (f := id) (keeps.1.shows keeps.2) fun _ => id
  | iRef ret => exact h.shows (f := id) ((h.cached.wp_iRef h.unused room).ok ret) fun _ => id
  | @iDeref ino k' ret =>
    refine h.shows (f := m.k.derefed ino) ((h.cached.wp_iDeref h.unused).ok ret) fun n e => ?_
    unfold Kernel.derefed
    split
    · exact give_at e
    · exact e
  | wrInode ret => exact h.shows (f := id) ((h.cached.wp_wrInode_shows fun i _ => h.unused i).ok ret) fun _ => id
  | sync ret => exact h.shows (f := id) ((h.cached.wp_sync h.unused).ok ret) fun _ => id
  | @change ino d held =>
    obtain ⟨cached, content⟩ := h.cached.change (p := ino)
      (c := { m.k.iTab ino with cNode := d, cDirty := true }) ⟨rfl, rfl, rfl⟩ rfl
    exact h.shows (f := m.k.give ino d)
      ⟨cached, h.unused.setInode fun zero => absurd zero held, fun _ => rfl, content⟩ fun _ => give_at

/-- What the invariant says of the table, and of what `i_open` does next. -/
lemma Inv.coherent (h : m.Inv) : m.Coherent InodeCall.Room where
  unique i j ne dev num := by
    refine h.cached.coherent.unique (n := ((m.k.iTab i).cDev, (m.k.iTab i).cNum)) ?_ ?_
    · exact Kernel.icache_name.mpr ⟨rfl, rfl, ne⟩
    · exact Kernel.icache_name.mpr ⟨dev.symm, num.symm, ne⟩
  fresh i ne clean := by
    have dirty : ¬ (m.k.iTab i).cDirty = true := by
      rw [clean.elim id (h.unused i)]
      exact Bool.false_ne_true
    have has := h.cached.inode i ne
    rw [← Kernel.icache_back has]
    exact h.cached.coherent.clean (Kernel.icache_name.mpr ⟨rfl, rfl, ne⟩) dirty (Set.notMem_empty i)
  opens dev num ne two room := by
    refine wp_post (h.cached.wp_iOpen h.unused ne two) fun r k' out i e => ?_
    subst e
    have out : m.k.Opened k' (dev, num) i := out
    have num₀ : (k'.iTab i).cNum ≠ 0 := out.names.2.1.symm ▸ ne
    have name : ((k'.iTab i).cDev, (k'.iTab i).cNum) = (dev, num) := Prod.ext out.names.1 out.names.2.1
    refine ⟨out.names, ?_, ?_, out.others, out.slot⟩
    · have has := name ▸ out.keeps.cached.inode i num₀
      rw [← out.keeps.cached.content num₀, name, out.keeps.content, h.latest _ (out.keeps.hasInode.mp has)]
    · rw [out.refs]
      split
      · next names => exact toNat_refs (room i names)
      · rfl
  full dev num hdev ne inode used none := Kernel.wp_iOpen_full hdev ne inode used none

end Inodes

/-- In every run in which no entry gets a reference that has 255 of them, the table is a coherent cache of the
inodes. -/
theorem inodes_coherent {m₀ m : Inodes} (start : m₀.Start) (run : m₀.Run InodeCall.Room m) :
    m.Coherent InodeCall.Room := by
  have inv : m.Inv := by
    induction run with
    | start => exact .start start
    | step _ room step ih => exact ih.step room step
  exact inv.coherent

/-- The kernel of the small file system with no inode in core. -/
def mountedFs : Kernel := { rootFs with iTab := fun _ => .zero }

/-- The small file system with the inodes of its disk. -/
noncomputable def Inodes.mounted : Inodes := ⟨mountedFs, mountedFs.diskInode⟩

/-- The mounted disk is a start. -/
lemma Inodes.start_mounted : Inodes.mounted.Start where
  good := Bufs.good_inited.1
  released bp := congrFun (congrArg View.held Bufs.good_inited.2) bp
  zeroed _ := rfl
  latest := rfl

/-- The root directory is opened `n` times. -/
def openRoot : Nat → Option Kernel
  | 0 => some mountedFs
  | n + 1 =>
    match openRoot n with
    | none => none
    | some k =>
      if 2 ≤ (k.fsTab 0).sIsize then
        match iOpen 0 ROOTINODE k with
        | .ok (some _, k') => some k'
        | _ => none
      else none

/-- The kernels of these calls are those of a run, if every call is `ok`. -/
lemma run_openRoot {ok : Kernel → InodeCall → Prop} {n : Nat} {k : Kernel} (h : openRoot n = some k)
    (may : ∀ i < n, ∀ k, openRoot i = some k → ok k (.iOpen 0 ROOTINODE)) :
    Inodes.mounted.Run ok ⟨k, Inodes.mounted.latest⟩ := by
  induction n generalizing k with
  | zero =>
    cases h
    exact .start
  | succ n ih =>
    rw [openRoot] at h
    cases e : openRoot n with
    | none =>
      rw [e] at h
      cases h
    | some k₁ =>
      rw [e] at h
      dsimp only at h
      split at h
      · next two =>
        split at h
        · next i k' ret =>
          cases h
          exact .step (ih e fun i hi => may i (Nat.lt_succ_of_lt hi)) (may n (Nat.lt_succ_self n) k₁ e)
            (.iOpen (by decide) two ret)
        · cases h
      · cases h

/-- The table is coherent after the root directory has been opened once. -/
theorem inodes_coherent_open : ∃ k, openRoot 1 = some k ∧
    Inodes.Coherent InodeCall.Room ⟨k, Inodes.mounted.latest⟩ := by
  have some : (openRoot 1).isSome := by decide +kernel
  obtain ⟨k, e⟩ := Option.isSome_iff_exists.mp some
  refine ⟨k, e, inodes_coherent Inodes.start_mounted (run_openRoot e fun i hi k₀ e₀ => ?_)⟩
  obtain rfl := Nat.lt_one_iff.mp hi
  cases e₀
  exact fun i names => absurd (show (0 : Word) = 1 from names.2.1) (by decide)

/-- The root directory has been opened 255 times, and is opened once more. -/
lemma openRoot_full : ((openRoot 255).map fun k => (decide ((k.iTab 0).Names (0, ROOTINODE)),
    (k.iTab 0).cRefs, (openRoot 256).isSome)) = some (true, 255, true) := by decide +kernel

/-- The 256th `i_open` of an inode adds no reference: it takes the 255 that there are. -/
theorem not_inodes_coherent : ¬ ∀ m₀ m : Inodes, m₀.Start → m₀.Run (fun _ _ => True) m →
    m.Coherent fun _ _ => True := by
  intro allCoherent
  have full := openRoot_full
  cases e : openRoot 255 with
  | none =>
    rw [e] at full
    cases full
  | some k =>
    rw [e, Option.map_some] at full
    obtain ⟨names, refs, again⟩ : (k.iTab 0).Names (0, ROOTINODE) ∧ (k.iTab 0).cRefs = 255 ∧
        (openRoot 256).isSome = true := by
      simpa using full
    have coherent := allCoherent _ _ Inodes.start_mounted (run_openRoot e fun _ _ _ _ => trivial)
    rw [openRoot, e] at again
    dsimp only at again
    split at again
    · next two =>
      split at again
      · next i k' ret =>
        have opened := (coherent.opens 0 ROOTINODE (by decide) two trivial).ok ret i rfl
        have same : i = 0 := by
          rcases opened.slot with own | ⟨-, none⟩
          · exact coherent.unique i 0 (own.2.1.symm ▸ own.2.2) (own.1.trans names.1.symm)
              (own.2.1.trans names.2.1.symm)
          · exact absurd names (none 0)
        subst same
        have count := opened.refs
        dsimp only at count
        rw [if_pos names, refs] at count
        exact absurd (k'.iTab 0).cRefs.isLt (by rw [count]; decide)
      · cases again
    · cases again

end Uzi
