import Uzi.Fs.CallRefs
import Uzi.Fs.Mount
import Uzi.Utils.Mkfs

/-!
# Reference counts over runs

`_mount` and `_umount` move a reference into the mount table and out of it, but a `_mount` that fails leaves a copy
of the superblock there, with a pointer in it that nothing has counted. In a run from the boot on that takes neither
this exit nor one of the four of the other calls, the references of an inode are always its holders, and no reference
is given back that is not there.
-/

namespace Uzi
open Exec

variable {s s' : Kernel} {dev : Nat} {dino sino : Inoptr}

/-! ## The mount table -/

/-- The kernel with another entry of the mount table. -/
def Kernel.setFs (s : Kernel) (dev : Nat) (fs : Filesys) : Kernel :=
  { s with fsTab := Function.update s.fsTab dev fs }

/-- What the tables hold. -/
def Kernel.tabled (s : Kernel) : Multiset Inoptr := s.opened + s.mounts

/-- What the tables hold but for entry `dev` of the mount table. -/
def Kernel.tabledOff (s : Kernel) (dev : Nat) : Multiset Inoptr :=
  s.opened + ∑ d ∈ (Finset.range NDEVS).erase dev, pointers (mountPointer (s.fsTab d))

/-- The owners are what is in the tables, the root and the current directory. -/
lemma Kernel.owners_eq_tabled : s.owners = s.tabled + {s.root, s.udata.uCwd} := rfl

/-- What is in the tables is a mount point and the rest. -/
lemma Kernel.tabled_eq_off (h : dev < NDEVS) :
    s.tabled = pointers (mountPointer (s.fsTab dev)) + s.tabledOff dev := by
  have split : s.mounts = pointers (mountPointer (s.fsTab dev)) +
      ∑ d ∈ (Finset.range NDEVS).erase dev, pointers (mountPointer (s.fsTab d)) :=
    (Finset.add_sum_erase _ _ (Finset.mem_range.mpr h)).symm
  unfold Kernel.tabled Kernel.tabledOff
  rw [split, ← add_assoc, ← add_assoc, add_comm s.opened]

/-- Only entry `dev` has changed. -/
lemma Kernel.tabledOff_setFs {fs : Filesys} : (s.setFs dev fs).tabledOff dev = s.tabledOff dev := by
  have same : ∑ d ∈ (Finset.range NDEVS).erase dev, pointers (mountPointer ((s.setFs dev fs).fsTab d)) =
      ∑ d ∈ (Finset.range NDEVS).erase dev, pointers (mountPointer (s.fsTab d)) := by
    refine Finset.sum_congr rfl fun d mem => ?_
    show pointers (mountPointer (Function.update s.fsTab dev fs d)) = _
    rw [Function.update_of_ne (Finset.ne_of_mem_erase mem)]
  unfold Kernel.tabledOff
  rw [same]
  rfl

/-- A superblock that changes changes its mount point. -/
lemma Kernel.tabled_setFs {fs : Filesys} (h : dev < NDEVS) :
    (s.setFs dev fs).tabled = pointers (mountPointer fs) + s.tabledOff dev := by
  have own : (s.setFs dev fs).fsTab dev = fs := Function.update_self ..
  rw [Kernel.tabled_eq_off h, own, Kernel.tabledOff_setFs]

/-- The same owners have the same tables. -/
lemma SameOwners.tabled (h : SameOwners s s') : s'.tabled = s.tabled := by
  unfold Kernel.tabled
  rw [h.opened, h.mounted]

/-- The same owners have the same other mount points. -/
lemma SameOwners.tabledOff (h : SameOwners s s') : s'.tabledOff dev = s.tabledOff dev := by
  have same : ∑ d ∈ (Finset.range NDEVS).erase dev, pointers (mountPointer (s'.fsTab d)) =
      ∑ d ∈ (Finset.range NDEVS).erase dev, pointers (mountPointer (s.fsTab d)) :=
    Finset.sum_congr rfl fun d _ => congrArg pointers (h.mounts d).mountPointer
  unfold Kernel.tabledOff
  rw [same, h.opened]

/-- The root and the current directory stay in use. -/
lemma SameOwners.inUse (h : SameOwners s s') (inUse : s.InUse) : s'.InUse := fun j => h.ofTab ▸ inUse j

/-- A superblock that is not mounted has no mount point. -/
lemma mountPointer_of_zero {fs : Filesys} (h : fs.sMounted = 0) : mountPointer fs = none := if_pos h

/-- `fmount` would find a file system on device `dev`, or nothing that looks like an entry of a device mounted on an
inode. -/
def Kernel.Mountable (s : Kernel) (dev : Nat) : Prop :=
  ∀ bp s', breadPtr dev 1 0 s = .ok (bp, s') →
    ¬ (Filesys.ofBlock (s'.buf bp).bfData).Invalid ∨ mountPointer (.ofBlock (s'.buf bp).bfData) = none

/-- `brelse` leaves the superblocks. -/
lemma wp_brelse_fsTab {bp : Bufptr} : wp (brelse bp) (fun _ s' => s'.fsTab = s.fsTab) (fun _ => False) s := by
  unfold brelse bfree
  rw [wp_bind, wp_bind]
  exact rfl

/-- The pointer that is stored is the pointer that is read. -/
lemma inoOfRaw_rawOf {ino : Option Inoptr} : inoOfRaw (rawOf ino) = ino := by
  cases ino with
  | none => rfl
  | some ino => exact inoOfRaw_eq.mpr rfl

/-- A superblock that `fmount` has accepted gets its mount point. -/
lemma mountPointer_valid {fs : Filesys} {ino : Option Inoptr} (valid : ¬ fs.Invalid) :
    mountPointer { fs with sMntpt := rawOf ino } = ino := by
  have mounted : fs.sMounted ≠ 0 := by
    intro zero
    refine valid (.inl ?_)
    rw [zero]
    decide
  exact (if_neg mounted).trans inoOfRaw_rawOf

/-- The open files are in order, and the root and the current directory are those of `s₀`. -/
structure Kernel.SameRoots (s₀ s : Kernel) : Prop where
  inUse : s.InUse
  root : s.root = s₀.root
  cwd : s.udata.uCwd = s₀.udata.uCwd

/-- The owners, with the root and the directory of the beginning. -/
lemma Kernel.SameRoots.owners {s₀ : Kernel} (h : s₀.SameRoots s) : s.owners = s.tabled + {s₀.root, s₀.udata.uCwd} := by
  rw [Kernel.owners_eq_tabled, h.root, h.cwd]

/-- The same roots, after a call that leaves the owners. -/
lemma Kernel.SameRoots.same {s₀ : Kernel} (h : s₀.SameRoots s) (same : SameOwners s s') : s₀.SameRoots s' :=
  ⟨same.inUse h.inUse, same.root.trans h.root, same.cwd.trans h.cwd⟩

/-- The same roots, after a superblock has changed. -/
lemma Kernel.SameRoots.setFs {s₀ : Kernel} {fs : Filesys} (h : s₀.SameRoots s) : s₀.SameRoots (s.setFs dev fs) :=
  ⟨h.inUse, h.root, h.cwd⟩

/-- `fmount` counts the reference that it puts into the mount table. -/
lemma wp_fmount_refs {s₀ : Kernel} {ino : Option Inoptr} {m : Multiset Inoptr} (inside : dev < NDEVS)
    (unmounted : (s.fsTab dev).sMounted = 0) (inUse : s₀.InUse) (h : s₀.Bears s (m + s₀.tabled)) :
    wp (fmount dev ino)
      (fun r s' => r = 0 ∨ s.Mountable dev → ∃ t : Kernel, s₀.SameRoots t ∧ t.Bears s' (m + t.tabled)) Balanced s := by
  unfold fmount
  rw [wp_bind]
  refine wp_mono (Kernel.wp_dOpen inside) ?_ fun _ => False.elim
  rintro r s₁ ⟨rfl, rfl⟩
  rw [wp_ite, if_neg (not_not.mpr rfl), wp_bind]
  refine wp_post (h.within Quiet.breadPtr Quiet.breadPtr).run fun bp s₂ ⟨h₂, read⟩ => ?_
  have kept : s₀.SameRoots s₂ := Kernel.SameRoots.same ⟨inUse, rfl, rfl⟩ h₂.tables
  have off₂ : s₂.tabledOff dev = s₀.tabled := by
    have zero := (h₂.tables.mounts dev).mounted.mpr ((h.tables.mounts dev).mounted.mp unmounted)
    have all := Kernel.tabled_eq_off (s := s₂) inside
    rw [mountPointer_of_zero zero, pointers_none, h₂.tables.tabled] at all
    exact all.symm
  rw [wp_bind, wp_get, wp_bind]
  generalize superblock : Filesys.ofBlock (s₂.buf bp).bfData = fs
  show wp _ _ _ (s₂.setFs dev fs)
  have start : (s₂.setFs dev fs).Bears (s₂.setFs dev fs) (m + s₀.tabled) := .start h₂.refs
  have kept : s₀.SameRoots (s₂.setFs dev fs) := kept.setFs
  have off : (s₂.setFs dev fs).tabledOff dev = s₀.tabled := Kernel.tabledOff_setFs.trans off₂
  have own : (s₂.setFs dev fs).fsTab dev = fs := Function.update_self ..
  have all := Kernel.tabled_eq_off (s := s₂.setFs dev fs) inside
  rw [own, off] at all
  generalize s₂.setFs dev fs = t at start kept off own all
  rw [wp_bind]
  refine wp_mono ((start.within Quiet.brelse Quiet.brelse).and wp_brelse_fsTab) ?_ fun _ stops => stops.1
  intro _ s₃ ⟨h₃, same⟩
  have own₃ : s₃.fsTab dev = fs := (congrFun same dev).trans own
  rw [wp_bind, wp_get, own₃]
  show wp (if fs.sMounted ≠ SMOUNTED ∨ fs.sFsize ≤ fs.sIsize then _ else _) _ _ _
  rw [wp_ite]
  split
  · next invalid =>
    intro found
    obtain wrong | mountable := found
    · exact absurd wrong (by decide)
    · have none : mountPointer fs = none := by
        have either := mountable bp s₂ read
        rw [superblock] at either
        exact either.resolve_left (not_not.mpr invalid)
      rw [none, pointers_none] at all
      exact ⟨t, kept, all ▸ h₃⟩
  · next valid =>
    rw [wp_bind]
    generalize entry : { fs with sMntpt := rawOf ino } = fs'
    have entry₃ : { s₃.fsTab dev with sMntpt := rawOf ino } = fs' := own₃ ▸ entry
    show wp _ _ _ (s₃.setFs dev { s₃.fsTab dev with sMntpt := rawOf ino })
    rw [entry₃]
    have start : (s₃.setFs dev fs').Bears (s₃.setFs dev fs') (m + s₀.tabled) := .start h₃.refs
    have kept : s₀.SameRoots (s₃.setFs dev fs') := (kept.same h₃.tables).setFs
    have holds : mountPointer fs' = ino := entry ▸ mountPointer_valid valid
    have all : (s₃.setFs dev fs').tabled = pointers ino + s₀.tabled := by
      rw [Kernel.tabled_setFs inside, holds, h₃.tables.tabledOff, off]
    generalize s₃.setFs dev fs' = t' at start kept all
    cases ino with
    | none =>
      rw [pointers_none] at all
      exact fun _ => ⟨t', kept, all ▸ start⟩
    | some ino =>
      rw [pointers_some] at all
      rw [wp_bind, wp_modifyInode]
      refine fun _ => ⟨t', kept, ?_⟩
      rw [all, Multiset.add_cons]
      exact start.shared rfl

/-- A device that is not there takes no reference. -/
lemma within_noDevice {R : Kernel → Kernel → Prop} {E : Panic → Prop} [Buffering R] [Halting E] {num : Word} :
    Within R E (noDevice num) :=
  .bind .get fun _ => .ite .pure (.bind Quiet.dOpen fun _ => .pure)

/-- Whatever the checks of `_mount` let pass, `fmount` can mount. -/
def MountClean (spec dir : CStr) (s : Kernel) : Prop :=
  ∀ sino p s₁ dino q s₂ dev u s₃, nOpen spec false s = .ok ((some sino, p), s₁) →
    nOpen dir false s₁ = .ok ((some dino, q), s₂) → s₂.Passes sino dino dev → _sync s₂ = .ok (u, s₃) → s₃.Mountable dev

/-- The failing exits of `_mount` give both references back. -/
lemma wp_mountFailed_refs {s₀ : Kernel} {e : Errno} (inUse : s₀.InUse) (h : s₀.Bears s (dino ::ₘ sino ::ₘ s₀.owners)) :
    wp (mountFailed e sino dino) (fun _ s' => s'.RefsCounted) Balanced s := by
  unfold mountFailed
  rw [wp_bind]
  exact wp_post h.wp_setError fun _ s₁ h₁ => h₁.wp_giveBackBoth inUse

/-- The other exits of `_mount` keep what is mounted. -/
lemma wp_mountAt_refs {s₀ : Kernel} (inUse : s₀.InUse) (h : s₀.Bears s (dino ::ₘ sino ::ₘ s₀.owners))
    (inside : dev < NDEVS) (unmounted : (s.fsTab dev).sMounted = 0)
    (clean : ∀ u s₁, _sync s = .ok (u, s₁) → s₁.Mountable dev) :
    wp (mountAt dev sino dino) (fun _ s' => s'.RefsCounted) Balanced s := by
  unfold mountAt
  rw [wp_bind]
  refine wp_post (h.within Quiet.sync Quiet.sync).run fun u s₁ ⟨h₁, synced⟩ => ?_
  have unmounted₁ := (h₁.tables.mounts dev).mounted.mpr ((h.tables.mounts dev).mounted.mp unmounted)
  have both : ∀ k l : Multiset Inoptr, dino ::ₘ sino ::ₘ (k + l) = (dino ::ₘ sino ::ₘ l) + k := fun k l => by
    rw [Multiset.cons_add, Multiset.cons_add, add_comm]
  rw [Kernel.owners_eq_tabled, both] at h₁
  rw [wp_bind]
  refine wp_post (wp_fmount_refs inside unmounted₁ inUse h₁) fun r s₂ mounts => ?_
  obtain ⟨t, kept, h₂⟩ := mounts (.inr (clean u s₁ synced))
  rw [← both, ← kept.owners] at h₂
  rw [wp_ite]
  split
  · exact wp_mountFailed_refs kept.inUse h₂
  · exact h₂.wp_giveBackBoth kept.inUse

/-- `_mount` keeps the references counted. -/
lemma wp_mount_refs {spec dir : CStr} {rwflag : Word} (h : s.RefsCounted) (clean : MountClean spec dir s) :
    wp (_mount spec dir rwflag) (fun _ s' => s'.RefsCounted) Balanced s := by
  unfold _mount
  rw [wp_bind, wp_get, wp_ite]
  split
  · rw [wp_bind]
    exact wp_post h.start.wp_setError fun _ s₁ h₁ => h₁.refsCounted h.inUse
  · rw [wp_bind]
    refine wp_post (h.start.wp_lookup few_owners).run fun r s₁ ⟨h₁, found₁⟩ => ?_
    obtain ⟨sino, p⟩ := r
    cases sino with
    | none =>
      rw [pointers_none] at h₁
      exact h₁.refsCounted h.inUse
    | some sino =>
      rw [pointers_some] at h₁
      rw [wp_bind]
      refine wp_post (h₁.wp_lookup few_cons).run fun r s₂ ⟨h₂, found₂⟩ => ?_
      obtain ⟨dino, q⟩ := r
      cases dino with
      | none =>
        rw [pointers_none] at h₂
        exact h₂.wp_giveBack h.inUse
      | some dino =>
        rw [pointers_some] at h₂
        rw [wp_bind, wp_get, wp_ite]
        split
        · exact wp_mountFailed_refs h.inUse h₂
        · next special =>
          rw [wp_ite]
          split
          · exact wp_mountFailed_refs h.inUse h₂
          · next isDir =>
            rw [wp_bind]
            refine wp_mono ((h₂.within within_noDevice within_noDevice).and Kernel.wp_noDevice) ?_
              fun _ stops => stops.1
            rintro r s₃ ⟨h₃, rfl, inside⟩
            rw [wp_ite]
            split
            · exact wp_mountFailed_refs h.inUse h₃
            · next has =>
              rw [wp_ite]
              split
              · exact wp_mountFailed_refs h.inUse h₃
              · next free =>
                obtain ⟨unmounted, refs, num⟩ : _ ∧ _ ∧ _ := by simpa only [not_or, not_not] using free
                have inside := inside (eq_false_of_ne_true has)
                refine wp_mountAt_refs h.inUse h₃ inside unmounted fun u s₄ synced => ?_
                have pass : s₃.Passes sino dino ((s₃.iTab sino).cNode.addr 0).toNat :=
                  ⟨not_not.mp special, not_not.mp isDir, rfl, inside, unmounted, refs, num⟩
                exact clean sino p s₁ dino q s₃ _ u s₄ found₁ found₂ pass synced

/-- The failing exits of `_umount` give the reference back. -/
lemma wp_umountFailed_refs {s₀ : Kernel} {e : Errno} (inUse : s₀.InUse) (h : s₀.Bears s (sino ::ₘ s₀.owners)) :
    wp (umountFailed e sino) (fun _ s' => s'.RefsCounted) Balanced s := by
  unfold umountFailed
  rw [wp_bind]
  exact wp_post h.wp_setError fun _ s₁ h₁ => h₁.wp_giveBack inUse

/-- `_umount` gives back the reference that is taken out of the mount table. -/
lemma wp_umountAt_refs {s₀ : Kernel} (inUse : s₀.InUse) (h : s₀.Bears s (sino ::ₘ s₀.owners)) (inside : dev < NDEVS)
    (mounted : (s.fsTab dev).sMounted ≠ 0) : wp (umountAt dev sino) (fun _ s' => s'.RefsCounted) Balanced s := by
  unfold umountAt
  rw [wp_bind]
  refine wp_post (h.within Quiet.sync Quiet.sync) fun u s₁ h₁ => ?_
  have mounted₁ : (s₁.fsTab dev).sMounted ≠ 0 := fun zero =>
    mounted ((h.tables.mounts dev).mounted.mpr ((h₁.tables.mounts dev).mounted.mp zero))
  have all := Kernel.tabled_eq_off (s := s₁) inside
  rw [wp_bind]
  show wp _ _ _ (s₁.setFs dev { s₁.fsTab dev with sMounted := 0 })
  generalize entry : { s₁.fsTab dev with sMounted := 0 } = fs
  have start : (s₁.setFs dev fs).Bears (s₁.setFs dev fs) (sino ::ₘ s₀.owners) := .start h₁.refs
  have inUse : (s₁.setFs dev fs).InUse := h₁.tables.inUse inUse
  have kept : s₁.SameRoots (s₁.setFs dev fs) := ⟨inUse, rfl, rfl⟩
  have rest : (s₁.setFs dev fs).tabled = s₁.tabledOff dev := by
    rw [Kernel.tabled_setFs inside, ← entry, mountPointer_of_zero rfl, pointers_none]
  have mntpt : ((s₁.setFs dev fs).fsTab dev).sMntpt = (s₁.fsTab dev).sMntpt := by
    show (Function.update s₁.fsTab dev fs dev).sMntpt = _
    rw [Function.update_self, ← entry]
  generalize s₁.setFs dev fs = t at start inUse kept rest mntpt
  rw [wp_bind, wp_get, mntpt]
  have pointer : mountPointer (s₁.fsTab dev) = inoOfRaw (s₁.fsTab dev).sMntpt := if_neg mounted₁
  rw [pointer] at all
  cases found : inoOfRaw (s₁.fsTab dev).sMntpt with
  | none => exact fun freed => Panic.noConfusion freed
  | some ino =>
    rw [found, pointers_some, ← rest] at all
    rw [← h₁.tables.owners, Kernel.owners_eq_tabled, all, Multiset.cons_add, ← kept.owners, Multiset.cons_swap] at start
    exact start.wp_giveBackBoth inUse

/-- `_umount` keeps the references counted. -/
lemma wp_umount_refs {spec : CStr} (h : s.RefsCounted) : wp (_umount spec) (fun _ s' => s'.RefsCounted) Balanced s := by
  unfold _umount
  rw [wp_bind, wp_get, wp_ite]
  split
  · rw [wp_bind]
    exact wp_post h.start.wp_setError fun _ s₁ h₁ => h₁.refsCounted h.inUse
  · rw [wp_bind]
    refine wp_post (h.start.wp_lookup few_owners) fun r s₁ h₁ => ?_
    obtain ⟨sino, p⟩ := r
    cases sino with
    | none =>
      rw [pointers_none] at h₁
      exact h₁.refsCounted h.inUse
    | some sino =>
      rw [pointers_some] at h₁
      have fails : ∀ e, wp (umountFailed e sino) (fun _ s' => s'.RefsCounted) Balanced s₁ := fun e =>
        wp_umountFailed_refs h.inUse h₁
      rw [wp_bind, wp_get, wp_ite]
      split
      · exact fails _
      · rw [wp_ite]
        split
        · exact fails _
        · rw [wp_ite]
          split
          · exact fun freed => Panic.noConfusion freed
          · next inside =>
            rw [wp_ite]
            split
            · exact fails _
            · next mounted =>
              rw [wp_ite]
              split
              · exact fails _
              · exact wp_umountAt_refs h.inUse h₁ (not_not.mp inside) mounted

/-! ## From the boot on -/

/-- The end of `init2`: the root is the current directory as well. -/
def setRoot (ino : Inoptr) : K Bool := do
  modify fun s => { s with root := ino }
  modifyUdata fun u => { u with uCwd := ino }
  iRef ino
  pure true

/-- What `init2` does for the file system. It gives `false` where the source panics for want of one. -/
def mountRoot (dev : Nat) : K Bool := do
  modify fun s => { s with rootdev := dev }
  if (← fmount dev none) ≠ 0 then pure false
  else
    match ← iOpen dev ROOTINODE with
    | none => pure false
    | some ino => setRoot ino

/-- The tables before `init2`. -/
structure Kernel.Cleared (s : Kernel) : Prop where
  refs : ∀ i, (s.iTab i).cRefs = 0
  ofTab : ∀ j, (s.ofTab j).oInode = none
  fsTab : ∀ dev, (s.fsTab dev).sMounted = 0

/-- A kernel that has just been started has nothing in its tables. -/
lemma Kernel.Cleared.tabled (h : s.Cleared) : s.tabled = 0 := by
  have opened : s.opened = 0 := Finset.sum_eq_zero fun j _ => congrArg pointers (openPointer_of_none (h.ofTab j))
  have mounts : s.mounts = 0 := Finset.sum_eq_zero fun dev _ => congrArg pointers (mountPointer_of_zero (h.fsTab dev))
  unfold Kernel.tabled
  rw [opened, mounts, add_zero]

/-- The root and the current directory take over the references that are not in the tables. -/
lemma wp_setRoot_refs {s₀ : Kernel} {ino : Inoptr} (inUse : s₀.InUse) (h : s₀.Bears s (ino ::ₘ s₀.tabled)) :
    wp (setRoot ino) (fun _ s' => s'.RefsCounted) Balanced s := by
  unfold setRoot iRef
  rw [wp_bind, wp_modify, wp_bind, wp_modifyUdata]
  generalize rooted : ({ s with root := ino } : Kernel).withUdata { s.udata with uCwd := ino } = t
  have ofTab : t.ofTab = s.ofTab := rooted ▸ rfl
  have owners : t.owners = ino ::ₘ ino ::ₘ s₀.tabled := by
    have all : t.owners = s.tabled + {ino, ino} := rooted ▸ rfl
    rw [all, h.tables.tabled, add_comm, Multiset.insert_eq_cons, Multiset.cons_add, Multiset.singleton_add]
  have start : t.Bears t (ino ::ₘ s₀.tabled) := by
    refine .start ?_
    rw [← rooted]
    exact h.refs
  have more : t.Bears _ _ := start.shared (p := ino) (c := { t.iTab ino with cRefs := (t.iTab ino).cRefs + 1 }) rfl
  rw [← owners] at more
  have counted := more.refsCounted fun j => ofTab ▸ h.tables.inUse inUse j
  rw [wp_bind, wp_bind, wp_modifyInode, wp_bind, wp_get, wp_ite]
  split
  · exact fun freed => Panic.noConfusion freed
  · exact counted

/-- The mount of the root gives the first two references. -/
lemma wp_mountRoot {dev : Nat} (h : s.Cleared) (inside : dev < NDEVS) :
    wp (mountRoot dev) (fun ok s' => ok = true → s'.RefsCounted) Balanced s := by
  have inUse : s.InUse := fun j ne => absurd (h.ofTab j) ne
  have start : s.Bears { s with rootdev := dev } (0 + s.tabled) := by
    refine ⟨.of_eq rfl rfl rfl rfl, fun i => ?_⟩
    rw [h.tabled, add_zero, Multiset.count_zero, Nat.cast_zero]
    exact h.refs i
  unfold mountRoot
  rw [wp_bind, wp_modify, wp_bind]
  refine wp_post (wp_fmount_refs inside (h.fsTab dev) inUse start) fun r s₁ mounts => ?_
  rw [wp_ite]
  split
  · exact nofun
  · next ok =>
    obtain ⟨t, kept, h₁⟩ := mounts (.inl (not_not.mp ok))
    rw [zero_add] at h₁
    have few : t.tabled.card ≤ 30 := (Multiset.card_le_card (Multiset.le_add_right _ _)).trans few_owners
    rw [wp_bind]
    refine wp_post (h₁.wp_iOpen few) fun ino s₂ h₂ => ?_
    cases ino with
    | none => exact nofun
    | some ino =>
      rw [pointers_some] at h₂
      exact wp_post (wp_setRoot_refs kept.inUse h₂) fun _ _ counted _ => counted

/-! ## Runs -/

/-- A system call of one process that looks a name up, or opens, closes, makes or removes a file or a mount. -/
inductive RefCall
  | _open (name : CStr) (flag : Word)
  | _creat (name : CStr) (mode : Word)
  | _close (d : Word)
  | _link (name1 name2 : CStr)
  | _unlink (path : CStr)
  | _mknod (name : CStr) (mode dev : Word)
  | _chdir (dir : CStr)
  | _pipe (fildes : Nat)
  | _chmod (path : CStr) (mode : Word)
  | _stat (path : CStr) (buf : Word)
  | _access (path : CStr) (mode : Word)
  | _mount (spec dir : CStr) (rwflag : Word)
  | _umount (spec : CStr)

namespace RefCall

/-- The call. -/
def run : RefCall → K Int
  | _open name flag => return (← Uzi._open name flag).toInt
  | _creat name mode => return (← Uzi._creat name mode).toInt
  | _close d => return (← Uzi._close d).toInt
  | _link name1 name2 => return (← Uzi._link name1 name2).toInt
  | _unlink path => return (← Uzi._unlink path).toInt
  | _mknod name mode dev => return (← Uzi._mknod name mode dev).toInt
  | _chdir dir => return (← Uzi._chdir dir).toInt
  | _pipe fildes => return (← Uzi._pipe fildes).toInt
  | _chmod path mode => return (← Uzi._chmod path mode).toInt
  | _stat path buf => Uzi._stat bcopy path buf
  | _access path mode => return (← Uzi._access path mode).toInt
  | _mount spec dir rwflag => return (← Uzi._mount spec dir rwflag).toInt
  | _umount spec => return (← Uzi._umount spec).toInt

/-- The call takes none of the exits that leave a reference too many or too few, and `_pipe` stores its descriptors in
the memory of the process. -/
def Clean : RefCall → Kernel → Prop
  | _creat name _ => CreatClean name
  | _link name1 name2 => LinkClean name1 name2
  | _unlink path => UnlinkClean path
  | _mknod name _ _ => MknodClean name
  | _mount spec dir _ => MountClean spec dir
  | _pipe fildes => fun s => PipeEnds s → s.layout.InUser fildes 4
  | _ => fun _ => True

/-- A call with a signed result. -/
lemma signed {c : K Word} (h : wp c (fun _ s' => s'.RefsCounted) Balanced s) :
    wp (do return (← c).toInt) (fun _ s' => s'.RefsCounted) Balanced s := by
  rw [wp_bind]
  exact wp_post h fun _ _ counted => counted

/-- Each call keeps the references counted. -/
lemma wp_run (c : RefCall) (h : s.RefsCounted) (clean : c.Clean s) :
    wp c.run (fun _ s' => s'.RefsCounted) Balanced s := by
  cases c with
  | _open name flag => exact signed (wp_open_refs h)
  | _creat name mode => exact signed (wp_creat_refs h clean)
  | _close d => exact signed (wp_close_refs h)
  | _link name1 name2 => exact signed (wp_link h clean)
  | _unlink path => exact signed (wp_unlink h clean)
  | _mknod name mode dev => exact signed (wp_mknod h clean)
  | _chdir dir => exact signed (wp_chdir h)
  | _pipe fildes => exact signed (wp_pipe_refs h)
  | _chmod path mode => exact signed (wp_chmod h)
  | _stat path buf => exact wp_stat h
  | _access path mode => exact signed (wp_access h)
  | _mount spec dir rwflag => exact signed (wp_mount_refs h clean)
  | _umount spec => exact signed (wp_umount_refs h)

end RefCall

/-- A run of calls from `s` that take none of these exits. -/
inductive RefRun (s : Kernel) : Kernel → Prop
  | start : RefRun s s
  | call {s' s'' : Kernel} {c : RefCall} {r : Int} (run : RefRun s s') (clean : c.Clean s')
      (returned : c.run s' = .ok (r, s'')) : RefRun s s''

/-- A run keeps the references counted. -/
lemma RefRun.counted (run : RefRun s s') (h : s.RefsCounted) : s'.RefsCounted := by
  induction run with
  | start => exact h
  | call _ clean returned ih => exact (RefCall.wp_run _ ih clean).ok returned

/-! ## The holders of an inode -/

/-- The number of entries of the open file table, of devices, and of the root and the current directory, that hold an
inode. -/
def Kernel.holders (s : Kernel) (i : Inoptr) : Nat :=
  (Finset.univ.filter fun j => (s.ofTab j).oRefs ≠ 0 ∧ (s.ofTab j).oInode = some i).card +
    ((Finset.range NDEVS).filter fun dev => (s.fsTab dev).sMounted ≠ 0 ∧ (s.fsTab dev).sMntpt = i.raw).card +
    ((if i = s.root then 1 else 0) + if i = s.udata.uCwd then 1 else 0)

/-- A pointer owns one inode. -/
lemma count_pointers {p : Option Inoptr} {i : Inoptr} : (pointers p).count i = if p = some i then 1 else 0 := by
  cases p with
  | none => exact (if_neg nofun).symm
  | some p =>
    show Multiset.count i {p} = _
    rw [Multiset.count_singleton]
    exact if_congr (eq_comm.trans Option.some_inj.symm) rfl rfl

/-- The inode that an entry of the open file table owns. -/
lemma openPointer_eq {o : Oft} {i : Inoptr} : openPointer o = some i ↔ o.oRefs ≠ 0 ∧ o.oInode = some i := by
  by_cases zero : o.oRefs = 0
  · exact iff_of_false (fun e => nomatch (if_pos zero).symm.trans e) fun h => h.1 zero
  · rw [openPointer_of_ne zero]
    exact (and_iff_right zero).symm

/-- The inode that a superblock owns. -/
lemma mountPointer_eq {fs : Filesys} {i : Inoptr} : mountPointer fs = some i ↔ fs.sMounted ≠ 0 ∧ fs.sMntpt = i.raw := by
  by_cases zero : fs.sMounted = 0
  · exact iff_of_false (fun e => nomatch (mountPointer_of_zero zero).symm.trans e) fun h => h.1 zero
  · rw [show mountPointer fs = inoOfRaw fs.sMntpt from if_neg zero, inoOfRaw_eq]
    exact (and_iff_right zero).symm

/-- The owners of an inode are its holders. -/
lemma Kernel.count_owners {i : Inoptr} : s.owners.count i = s.holders i := by
  have opened : s.opened.count i =
      (Finset.univ.filter fun j => (s.ofTab j).oRefs ≠ 0 ∧ (s.ofTab j).oInode = some i).card := by
    rw [Kernel.opened, Multiset.count_sum', Finset.card_filter]
    exact Finset.sum_congr rfl fun j _ => count_pointers.trans (if_congr openPointer_eq rfl rfl)
  have mounts : s.mounts.count i =
      ((Finset.range NDEVS).filter fun dev => (s.fsTab dev).sMounted ≠ 0 ∧ (s.fsTab dev).sMntpt = i.raw).card := by
    rw [Kernel.mounts, Multiset.count_sum', Finset.card_filter]
    exact Finset.sum_congr rfl fun dev _ => count_pointers.trans (if_congr mountPointer_eq rfl rfl)
  have pair : Multiset.count i {s.root, s.udata.uCwd} =
      (if i = s.root then 1 else 0) + if i = s.udata.uCwd then 1 else 0 := by
    rw [Multiset.insert_eq_cons, Multiset.count_cons, Multiset.count_singleton, add_comm]
  rw [Kernel.owners, Kernel.holders, Multiset.count_add, Multiset.count_add, opened, mounts, pair]

/-- From the boot on, and as long as no call takes one of these exits, the references of every inode are its holders,
and no call gives back a reference that is not there. -/
theorem refs_are_holders {s s₁ s' : Kernel} {dev : Nat} (cleared : s.Cleared) (inside : dev < NDEVS)
    (booted : mountRoot dev s = .ok (true, s₁)) (run : RefRun s₁ s') :
    (∀ i, (s'.iTab i).cRefs.toNat = s'.holders i) ∧
      ∀ c : RefCall, c.Clean s' → c.run s' ≠ .error .inodeFreed := by
  have counted : s'.RefsCounted := run.counted ((wp_mountRoot cleared inside).ok booted rfl)
  refine ⟨fun i => ?_, fun c clean freed => ?_⟩
  · rw [counted.refs.toNat few_owners i, Kernel.count_owners]
  · exact (c.wp_run counted clean).error freed rfl

/-- A new file system on device 0. -/
def newDisk : Kernel := Kernel.inited fun _ => mkfs 20 3

/-- The name `/`. -/
def rootName : CStr := .ofList [SLASH] (by decide)

/-- After the boot and one open the root has three holders. -/
lemma boot_newDisk :
    wp (mountRoot 0) (fun ok s' => ok = true ∧ wp (RefCall._open rootName 0).run (fun _ s'' => s''.holders 0 = 3)
      (fun _ => False) s') (fun _ => False) newDisk := by
  decide +kernel

/-- The root is opened once more. -/
theorem refs_are_holders_opened : ∃ s₁ s', mountRoot 0 newDisk = .ok (true, s₁) ∧ RefRun s₁ s' ∧
    (∀ i, (s'.iTab i).cRefs.toNat = s'.holders i) ∧ s'.holders 0 = 3 ∧
      ∀ c : RefCall, c.Clean s' → c.run s' ≠ .error .inodeFreed := by
  obtain ⟨ok, s₁, booted, rfl, opens⟩ := boot_newDisk.returns
  obtain ⟨r, s', returned, three⟩ := opens.returns
  have run : RefRun s₁ s' := .call (c := ._open rootName 0) .start trivial returned
  have held := refs_are_holders (s := newDisk) ⟨fun _ => rfl, fun _ => rfl, fun _ => rfl⟩ (by decide) booted run
  exact ⟨s₁, s', booted, run, held.1, three, held.2⟩

end Uzi
