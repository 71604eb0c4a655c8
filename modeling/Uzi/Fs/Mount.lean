import Uzi.Fs.PathFrame
import Uzi.Fs.PathWalk

/-!
# Mounting

`fmount` of `fs/filesys.c`, and the system calls `_mount` and `_umount` of `kernel/scall1b.c`. `fmount` copies the
block into the mount table before it looks at it, so that `_mount` can fail with an entry that is taken for one of a
mounted device. Up to there a call that fails leaves the table and the references alone.
-/

namespace Uzi
open Exec WriteBack

/-! ## The system calls -/

/-- The raw pointer that `ino` is. -/
def rawOf : Option Inoptr → Word
  | none => 0
  | some ino => ino.raw

/-- `fmount`: -1 when there is no file system on the device. -/
def fmount (dev : Nat) (ino : Option Inoptr) : K Int := do
  if (← dOpen dev) ≠ 0 then throw .fmountCantOpen
  else do
    let buf ← breadPtr dev 1 0
    let s ← get
    modifyFs dev fun _ => .ofBlock (s.buf buf).bfData
    brelse buf
    let fp := (← get).fsTab dev
    if fp.sMounted ≠ SMOUNTED ∨ fp.sFsize ≤ fp.sIsize then pure (-1)
    else do
      modifyFs dev fun fs => { fs with sMntpt := rawOf ino }
      match ino with
      | none => pure 0
      | some ino => do
        modifyInode ino fun c => { c with cRefs := c.cRefs + 1 }
        pure 0

/-- A device number as an `int`. -/
def devInt : Target → Word → Int
  | .nes, dev => dev.toInt
  | .fsutil, dev => dev.toNat

/-- Whether `_mount` finds no device under the number. -/
def noDevice (dev : Word) : K Bool := do
  if (NDEVS : Int) ≤ devInt (← get).target dev then pure true
  else return (← dOpen dev.toNat) ≠ 0

/-- The exit `nogood` of `_mount`. -/
def mountFailed (e : Errno) (sino dino : Inoptr) : K Word := do
  setError e
  iDeref dino
  iDeref sino
  pure 0xffff

/-- `_mount` with the device and the directory at hand, which have been checked. -/
def mountAt (dev : Nat) (sino dino : Inoptr) : K Word := do
  _sync
  if (← fmount dev (some dino)) ≠ 0 then mountFailed .ebusy sino dino
  else do
    iDeref dino
    iDeref sino
    pure 0

/-- `_mount`. It does not look at `rwflag`. -/
def _mount (spec dir : CStr) (_rwflag : Word) : K Word := do
  if ¬ super (← get) then do
    setError .eperm
    pure 0xffff
  else
    match ← nOpen spec false with
    | (none, _) => pure 0xffff
    | (some sino, _) =>
      match ← nOpen dir false with
      | (none, _) => do
        iDeref sino
        pure 0xffff
      | (some dino, _) => do
        let s ← get
        let dev := (s.iTab sino).cNode.addr 0
        if (s.iTab sino).getmode ≠ F_BDEV then mountFailed .enotblk sino dino
        else if (s.iTab dino).getmode ≠ F_DIR then mountFailed .enotdir sino dino
        else if ← noDevice dev then mountFailed .enxio sino dino
        else if (s.fsTab dev.toNat).sMounted ≠ 0 ∨ (s.iTab dino).cRefs ≠ 1 ∨ (s.iTab dino).cNum = ROOTINODE then
          mountFailed .ebusy sino dino
        else mountAt dev.toNat sino dino

/-- The exit `nogood` of `_umount`. -/
def umountFailed (e : Errno) (sino : Inoptr) : K Word := do
  setError e
  iDeref sino
  pure 0xffff

/-- `_umount` of device `dev`, which has been checked. -/
def umountAt (dev : Nat) (sino : Inoptr) : K Word := do
  _sync
  modifyFs dev fun fs => { fs with sMounted := 0 }
  match inoOfRaw ((← get).fsTab dev).sMntpt with
  | none => throw .undefined
  | some ino => do
    iDeref ino
    iDeref sino
    pure 0

/-- `_umount`. -/
def _umount (spec : CStr) : K Word := do
  if ¬ super (← get) then do
    setError .eperm
    pure 0xffff
  else
    match ← nOpen spec false with
    | (none, _) => pure 0xffff
    | (some sino, _) => do
      let s ← get
      let dev := ((s.iTab sino).cNode.addr 0).toNat
      if (s.iTab sino).getmode ≠ F_BDEV then umountFailed .enotblk sino
      else if ¬ validdev dev then umountFailed .enxio sino
      else if ¬ dev < NDEVS then throw .undefined
      else if (s.fsTab dev).sMounted = 0 then umountFailed .einval sino
      else if ∃ i, (s.iTab i).cRefs ≠ 0 ∧ (s.iTab i).cDev = dev then umountFailed .ebusy sino
      else umountAt dev sino

/-! ## Writing everything out -/

/-- The entry of the mount table that `_sync` leaves. -/
def Filesys.synced (fs : Filesys) : Filesys :=
  if fs.sMounted = SMOUNTED ∧ fs.sFmod ≠ 0 then { fs with sFmod := 0 } else fs

/-- The entries of the inode table are the same, and those that have references and are not in `is` are clean. -/
structure Kernel.Cleaned (s s' : Kernel) (is : List Inoptr) : Prop where
  entry : ∀ i, s'.iTab i = { s.iTab i with cDirty := (s'.iTab i).cDirty }
  clean : ∀ i, i ∉ is → (s.iTab i).cRefs ≠ 0 → (s'.iTab i).cDirty = false

/-- The buffers are in order, none is held, and the first block of device `dev` is the same. -/
structure Kernel.Spares (s s' : Kernel) (dev : Nat) : Prop where
  good : s'.bufs.Good
  released : ∀ bp, s'.bufs.view.held bp = none
  cell : s'.cell dev 1 = s.cell dev 1

namespace Kernel

variable {s s₀ s' s'' : Kernel} {dev j : Nat} {p i : Inoptr}

/-- Spared, twice. -/
lemma Spares.trans (h : s.Spares s' dev) (h' : s'.Spares s'' dev) : s.Spares s'' dev :=
  ⟨h'.good, h'.released, h'.cell.trans h.cell⟩

/-- A block that is written to another place spares the superblock. -/
lemma Spares.of_put {b : Bufs} {n : Nat × Word} {x : Block} (released : ∀ bp, s.bufs.view.held bp = none) (g : b.Good)
    (v : b.view = s.bufs.view.put n x) (ne : (dev, (1 : Word)) ≠ n) : s.Spares { s with bufs := b } dev where
  good := g
  released bp := by
    show b.view.held bp = none
    rw [v, View.held_put]
    exact released bp
  cell := by
    show b.view.content _ = _
    rw [v, View.content_put_of_ne ne]
    rfl

/-- A round of the first loop of `_sync`. -/
lemma wp_syncInode_spares (dev : Nat) (good : s.bufs.Good) (released : ∀ bp, s.bufs.view.held bp = none)
    (entry : (s.iTab p).cRefs ≠ 0 → (s.iTab p).cMagic = CMAGIC ∧ (s.iTab p).cDev < NDEVS) :
    wp (syncInode p)
      (fun _ s' => s.Spares s' dev ∧ s'.fsTab = s.fsTab ∧ (∀ i ≠ p, s'.iTab i = s.iTab i) ∧
        s'.iTab p = { s.iTab p with cDirty := (s'.iTab p).cDirty } ∧
        ((s.iTab p).cRefs ≠ 0 → (s'.iTab p).cDirty = false))
      (fun _ => False) s := by
  unfold syncInode
  rw [wp_bind, wp_get, wp_ite]
  split
  · next dirty =>
    obtain ⟨magic, hdev⟩ := entry dirty.1
    rw [wp_bind]
    refine wp_mono (wp_wrInode good released fun _ => hdev) (fun _ s₁ got => ?_) fun _ bad => bad.2 magic
    obtain ⟨-, b, e, g, v⟩ := got
    subst e
    have ne : (dev, (1 : Word)) ≠ ((s.iTab p).cDev, inodeBlk (s.iTab p).cNum) := by
      intro e
      have two := @two_le_inodeBlk (s.iTab p).cNum
      rw [← (Prod.mk.inj e).2] at two
      exact absurd two (by decide)
    have spares := Spares.of_put released g v ne
    rw [wp_modifyInode]
    refine ⟨⟨spares.good, spares.released, spares.cell⟩, rfl, fun i ne => ?_, ?_, fun _ => ?_⟩
    · rw [iTab_setInode_of_ne ne]
      exact iTab_setInode_of_ne ne
    · rw [iTab_setInode, written]
      exact congrArg (fun c : Cinode => { c with cDirty := false }) iTab_setInode
    · rw [iTab_setInode]
  · next clean =>
    exact ⟨⟨good, released, rfl⟩, rfl, fun _ _ => rfl, rfl, fun refs => eq_false_of_ne_true fun dirty => clean ⟨refs, dirty⟩⟩

/-- A round of the second loop of `_sync`. -/
lemma wp_syncFs_spares (good : s.bufs.Good) (released : ∀ bp, s.bufs.view.held bp = none) (hj : j < NDEVS)
    (other : (s.fsTab j).sMounted = SMOUNTED → dev ≠ j) :
    wp (syncFs j)
      (fun _ s' => s.Spares s' dev ∧ s'.iTab = s.iTab ∧
        s'.fsTab = Function.update s.fsTab j (s.fsTab j).synced)
      (fun _ => False) s := by
  unfold syncFs
  rw [wp_bind, wp_get, wp_ite]
  split
  · next pending =>
    have ne : (dev, (1 : Word)) ≠ (j, 1) := fun e => other pending.1 (Prod.mk.inj e).1
    rw [wp_bind]
    show wp _ _ _ { s with fsTab := Function.update s.fsTab j { s.fsTab j with sFmod := 0 } }
    simp only [wp_bind, wp_get, wp_fill, wp_pure]
    refine wp_mono (wp_breadPtr_rewrite (s := { s with fsTab := _ }) good hj) ?_ fun e stop =>
      View.not_stops_of_idle released (by decide) stop
    intro bp s₁ got
    obtain ⟨b, e, pend⟩ := got
    subst e
    refine wp_post (wp_bfree_fill pend (by decide)) fun _ s₂ got => ?_
    obtain ⟨b', e, g', v⟩ := got
    subst e
    have spares := Spares.of_put (s := s) released g' v ne
    refine ⟨⟨spares.good, spares.released, spares.cell⟩, rfl, ?_⟩
    rw [Filesys.synced, if_pos pending]
  · next idle =>
    refine ⟨⟨good, released, rfl⟩, rfl, ?_⟩
    rw [Filesys.synced, if_neg idle, Function.update_eq_self]

/-- The first loop of `_sync`. -/
lemma wp_syncInodes (dev : Nat) (good : s.bufs.Good) (released : ∀ bp, s.bufs.view.held bp = none)
    (entry : ∀ i, (s.iTab i).cRefs ≠ 0 → (s.iTab i).cMagic = CMAGIC ∧ (s.iTab i).cDev < NDEVS) :
    wp (each (List.finRange ITABSIZE) syncInode)
      (fun _ s' => s.Spares s' dev ∧ s'.fsTab = s.fsTab ∧ s.Cleaned s' []) (fun _ => False) s := by
  refine wp_each (fun is s' => s.Spares s' dev ∧ s'.fsTab = s.fsTab ∧ s.Cleaned s' is) ?_
    ⟨⟨good, released, rfl⟩, rfl, fun _ => rfl, fun i out => absurd (List.mem_finRange i) out⟩
  intro p is _ s₁ h₁
  obtain ⟨spares, fsTab, cleaned⟩ := h₁
  have same := cleaned.entry p
  have refs : (s₁.iTab p).cRefs = (s.iTab p).cRefs := by rw [same]
  have ready : (s₁.iTab p).cRefs ≠ 0 → (s₁.iTab p).cMagic = CMAGIC ∧ (s₁.iTab p).cDev < NDEVS := by
    rw [same]
    exact entry p
  refine wp_post (wp_syncInode_spares dev spares.good spares.released ready) fun _ s₂ got => ?_
  obtain ⟨spares₂, fsTab₂, others, own, clean⟩ := got
  refine ⟨spares.trans spares₂, fsTab₂.trans fsTab, fun i => ?_, fun i out used => ?_⟩
  · by_cases e : i = p
    · rw [e, own, same]
    · rw [others i e]
      exact cleaned.entry i
  · by_cases e : i = p
    · rw [e] at used ⊢
      exact clean (refs ▸ used)
    · rw [others i e]
      exact cleaned.clean i (List.not_mem_cons_of_ne_of_not_mem e out) used

/-- The second loop of `_sync`. -/
lemma wp_syncFss (good : s.bufs.Good) (released : ∀ bp, s.bufs.view.held bp = none)
    (unmounted : (s.fsTab dev).sMounted ≠ SMOUNTED) :
    wp (each (List.range NDEVS) syncFs)
      (fun _ s' => s.Spares s' dev ∧ s'.iTab = s.iTab ∧
        s'.fsTab = fun j => if j < NDEVS then (s.fsTab j).synced else s.fsTab j)
      (fun _ => False) s := by
  refine wp_post (wp_each (fun js s' => s.Spares s' dev ∧ s'.iTab = s.iTab ∧
    s'.fsTab = fun j => if j < NDEVS ∧ j ∉ js then (s.fsTab j).synced else s.fsTab j) ?_
    ⟨⟨good, released, rfl⟩, rfl, ?_⟩) fun _ s' got => ⟨got.1, got.2.1, got.2.2.trans ?_⟩
  · intro j js suffix s₁ h₁
    obtain ⟨spares, iTab, fsTab⟩ := h₁
    have hj := List.mem_range.mp (suffix.subset List.mem_cons_self)
    have fresh : j ∉ js := (List.nodup_cons.mp (List.nodup_range.sublist suffix.sublist)).1
    have own : s₁.fsTab j = s.fsTab j := by
      rw [fsTab]
      exact if_neg fun h => h.2 List.mem_cons_self
    have other : (s₁.fsTab j).sMounted = SMOUNTED → dev ≠ j := by
      intro mounted e
      rw [own, ← e] at mounted
      exact unmounted mounted
    refine wp_post (wp_syncFs_spares spares.good spares.released hj other) fun _ s₂ got => ?_
    obtain ⟨spares₂, iTab₂, fsTab₂⟩ := got
    refine ⟨spares.trans spares₂, iTab₂.trans iTab, ?_⟩
    funext k
    rw [fsTab₂, own]
    by_cases e : k = j
    · rw [e, Function.update_self, if_pos ⟨hj, fresh⟩]
    · rw [Function.update_of_ne e, fsTab]
      simp only [List.mem_cons, e, false_or]
  · funext j
    exact (if_neg fun h => h.2 (List.mem_range.mpr h.1)).symm
  · funext j
    simp only [List.not_mem_nil, not_false_eq_true, and_true]

/-- The mount table that `_sync` leaves. -/
def syncedTab (s : Kernel) (j : Nat) : Filesys := if j < NDEVS then (s.fsTab j).synced else s.fsTab j

/-- What is undisturbed has the same superblocks. -/
lemma Undisturbed.syncedTab (h : s.Undisturbed s') : s'.syncedTab = s.syncedTab := by
  funext j
  rw [Kernel.syncedTab, Kernel.syncedTab, h.fsTab]

/-- `_sync` marks what it writes as written, and does not write to a device that is not mounted. -/
lemma wp_sync_spares (good : s.bufs.Good) (released : ∀ bp, s.bufs.view.held bp = none)
    (entry : ∀ i, (s.iTab i).cRefs ≠ 0 → (s.iTab i).cMagic = CMAGIC ∧ (s.iTab i).cDev < NDEVS)
    (unmounted : (s.fsTab dev).sMounted ≠ SMOUNTED) :
    wp _sync (fun _ s' => s.Spares s' dev ∧ s'.fsTab = s.syncedTab ∧ s.Cleaned s' []) (fun _ => False) s := by
  unfold _sync
  rw [wp_bind]
  refine wp_post (wp_syncInodes dev good released entry) fun _ s₁ h₁ => ?_
  obtain ⟨spares, fsTab, cleaned⟩ := h₁
  rw [← fsTab] at unmounted
  rw [wp_bind]
  refine wp_post (wp_syncFss spares.good spares.released unmounted) fun _ s₂ h₂ => ?_
  obtain ⟨spares₂, iTab₂, fsTab₂⟩ := h₂
  refine wp_post (wp_bufsync_shown spares₂.good) fun _ s₃ h₃ => ?_
  obtain ⟨b, e, g, v⟩ := h₃
  subst e
  refine ⟨spares.trans (spares₂.trans ⟨g, fun bp => ?_, ?_⟩), ?_, fun i => ?_, fun i out used => ?_⟩
  · show b.view.held bp = none
    rw [v]
    exact spares₂.released bp
  · show b.view.content _ = _
    rw [v]
    rfl
  · show s₂.fsTab = _
    rw [fsTab₂, fsTab]
    rfl
  · show s₂.iTab i = { s.iTab i with cDirty := (s₂.iTab i).cDirty }
    rw [iTab₂]
    exact cleaned.entry i
  · show (s₂.iTab i).cDirty = false
    rw [iTab₂]
    exact cleaned.clean i out used

end Kernel

/-! ## A device without a file system -/

/-- `fmount` takes this for no file system. -/
def Filesys.Invalid (fs : Filesys) : Prop := fs.sMounted ≠ SMOUNTED ∨ fs.sFsize ≤ fs.sIsize

/-- What is in the place of a superblock on the device. -/
noncomputable def Kernel.superblock (s : Kernel) (dev : Nat) : Filesys := .ofBlock (s.cell dev 1)

/-- The mount table and the references are the same. -/
structure Kernel.SameMounts (s s' : Kernel) : Prop where
  fsTab : s'.fsTab = s.fsTab
  refs : SameRefs s s'

/-- The checks of `_mount` let device `dev` be mounted on directory `dino`. -/
structure Kernel.Passes (s : Kernel) (sino dino : Inoptr) (dev : Nat) : Prop where
  special : (s.iTab sino).getmode = F_BDEV
  dir : (s.iTab dino).getmode = F_DIR
  addr : ((s.iTab sino).cNode.addr 0).toNat = dev
  inside : dev < NDEVS
  unmounted : (s.fsTab dev).sMounted = 0
  refs : (s.iTab dino).cRefs = 1
  num : (s.iTab dino).cNum ≠ ROOTINODE

namespace Kernel

variable {s s₀ s' s'' : Kernel} {dev : Nat} {p i sino dino : Inoptr} {l : Multiset Inoptr} {spec dir : CStr}
  {rwflag : Word}

/-- The devices can be opened. -/
lemma wp_dOpen (hdev : dev < NDEVS) : wp (dOpen dev) (fun r s' => r = 0 ∧ s' = s) (fun _ => False) s := by
  unfold dOpen
  have valid : validdev dev = true := rfl
  rw [wp_ite, if_neg (not_not.mpr valid), wp_ite, if_pos hdev]
  exact ⟨rfl, rfl⟩

/-- What `_mount` finds under a number is one of the devices. -/
lemma wp_noDevice {num : Word} :
    wp (noDevice num) (fun r s' => s' = s ∧ (r = false → num.toNat < NDEVS)) (fun _ => True) s := by
  unfold noDevice
  rw [wp_bind, wp_get, wp_ite]
  split
  · exact ⟨rfl, fun e => absurd e.symm Bool.false_ne_true⟩
  · unfold dOpen
    have valid : validdev num.toNat = true := rfl
    rw [wp_bind, wp_ite, if_neg (not_not.mpr valid), wp_ite]
    split
    · next lt => exact ⟨rfl, fun _ => lt⟩
    · trivial

/-- A device that is there is found. -/
lemma wp_noDevice_found {num : Word} (lt : num.toNat < NDEVS) :
    wp (noDevice num) (fun r s' => r = false ∧ s' = s) (fun _ => False) s := by
  have small : ¬ (NDEVS : Int) ≤ devInt s.target num := by
    have five : NDEVS = 5 := rfl
    have int : num.toInt = num.toNat := BitVec.toInt_eq_toNat_of_lt (by omega)
    cases s.target with
    | nes =>
      show ¬ (NDEVS : Int) ≤ num.toInt
      omega
    | fsutil =>
      show ¬ (NDEVS : Int) ≤ num.toNat
      omega
  unfold noDevice
  rw [wp_bind, wp_get, wp_ite, if_neg small, wp_bind]
  refine wp_post (wp_dOpen lt) fun r s₁ got => ?_
  obtain ⟨rfl, rfl⟩ := got
  exact ⟨rfl, rfl⟩

/-- `fmount` leaves what it has read in the mount table, whatever it is. -/
lemma wp_fmount (good : s.bufs.Good) (released : ∀ bp, s.bufs.view.held bp = none) (hdev : dev < NDEVS) :
    wp (fmount dev (some p))
      (fun r s' => (s.superblock dev).Invalid ∧ r = -1 ∧ s'.iTab = s.iTab ∧
          s'.fsTab = Function.update s.fsTab dev (s.superblock dev) ∨ ¬ (s.superblock dev).Invalid ∧ r = 0)
      (fun _ => False) s := by
  unfold fmount
  rw [wp_bind]
  refine wp_post (wp_dOpen hdev) fun r s₁ got => ?_
  obtain ⟨rfl, rfl⟩ := got
  rw [wp_ite, if_neg (not_not.mpr rfl), wp_bind]
  refine wp_mono (wp_breadPtr good hdev) ?_ fun _ stop => View.not_stops_of_idle released (by decide) stop
  intro bp s₂ got
  obtain ⟨b, e, g, free, hold⟩ := got
  subst e
  have held : b.view.held bp = some (dev, 1) := by rw [hold, View.held_hold]
  have data : (b.bufpool bp).bfData = s₁.cell dev 1 := by
    rw [g.data held, hold, View.content_hold]
    rfl
  rw [wp_bind, wp_get, wp_bind]
  show wp _ _ _ { s₁ with
    bufs := b
    fsTab := Function.update s₁.fsTab dev (.ofBlock (b.bufpool bp).bfData) }
  rw [data, wp_bind]
  refine wp_post (wp_brelse_hold g free hold) fun _ s₃ got => ?_
  obtain ⟨b', e, g', v⟩ := got
  subst e
  rw [wp_bind, wp_get]
  have own : Function.update s₁.fsTab dev (s₁.superblock dev) dev = s₁.superblock dev := Function.update_self ..
  show wp (if (Function.update s₁.fsTab dev (s₁.superblock dev) dev).sMounted ≠ SMOUNTED ∨
    (Function.update s₁.fsTab dev (s₁.superblock dev) dev).sFsize ≤
      (Function.update s₁.fsTab dev (s₁.superblock dev) dev).sIsize then _ else _) _ _ _
  rw [own, wp_ite]
  split
  · next bad => exact .inl ⟨bad, rfl, rfl, rfl⟩
  · next ok => exact .inr ⟨ok, rfl⟩

/-! ## A mount that fails -/

/-- What is left when all references of a search have been given back. -/
lemma Strolled.sameMounts (h : s.Strolled s' 0) : s.SameMounts s' where
  fsTab := h.still.fsTab
  refs i := by
    rw [h.carries i, Multiset.count_zero, Nat.cast_zero, add_zero]

/-- The failing exits of `_mount` keep the mounts. -/
lemma Strolled.wp_mountFailed {e : Errno} (w : s₀.Walkable) (h : s₀.Strolled s (dino ::ₘ {sino})) :
    wp (mountFailed e sino dino) (fun r s' => r = 0xffff ∧ s₀.SameMounts s') (fun _ => False) s := by
  unfold mountFailed
  rw [wp_bind]
  show wp _ _ _ { s with udata := { s.udata with uError := e } }
  rw [wp_bind]
  refine wp_post (h.error.wp_iDeref w (Nat.le_succ 1)) fun _ s₁ h₁ => ?_
  have h₁ : s₀.Strolled s₁ (sino ::ₘ 0) := h₁
  rw [wp_bind]
  exact wp_post (h₁.wp_iDeref w (Nat.zero_le 2)) fun _ s₂ h₂ => ⟨rfl, h₂.sameMounts⟩

/-- Only inodes have references. -/
lemma Strolled.used (w : s₀.Walkable) (h : s₀.Strolled s l) (few : l.card ≤ 3) (refs : (s.iTab i).cRefs ≠ 0) :
    (s.iTab i).cMagic = CMAGIC ∧ (s.iTab i).cDev < NDEVS := by
  have num : (s.iTab i).cNum ≠ 0 := by
    by_cases mem : i ∈ l
    · exact (h.live i mem).1
    · exact (h.kept w fun zero => refs ((h.refs_eq_zero w.roomy few).mpr ⟨zero, mem⟩)).1
  exact ⟨h.magic i num, (h.keeps.cached.inode i num).1⟩

/-- A reference of the search is given back after `_sync`. -/
lemma Strolled.wp_iDeref_cleaned {s₁ : Kernel} (w : s₀.Walkable) (h : s₀.Strolled s l) (few : l.card ≤ 3)
    (mem : p ∈ l) (own : s₁.iTab p = { s.iTab p with cDirty := false }) :
    wp (iDeref p)
      (fun _ s' => s₁.Undisturbed s' ∧
        s'.iTab = (s₁.setInode p { s₁.iTab p with cRefs := (s₁.iTab p).cRefs - 1 }).iTab)
      (fun _ => False) s₁ := by
  have refs : (s.iTab p).cRefs ≠ 0 := fun zero => ((h.refs_eq_zero w.roomy few).mp zero).2 mem
  refine wp_post (wp_iDeref_kept ?_ ?_ ?_ ?_) fun _ s' got => ⟨got.1, got.2.2⟩
  · rw [own]
    exact (h.used w few refs).1
  · rw [own]
    exact refs
  · rw [own]
    exact fun one => (h.live p mem).2 (h.last w.roomy few mem one)
  · rw [own]
    exact fun _ => rfl

/-- `_mount` behind its checks: with no file system on the device it fails, and what it has read is in the mount
table. -/
lemma Strolled.wp_mountAt (w : s₀.Walkable) (h : s₀.Strolled s (dino ::ₘ {sino})) (pass : s.Passes sino dino dev) :
    wp (mountAt dev sino dino)
      (fun r s' => (s₀.superblock dev).Invalid ∧ r = 0xffff ∧ SameRefs s₀ s' ∧
          s'.fsTab = Function.update s₀.syncedTab dev (s₀.superblock dev) ∨
        ¬ (s₀.superblock dev).Invalid ∧ r = 0)
      (fun _ => ¬ (s₀.superblock dev).Invalid) s := by
  have few : (dino ::ₘ {sino}).card ≤ 3 := by
    rw [Multiset.card_cons, Multiset.card_singleton]
    decide
  have memDir : dino ∈ dino ::ₘ ({sino} : Multiset Inoptr) := Multiset.mem_cons_self _ _
  have memSpec : sino ∈ dino ::ₘ ({sino} : Multiset Inoptr) := Multiset.mem_cons_of_mem (Multiset.mem_singleton_self _)
  have apart : sino ≠ dino := by
    intro e
    have mode := pass.special
    rw [e, pass.dir] at mode
    exact absurd mode (by decide)
  have refs : ∀ p ∈ dino ::ₘ ({sino} : Multiset Inoptr), (s.iTab p).cRefs ≠ 0 := fun p mem zero =>
    ((h.refs_eq_zero w.roomy few).mp zero).2 mem
  have unmounted : (s.fsTab dev).sMounted ≠ SMOUNTED := by
    rw [pass.unmounted]
    decide
  unfold mountAt
  rw [wp_bind]
  refine wp_mono (wp_sync_spares h.keeps.cached.good h.keeps.cached.released (fun i => h.used w few) unmounted) ?_
    fun _ => False.elim
  intro _ s₁ got
  obtain ⟨spares, fsTab₁, cleaned⟩ := got
  have block : s₁.superblock dev = s₀.superblock dev := by
    rw [superblock, spares.cell, h.cell_eq, superblock]
  have own : ∀ p ∈ dino ::ₘ ({sino} : Multiset Inoptr), s₁.iTab p = { s.iTab p with cDirty := false } := by
    intro p mem
    rw [cleaned.entry p, cleaned.clean p List.not_mem_nil (refs p mem)]
  have counts : SameRefs s s₁ := fun i => by rw [cleaned.entry i]
  rw [wp_bind]
  refine wp_mono (wp_fmount spares.good spares.released pass.inside) ?_ fun _ => False.elim
  intro r s₂ got
  rw [block] at got
  obtain ⟨bad, rfl, iTab₂, fsTab₂⟩ | ⟨ok, rfl⟩ := got
  · refine wp_mono ?_ (fun _ _ got => .inl ⟨bad, got⟩) fun _ => False.elim
    have carries : s₀.Carries s₂ (dino ::ₘ {sino}) := (h.carries.same counts).same fun i => by rw [iTab₂]
    rw [wp_ite, if_pos (by decide)]
    unfold mountFailed
    rw [wp_bind]
    show wp _ _ _ { s₂ with udata := { s₂.udata with uError := .ebusy } }
    have ownDir := (congrFun iTab₂ dino).trans (own dino memDir)
    have ownSpec := (congrFun iTab₂ sino).trans (own sino memSpec)
    rw [wp_bind]
    refine wp_post (h.wp_iDeref_cleaned w few memDir ownDir) fun _ s₃ got => ?_
    obtain ⟨still₃, iTab₃⟩ := got
    have carries₃ : s₀.Carries s₃ {sino} := by
      have dropped := carries.drop (p := dino) (c := { s₂.iTab dino with cRefs := (s₂.iTab dino).cRefs - 1 }) rfl
      exact dropped.same fun i => by rw [iTab₃]; rfl
    have ownSpec : s₃.iTab sino = { s.iTab sino with cDirty := false } := by
      rw [iTab₃, iTab_setInode_of_ne apart]
      exact ownSpec
    rw [wp_bind]
    refine wp_post (h.wp_iDeref_cleaned w few memSpec ownSpec) fun _ s₄ got => ?_
    obtain ⟨still₄, iTab₄⟩ := got
    have carries₄ : s₀.Carries s₄ 0 := by
      have dropped := Carries.drop (l := 0) (p := sino)
        (c := { s₃.iTab sino with cRefs := (s₃.iTab sino).cRefs - 1 }) carries₃ rfl
      exact dropped.same fun i => by rw [iTab₄]
    refine ⟨rfl, fun i => ?_, ?_⟩
    · rw [carries₄ i, Multiset.count_zero, Nat.cast_zero, add_zero]
    · rw [still₄.fsTab, still₃.fsTab]
      show s₂.fsTab = _
      rw [fsTab₂, fsTab₁, h.still.syncedTab]
  · rw [wp_ite, if_neg (not_not.mpr rfl), wp_bind]
    refine wp_mono wp_true (fun _ s₃ _ => ?_) fun _ _ => ok
    rw [wp_bind]
    exact wp_mono wp_true (fun _ _ _ => .inr ⟨ok, rfl⟩) fun _ _ => ok

/-! ## Mounting -/

/-- `_mount` gets to `fmount` for device `dev`: `n_open` finds a device and a directory under the names, and the
checks let them pass. -/
def Reaches (s : Kernel) (spec dir : CStr) (dev : Nat) : Prop :=
  super s = true ∧ ∃ s₁ s₂ sino dino p q, nOpen spec false s = .ok ((some sino, p), s₁) ∧
    nOpen dir false s₁ = .ok ((some dino, q), s₂) ∧ s₂.Passes sino dino dev

/-- `fmount` has left what it has read in the mount table. -/
structure Misread (s s' : Kernel) (spec dir : CStr) (dev : Nat) : Prop where
  reaches : s.Reaches spec dir dev
  invalid : (s.superblock dev).Invalid
  fsTab : s'.fsTab = Function.update s.syncedTab dev (s.superblock dev)
  refs : SameRefs s s'

/-- The checks of `_mount`. -/
lemma Strolled.wp_mountChecks (w : s₀.Walkable) (h : s₀.Strolled s (dino ::ₘ {sino}))
    (reaches : ∀ dev, s.Passes sino dino dev → s₀.Reaches spec dir dev) :
    wp (do
        let s ← get
        let dev := (s.iTab sino).cNode.addr 0
        if (s.iTab sino).getmode ≠ F_BDEV then mountFailed .enotblk sino dino
        else if (s.iTab dino).getmode ≠ F_DIR then mountFailed .enotdir sino dino
        else if ← noDevice dev then mountFailed .enxio sino dino
        else if (s.fsTab dev.toNat).sMounted ≠ 0 ∨ (s.iTab dino).cRefs ≠ 1 ∨ (s.iTab dino).cNum = ROOTINODE then
          mountFailed .ebusy sino dino
        else mountAt dev.toNat sino dino)
      (fun r s' => r = 0xffff → s₀.SameMounts s' ∨ ∃ dev, s₀.Misread s' spec dir dev) (fun _ => True) s := by
  have failed : ∀ e, wp (mountFailed e sino dino)
      (fun r s' => r = 0xffff → s₀.SameMounts s' ∨ ∃ dev, s₀.Misread s' spec dir dev) (fun _ => True) s := fun e =>
    wp_mono (h.wp_mountFailed w) (fun _ _ got _ => .inl got.2) fun _ => False.elim
  rw [wp_bind, wp_get]
  show wp (if _ then _ else _) _ _ _
  rw [wp_ite]
  split
  · exact failed _
  · next special =>
    rw [wp_ite]
    split
    · exact failed _
    · next isDir =>
      rw [wp_bind]
      refine wp_mono (wp_noDevice (s := s)) ?_ fun _ _ => trivial
      intro r s₁ got
      obtain ⟨e, found⟩ := got
      subst e
      rw [wp_ite]
      split
      · exact failed _
      · next has =>
        rw [wp_ite]
        split
        · exact failed _
        · next free =>
          obtain ⟨unmounted, refs, num⟩ : _ ∧ _ ∧ _ := by simpa only [not_or, not_not] using free
          have pass : s₁.Passes sino dino ((s₁.iTab sino).cNode.addr 0).toNat :=
            ⟨not_not.mp special, not_not.mp isDir, rfl, found (eq_false_of_ne_true has), unmounted, refs, num⟩
          refine wp_mono (h.wp_mountAt w pass) (fun r s' got failed => ?_) fun _ _ => trivial
          obtain ⟨bad, -, counts, fsTab⟩ | ⟨-, zero⟩ := got
          · exact .inr ⟨_, reaches _ pass, bad, fsTab, counts⟩
          · rw [zero] at failed
            exact absurd failed (by decide)

/-- A `_mount` that fails has changed nothing, or `fmount` has found no file system. -/
lemma Walkable.wp_mount (w : s.Walkable) :
    wp (_mount spec dir rwflag) (fun r s' => r = 0xffff → s.SameMounts s' ∨ ∃ dev, s.Misread s' spec dir dev)
      (fun _ => True) s := by
  have same : s.SameMounts s := ⟨rfl, fun _ => rfl⟩
  unfold _mount
  rw [wp_bind, wp_get, wp_ite]
  split
  · exact fun _ => .inl ⟨rfl, fun _ => rfl⟩
  · next su =>
    have su := not_not.mp su
    rw [wp_bind]
    refine wp_post (Strolled.wp_nOpen (b := 0) w (Nat.zero_le 1) (.start w)).run fun r s₁ got => ?_
    obtain ⟨⟨h₁, alone⟩, run₁⟩ := got
    obtain ⟨r, p⟩ := r
    obtain rfl : p = none := alone rfl
    cases r with
    | none => exact fun _ => .inl (Strolled.sameMounts h₁)
    | some sino =>
      have h₁ : s.Strolled s₁ {sino} := h₁
      show wp (nOpen dir false >>= fun _ => _) _ _ _
      rw [wp_bind]
      refine wp_post (h₁.wp_nOpen w (Nat.le_of_eq (Multiset.card_singleton sino))).run fun r s₂ got => ?_
      obtain ⟨⟨h₂, alone⟩, run₂⟩ := got
      obtain ⟨r, q⟩ := r
      obtain rfl : q = none := alone rfl
      cases r with
      | none =>
        have h₂ : s.Strolled s₂ (sino ::ₘ 0) := h₂
        show wp (iDeref sino >>= fun _ => _) _ _ _
        rw [wp_bind]
        refine wp_mono (h₂.wp_iDeref w (Nat.zero_le 2)) (fun _ s₃ h₃ => ?_) fun _ => False.elim
        exact fun _ => .inl h₃.sameMounts
      | some dino =>
        have h₂ : s.Strolled s₂ (dino ::ₘ {sino}) := h₂
        refine h₂.wp_mountChecks w fun dev pass => ?_
        exact ⟨su, s₁, s₂, sino, dino, none, none, run₁, run₂, pass⟩

/-- What `n_open` has found when `_mount` gets to `fmount`. -/
lemma Reaches.found (w : s.Walkable) (reaches : s.Reaches spec dir dev) :
    super s = true ∧ ∃ s₁ s₂ sino dino, nOpen spec false s = .ok ((some sino, none), s₁) ∧
      nOpen dir false s₁ = .ok ((some dino, none), s₂) ∧ s.Strolled s₂ (dino ::ₘ {sino}) ∧
        s₂.Passes sino dino dev := by
  obtain ⟨su, s₁, s₂, sino, dino, p, q, run₁, run₂, pass⟩ := reaches
  obtain ⟨h₁, alone⟩ := (Strolled.wp_nOpen (b := 0) w (Nat.zero_le 1) (.start w)).ok run₁
  obtain rfl : p = none := alone rfl
  have h₁ : s.Strolled s₁ {sino} := h₁
  obtain ⟨h₂, alone⟩ := (h₁.wp_nOpen w (Nat.le_of_eq (Multiset.card_singleton sino))).ok run₂
  obtain rfl : q = none := alone rfl
  exact ⟨su, s₁, s₂, sino, dino, run₁, run₂, h₂, pass⟩

/-- A `_mount` that gets to `fmount` for a device without a file system fails. -/
lemma Walkable.mount_misreads (w : s.Walkable) (reaches : s.Reaches spec dir dev)
    (bad : (s.superblock dev).Invalid) :
    ∃ s', _mount spec dir rwflag s = .ok (0xffff, s') ∧ s.Misread s' spec dir dev := by
  obtain ⟨su, s₁, s₂, sino, dino, run₁, run₂, h₂, pass⟩ := reaches.found w
  have run : wp (_mount spec dir rwflag) (fun r s' => r = 0xffff ∧ s.Misread s' spec dir dev) (fun _ => False) s := by
    unfold _mount
    rw [wp_bind, wp_get, wp_ite, if_neg (not_not.mpr su), wp_bind]
    refine wp_of_ok run₁ ?_
    show wp (nOpen dir false >>= fun _ => _) _ _ _
    rw [wp_bind]
    refine wp_of_ok run₂ ?_
    show wp (get >>= fun _ => _) _ _ _
    rw [wp_bind, wp_get]
    show wp (if _ then _ else _) _ _ _
    rw [wp_ite, if_neg (not_not.mpr pass.special), wp_ite, if_neg (not_not.mpr pass.dir), wp_bind]
    refine wp_post (wp_noDevice_found (pass.addr ▸ pass.inside)) fun r s₃ got => ?_
    obtain ⟨rfl, rfl⟩ := got
    rw [wp_ite, if_neg Bool.false_ne_true, wp_ite, pass.addr, if_neg]
    · refine wp_mono (h₂.wp_mountAt w pass) (fun r s' got => ?_) fun _ ok => ok bad
      obtain ⟨-, e, counts, fsTab⟩ | ⟨ok, -⟩ := got
      · exact ⟨e, reaches, bad, fsTab, counts⟩
      · exact absurd bad ok
    · simp only [not_or, not_not]
      exact ⟨pass.unmounted, pass.refs, pass.num⟩
  obtain ⟨r, s', e, rfl, misread⟩ := run.returns
  exact ⟨s', e, misread⟩

/-- What `fmount` leaves behind is what was there before. -/
lemma update_syncedTab_eq {fs : Filesys} (unmounted : (s.fsTab dev).sMounted = 0) :
    Function.update s.syncedTab dev fs = s.fsTab ↔
      fs = s.fsTab dev ∧ ∀ j < NDEVS, (s.fsTab j).sMounted = SMOUNTED → (s.fsTab j).sFmod = 0 := by
  constructor
  · intro e
    refine ⟨?_, fun j hj mounted => ?_⟩
    · rw [← congrFun e dev, Function.update_self]
    · have ne : j ≠ dev := by
        intro same
        rw [same, unmounted] at mounted
        exact absurd mounted (by decide)
      have own := congrFun e j
      rw [Function.update_of_ne ne, syncedTab, if_pos hj, Filesys.synced] at own
      by_contra fmod
      rw [if_pos ⟨mounted, fmod⟩] at own
      exact fmod (congrArg Filesys.sFmod own).symm
  · rintro ⟨rfl, idle⟩
    have same : s.syncedTab = s.fsTab := by
      funext j
      rw [syncedTab, Filesys.synced]
      split
      · next hj => exact if_neg fun pending => pending.2 (idle j hj pending.1)
      · rfl
    rw [same, Function.update_eq_self]

end Kernel

/-- A `_mount` that fails leaves the mount table and the references as they were, unless `fmount` has found no file
system on the device: then only if what it has read is what was in the table, and `_sync` had nothing to write. -/
theorem mount_undone {s : Kernel} {spec dir : CStr} {rwflag : Word} (w : s.Walkable) :
    (∀ s', _mount spec dir rwflag s = .ok (0xffff, s') → s.SameMounts s') ↔
      ∀ dev, s.Reaches spec dir dev → (s.superblock dev).Invalid →
        s.superblock dev = s.fsTab dev ∧
          ∀ j < NDEVS, (s.fsTab j).sMounted = SMOUNTED → (s.fsTab j).sFmod = 0 := by
  have unmounted : ∀ dev, s.Reaches spec dir dev → (s.fsTab dev).sMounted = 0 := by
    intro dev reaches
    obtain ⟨-, s₁, s₂, sino, dino, -, -, h, pass⟩ := reaches.found w
    rw [← h.still.fsTab]
    exact pass.unmounted
  constructor
  · intro undone dev reaches bad
    obtain ⟨s', run, misread⟩ := w.mount_misreads reaches bad
    rw [← Kernel.update_syncedTab_eq (unmounted dev reaches), ← misread.fsTab]
    exact (undone s' run).fsTab
  · intro harmless s' run
    obtain same | ⟨dev, misread⟩ := w.wp_mount.ok run rfl
    · exact same
    · refine ⟨?_, misread.refs⟩
      rw [misread.fsTab, Kernel.update_syncedTab_eq (unmounted dev misread.reaches)]
      exact harmless dev misread.reaches misread.invalid

/-! ## A device with anything on it -/

/-- The root of device 0 names an empty directory `d`, and `b`, which is device 2. On that there is a first word, but
no file system. -/
def oddDisks (dev : Nat) (n : Word) : Block :=
  if dev = 0 then
    if n = 2 then
      ((Block.zero.setDinode 1 (dirInode 1)).setDinode 2 (dirInode 0)).setDinode 3
        { Dinode.zero with iMode := F_BDEV, iNlink := 1, iAddr := fun _ => 2 }
    else if n = 3 then
      .ofBytes fun i =>
        if i < 16 then (Direct.ofName 2 fun k => [0x64].getD k 0).byte i
        else if i < 32 then (Direct.ofName 3 fun k => [0x62].getD k 0).byte (i - 16)
        else 0
    else Block.zero
  else if dev = 2 then Block.zero.setWord 0 7
  else Block.zero

/-- Device 0 is mounted as the root. -/
def oddDevice : Kernel :=
  { Kernel.inited oddDisks with
    iTab := fun i => if i = 0 then ⟨CMAGIC, 0, ROOTINODE, dirInode 1, 2, false⟩ else .zero
    fsTab := fun dev =>
      { (Kernel.inited oddDisks).fsTab dev with
        sMounted := if dev = 0 then SMOUNTED else 0
        sIsize := if dev = 0 then 3 else 0
        sFsize := if dev = 0 then 20 else 0 } }

/-- The name `/b`. -/
def pathB : CStr := .ofList [SLASH, 0x62] (by decide)
/-- The name `/d`. -/
def pathD : CStr := .ofList [SLASH, 0x64] (by decide)

/-- What is on the disks. -/
lemma content_oddDevice {n : Nat × Word} : oddDevice.bufs.view.content n = oddDisks n.1 n.2 :=
  congrFun (congrArg View.content Bufs.good_inited.2) n

/-- There is one inode in the table. -/
lemma iTab_oddDevice (i : Inoptr) : i = 0 ∨ oddDevice.iTab i = .zero := by
  by_cases zero : i = 0
  · exact .inl zero
  · exact .inr (if_neg zero)

/-- Its name is the root. -/
lemma names_oddDevice {i : Inoptr} {m : Nat × Word} (names : (oddDevice.iTab i).Names m) : i = 0 ∧ m = (0, 1) := by
  obtain e | e := iTab_oddDevice i
  · rw [e] at names
    exact ⟨e, Prod.ext names.1.symm names.2.1.symm⟩
  · rw [e] at names
    exact absurd rfl names.num_ne

/-- The cache of the odd device. -/
lemma cached_oddDevice : oddDevice.Cached := by
  have root : oddDevice.HasInode (0, 1) := ⟨by decide, by decide⟩
  refine ⟨Bufs.good_inited.1, congrFun (congrArg View.held Bufs.good_inited.2), ⟨?_, ?_⟩, fun i num => ?_, fun i magic => ?_⟩
  · intro i j m hi hj
    exact (names_oddDevice (Kernel.icache_name.mp hi)).1.trans (names_oddDevice (Kernel.icache_name.mp hj)).1.symm
  · intro i m hi _ _
    show (oddDevice.iTab i).cNode = _
    obtain ⟨ei, e⟩ := names_oddDevice (Kernel.icache_name.mp hi)
    rw [e, ei, Kernel.icache_back root, Kernel.diskInode, content_oddDevice]
    show dirInode 1 = Dinode.ofBlock (((Block.zero.setDinode 1 (dirInode 1)).setDinode 2 (dirInode 0)).setDinode 3 _) 1
    rw [Dinode.ofBlock_setDinode_of_ne (by decide) (by decide), Dinode.ofBlock_setDinode_of_ne (by decide) (by decide),
      Dinode.ofBlock_setDinode (by decide)]
  · have own : (oddDevice.iTab i).Names (oddDevice.node i) := ⟨rfl, rfl, num⟩
    show oddDevice.HasInode (oddDevice.node i)
    rw [(names_oddDevice own).2]
    exact root
  · obtain e | e := iTab_oddDevice i
    · rw [e]
      decide
    · rw [e] at magic
      exact absurd magic (by decide)

/-- The odd device can be walked. -/
lemma walkable_oddDevice : oddDevice.Walkable := by
  have entries : ∀ i, ((oddDevice.iTab i).cRefs = 0 → (oddDevice.iTab i).cDirty = false) ∧
      ((oddDevice.iTab i).cNum ≠ 0 → (oddDevice.iTab i).cMagic = CMAGIC) ∧
      ((oddDevice.iTab i).cRefs ≠ 0 → (oddDevice.iTab i).cNum ≠ 0) ∧ (oddDevice.iTab i).cDev = 0 ∧
      (oddDevice.iTab i).cRefs.toNat + 3 < 256 := by
    intro i
    obtain e | e := iTab_oddDevice i
    · rw [e]
      decide
    · rw [e]
      decide
  have populated : ∀ dev, oddDevice.Populated dev → dev = 0 := by
    rintro dev (mounted | ⟨i, -, e⟩)
    · by_contra ne
      exact absurd ((if_neg ne).symm.trans mounted) (by decide)
    · rw [← e]
      exact (entries i).2.2.2.1
  refine
    { cached := cached_oddDevice
      unused := fun i => (entries i).1
      magic := fun i => (entries i).2.1
      num := fun i => (entries i).2.2.1
      roomy := fun i => (entries i).2.2.2.2
      root := by decide
      cwd := by decide
      mounts := fun dev _ i raw => ?_
      isize := fun dev pop => ?_
      names := fun m pop has ne dir k lt e mem named => ?_ }
  · have none : inoOfRaw (oddDevice.fsTab dev).sMntpt = none := rfl
    exact absurd (none.symm.trans raw) (Option.some_ne_none i).symm
  · rw [populated dev pop]
    decide
  · obtain ⟨dev, num⟩ := m
    obtain rfl : dev = 0 := populated dev pop
    have small : num.toNat < 8 := by
      have blk := has.2
      rw [BitVec.lt_def, inodeBlk_toNat] at blk
      have three : num.toNat / 8 + 2 < 3 := blk
      omega
    have clean : ∀ i, oddDevice.icache.name i = some (0, num) → ¬ oddDevice.icache.dirty i := by
      intro i hi dirty
      rw [(names_oddDevice (Kernel.icache_name.mp hi)).1] at dirty
      exact Bool.false_ne_true dirty
    have cells : oddDevice.cell 0 = oddDisks 0 := by
      funext n
      exact content_oddDevice
    have blk : inodeBlk num = 2 := by
      apply BitVec.eq_of_toNat_eq
      rw [inodeBlk_toNat, Nat.div_eq_of_lt small]
      rfl
    have node : oddDevice.icache.content (0, num) = .ofBlock (oddDisks 0 2) num.toNat := by
      rw [cached_oddDevice.coherent.content_eq_back clean, Kernel.icache_back has, Kernel.diskInode, content_oddDevice,
        blk, inodeIdx_eq, Nat.mod_eq_of_lt small]
    have dirs : ∀ i < 8, (Dinode.ofBlock (oddDisks 0 2) i).iMode &&& F_MASK = F_DIR →
        (Dinode.ofBlock (oddDisks 0 2) i).nblocks = 0 ∨ i = 1 := by
      decide +kernel
    have one : (Dinode.ofBlock (oddDisks 0 2) 1).nblocks = 1 := by decide +kernel
    have all : ∀ e ∈ (oddDisks 0
        (orNull ((Dinode.ofBlock (oddDisks 0 2) 1).stored (oddDisks 0) (BitVec.ofNat 16 0)))).entries,
        e.stem ≠ [] → e.dIno ≠ 0 := by
      decide +kernel
    rw [node] at dir lt mem
    rw [cells] at mem
    obtain empty | first := dirs num.toNat small dir
    · rw [empty] at lt
      exact absurd lt (Nat.not_lt_zero k)
    · rw [first, one] at lt
      rw [first, Nat.lt_one_iff.mp lt] at mem
      exact all e mem named

/-- The mount fails, and the unmount that follows is stuck. -/
lemma mount_oddDevice :
    wp (_mount pathB pathD 0)
      (fun r s' => r = 0xffff ∧ (s'.fsTab 2).sMounted = 7 ∧
        wp (_umount pathB) (fun _ _ => False) (fun e => e = .undefined) s')
      (fun _ => False) oddDevice := by
  decide +kernel

/-- A mount of device 2 fails, and leaves an entry in the mount table for which `_umount` follows a null pointer. -/
theorem not_mount_undone : oddDevice.Walkable ∧ (oddDevice.fsTab 2).sMounted = 0 ∧
    ∃ s', _mount pathB pathD 0 oddDevice = .ok (0xffff, s') ∧ ¬ oddDevice.SameMounts s' ∧ (s'.fsTab 2).sMounted = 7 ∧
      ∀ r s'', _umount pathB s' ≠ .ok (r, s'') := by
  obtain ⟨r, s', run, rfl, mounted, stops⟩ := mount_oddDevice.returns
  refine ⟨walkable_oddDevice, rfl, s', run, fun same => ?_, mounted, fun r s'' run' => stops.ok run'⟩
  rw [same.fsTab] at mounted
  exact absurd mounted (by decide)

/-- With the device in the place of the directory as well, the checks of `_mount` stop it. -/
theorem mount_undone_oddDevice : oddDevice.Walkable ∧
    ((∀ s', _mount pathB pathB 0 oddDevice = .ok (0xffff, s') → oddDevice.SameMounts s') ↔
      ∀ dev, oddDevice.Reaches pathB pathB dev → (oddDevice.superblock dev).Invalid →
        oddDevice.superblock dev = oddDevice.fsTab dev ∧
          ∀ j < NDEVS, (oddDevice.fsTab j).sMounted = SMOUNTED → (oddDevice.fsTab j).sFmod = 0) :=
  ⟨walkable_oddDevice, mount_undone walkable_oddDevice⟩

end Uzi
