import Uzi.Fs.RefRuns
import Uzi.Fs.RootDirectory
import Uzi.Fs.Volumes

/-!
# A new file system boots

`mountRoot` on a disk that `mkfs` has made: the root directory is found when the kernel takes its number for one of an
inode, and then the disk is in order, with nothing on it but the root directory and its two entries.
-/

namespace Uzi
open Exec

variable {s s' : Kernel} {dev : Nat} {fsize isize : Word} {cell : Word → Block} {i : Inoptr}

/-! ## The disk in order -/

section Order

variable (made : Formatted s dev fsize isize) (node : (s.iTab i).cNode = Mkfs.rootNode isize)
include made node

/-- The first two entries of the root directory. -/
lemma Formatted.entry (three : 3 ≤ isize.toNat) :
    s.entry dev i 0 = ([DOT], ROOTINODE) ∧ s.entry dev i 1 = ([DOT, DOT], ROOTINODE) := by
  rw [Kernel.entry, Kernel.entry, made.slot node three (by decide), made.slot node three (by decide)]
  exact ⟨by decide, by decide⟩

/-- The root directory is in order. -/
lemma Formatted.tidy (three : 3 ≤ isize.toNat) : s.Tidy dev i := by
  have size : (s.iTab i).cNode.iSize = ⟨0, 32⟩ := by
    rw [node, Mkfs.iSize_rootNode]
  have nslots := Kernel.nslots_root node
  obtain ⟨one, two⟩ := made.entry node three
  refine ⟨?_, fun bn lt => ?_, fun j le lt => ?_, ?_⟩
  · rw [size]
    rfl
  · rw [size] at lt
    have first : bn = 0 := BitVec.eq_of_toNat_eq (by
      change 512 * bn.toNat < 32 at lt
      show bn.toNat = 0
      omega)
    rw [Kernel.fileBlock_root node, if_pos first]
    exact (Mkfs.ne_isize (Nat.lt_of_lt_of_le (by decide) three)).symm
  · rw [made.slot node three lt]
    split
    · next here => exact Mkfs.direct_dirbuf (nslots ▸ le) here
    · rfl
  · -- of the two names neither is the other one
    rw [nslots]
    intro j hj k hk same
    obtain rfl | rfl : j = 0 ∨ j = 1 := by omega
    all_goals obtain rfl | rfl : k = 0 ∨ k = 1 := by omega
    all_goals simp [one, two] at same ⊢

/-- It has the entries `.` and `..`. -/
lemma Formatted.names (three : 3 ≤ isize.toNat) (c : List Byte) :
    s.names dev i c = if c = [DOT] ∨ c = [DOT, DOT] then some ROOTINODE else none := by
  have nslots := Kernel.nslots_root node
  have distinct := (made.tidy node three).distinct
  obtain ⟨one, two⟩ := made.entry node three
  split
  · next e =>
    refine (Dictionary.names_eq_some distinct).mpr ⟨?_, ?_⟩
    · rcases e with rfl | rfl <;> decide
    · rcases e with rfl | rfl
      · exact ⟨0, nslots ▸ Nat.two_pos, one⟩
      · exact ⟨1, nslots ▸ Nat.one_lt_two, two⟩
  · next ne =>
    refine (Dictionary.names_eq_none distinct).mpr (.inr fun j lt e => ?_)
    obtain rfl | rfl : j = 0 ∨ j = 1 := by omega
    · exact ne (.inl (e.symm.trans (congrArg Prod.fst one)))
    · exact ne (.inr (e.symm.trans (congrArg Prod.fst two)))

end Order

/-! ## Mounting -/

/-- A kernel that has just been started: the buffers are good and none is in use, and the tables are empty. -/
structure Kernel.Started (s : Kernel) extends s.Cleared where
  good : s.bufs.Good
  idle : ∀ bp, s.bufs.view.held bp = none
  unnamed : ∀ i, (s.iTab i).cNum = 0
  pos : ∀ j, (s.ofTab j).oPtr.Norm

/-- `fmount` of a root that is a file system. -/
lemma Kernel.wp_fmount_root (good : s.bufs.Good) (idle : ∀ bp, s.bufs.view.held bp = none) (hdev : dev < NDEVS)
    (valid : ¬ (s.superblock dev).Invalid) :
    wp (fmount dev none)
      (fun r s' => r = 0 ∧ ∃ b, b.Good ∧ b.view = s.bufs.view ∧ s' = { s with
        bufs := b
        fsTab := Function.update s.fsTab dev { s.superblock dev with sMntpt := 0 } })
      (fun _ => False) s := by
  unfold fmount
  rw [wp_bind]
  refine wp_post (wp_dOpen hdev) fun r s₁ got => ?_
  obtain ⟨rfl, rfl⟩ := got
  rw [wp_ite, if_neg (not_not.mpr rfl), wp_bind]
  refine wp_mono (wp_breadPtr good hdev) ?_ fun _ stop => View.not_stops_of_idle idle (by decide) stop
  intro bp s₂ got
  obtain ⟨b, e, g, free, hold⟩ := got
  subst e
  have held : b.view.held bp = some (dev, 1) := by rw [hold, View.held_hold]
  have data : (b.bufpool bp).bfData = s₁.cell dev 1 := by
    rw [g.data held, hold, View.content_hold]
    rfl
  rw [wp_bind, wp_get, wp_bind]
  show wp _ _ _ { s₁ with
    bufs := b
    fsTab := Function.update s₁.fsTab dev (.ofBlock (b.bufpool bp).bfData) }
  rw [data, wp_bind]
  refine wp_post (wp_brelse_hold g free hold) fun _ s₃ got => ?_
  obtain ⟨b', e, g', v⟩ := got
  subst e
  rw [wp_bind, wp_get]
  have own : Function.update s₁.fsTab dev (s₁.superblock dev) dev = s₁.superblock dev := Function.update_self ..
  show wp (if (Function.update s₁.fsTab dev (s₁.superblock dev) dev).sMounted ≠ SMOUNTED ∨
    (Function.update s₁.fsTab dev (s₁.superblock dev) dev).sFsize ≤
      (Function.update s₁.fsTab dev (s₁.superblock dev) dev).sIsize then _ else _) _ _ _
  rw [own, wp_ite]
  split
  · next bad => exact absurd bad valid
  · refine ⟨rfl, b', g', v, ?_⟩
    simp only [Function.update_self, Function.update_idem]
    rfl

/-- The kernel with the root inode in entry `i`, which has `refs` references, the buffers being `b`. -/
noncomputable def Kernel.rootLoaded (s : Kernel) (dev : Nat) (b : Bufs) (k i : Inoptr) (refs : Byte) : Kernel :=
  { s with
    bufs := b
    nexti := k
    iTab := Function.update s.iTab i
      ⟨CMAGIC, dev, ROOTINODE, s.diskInode (dev, ROOTINODE), refs, (s.iTab i).cDirty⟩ }

/-- The in-core inode of the root. -/
lemma Kernel.iTab_rootLoaded {b : Bufs} {k : Inoptr} {refs : Byte} : (s.rootLoaded dev b k i refs).iTab i =
    ⟨CMAGIC, dev, ROOTINODE, s.diskInode (dev, ROOTINODE), refs, (s.iTab i).cDirty⟩ := Function.update_self ..

/-- `i_open` of the root of a kernel whose inode table is empty. -/
lemma Kernel.wp_iOpen_root (good : s.bufs.Good) (idle : ∀ bp, s.bufs.view.held bp = none) (hdev : dev < NDEVS)
    (refs : ∀ i, (s.iTab i).cRefs = 0) (unnamed : ∀ i, (s.iTab i).cNum = 0)
    (there : 1 < (s.fsTab dev).inodeEnd s.target →
      (s.diskInode (dev, ROOTINODE)).iNlink ≠ 0 ∧ (s.diskInode (dev, ROOTINODE)).iMode &&& F_MASK ≠ 0) :
    wp (iOpen dev ROOTINODE)
      (fun r s' => (r = none ∧ s' = s ∧ (s.fsTab dev).inodeEnd s.target ≤ 1) ∨
        (1 < (s.fsTab dev).inodeEnd s.target ∧ ∃ i b k, r = some i ∧ b.Good ∧ b.view = s.bufs.view ∧
          s' = s.rootLoaded dev b k i 1))
      (fun _ => False) s := by
  unfold iOpen iOpenAt
  rw [wp_ite, if_neg (not_not.mpr hdev), wp_ite, if_neg (by decide), wp_bind, wp_get, wp_ite]
  split
  · next out => exact .inl ⟨rfl, rfl, out.resolve_left (by decide)⟩
  · next inside =>
    have inside := Nat.lt_of_not_le (not_or.mp inside).2
    refine wp_post (Q := fun r s' => ∃ i b k, r = some i ∧ b.Good ∧ b.view = s.bufs.view ∧
      s' = s.rootLoaded dev b k i 1) ?_ fun r s' got => .inr ⟨inside, got⟩
    -- no entry is one of the root, and all of them can be taken over
    rw [wp_bind]
    refine wp_post (wp_iSearch (by decide)) fun r s₁ ⟨⟨k, e⟩, found⟩ => ?_
    subst e
    obtain ⟨b, r⟩ := r
    cases b with
    | true =>
      obtain ⟨i, -, names⟩ := found
      exact absurd (unnamed i) names.num_ne
    | false =>
      obtain ⟨-, slot, full⟩ := found.whole
      cases r with
      | none => exact absurd (refs 0) (full rfl 0)
      | some i =>
        show wp (bind _ _) _ _ _
        rw [wp_bind]
        refine wp_mono (wp_breadPtr good hdev) ?_ fun _ stop => View.not_stops_of_idle idle (by decide) stop
        intro bp s₂ got
        obtain ⟨b₁, e, g₁, free, hold⟩ := got
        subst e
        have held : b₁.view.held bp = some (dev, inodeBlk ROOTINODE) := by rw [hold, View.held_hold]
        have data : Dinode.ofBlock (b₁.bufpool bp).bfData (inodeIdx ROOTINODE) = s.diskInode (dev, ROOTINODE) := by
          rw [g₁.data held, hold, View.content_hold]
          rfl
        rw [wp_bind, wp_get, wp_bind, wp_modifyInode, wp_bind]
        refine wp_post (wp_brelse_hold g₁ free hold) fun _ s₃ ⟨b₂, e, g₂, v⟩ => ?_
        subst e
        rw [wp_bind, wp_modifyInode]
        generalize eq : Kernel.setInode _ _ _ = s₃
        have loaded : s₃ = s.rootLoaded dev b₂ k i 0 := by
          rw [← eq, Kernel.rootLoaded, ← data, ← refs i]
          simp only [Kernel.setInode, Function.update_self, Function.update_idem, Kernel.buf]
        unfold iOpenFound
        rw [wp_bind, wp_get, if_neg Bool.false_ne_true, loaded, Kernel.iTab_rootLoaded,
          if_neg (not_not.mpr (there inside)), wp_bind, wp_modifyInode]
        refine ⟨i, b₂, k, rfl, g₂, v, ?_⟩
        simp only [Kernel.rootLoaded, Kernel.setInode, Function.update_self, Function.update_idem]
        rfl

/-! ## The boot -/

/-- On which devices of `mkfs` the kernel takes the number of the root for one of an inode. With an `unsigned` of 16
bits the number of inodes may come out as 0. -/
def Mkfs.Rooted (t : Target) (isize : Word) : Prop :=
  match t with
  | .nes => (isize.toNat - 2) % 2 ^ 13 ≠ 0
  | .fsutil => isize ≠ 2

/-- The root is inode 1 of at least one block of inodes. -/
lemma Mkfs.Rooted.three {t : Target} (h : Mkfs.Rooted t isize) (two : 2 ≤ isize.toNat) : 3 ≤ isize.toNat := by
  cases t with
  | nes =>
    have h : (isize.toNat - 2) % 2 ^ 13 ≠ 0 := h
    omega
  | fsutil =>
    have ne : isize.toNat ≠ 2 := BitVec.toNat_ne.mp h
    omega

/-- An inode 1 is counted exactly if the sizes are right. -/
lemma Mkfs.rooted_iff {t : Target} {fs : Filesys} (size : fs.sIsize = isize) (two : 2 ≤ isize.toNat) :
    1 < fs.inodeEnd t ↔ Mkfs.Rooted t isize := by
  have few := isize.isLt
  cases t with
  | nes =>
    show 1 < ((fs.sIsize - 2) * 8).toNat ↔ (isize.toNat - 2) % 2 ^ 13 ≠ 0
    have sub : (isize - 2).toNat = isize.toNat - 2 := BitVec.toNat_sub_of_le two
    rw [size, BitVec.toNat_mul, sub]
    show 1 < (isize.toNat - 2) * 8 % 2 ^ 16 ↔ _
    omega
  | fsutil =>
    show 1 < (((fs.sIsize.toNat : Int) - 2) * 8 % 2 ^ 32).toNat ↔ isize ≠ 2
    have ne : isize ≠ 2 ↔ isize.toNat ≠ 2 := BitVec.toNat_ne
    rw [size, ne]
    omega

/-- What the kernel has of a new disk: its root directory is the root and the current directory, with two references,
and is the only file there is. All blocks behind it are free. -/
structure Kernel.HasRoot (s : Kernel) (dev : Nat) (fsize isize : Word) : Prop where
  counted : s.RefsCounted
  organised : s.Organised dev {s.root} {s.root} []
  cwd : s.udata.uCwd = s.root
  refs : (s.iTab s.root).cRefs = 2
  names : ∀ c, s.names dev s.root c = if c = [DOT] ∨ c = [DOT, DOT] then some ROOTINODE else none
  list : FreeList (s.fsTab dev) (s.cell dev) (Mkfs.behind isize (fsize.toNat - 1 - isize.toNat))

/-- `fmount` takes the disk for a file system. -/
lemma Kernel.valid_mkfs (accepts : Mkfs.Accepts fsize isize) (cells : ∀ n, s.cell dev n = mkfs fsize isize n) :
    ¬ (s.superblock dev).Invalid ∧ (s.superblock dev).sIsize = isize := by
  have made : Formatted { s with fsTab := fun _ => s.superblock dev } dev fsize isize :=
    ⟨cells, (s.superblock dev).sMntpt, by rw [← cells 1]; rfl⟩
  obtain ⟨list, isz, fsz⟩ := made.freeList accepts
  have isz : (s.superblock dev).sIsize = isize := isz
  have fsz : (s.superblock dev).sFsize = fsize := fsz
  refine ⟨?_, isz⟩
  rintro (unmounted | small)
  · exact unmounted list.mounted
  · rw [isz, fsz] at small
    exact absurd small (BitVec.not_le.mpr accepts.2.2)

/-- The root inode that `i_open` reads. -/
lemma Kernel.diskInode_root (cells : ∀ n, s.cell dev n = mkfs fsize isize n) (three : 3 ≤ isize.toNat) :
    s.diskInode (dev, ROOTINODE) = Mkfs.rootNode isize := by
  have block : s.bufs.view.content (dev, 2) = Mkfs.inodes isize := (cells 2).trans (Mkfs.mkfs_inodes fsize three)
  have place : inodeBlk ROOTINODE = 2 ∧ inodeIdx ROOTINODE = 1 := by decide
  rw [Kernel.diskInode, place.1, place.2, block]
  rfl

/-- The disk is in order once the root inode is in the table. -/
lemma Formatted.hasRoot (made : Formatted s dev fsize isize) (accepts : Mkfs.Accepts fsize isize)
    (three : 3 ≤ isize.toNat) (counted : s.RefsCounted) (good : s.bufs.Good) (idle : ∀ bp, s.bufs.view.held bp = none)
    (pos : ∀ j, (s.ofTab j).oPtr.Norm) {c : Bool}
    (root : s.iTab s.root = ⟨CMAGIC, dev, ROOTINODE, Mkfs.rootNode isize, 2, c⟩) (cwd : s.udata.uCwd = s.root) :
    s.HasRoot dev fsize isize := by
  have node : (s.iTab s.root).cNode = Mkfs.rootNode isize := congrArg Cinode.cNode root
  have mode : (s.iTab s.root).getmode = F_DIR := by
    rw [root, Cinode.getmode, Mkfs.iMode_rootNode]
    decide
  have tidy := made.tidy node three
  refine ⟨counted, ⟨⟨_, ⟨good, ?_, made.partition accepts node⟩, idle, ?_, ?_, pos⟩, ?_⟩, cwd,
    congrArg Cinode.cRefs root, made.names node three, (made.freeList accepts).1⟩
  · intro i mem
    rw [Finset.mem_singleton.mp mem]
    exact ⟨congrArg Cinode.cDev root, .inr (.inl mode)⟩
  · intro i mem
    rw [Finset.mem_singleton.mp mem]
    exact .inr mode
  · intro i mem
    rw [Finset.mem_singleton.mp mem, node, Mkfs.iSize_rootNode, Off.Norm]
    decide
  · intro i mem
    rw [Finset.mem_singleton.mp mem]
    exact tidy

/-- The mount of the root, from a started kernel. -/
lemma Kernel.Started.wp_mountRoot (start : s.Started) (hdev : dev < NDEVS) (accepts : Mkfs.Accepts fsize isize)
    (cells : ∀ n, s.cell dev n = mkfs fsize isize n) :
    wp (mountRoot dev)
      (fun ok s' => (ok = true ↔ Mkfs.Rooted s.target isize) ∧ (ok = true → s'.HasRoot dev fsize isize) ∧
        ∀ d n, s'.cell d n = s.cell d n) (fun _ => False) s := by
  have two : 2 ≤ isize.toNat := accepts.2.1
  obtain ⟨valid, isz⟩ := Kernel.valid_mkfs accepts cells
  have runs : wp (mountRoot dev)
      (fun ok s' => (ok = true ↔ Mkfs.Rooted s.target isize) ∧
        (ok = true → s'.RefsCounted → s'.HasRoot dev fsize isize) ∧ ∀ d n, s'.cell d n = s.cell d n)
      (fun _ => False) s := by
    unfold mountRoot
    rw [wp_bind, wp_modify, wp_bind]
    -- the superblock of `mkfs` passes the test of `fmount`
    refine wp_post (Kernel.wp_fmount_root start.good start.idle hdev valid) fun r s₁ got => ?_
    obtain ⟨rfl, b₁, g₁, v₁, e⟩ := got
    have own : (s₁.fsTab dev) = { s.superblock dev with sMntpt := 0 } := by
      rw [e]
      exact Function.update_self ..
    have isz₁ : (s₁.fsTab dev).sIsize = isize := own ▸ isz
    have cells₁ : ∀ d n, s₁.cell d n = s.cell d n := fun d n => by
      rw [e]
      exact congrFun (congrArg View.content v₁) (d, n)
    rw [wp_ite, if_neg (not_not.mpr rfl), wp_bind]
    have target : s₁.target = s.target := e ▸ rfl
    have iTab : s₁.iTab = s.iTab := e ▸ rfl
    have rooted : 1 < (s₁.fsTab dev).inodeEnd s₁.target ↔ Mkfs.Rooted s.target isize :=
      target ▸ Mkfs.rooted_iff isz₁ two
    have idle₁ : ∀ bp, s₁.bufs.view.held bp = none := fun bp => by
      rw [e]
      exact v₁ ▸ start.idle bp
    have node : 1 < (s₁.fsTab dev).inodeEnd s₁.target → s₁.diskInode (dev, ROOTINODE) = Mkfs.rootNode isize :=
      fun inside => Kernel.diskInode_root (fun n => (cells₁ dev n).trans (cells n)) ((rooted.mp inside).three two)
    refine wp_post (Kernel.wp_iOpen_root (e ▸ g₁) idle₁ hdev (iTab ▸ start.refs) (iTab ▸ start.unnamed)
      fun inside => ?_) fun r s₂ got => ?_
    · rw [node inside, Mkfs.iNlink_rootNode, Mkfs.iMode_rootNode]
      decide
    · rcases got with ⟨rfl, rfl, outside⟩ | ⟨inside, i, b₂, k, rfl, g₂, v₂, e₂⟩
      · have unrooted : ¬ Mkfs.Rooted s.target isize := mt rooted.mpr (Nat.not_lt.mpr outside)
        exact ⟨iff_of_false nofun unrooted, nofun, cells₁⟩
      · -- the reference of the current directory is the second one
        show wp (setRoot i) _ _ s₂
        unfold setRoot iRef
        rw [wp_bind, wp_modify, wp_bind, wp_modifyUdata, wp_bind, wp_bind, wp_modifyInode, wp_bind, wp_get]
        generalize eq : Kernel.setInode _ _ _ = t
        have root : t.iTab i = ⟨CMAGIC, dev, ROOTINODE, Mkfs.rootNode isize, 2, (s₁.iTab i).cDirty⟩ := by
          rw [← eq, Kernel.iTab_setInode, e₂, ← node inside]
          simp only [Kernel.withUdata, Kernel.iTab_rootLoaded]
          rfl
        have few : ¬ ((t.iTab i).cRefs).toNat = 2 * ITABSIZE := by
          have two : (t.iTab i).cRefs = 2 := congrArg Cinode.cRefs root
          rw [two]
          decide
        rw [wp_ite, if_neg few]
        have view : t.bufs.view = s.bufs.view := by
          rw [← eq, e₂]
          exact v₂.trans (e ▸ v₁)
        have cells₂ : ∀ d n, t.cell d n = s.cell d n := fun d n => congrFun (congrArg View.content view) (d, n)
        have fsTab : t.fsTab = s₁.fsTab := by
          rw [← eq, e₂]
          rfl
        have made : Formatted t dev fsize isize := by
          refine ⟨fun n => (cells₂ dev n).trans (cells n), 0, ?_⟩
          rw [fsTab, own, ← cells 1]
          rfl
        have here : t.root = i := eq ▸ rfl
        refine ⟨iff_of_true rfl (rooted.mp inside), fun _ counted => ?_, cells₂⟩
        refine made.hasRoot accepts ((rooted.mp inside).three two) counted ?_ ?_ ?_ (here ▸ root) ?_
        · rw [← eq, e₂]
          exact g₂
        · exact fun bp => view ▸ start.idle bp
        · rw [← eq, e₂, e]
          exact start.pos
        · exact eq ▸ rfl
  -- the references are counted in the run of `mountRoot` as a whole
  refine wp_mono (runs.and (Uzi.wp_mountRoot start.toCleared hdev)) (fun ok s' got => ?_) fun _ bad => bad.1
  obtain ⟨⟨rooted, has, same⟩, counted⟩ := got
  exact ⟨rooted, fun yes => has yes (counted yes), same⟩

/-- A kernel that has just been started. -/
lemma started_newDisk : newDisk.Started where
  refs _ := rfl
  ofTab _ := rfl
  fsTab _ := rfl
  good := Bufs.good_inited.1
  idle := congrFun (congrArg View.held Bufs.good_inited.2)
  unnamed _ := rfl
  pos _ := by
    show (0 : Word).toNat < 512
    decide

/-- The sizes of the new disk are accepted. -/
lemma accepts_newDisk : Mkfs.Accepts 20 3 := by
  refine ⟨?_, ?_, ?_⟩ <;> decide

/-- The blocks of the new disk. -/
lemma cell_newDisk (n : Word) : newDisk.cell 0 n = mkfs 20 3 n :=
  congrFun (congrArg View.content Bufs.good_inited.2) (0, n)

/-- The new disk has its root. -/
lemma rooted_newDisk : Mkfs.Rooted newDisk.target 3 := by
  show ((3 : Word).toNat - 2) % 2 ^ 13 ≠ 0
  decide

/-- A disk that `mkfs` has made for a size that it accepts can be booted from just when the kernel counts an inode 1 on
it, and then the disk is in order. Nothing is written to any disk. -/
theorem mkfs_boots (start : s.Started) (hdev : dev < NDEVS) (accepts : Mkfs.Accepts fsize isize)
    (cells : ∀ n, s.cell dev n = mkfs fsize isize n) :
    ∃ ok s', mountRoot dev s = .ok (ok, s') ∧ (ok = true ↔ Mkfs.Rooted s.target isize) ∧
      (ok = true → s'.HasRoot dev fsize isize) ∧ ∀ d n, s'.cell d n = s.cell d n := by
  obtain ⟨ok, s', ran, got⟩ := (start.wp_mountRoot hdev accepts cells).returns
  exact ⟨ok, s', ran, got⟩

/-- The small disk is booted from. -/
theorem mkfs_boots_newDisk : ∃ s', mountRoot 0 newDisk = .ok (true, s') ∧ s'.HasRoot 0 20 3 := by
  obtain ⟨ok, s', ran, iff, has, -⟩ := mkfs_boots started_newDisk (by decide) accepts_newDisk cell_newDisk
  have yes := iff.mpr rooted_newDisk
  exact ⟨s', yes ▸ ran, has yes⟩

end Uzi
