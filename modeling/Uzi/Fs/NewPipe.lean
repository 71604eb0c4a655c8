import Uzi.Fs.FileRuns
import Uzi.Fs.InodeRuns

/-!
# What a new pipe is made of

`_pipe` takes a free inode as it lies on the disk and changes its mode and its links, where `newfile`
also clears the size and the addresses. A pipe is empty exactly if its inode was.
-/

namespace Uzi
open Exec WriteBack

/-- A file without bytes and blocks. -/
structure Dinode.IsEmpty (t : Target) (d : Dinode) : Prop where
  size : psize t d.iSize = 0
  noBlocks : ∀ i, d.addr i = 0

namespace Kernel

variable {s s' s₁ : Kernel} {dev : Nat}

/-! ## A number for a new inode -/

/-- Code that leaves the inodes alone shows nothing new. -/
lemma Shows.within {α : Type} {c : K α} (h : s.Shows s₁ s.icache.content)
    (keeps : Within KeepsInodes (fun _ => True) c) :
    wp c (fun _ s' => s.Shows s' s.icache.content) (fun _ => True) s₁ :=
  wp_post (keeps s₁) fun _ _ k => h.trans ((k h.cached.good).shows h.cached h.unused)

/-- `setError` leaves the inodes. -/
lemma within_setError {e : Errno} : Within KeepsInodes (fun _ => True) (setError e) :=
  .modify fun _ g => sameInodes_of_eq g rfl rfl rfl rfl

/-- A corrupt list of inodes leaves the inodes. -/
lemma within_iAllocCorrupt : Within KeepsInodes (fun _ => True) (iAllocCorrupt dev) :=
  .bind (within_modifyFs fun _ => rfl) fun _ => .bind within_setError fun _ => .pure

/-- An inode that is taken leaves the inodes. -/
lemma within_iAllocTake : Within KeepsInodes (fun _ => True) (iAllocTake dev) := by
  unfold iAllocTake
  refine .bind .get fun _ => .ite within_iAllocCorrupt (.ite (.throw trivial) ?_)
  refine .bind (within_modifyFs fun _ => rfl) fun _ => .ite within_iAllocCorrupt ?_
  exact .bind (within_modifyFs fun _ => rfl) fun _ => .pure

/-- The scan reads the inode blocks. -/
lemma within_iAllocScan {blk : Word} {k n : Nat} (hdev : dev < NDEVS) :
    Within KeepsInodes (fun _ => True) (iAllocScan dev blk k n) := by
  induction n generalizing blk k with
  | zero => exact .pure
  | succ n ih =>
    apply KeepsInodes.within
    intro s g
    unfold iAllocScan
    rw [wp_bind]
    refine wp_mono (wp_breadPtr g hdev) ?_ fun _ _ => trivial
    intro bp s₁ got
    obtain ⟨b, e, g₁, idle, hold⟩ := got
    rw [wp_bind, wp_get, wp_bind, wp_modifyFs, wp_bind]
    have g₁ : s₁.bufs.Good := e ▸ g₁
    have entered : Within KeepsInodes (fun _ => True) (modifyFs dev fun fs =>
        fs.setInodes k (List.take (50 - k) (freeInodes (s₁.buf bp).bfData blk 0 8))) :=
      within_modifyFs fun _ => rfl
    have entered := entered s₁ g₁
    refine wp_mono (wp_brelse_inodes e idle hold entered) (fun _ s₂ same => ?_) fun _ => False.elim
    rw [wp_ite, wp_pure]
    split
    · exact same
    · exact wp_post (ih s₂) fun _ s₃ keeps => same.trans (keeps same.good)

/-- `i_alloc` changes no inode. -/
lemma Cached.wp_iAlloc (h : s.Cached) (u : s.Unused) :
    wp (iAlloc dev) (fun _ s' => s.Shows s' s.icache.content) (fun _ => True) s := by
  have refl : s.Shows s s.icache.content := ⟨h, u, fun _ => rfl, fun _ => rfl⟩
  unfold iAlloc
  rw [wp_bind]
  refine wp_post (wp_getdev_inodes h.good) fun _ s₁ got => ?_
  obtain ⟨same, hdev⟩ := got
  have shows₁ := refl.trans (same.shows h u)
  rw [wp_bind, wp_get, wp_ite]
  split
  · exact shows₁.within within_iAllocCorrupt
  · rw [wp_ite]
    split
    · exact shows₁.within within_iAllocTake
    · rw [wp_bind]
      refine wp_post (shows₁.cached.wp_sync shows₁.unused) fun _ s₂ synced => ?_
      have shows₂ := shows₁.trans synced
      rw [wp_bind, wp_get, wp_bind]
      refine wp_post (shows₂.within (within_iAllocScan hdev)) fun k s₃ shows₃ => ?_
      rw [wp_ite]
      split
      · rw [wp_bind, wp_get, wp_ite]
        split
        · exact shows₃.within within_iAllocCorrupt
        · exact shows₃.within (.bind within_setError fun _ => .pure)
      · exact shows₃.within (.bind (within_modifyFs fun _ => rfl) fun _ => within_iAllocTake)

/-- `i_open` of a new inode gives an entry of one, with what the disk has of it. -/
lemma Cached.wp_iOpen_new (h : s.Cached) (u : s.Unused) (two : 2 ≤ (s.fsTab dev).sIsize) :
    wp (iOpen dev 0)
      (fun r s' => ∀ p, r = some p → ∃ m, (s'.iTab p).Names m ∧ (s'.iTab p).cNode = s.icache.content m)
      (fun _ => True) s := by
  unfold iOpen
  rw [wp_ite]
  split
  · trivial
  · next hdev =>
    rw [wp_ite, if_pos rfl, wp_bind]
    refine wp_post (h.wp_iAlloc u) fun num s₁ shows => ?_
    rw [wp_ite]
    split
    · rw [wp_bind]
      exact fun p e => absurd e.symm (Option.some_ne_none p)
    · next ne =>
      have two : 2 ≤ (s₁.fsTab dev).sIsize := (shows.isize dev).symm ▸ two
      refine wp_mono (shows.cached.wp_iOpenAt shows.unused (not_not.mp hdev) ne two) (fun r s₂ out p e => ?_)
        fun _ _ => trivial
      subst e
      have opened : s₁.Opened s₂ (dev, num) p := out
      have named : ((s₂.iTab p).cDev, (s₂.iTab p).cNum) = (dev, num) := Prod.ext opened.names.1 opened.names.2.1
      refine ⟨(dev, num), opened.names, ?_⟩
      rw [← opened.keeps.cached.content opened.names.num_ne, named, opened.keeps.content, shows.content]

/-! ## The pipe -/

/-- A descriptor that was closed in `s` leads to entry `p` in `s'`. -/
def OpensNew (s s' : Kernel) (p : Inoptr) : Prop :=
  ∃ j of, isClosed (s.udata.uFiles j) ∧ s'.udata.uFiles j = oftByte of ∧ (s'.ofTab of).oInode = some p

/-- The descriptors that have been opened lead to one entry, the inode of which is as it was before but
for its mode and its links. -/
def Piped (s s' : Kernel) : Prop :=
  ∃ p m, s.OpensNew s' p ∧ (∀ q, s.OpensNew s' q → q = p) ∧ (s'.iTab p).Names m ∧
    (s'.iTab p).cNode = { s.icache.content m with iMode := F_PIPE ||| 0o777, iNlink := 0 }

/-- Nothing has changed but open files and the data of the process. -/
structure OnlyFiles (s s' : Kernel) : Prop where
  bufs : s'.bufs = s.bufs
  iTab : s'.iTab = s.iTab
  fsTab : s'.fsTab = s.fsTab
  target : s'.target = s.target
  rootdev : s'.rootdev = s.rootdev

/-- Only files, twice. -/
lemma OnlyFiles.trans (o : s.OnlyFiles s₁) (o' : s₁.OnlyFiles s') : s.OnlyFiles s' :=
  ⟨o'.bufs.trans o.bufs, o'.iTab.trans o.iTab, o'.fsTab.trans o.fsTab, o'.target.trans o.target,
    o'.rootdev.trans o.rootdev⟩

/-- Only files have changed, so the inodes are the same. -/
lemma OnlyFiles.sameInodes (o : s.OnlyFiles s') (g : s.bufs.Good) : s.SameInodes s' :=
  sameInodes_of_eq g o.bufs o.iTab o.fsTab o.target

/-- `uf_alloc` changes only files. -/
lemma onlyFiles_ufAlloc : wp ufAlloc (fun _ s' => s.OnlyFiles s') (fun _ => False) s := by
  unfold ufAlloc
  rw [wp_bind, wp_get]
  split
  · exact ⟨rfl, rfl, rfl, rfl, rfl⟩
  · exact ⟨rfl, rfl, rfl, rfl, rfl⟩

/-- `oft_alloc` changes only files. -/
lemma onlyFiles_oftAlloc :
    wp oftAlloc (fun _ s' => s.OnlyFiles s' ∧ s'.udata.uFiles = s.udata.uFiles) (fun _ => False) s := by
  unfold oftAlloc
  rw [wp_bind, wp_get]
  split
  · exact ⟨⟨rfl, rfl, rfl, rfl, rfl⟩, rfl⟩
  · exact ⟨⟨rfl, rfl, rfl, rfl, rfl⟩, rfl⟩

/-- The end of `_pipe`: the two descriptors lead to the pipe. -/
lemma wp_pipeDone_piped {fildes : Nat} {u₁ u₂ : Fin UFTSIZE} {of₁ of₂ : Fin OFTSIZE} {p : Inoptr} {m : Nat × Word}
    (closed₂ : isClosed (s.udata.uFiles u₂))
    (files : s₁.udata.uFiles = Function.update s.udata.uFiles u₁ (oftByte of₁)) (names : (s₁.iTab p).Names m)
    (node : (s₁.iTab p).cNode = s.icache.content m) :
    wp (pipeDone fildes u₁ u₂ of₁ of₂ p) (fun _ s' => s.Piped s') (fun _ => False) s₁ := by
  unfold pipeDone
  rw [wp_bind, wp_setFile, wp_bind, wp_modifyOft, wp_bind, wp_modifyOft, wp_bind, wp_modifyInode, wp_bind,
    wp_modifyUdata, wp_pure]
  have inode : ∀ of, of = of₁ ∨ of = of₂ → (Function.update (Function.update s₁.ofTab of₁
      { s₁.ofTab of₁ with oPtr := ⟨0, 0⟩, oInode := some p, oAccess := .rdonly }) of₂
      { Function.update s₁.ofTab of₁ { s₁.ofTab of₁ with oPtr := ⟨0, 0⟩, oInode := some p, oAccess := .rdonly } of₂
        with oPtr := ⟨0, 0⟩, oInode := some p, oAccess := .wronly } of).oInode = some p := by
    intro of either
    by_cases e : of = of₂
    · rw [e, Function.update_self]
    · rw [Function.update_of_ne e, either.resolve_right e, Function.update_self]
  refine ⟨p, m, ⟨u₂, of₂, closed₂, Function.update_self .., inode of₂ (.inr rfl)⟩, ?_, ?_, ?_⟩
  · rintro q ⟨j, of, closed, file, leads⟩
    change Function.update s₁.udata.uFiles u₂ (oftByte of₂) j = oftByte of at file
    have either : of = of₁ ∨ of = of₂ := by
      by_cases e₂ : j = u₂
      · rw [e₂, Function.update_self] at file
        exact .inr (oftByte_injective file).symm
      · rw [Function.update_of_ne e₂, files] at file
        by_cases e₁ : j = u₁
        · rw [e₁, Function.update_self] at file
          exact .inl (oftByte_injective file).symm
        · rw [Function.update_of_ne e₁] at file
          exact absurd (file ▸ closed) not_isClosed_oftByte
    exact Option.some.inj (leads.symm.trans (inode of either))
  · show (Function.update s₁.iTab p _ p).Names m
    rw [Function.update_self]
    exact names
  · show (Function.update s₁.iTab p _ p).cNode = _
    rw [Function.update_self, ← node]
    rfl

/-- `_pipe`, where it does not fail. -/
lemma Cached.wp_pipe {fildes : Nat} (h : s.Cached) (u : s.Unused) (two : 2 ≤ (s.fsTab s.rootdev).sIsize) :
    wp (_pipe fildes) (fun r s' => r = 0 → s.Piped s') (fun _ => True) s := by
  have failed : ∀ {u₁ : Fin UFTSIZE} {s₁ : Kernel},
      wp (pipeFailed u₁) (fun r s' => r = 0 → s.Piped s') (fun _ => True) s₁ := by
    intro u₁ s₁ zero
    exact absurd zero (by decide)
  unfold _pipe
  rw [wp_bind]
  refine wp_mono (onlyFiles_ufAlloc.and wp_ufAlloc) (fun r s₁ got => ?_) fun _ => fun _ => trivial
  obtain ⟨only₁, files₁, found₁⟩ := got
  cases r with
  | none => exact fun zero => absurd zero (by decide)
  | some u₁ =>
    rw [wp_bind]
    refine wp_mono onlyFiles_oftAlloc (fun r s₂ got => ?_) fun _ => fun _ => trivial
    obtain ⟨only₂, files₂⟩ := got
    cases r with
    | none => exact fun zero => absurd zero (by decide)
    | some of₁ =>
      rw [wp_bind, wp_setFile, wp_bind]
      have only₃ : s.OnlyFiles (s₂.setFile u₁ (oftByte of₁)) := (only₁.trans only₂).trans ⟨rfl, rfl, rfl, rfl, rfl⟩
      have files₃ : (s₂.setFile u₁ (oftByte of₁)).udata.uFiles = Function.update s.udata.uFiles u₁ (oftByte of₁) := by
        rw [← files₁.2.2, ← files₂]
        rfl
      generalize s₂.setFile u₁ (oftByte of₁) = s₃ at only₃ files₃ ⊢
      refine wp_mono (onlyFiles_ufAlloc.and wp_ufAlloc) (fun r s₄ got => ?_) fun _ => fun _ => trivial
      obtain ⟨only₄, files₄, found₄⟩ := got
      cases r with
      | none => exact failed
      | some u₂ =>
        rw [wp_bind]
        refine wp_mono onlyFiles_oftAlloc (fun r s₅ got => ?_) fun _ => fun _ => trivial
        obtain ⟨only₅, files₅⟩ := got
        cases r with
        | none =>
          rw [wp_bind]
          exact wp_post wp_true fun _ _ _ => failed
        | some of₂ =>
          have only := (only₃.trans only₄).trans only₅
          have same := only.sameInodes h.good
          rw [wp_bind, wp_get, wp_bind]
          have root : 2 ≤ (s₅.fsTab s₅.rootdev).sIsize := by
            rw [only.fsTab, only.rootdev]
            exact two
          have kept : wp (iOpen s₅.rootdev 0) (fun _ s' => SameFiles s₅ s') (fun _ => True) s₅ := Quiet.iOpen s₅
          refine wp_mono (((h.same same).wp_iOpen_new (u.same same) root).and kept)
            (fun r s₆ got => ?_) fun _ => fun _ => trivial
          obtain ⟨opened, files₆⟩ := got
          cases r with
          | none =>
            rw [wp_bind]
            refine wp_post wp_true fun _ _ _ => ?_
            rw [wp_bind]
            exact wp_post wp_true fun _ _ _ => failed
          | some p =>
            obtain ⟨m, names, node⟩ := opened p rfl
            rw [same.icache] at node
            have closed₂ : isClosed (s.udata.uFiles u₂) := by
              by_cases e : u₂ = u₁
              · exact e ▸ found₁
              · change isClosed (s₃.udata.uFiles u₂) at found₄
                rwa [files₃, Function.update_of_ne e] at found₄
            have files : s₆.udata.uFiles = Function.update s.udata.uFiles u₁ (oftByte of₁) := by
              rw [files₆.2.2, files₅, files₄.2.2, files₃]
            exact wp_mono (wp_pipeDone_piped closed₂ files names node) (fun _ _ piped _ => piped)
              fun _ => False.elim

/-- Every pipe that has been made is empty. -/
def PipesEmpty (s s' : Kernel) : Prop := ∀ p, s.OpensNew s' p → (s'.iTab p).cNode.IsEmpty s.target

/-- A new pipe is empty exactly if the size and the addresses of its inode were zero on the disk. -/
theorem pipe_empty {fildes : Nat} (h : s.Cached) (u : s.Unused) (two : 2 ≤ (s.fsTab s.rootdev).sIsize)
    (made : _pipe fildes s = .ok (0, s')) :
    ∃ p m, s.OpensNew s' p ∧ (s'.iTab p).Names m ∧ (s'.iTab p).getmode = F_PIPE ∧
      (s.PipesEmpty s' ↔ (s.icache.content m).IsEmpty s.target) := by
  obtain ⟨p, m, opens, only, names, node⟩ := (h.wp_pipe u two).ok made rfl
  have same : (s'.iTab p).cNode.IsEmpty s.target ↔ (s.icache.content m).IsEmpty s.target := by
    rw [node]
    exact ⟨fun e => ⟨e.size, e.noBlocks⟩, fun e => ⟨e.size, e.noBlocks⟩⟩
  refine ⟨p, m, opens, names, ?_, fun empty => same.mp (empty p opens), fun empty q hq => ?_⟩
  · rw [Cinode.getmode, node]
    exact (by decide : (F_PIPE ||| 0o777) &&& F_MASK = F_PIPE)
  · rw [only q hq]
    exact same.mpr empty

end Kernel

/-- The small file system with `d` for its free inode 7, and no inode in core. -/
def freedFs (d : Dinode) : Kernel :=
  { Kernel.inited fun _ n => if n = 2 then (mkfs 6 3 2).setDinode 7 d else mkfs 6 3 n with
    fsTab := fun _ => { Filesys.ofBlock (mkfs 6 3 1) with sNinode := 1, sInode := fun _ => 7 }
    iTab := fun _ => .zero
    udata := { UData.zero with uFiles := fun _ => 0xff } }

/-- The inodes of that disk. -/
lemma inv_freedFs {d : Dinode} : Inodes.Inv ⟨freedFs d, (freedFs d).diskInode⟩ :=
  .start
    { good := Bufs.good_inited.1
      released := fun bp => congrFun (congrArg View.held Bufs.good_inited.2) bp
      zeroed := fun _ => rfl
      latest := rfl }

/-- A free inode as the check of a file system leaves one that it has zapped. -/
def zapped (blk : Word) : Dinode := { Dinode.zero with iSize := ⟨1, 0⟩, iAddr := fun _ => blk }

/-- What a call of `_pipe` has made of descriptor 0 and the entry it leads to. -/
def firstPipe (d : Dinode) : Option (Word × Byte × Option (Inoptr × Word)) :=
  match _pipe 0 (freedFs d) with
  | .ok (r, s) => some (r, s.udata.uFiles 0, (s.ofTab 0).oInode.map fun p => (p, (s.iTab p).cNode.addr 0))
  | .error _ => none

/-- The pipe over the zapped inode has its blocks. -/
lemma pipe_zapped : ∃ s', _pipe 0 (freedFs (zapped 3)) = .ok (0, s') ∧
    ∃ p, (freedFs (zapped 3)).OpensNew s' p ∧ (s'.iTab p).cNode.addr 0 = 3 := by
  have run : firstPipe (zapped 3) = some (0, 0, some (0, 3)) := by decide +kernel
  unfold firstPipe at run
  cases made : _pipe 0 (freedFs (zapped 3)) with
  | error e =>
    rw [made] at run
    cases run
  | ok rs =>
    obtain ⟨r, s'⟩ := rs
    rw [made] at run
    obtain ⟨zero, file, inode⟩ : r = 0 ∧ s'.udata.uFiles 0 = 0 ∧
        (s'.ofTab 0).oInode.map (fun p => (p, (s'.iTab p).cNode.addr 0)) = some (0, 3) := by
      simpa only [Option.some.injEq, Prod.mk.injEq] using run
    obtain ⟨p, leads, e⟩ := Option.map_eq_some_iff.mp inode
    exact ⟨s', by rw [zero], p, ⟨0, 0, (by decide : isClosed 0xff), file, leads⟩, (Prod.mk.inj e).2⟩

/-- Over the inode 7 of the small file system. -/
theorem pipe_empty_zapped : ∃ s' p m, (freedFs (zapped 3)).OpensNew s' p ∧ (s'.iTab p).Names m ∧
    (s'.iTab p).getmode = F_PIPE ∧
    ((freedFs (zapped 3)).PipesEmpty s' ↔ ((freedFs (zapped 3)).icache.content m).IsEmpty .nes) := by
  obtain ⟨s', made, -⟩ := pipe_zapped
  exact ⟨s', Kernel.pipe_empty inv_freedFs.cached inv_freedFs.unused (by decide +kernel) made⟩

/-- The pipe over the zapped inode is not empty. -/
theorem not_pipe_empty : ¬ ∀ {s s' : Kernel} {fildes : Nat}, s.Cached → s.Unused →
    2 ≤ (s.fsTab s.rootdev).sIsize → _pipe fildes s = .ok (0, s') → s.PipesEmpty s' := by
  intro h
  obtain ⟨s', made, p, opens, addr⟩ := pipe_zapped
  have empty := h inv_freedFs.cached inv_freedFs.unused (by decide +kernel) made p opens
  have zero := empty.noBlocks 0
  rw [addr] at zero
  exact absurd zero (by decide)

end Uzi
