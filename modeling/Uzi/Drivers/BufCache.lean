import Uzi.Drivers.Devio
import Uzi.Lib.WriteBack

/-!
# The buffer pool is a write-back cache

The pool seen as a `WriteBack.Cache` over the devices (`Bufs.cache`), the invariant `Bufs.Pool` that
every call keeps, and one specification for each call of `drivers/devio.c`.
-/

namespace Uzi
open Exec WriteBack

namespace Bufs

/-- The buffers that are busy. -/
def busy (b : Bufs) : Set Bufptr := {i | (b.bufpool i).bfBusy}

/-- The buffers in use. -/
@[simp] lemma mem_busy {b : Bufs} {i : Bufptr} : i ∈ b.busy ↔ (b.bufpool i).bfBusy := Iff.rfl

/-- The pool as a cache: a buffer is named by its device and block, unless it has no device. -/
def cache (b : Bufs) : Cache Bufptr (Nat × Word) Block where
  name i := if (b.bufpool i).bfDev = NODEV then none else
    some ((b.bufpool i).bfDev, (b.bufpool i).bfBlk)
  data i := (b.bufpool i).bfData
  dirty i := (b.bufpool i).bfDirty ≠ 0
  back n := b.disk n.1 n.2

/-- The logical content of a block. -/
noncomputable def content (b : Bufs) (dev : Nat) (blk : Word) : Block := b.cache.content (dev, blk)

/-- The invariant of the pool, over the buffers `X` that their holders have changed since they got
them: the cache is coherent, what is changed is held, and no driver reports an error. -/
structure Pool (b : Bufs) (X : Set Bufptr) : Prop where
  coherent : b.cache.Coherent X
  held : X ⊆ b.busy
  rdErr : ∀ d n, b.rdErr d n = false
  wrErr : ∀ d n, b.wrErr d n = false

/-- Every dirty buffer has a device that can be written. -/
def DirtyDev (b : Bufs) : Prop := ∀ i, (b.bufpool i).bfDirty ≠ 0 → (b.bufpool i).bfDev < NDEVS

/-- A device is not `NODEV`. -/
lemma NDEVS_lt_NODEV {d : Nat} (h : d < NDEVS) : d < NODEV := by
  unfold NDEVS NODEV at *
  omega

/-- The name of a buffer in the cache. -/
lemma name_eq {b : Bufs} {i : Bufptr} {dev : Nat} {blk : Word} :
    b.cache.name i = some (dev, blk) ↔
      (b.bufpool i).bfDev = dev ∧ (b.bufpool i).bfBlk = blk ∧ dev ≠ NODEV := by
  simp only [cache]
  split
  · grind
  · grind

/-- A buffer is set. -/
@[simp] lemma bufpool_set {b : Bufs} {i : Bufptr} {x : Blkbuf} :
    (b.set i x).bufpool = Function.update b.bufpool i x := rfl

/-- The disk is as before. -/
@[simp] lemma disk_set {b : Bufs} {i : Bufptr} {x : Blkbuf} : (b.set i x).disk = b.disk := rfl

/-- The buffers are as before. -/
@[simp] lemma bufpool_write {b : Bufs} {dev : Nat} {blk : Word} {x : Block} :
    (b.write dev blk x).bufpool = b.bufpool := rfl

/-- The block that has been written. -/
@[simp] lemma disk_write {b : Bufs} {dev : Nat} {blk : Word} {x : Block} :
    (b.write dev blk x).disk dev blk = x := by
  simp only [write, true_and, if_true]

/-- The other blocks are as before. -/
lemma disk_write_of_ne {b : Bufs} {dev d : Nat} {blk n : Word} {x : Block}
    (h : (d, n) ≠ (dev, blk)) : (b.write dev blk x).disk d n = b.disk d n := by
  simp only [write]
  rw [if_neg fun e => h (Prod.ext e.1 e.2)]

/-- The buffers in use are as before. -/
lemma busy_set {b : Bufs} {i : Bufptr} {x : Blkbuf} (h : x.bfBusy = (b.bufpool i).bfBusy) :
    (b.set i x).busy = b.busy := by
  ext j
  by_cases e : j = i
  · subst e
    simp only [mem_busy, bufpool_set, Function.update_self, h]
  · simp only [mem_busy, bufpool_set, Function.update_of_ne e]

/-- A buffer is set twice. -/
@[simp] lemma set_set {b : Bufs} {i : Bufptr} {x y : Blkbuf} : (b.set i x).set i y = b.set i y := by
  simp only [set, Function.update_idem]

/-- A buffer that differs in its time stamp and its busy flag only is no change of the cache. -/
lemma cache_set {b : Bufs} {i : Bufptr} {x : Blkbuf} (hdev : x.bfDev = (b.bufpool i).bfDev)
    (hblk : x.bfBlk = (b.bufpool i).bfBlk) (hdata : x.bfData = (b.bufpool i).bfData)
    (hdirty : x.bfDirty = (b.bufpool i).bfDirty) : (b.set i x).cache = b.cache := by
  have same : ∀ j, (Function.update b.bufpool i x j).bfDev = (b.bufpool j).bfDev ∧
      (Function.update b.bufpool i x j).bfBlk = (b.bufpool j).bfBlk ∧
      (Function.update b.bufpool i x j).bfData = (b.bufpool j).bfData ∧
      (Function.update b.bufpool i x j).bfDirty = (b.bufpool j).bfDirty := by
    intro j
    by_cases e : j = i
    · subst e
      simp only [Function.update_self, hdev, hblk, hdata, hdirty, and_self]
    · simp only [Function.update_of_ne e, and_self]
  simp only [cache, bufpool_set, disk_set, fun j => (same j).1, fun j => (same j).2.1,
    fun j => (same j).2.2.1, fun j => (same j).2.2.2]

end Bufs

/-! ## Which buffer is taken -/

/-- What the search of `freebuf` has found after some of the buffers. -/
lemma freebufRound_foldl {b : Bufs} {l : List Bufptr} {acc : Option Bufptr × Word}
    (start : acc.1 = none → acc.2 = 0) (found : ∀ i, acc.1 = some i → i ∉ b.busy) :
    (∀ i, (l.foldl (freebufRound b) acc).1 = some i → i ∉ b.busy) ∧
      ((l.foldl (freebufRound b) acc).1 = none → acc.1 = none ∧ ∀ i ∈ l, i ∈ b.busy) := by
  induction l generalizing acc with
  | nil => exact ⟨found, fun h => ⟨h, by simp⟩⟩
  | cons i l ih =>
    rw [List.foldl_cons]
    by_cases h : acc.2 ≤ b.bufclock - (b.bufpool i).bfTime ∧ ¬ (b.bufpool i).bfBusy
    · have e : freebufRound b acc i = (some i, b.bufclock - (b.bufpool i).bfTime) := if_pos h
      rw [e]
      have ih' := @ih (some i, b.bufclock - (b.bufpool i).bfTime) (by simp) (by
        intro j hj
        obtain rfl : i = j := by simpa using hj
        exact h.2)
      exact ⟨ih'.1, fun hn => absurd (ih'.2 hn).1 (by simp)⟩
    · have e : freebufRound b acc i = acc := if_neg h
      rw [e]
      refine ⟨(ih start found).1, fun hn => ?_⟩
      obtain ⟨ha, hl⟩ := (ih start found).2 hn
      refine ⟨ha, fun j hj => ?_⟩
      rcases List.mem_cons.mp hj with rfl | hj
      · -- The search starts with time 0, so that only a busy buffer is passed over.
        rw [start ha] at h
        exact not_not.mp fun idle => h ⟨BitVec.le_def.mpr (Nat.zero_le _), idle⟩
      · exact hl j hj

/-- `freebuf` takes a buffer that is not busy. -/
lemma oldest_not_busy {b : Bufs} {i : Bufptr} (h : oldest b = some i) : i ∉ b.busy :=
  (freebufRound_foldl (fun _ => rfl) (by simp)).1 i h

/-- `freebuf` finds no buffer only when all are busy. -/
lemma oldest_none {b : Bufs} (h : oldest b = none) (i : Bufptr) : i ∈ b.busy :=
  ((freebufRound_foldl (fun _ => rfl) (by simp)).2 h).2 i (List.mem_finRange i)

/-- `bfind` finds a buffer of the name asked for. -/
lemma bfind_some {b : Bufs} {dev : Nat} {blk : Word} {i : Bufptr} (hdev : dev ≠ NODEV)
    (h : bfind b dev blk = some i) : b.cache.name i = some (dev, blk) := by
  have e := List.find?_some h
  simp only [decide_eq_true_eq] at e
  exact Bufs.name_eq.mpr ⟨e.1, e.2, hdev⟩

/-- `bfind` finds nothing only when no buffer has that name. -/
lemma bfind_none {b : Bufs} {dev : Nat} {blk : Word} (h : bfind b dev blk = none) (i : Bufptr) :
    b.cache.name i ≠ some (dev, blk) := by
  intro e
  obtain ⟨hd, hb, _⟩ := Bufs.name_eq.mp e
  have e' := List.find?_eq_none.mp h i (List.mem_finRange i)
  simp only [decide_eq_true_eq] at e'
  exact e' ⟨hd, hb⟩

/-! ## What the calls do -/

namespace Bufs

/-- `b'` is `b` after `freebuf` has returned `bp`: the buffer is idle, and it was written out if it
was dirty. -/
structure Freed (b b' : Bufs) (bp : Bufptr) : Prop where
  idle : bp ∉ b.busy
  bufpool : b'.bufpool = Function.update b.bufpool bp { b.bufpool bp with bfDirty := 0 }
  disk : (b.bufpool bp).bfDirty = 0 ∧ b'.disk = b.disk ∨
    (b.bufpool bp).bfDirty ≠ 0 ∧ (b.bufpool bp).bfDev < NDEVS ∧
      b'.disk = (b.write (b.bufpool bp).bfDev (b.bufpool bp).bfBlk (b.bufpool bp).bfData).disk
  bufclock : b'.bufclock = b.bufclock
  rdErr : b'.rdErr = b.rdErr
  wrErr : b'.wrErr = b.wrErr

/-- An idle dirty buffer that is written out and then marked clean is freed. -/
lemma freed_write {b : Bufs} {bp : Bufptr} (idle : bp ∉ b.busy) (dirty : (b.bufpool bp).bfDirty ≠ 0)
    (dev : (b.bufpool bp).bfDev < NDEVS) :
    b.Freed ((b.write (b.bufpool bp).bfDev (b.bufpool bp).bfBlk (b.bufpool bp).bfData).set bp
      { b.bufpool bp with bfDirty := 0 }) bp :=
  ⟨idle, rfl, .inr ⟨dirty, dev, rfl⟩, rfl, rfl, rfl⟩

namespace Freed

variable {b b' : Bufs} {bp : Bufptr} {X : Set Bufptr}

/-- The names are as before. -/
lemma name (f : Freed b b' bp) : b'.cache.name = b.cache.name := by
  funext i
  by_cases e : i = bp
  · subst e
    simp only [cache, f.bufpool, Function.update_self]
  · simp only [cache, f.bufpool, Function.update_of_ne e]

/-- The data are as before. -/
lemma data (f : Freed b b' bp) : b'.cache.data = b.cache.data := by
  funext i
  by_cases e : i = bp
  · subst e
    simp only [cache, f.bufpool, Function.update_self]
  · simp only [cache, f.bufpool, Function.update_of_ne e]

/-- The other buffers are as dirty as before. -/
lemma dirty_ne (f : Freed b b' bp) (i : Bufptr) (e : i ≠ bp) :
    b'.cache.dirty i ↔ b.cache.dirty i := by
  simp only [cache, f.bufpool, Function.update_of_ne e]

/-- The buffers in use are as before. -/
lemma busy (f : Freed b b' bp) : b'.busy = b.busy := by
  ext i
  by_cases e : i = bp
  · subst e
    simp only [mem_busy, f.bufpool, Function.update_self]
  · simp only [mem_busy, f.bufpool, Function.update_of_ne e]

/-- The buffer is clean. -/
lemma clean (f : Freed b b' bp) : ¬ b'.cache.dirty bp := by
  simp only [cache, f.bufpool, Function.update_self, ne_eq, not_true_eq_false, not_false_eq_true]

/-- `freebuf` changes no content and keeps the cache coherent. -/
lemma coherent (f : Freed b b' bp) (h : b.cache.Coherent X) :
    b'.cache.Coherent X ∧ ∀ n, b'.cache.content n = b.cache.content n := by
  rcases f.disk with ⟨clean, disk⟩ | ⟨-, dev, disk⟩
  · have e : b'.cache = b.cache := by
      have same : b'.bufpool = b.bufpool := by
        rw [f.bufpool, ← clean, Function.update_eq_self]
      simp only [cache, same, disk]
    rw [e]
    exact ⟨h, fun _ => rfl⟩
  · -- A dirty buffer that could be written has a device, and so a name.
    have fl : b.cache.Flushed b'.cache bp ((b.bufpool bp).bfDev, (b.bufpool bp).bfBlk) := by
      constructor
      · exact name_eq.mpr ⟨rfl, rfl, (NDEVS_lt_NODEV dev).ne⟩
      · exact f.name
      · exact f.data
      · show b'.disk _ _ = _
        rw [disk, disk_write]
        rfl
      · intro m ne
        show b'.disk _ _ = b.disk _ _
        rw [disk, disk_write_of_ne ne]
      · exact f.dirty_ne
    exact ⟨fl.coherent h, fl.content h.unique⟩

/-- `freebuf` keeps the invariant of the pool. -/
lemma pool (f : Freed b b' bp) (p : b.Pool X) : b'.Pool X where
  coherent := (f.coherent p.coherent).1
  held := f.busy ▸ p.held
  rdErr := f.rdErr ▸ p.rdErr
  wrErr := f.wrErr ▸ p.wrErr

/-- Dirty buffers belong to devices. -/
lemma dirtyDev (f : Freed b b' bp) (d : b.DirtyDev) : b'.DirtyDev := by
  intro i hi
  by_cases e : i = bp
  · subst e
    exact absurd hi f.clean
  · rw [f.bufpool, Function.update_of_ne e] at hi ⊢
    exact d i hi

end Freed

/-- Why `freebuf` may stop. -/
def FreebufStops (b : Bufs) (e : Panic) : Prop :=
  e = .noFreeBuffers ∧ (∀ i, i ∈ b.busy) ∨ e = .undefined ∧ ¬ b.DirtyDev

end Bufs

/-- `bdwrite` writes the buffer's block, if the buffer has a device of `dev_tab`. -/
lemma wp_bdwrite {s : Kernel} {bp : Bufptr} (err : ∀ d n, s.bufs.wrErr d n = false) :
    wp (bdwrite bp)
      (fun r s' => r = 0 ∧ (s.buf bp).bfDev < NDEVS ∧
        s' = { s with bufs := s.bufs.write (s.buf bp).bfDev (s.buf bp).bfBlk (s.buf bp).bfData })
      (fun e => e = .undefined ∧ ¬ (s.buf bp).bfDev < NDEVS) s := by
  unfold bdwrite
  simp only [wp_bind, wp_get, wp_ite, wp_throw, wp_pure, wp_modify, validdev, not_true_eq_false,
    if_false, err, Bool.false_eq_true, true_and]
  split
  · assumption
  · exact ⟨not_not.mp ‹_›, trivial⟩

/-- `bdread` fills the buffer from its block, if the buffer has a device of `dev_tab`. -/
lemma wp_bdread {s : Kernel} {bp : Bufptr} (err : ∀ d n, s.bufs.rdErr d n = false) :
    wp (bdread bp)
      (fun r s' => r = 0 ∧ ∃ x, x = s.bufs.disk (s.buf bp).bfDev (s.buf bp).bfBlk ∧
        s' = { s with bufs := s.bufs.set bp { s.buf bp with bfData := x } })
      (fun e => e = .undefined ∧ ¬ (s.buf bp).bfDev < NDEVS) s := by
  unfold bdread
  simp only [wp_bind, wp_get, wp_ite, wp_throw, wp_pure, wp_modify, modifyBuf, validdev,
    not_true_eq_false, if_false, err, Bool.false_eq_true, true_and]
  split
  · assumption
  · exact ⟨_, rfl, rfl⟩

/-- `freebuf` returns an idle buffer, unless all are busy or one cannot be written. -/
lemma wp_freebuf {s : Kernel} (err : ∀ d n, s.bufs.wrErr d n = false) :
    wp freebuf (fun bp s' => ∃ b', s' = { s with bufs := b' } ∧ s.bufs.Freed b' bp)
      s.bufs.FreebufStops s := by
  unfold freebuf
  rw [wp_bind, wp_get]
  cases h : oldest s.bufs with
  | none => exact .inl ⟨rfl, oldest_none h⟩
  | some bp =>
    have idle := oldest_not_busy h
    simp only [wp_bind, wp_get, wp_ite]
    split
    · next dirty =>
      refine wp_mono (wp_bdwrite err) ?_ ?_
      · rintro r s' ⟨rfl, dev, rfl⟩
        simp only [wp_modify, modifyBuf, wp_pure]
        exact ⟨_, rfl, Bufs.freed_write idle dirty dev⟩
      · rintro e ⟨rfl, dev⟩
        exact .inr ⟨rfl, fun d => dev (d bp dirty)⟩
    · next clean =>
      have clean := not_not.mp clean
      refine ⟨s.bufs, rfl, idle, ?_, .inl ⟨clean, rfl⟩, rfl, rfl, rfl⟩
      rw [show (0 : Byte) = (s.bufs.bufpool bp).bfDirty from clean.symm, Function.update_eq_self]

namespace Bufs

/-- The pool after `bread` has made a buffer busy and stamped it. -/
def stamp (b : Bufs) (bp : Bufptr) : Bufs :=
  { b.set bp { b.bufpool bp with bfBusy := true, bfTime := b.bufclock + 1 } with
    bufclock := b.bufclock + 1 }

/-- The pool after a buffer has got a name and data. -/
def rename (b : Bufs) (bp : Bufptr) (dev : Nat) (blk : Word) (x : Block) : Bufs :=
  b.set bp { b.bufpool bp with bfDev := dev, bfBlk := blk, bfData := x }

/-- A stamp leaves the cache. -/
lemma cache_stamp {b : Bufs} {bp : Bufptr} : (b.stamp bp).cache = b.cache :=
  cache_set (b := b) rfl rfl rfl rfl

/-- A buffer that is stamped is in use. -/
lemma busy_stamp {b : Bufs} {bp : Bufptr} : (b.stamp bp).busy = insert bp b.busy := by
  ext i
  by_cases e : i = bp
  · subst e
    simp only [stamp, mem_busy, bufpool_set, Function.update_self, Set.mem_insert_iff, true_or]
  · simp only [stamp, mem_busy, bufpool_set, Function.update_of_ne e, Set.mem_insert_iff, e,
      false_or]

/-- Stamping a buffer keeps the invariant. -/
lemma Pool.stamp {b : Bufs} {bp : Bufptr} {X : Set Bufptr} (p : b.Pool X) :
    (b.stamp bp).Pool X where
  coherent := by
    rw [cache_stamp]
    exact p.coherent
  held := by
    rw [busy_stamp]
    exact p.held.trans (Set.subset_insert bp b.busy)
  rdErr := p.rdErr
  wrErr := p.wrErr

/-- More buffers that are busy may be taken for changed. -/
lemma Pool.insert {b : Bufs} {bp : Bufptr} {X : Set Bufptr} (p : b.Pool X) (h : bp ∈ b.busy) :
    b.Pool (insert bp X) where
  coherent := p.coherent.mono (Set.subset_insert bp X)
  held := Set.insert_subset h p.held
  rdErr := p.rdErr
  wrErr := p.wrErr

/-- A stamp leaves the dirty buffers. -/
lemma DirtyDev.stamp {b : Bufs} {bp : Bufptr} (d : b.DirtyDev) : (b.stamp bp).DirtyDev := by
  intro i hi
  by_cases e : i = bp
  · subst e
    simp only [Bufs.stamp, bufpool_set, Function.update_self] at hi ⊢
    exact d i hi
  · simp only [Bufs.stamp, bufpool_set, Function.update_of_ne e] at hi ⊢
    exact d i hi

section Rename

variable {b : Bufs} {bp : Bufptr} {dev : Nat} {blk : Word} {x : Block} {X : Set Bufptr}

/-- The new name. -/
lemma name_rename (hdev : dev ≠ NODEV) : (b.rename bp dev blk x).cache.name bp = some (dev, blk) :=
  name_eq.mpr (by simp only [rename, bufpool_set, Function.update_self, true_and, ne_eq, hdev,
    not_false_eq_true])

/-- A clean buffer is renamed to a block that has no buffer. -/
lemma renamed (hdev : dev ≠ NODEV) (fresh : ∀ i, b.cache.name i ≠ some (dev, blk))
    (clean : ¬ b.cache.dirty bp) :
    b.cache.Renamed (b.rename bp dev blk x).cache bp (some (dev, blk)) where
  named := name_rename hdev
  name_ne j e := by simp only [cache, rename, bufpool_set, Function.update_of_ne e]
  data_ne j e := by simp only [cache, rename, bufpool_set, Function.update_of_ne e]
  back := rfl
  dirty_ne j e := by simp only [cache, rename, bufpool_set, Function.update_of_ne e]
  fresh j m hm hj := fresh j (hj.trans hm.symm)
  was_clean := clean

/-- A buffer that is named and then filled. -/
lemma set_rename {y : Blkbuf} (h : y = { b.bufpool bp with bfDev := dev, bfBlk := blk }) :
    (b.set bp y).set bp { (b.set bp y).bufpool bp with bfData := x } = b.rename bp dev blk x := by
  simp only [rename, set_set, bufpool_set, Function.update_self, h]

/-- A rename leaves the buffers in use. -/
lemma busy_rename : (b.rename bp dev blk x).busy = b.busy := busy_set rfl

/-- A rename leaves the dirty buffers on devices. -/
lemma DirtyDev.rename (d : b.DirtyDev) (hdev : dev < NDEVS) : (b.rename bp dev blk x).DirtyDev := by
  intro i hi
  by_cases e : i = bp
  · subst e
    simp only [Bufs.rename, bufpool_set, Function.update_self]
    exact hdev
  · simp only [Bufs.rename, bufpool_set, Function.update_of_ne e] at hi ⊢
    exact d i hi

end Rename

/-- `b'` is `b` after `bread dev blk rewrite` has returned `bp`. A buffer found under its name is
handed out as it is; else one is filled from the device, or counts as changed with `rewrite`. -/
structure Breaded (b b' : Bufs) (X : Set Bufptr) (dev : Nat) (blk : Word) (rewrite : Nat)
    (bp : Bufptr) : Prop where
  idle : bp ∉ b.busy
  busy : b'.busy = insert bp b.busy
  name : b'.cache.name bp = some (dev, blk)
  name_ne : ∀ i ≠ bp, b'.cache.name i = b.cache.name i
  data_ne : ∀ i ≠ bp, b'.cache.data i = b.cache.data i
  content_ne : ∀ n ≠ (dev, blk), b'.cache.content n = b.cache.content n
  pool : b'.Pool (insert bp X)
  kept : rewrite = 0 ∨ (∃ i, b.cache.name i = some (dev, blk)) →
    b'.Pool X ∧ b'.content dev blk = b.content dev blk
  zero : rewrite = 2 → (∀ i, b.cache.name i ≠ some (dev, blk)) → b'.cache.data bp = Block.zero
  dirtyDev : dev < NDEVS → b.DirtyDev → b'.DirtyDev

/-- Why `bread` may stop. -/
def BreadStops (b : Bufs) (dev : Nat) (blk : Word) (e : Panic) : Prop :=
  e = .wantBusyBlock ∧ (∃ i ∈ b.busy, b.cache.name i = some (dev, blk)) ∨
    b.FreebufStops e ∨ e = .undefined ∧ ¬ dev < NDEVS

/-- A buffer that has the name asked for and is idle is handed out. -/
lemma Breaded.hit {b : Bufs} {X : Set Bufptr} {dev : Nat} {blk : Word} {rewrite : Nat} {bp : Bufptr}
    (p : b.Pool X) (name : b.cache.name bp = some (dev, blk)) (idle : bp ∉ b.busy) :
    b.Breaded (b.stamp bp) X dev blk rewrite bp where
  idle := idle
  busy := busy_stamp
  name := by rw [cache_stamp, name]
  name_ne i _ := by rw [cache_stamp]
  data_ne i _ := by rw [cache_stamp]
  content_ne n _ := by rw [cache_stamp]
  pool := p.stamp.insert (busy_stamp ▸ Set.mem_insert bp b.busy)
  kept _ := ⟨p.stamp, by rw [content, content, cache_stamp]⟩
  zero _ none := absurd name (none bp)
  dirtyDev _ d := d.stamp

/-- A free buffer is given the name, and filled from the device without `rewrite`. -/
lemma Breaded.miss {b b₁ : Bufs} {X : Set Bufptr} {dev : Nat} {blk : Word} {rewrite : Nat}
    {bp : Bufptr} {x : Block} (p : b.Pool X) (hdev : dev ≠ NODEV)
    (fresh : ∀ i, b.cache.name i ≠ some (dev, blk)) (f : b.Freed b₁ bp)
    (read : rewrite = 0 → x = b₁.disk dev blk) (zero : rewrite = 2 → x = Block.zero) :
    b.Breaded ((b₁.rename bp dev blk x).stamp bp) X dev blk rewrite bp := by
  have fresh₁ : ∀ i, b₁.cache.name i ≠ some (dev, blk) := f.name ▸ fresh
  have r : b₁.cache.Renamed (b₁.rename bp dev blk x).cache bp (some (dev, blk)) :=
    renamed hdev fresh₁ f.clean
  obtain ⟨coh, cont⟩ := f.coherent p.coherent
  have hx : bp ∉ X := fun h => f.idle (p.held h)
  have data : (b₁.rename bp dev blk x).cache.data bp = x := by
    simp only [cache, rename, bufpool_set, Function.update_self]
  have pool : ∀ Y, (bp ∉ Y → x = b₁.disk dev blk) → X ⊆ Y → Y ⊆ insert bp b.busy →
      ((b₁.rename bp dev blk x).stamp bp).Pool Y := by
    intro Y fill sub held
    constructor
    · rw [cache_stamp]
      refine r.coherent (coh.mono sub) fun hy m hm => ?_
      obtain rfl : (dev, blk) = m := by simpa using hm
      rw [data, fill hy]
      rfl
    · rw [busy_stamp, busy_rename, f.busy]
      exact held
    · exact f.rdErr ▸ p.rdErr
    · exact f.wrErr ▸ p.wrErr
  constructor
  · exact f.idle
  · rw [busy_stamp, busy_rename, f.busy]
  · rw [cache_stamp, name_rename hdev]
  · intro i e
    rw [cache_stamp, r.name_ne i e, f.name]
  · intro i e
    rw [cache_stamp, r.data_ne i e, f.data]
  · intro n ne
    rw [cache_stamp, r.content coh hx fun e => ne (by simpa using e.symm), cont]
  · exact pool _ (fun h => absurd (Set.mem_insert bp X) h) (Set.subset_insert bp X)
      (Set.insert_subset_insert p.held)
  · rintro (h | ⟨i, hi⟩)
    · have pl := pool X (fun _ => read h) subset_rfl (p.held.trans (Set.subset_insert bp b.busy))
      refine ⟨pl, ?_⟩
      rw [content, Cache.content_of_name pl.coherent.unique
        (by rw [cache_stamp, name_rename hdev] : _ = some (dev, blk)), cache_stamp, data, read h,
        content, ← cont, Cache.content_of_forall_ne fresh₁]
      rfl
    · exact absurd hi (fresh i)
  · intro h _
    rw [cache_stamp, data, zero h]
  · intro hd d
    exact ((f.dirtyDev d).rename hd).stamp

end Bufs

/-- `breadDone` hands its buffer out. -/
@[simp] lemma wp_breadDone {s : Kernel} {bp : Bufptr} {Q : Option Bufptr → Kernel → Prop}
    {E : Panic → Prop} :
    wp (breadDone bp) Q E s ↔ Q (some bp) { s with bufs := s.bufs.stamp bp } := Iff.rfl

/-- `bread` returns a buffer of the name asked for, unless it stops in `freebuf`, the block is busy
already, or there is no such device. -/
lemma wp_bread {s : Kernel} {X : Set Bufptr} {dev : Nat} {blk : Word} {rewrite : Nat}
    (p : s.bufs.Pool X) (hdev : dev < NODEV) :
    wp (bread dev blk rewrite)
      (fun r s' => ∃ bp b', r = some bp ∧ s' = { s with bufs := b' } ∧
        s.bufs.Breaded b' X dev blk rewrite bp)
      (s.bufs.BreadStops dev blk) s := by
  have mod : dev % 256 = dev := Nat.mod_eq_of_lt (hdev.trans (by decide))
  unfold bread
  rw [wp_bind, wp_get]
  cases h : bfind s.bufs dev blk with
  | some bp =>
    have name := bfind_some hdev.ne h
    simp only [wp_bind, wp_get, wp_ite, wp_throw, wp_breadDone]
    split
    · next busy => exact .inl ⟨rfl, bp, busy, name⟩
    · next idle => exact ⟨bp, _, rfl, rfl, .hit p name idle⟩
  | none =>
    have fresh := bfind_none h
    simp only [wp_bind]
    refine wp_mono (wp_freebuf p.wrErr) ?_ fun e he => .inr (.inl he)
    rintro bp s' ⟨b₁, rfl, f⟩
    simp only [modifyBuf, wp_modify, wp_ite, wp_bind, mod]
    split
    · next read =>
      refine wp_mono (wp_bdread (f.rdErr ▸ p.rdErr)) ?_ ?_
      · rintro r s' ⟨rfl, x, hx, rfl⟩
        simp only [Kernel.buf, Bufs.bufpool_set, Function.update_self, Bufs.disk_set] at hx
        simp only [Int.reduceNeg, reduceCtorEq, if_false, wp_breadDone, Kernel.buf,
          Bufs.set_rename rfl]
        exact ⟨bp, _, rfl, rfl, .miss p hdev.ne fresh f (fun _ => hx) fun h => by omega⟩
      · rintro e ⟨rfl, dev⟩
        simp only [Kernel.buf, Bufs.bufpool_set, Function.update_self] at dev
        exact .inr (.inr ⟨rfl, dev⟩)
    · next rw =>
      split
      · simp only [wp_breadDone, Bufs.set_rename rfl]
        exact ⟨bp, _, rfl, rfl, .miss p hdev.ne fresh f (fun h => absurd h rw) fun _ => rfl⟩
      · next rw' =>
        simp only [wp_breadDone]
        exact ⟨bp, _, rfl, rfl, .miss p hdev.ne fresh f (fun h => absurd h rw)
          fun h => absurd h rw'⟩

namespace Bufs

/-- `b'` is `b` after `bp` has been released. -/
structure Freebuffed (b b' : Bufs) (X : Set Bufptr) (bp : Bufptr) : Prop where
  busy : b'.busy = b.busy \ {bp}
  name : b'.cache.name = b.cache.name
  data : b'.cache.data = b.cache.data
  content : ∀ n, b'.cache.content n = b.cache.content n
  pool : b'.Pool (X \ {bp})

/-- The pool after a buffer has been marked and is no longer busy. -/
def release (b : Bufs) (bp : Bufptr) (dirty : Byte) : Bufs :=
  b.set bp { b.bufpool bp with bfDirty := (b.bufpool bp).bfDirty ||| dirty, bfBusy := false }

section Release

variable {b : Bufs} {bp : Bufptr} {dirty : Byte} {X : Set Bufptr}

/-- A buffer that is released is not in use. -/
lemma busy_release : (b.release bp dirty).busy = b.busy \ {bp} := by
  ext i
  by_cases e : i = bp
  · subst e
    simp only [release, mem_busy, bufpool_set, Function.update_self, Bool.false_eq_true,
      Set.mem_sdiff, Set.mem_singleton_iff, not_true_eq_false, and_false]
  · simp only [release, mem_busy, bufpool_set, Function.update_of_ne e, Set.mem_sdiff,
      Set.mem_singleton_iff, e, not_false_eq_true, and_true]

/-- A buffer that is released is marked. -/
lemma marked : b.cache.Marked (b.release bp dirty).cache where
  name := by
    funext i
    by_cases e : i = bp
    · subst e
      simp only [cache, release, bufpool_set, Function.update_self]
    · simp only [cache, release, bufpool_set, Function.update_of_ne e]
  data := by
    funext i
    by_cases e : i = bp
    · subst e
      simp only [cache, release, bufpool_set, Function.update_self]
    · simp only [cache, release, bufpool_set, Function.update_of_ne e]
  back := rfl
  dirty i hi := by
    by_cases e : i = bp
    · subst e
      simp only [cache, release, bufpool_set, Function.update_self] at hi ⊢
      exact fun h => hi (BitVec.or_eq_zero_iff.mp h).1
    · simpa only [cache, release, bufpool_set, Function.update_of_ne e] using hi

/-- A buffer that is released dirty is dirty. -/
lemma dirty_release (h : dirty ≠ 0) : (b.release bp dirty).cache.dirty bp := by
  simp only [cache, release, bufpool_set, Function.update_self]
  exact fun e => h (BitVec.or_eq_zero_iff.mp e).2

/-- Releasing a buffer changes no content; a changed one must be marked. -/
lemma Pool.release (p : b.Pool X) (changed : bp ∈ X → dirty ≠ 0) :
    b.Freebuffed (b.release bp dirty) X bp where
  busy := busy_release
  name := marked.name
  data := marked.data
  content := marked.content p.coherent.unique
  pool := by
    constructor
    · refine marked.coherent p.coherent fun j hj hn => ?_
      obtain rfl : j = bp := by
        by_contra ne
        exact hn ⟨hj, ne⟩
      exact dirty_release (changed hj)
    · rw [busy_release]
      exact Set.sdiff_subset_sdiff_left p.held
    · exact p.rdErr
    · exact p.wrErr

/-- A release leaves the dirty buffers on devices. -/
lemma DirtyDev.release (d : b.DirtyDev) (h : dirty = 0 ∨ (b.bufpool bp).bfDev < NDEVS) :
    (b.release bp dirty).DirtyDev := by
  intro i hi
  by_cases e : i = bp
  · subst e
    simp only [Bufs.release, bufpool_set, Function.update_self] at hi ⊢
    rcases h with rfl | h
    · exact d i (by simpa using hi)
    · exact h
  · simp only [Bufs.release, bufpool_set, Function.update_of_ne e] at hi ⊢
    exact d i hi

/-- A released buffer that is then written out is released. -/
lemma Freebuffed.freed {b₁ b₂ : Bufs} (r : b.Freebuffed b₁ X bp) (f : b₁.Freed b₂ bp) :
    b.Freebuffed b₂ X bp where
  busy := f.busy.trans r.busy
  name := f.name.trans r.name
  data := f.data.trans r.data
  content n := ((f.coherent r.pool.coherent).2 n).trans (r.content n)
  pool := f.pool r.pool

end Release

/-- Why `bfree` may stop. -/
def BfreeStops (b : Bufs) (bp : Bufptr) (dirty : Byte) (e : Panic) : Prop :=
  e = .undefined ∧ dirty = 2 ∧ ¬ (b.bufpool bp).bfDev < NDEVS

end Bufs

/-- `bfree` releases the buffer, and writes it out at once with `dirty` 2. -/
lemma wp_bfree {s : Kernel} {X : Set Bufptr} {bp : Bufptr} {dirty : Byte} (p : s.bufs.Pool X)
    (changed : bp ∈ X → dirty ≠ 0) :
    wp (bfree bp dirty)
      (fun _ s' => ∃ b', s' = { s with bufs := b' } ∧ s.bufs.Freebuffed b' X bp ∧
        (s.bufs.DirtyDev → dirty = 0 ∨ (s.bufs.bufpool bp).bfDev < NDEVS → b'.DirtyDev))
      (s.bufs.BfreeStops bp dirty) s := by
  have r := p.release changed
  unfold bfree
  simp only [modifyBuf, wp_bind, wp_modify, wp_ite]
  split
  · next two =>
    refine wp_mono (wp_bdwrite p.wrErr) ?_ ?_
    · rintro _ s' ⟨rfl, dev, rfl⟩
      have out : (s.bufs.release bp dirty).cache.dirty bp := Bufs.dirty_release (by rw [two]; decide)
      have idle : bp ∉ (s.bufs.release bp dirty).busy := fun h => (Bufs.busy_release ▸ h).2 rfl
      have f := Bufs.freed_write idle out dev
      simp only [Int.reduceNeg, reduceCtorEq, if_false, wp_pure]
      exact ⟨_, rfl, r.freed f, fun d h => f.dirtyDev (d.release h)⟩
    · rintro e ⟨rfl, dev⟩
      simp only [Kernel.buf, Bufs.bufpool_set, Function.update_self] at dev
      exact ⟨rfl, two, dev⟩
  · exact ⟨_, rfl, r, fun d h => d.release h⟩

namespace Bufs

/-- `b'` is `b` after the holder of `bp` has overwritten its data with `x`. -/
structure FilledWith (b b' : Bufs) (X : Set Bufptr) (bp : Bufptr) (x : Block) : Prop where
  busy : b'.busy = b.busy
  name : b'.cache.name = b.cache.name
  data : b'.cache.data bp = x
  data_ne : ∀ i ≠ bp, b'.cache.data i = b.cache.data i
  content : ∀ n, b.cache.name bp ≠ some n → b'.cache.content n = b.cache.content n
  pool : b'.Pool (insert bp X)
  dirtyDev : b.DirtyDev → b'.DirtyDev

/-- The pool after the data of a buffer have been overwritten. -/
def fill (b : Bufs) (bp : Bufptr) (x : Block) : Bufs :=
  b.set bp { b.bufpool bp with bfData := x }

/-- Overwriting a buffer changes the content of its name only. -/
lemma Pool.fill {b : Bufs} {X : Set Bufptr} {bp : Bufptr} (p : b.Pool X) (held : bp ∈ b.busy)
    (x : Block) : b.FilledWith (b.fill bp x) X bp x := by
  have f : b.cache.Filled (b.fill bp x).cache bp := by
    constructor
    · funext i
      by_cases e : i = bp
      · subst e
        simp only [cache, Bufs.fill, bufpool_set, Function.update_self]
      · simp only [cache, Bufs.fill, bufpool_set, Function.update_of_ne e]
    · intro i e
      simp only [cache, Bufs.fill, bufpool_set, Function.update_of_ne e]
    · rfl
    · intro i
      by_cases e : i = bp
      · subst e
        simp only [cache, Bufs.fill, bufpool_set, Function.update_self]
      · simp only [cache, Bufs.fill, bufpool_set, Function.update_of_ne e]
  have busy : (b.fill bp x).busy = b.busy := busy_set rfl
  constructor
  · exact busy
  · exact f.name
  · simp only [cache, Bufs.fill, bufpool_set, Function.update_self]
  · exact f.data_ne
  · exact fun n => f.content p.coherent.unique
  · exact ⟨f.coherent p.coherent, busy ▸ Set.insert_subset held p.held, p.rdErr, p.wrErr⟩
  · intro d i hi
    by_cases e : i = bp
    · subst e
      simp only [Bufs.fill, bufpool_set, Function.update_self] at hi ⊢
      exact d i hi
    · simp only [Bufs.fill, bufpool_set, Function.update_of_ne e] at hi ⊢
      exact d i hi

end Bufs

/-- `fill` is the assignment of the data. -/
@[simp] lemma wp_fill {s : Kernel} {bp : Bufptr} {x : Block} {Q : PUnit → Kernel → Prop}
    {E : Panic → Prop} :
    wp (fill bp x) Q E s ↔ Q ⟨⟩ { s with bufs := s.bufs.fill bp x } := Iff.rfl

namespace Bufs

/-- `b'` is `b` after `zerobuf` has returned `bp`: a zeroed buffer without a name. -/
structure Zeroed (b b' : Bufs) (X : Set Bufptr) (bp : Bufptr) : Prop where
  idle : bp ∉ b.busy
  busy : b'.busy = b.busy
  data : b'.cache.data bp = Block.zero
  name_ne : ∀ i ≠ bp, b'.cache.name i = b.cache.name i
  data_ne : ∀ i ≠ bp, b'.cache.data i = b.cache.data i
  content : ∀ n, b'.cache.content n = b.cache.content n
  pool : b'.Pool X
  dirtyDev : b.DirtyDev → b'.DirtyDev

end Bufs

/-- `zerobuf` returns a zeroed buffer and changes no content. -/
lemma wp_zerobuf {s : Kernel} {X : Set Bufptr} (p : s.bufs.Pool X) :
    wp zerobuf (fun bp s' => ∃ b', s' = { s with bufs := b' } ∧ s.bufs.Zeroed b' X bp)
      s.bufs.FreebufStops s := by
  unfold zerobuf
  simp only [wp_bind, wp_modify, modifyBuf, wp_pure]
  refine wp_post (wp_freebuf p.wrErr) ?_
  rintro bp s' ⟨b₁, rfl, f⟩
  obtain ⟨coh, cont⟩ := f.coherent p.coherent
  have hx : bp ∉ X := fun h => f.idle (p.held h)
  have r : b₁.cache.Renamed
      (b₁.set bp { b₁.bufpool bp with bfDev := NODEV, bfData := Block.zero }).cache bp none := by
    constructor
    · simp only [Bufs.cache, Bufs.bufpool_set, Function.update_self, if_true]
    · intro i e
      simp only [Bufs.cache, Bufs.bufpool_set, Function.update_of_ne e]
    · intro i e
      simp only [Bufs.cache, Bufs.bufpool_set, Function.update_of_ne e]
    · rfl
    · intro i e
      simp only [Bufs.cache, Bufs.bufpool_set, Function.update_of_ne e]
    · simp only [reduceCtorEq, IsEmpty.forall_iff, implies_true]
    · exact f.clean
  have busy := Bufs.busy_set (b := b₁) (i := bp)
    (x := { b₁.bufpool bp with bfDev := NODEV, bfData := Block.zero }) rfl
  refine ⟨_, rfl, ?_⟩
  constructor
  · exact f.idle
  · exact busy.trans f.busy
  · simp only [Bufs.cache, Bufs.bufpool_set, Function.update_self]
  · intro i e
    rw [r.name_ne i e, f.name]
  · intro i e
    rw [r.data_ne i e, f.data]
  · intro n
    rw [r.content coh hx (by simp), cont]
  · exact ⟨r.coherent coh (by simp), (busy.trans f.busy) ▸ p.held, f.rdErr ▸ p.rdErr,
      f.wrErr ▸ p.wrErr⟩
  · intro d i hi
    have d₁ := f.dirtyDev d
    by_cases e : i = bp
    · subst e
      simp only [Bufs.bufpool_set, Function.update_self] at hi
      exact absurd hi f.clean
    · simp only [Bufs.bufpool_set, Function.update_of_ne e] at hi ⊢
      exact d₁ i hi

namespace Bufs

/-- `b'` is `b` after `bufsync` has passed all buffers but those of the list `is`. -/
structure Synced (b b' : Bufs) (X : Set Bufptr) (is : List Bufptr) : Prop where
  bufpool : b'.bufpool = b.bufpool
  content : ∀ n, b'.cache.content n = b.cache.content n
  pool : b'.Pool X
  written : ∀ {i n}, i ∉ is → b.cache.name i = some n → b.cache.dirty i →
    b.cache.data i = b'.cache.back n

variable {b b' : Bufs} {X : Set Bufptr}

/-- The parts of the cache that `bufsync` leaves. -/
lemma Synced.eqs {is : List Bufptr} (h : b.Synced b' X is) :
    b'.cache.name = b.cache.name ∧ b'.cache.data = b.cache.data ∧
      b'.cache.dirty = b.cache.dirty := by
  simp only [cache, h.bufpool, and_self]

/-- After `bufsync` with no changed buffer, the devices hold every content. -/
lemma Synced.disk (h : b.Synced b' ∅ []) (dev : Nat) (blk : Word) :
    b'.disk dev blk = b'.content dev blk := by
  obtain ⟨name, data, dirty⟩ := h.eqs
  by_cases ex : ∃ i, b'.cache.name i = some (dev, blk)
  · obtain ⟨i, hi⟩ := ex
    rw [Bufs.content, Cache.content_of_name h.pool.coherent.unique hi]
    by_cases di : b'.cache.dirty i
    · rw [data, h.written List.not_mem_nil (name ▸ hi) (dirty ▸ di)]
      rfl
    · rw [h.pool.coherent.clean hi di (Set.notMem_empty i)]
      rfl
  · rw [Bufs.content, Cache.content_of_forall_ne fun i hi => ex ⟨i, hi⟩]
    rfl

/-- One round of `bufsync` on a dirty buffer. -/
lemma Synced.round {i : Bufptr} {is : List Bufptr} (h : b.Synced b' X (i :: is))
    (dirty : b'.cache.dirty i) (dev : (b'.bufpool i).bfDev < NDEVS) :
    b.Synced (b'.write (b'.bufpool i).bfDev (b'.bufpool i).bfBlk (b'.bufpool i).bfData) X is := by
  obtain ⟨name, data, dirty'⟩ := h.eqs
  have named : b'.cache.name i = some ((b'.bufpool i).bfDev, (b'.bufpool i).bfBlk) :=
    name_eq.mpr ⟨rfl, rfl, (NDEVS_lt_NODEV dev).ne⟩
  have fl : b'.cache.Flushed
      (b'.write (b'.bufpool i).bfDev (b'.bufpool i).bfBlk (b'.bufpool i).bfData).cache i
      ((b'.bufpool i).bfDev, (b'.bufpool i).bfBlk) :=
    ⟨named, rfl, rfl, disk_write, fun m ne => disk_write_of_ne ne, fun _ _ => Iff.rfl⟩
  constructor
  · exact h.bufpool
  · exact fun n => (fl.content h.pool.coherent.unique n).trans (h.content n)
  · exact ⟨fl.coherent h.pool.coherent, h.pool.held, h.pool.rdErr, h.pool.wrErr⟩
  · intro j n hj hn hd
    by_cases e : j = i
    · subst e
      rw [← name, named] at hn
      obtain rfl : _ = n := Option.some.inj hn
      rw [← data]
      exact fl.back.symm
    · have hn' : b'.cache.name j = some n := name ▸ hn
      rw [h.written (by simp [e, hj]) hn hd, fl.back_ne n]
      rintro rfl
      exact e (h.pool.coherent.unique hn' named)

end Bufs

/-- `bufsync` writes every dirty buffer out and changes no content. -/
lemma wp_bufsync {s : Kernel} {X : Set Bufptr} (p : s.bufs.Pool X) :
    wp bufsync (fun _ s' => ∃ b', s' = { s with bufs := b' } ∧ s.bufs.Synced b' X [])
      (fun e => e = .undefined ∧ ¬ s.bufs.DirtyDev) s := by
  refine wp_each (fun is s' => ∃ b', s' = { s with bufs := b' } ∧ s.bufs.Synced b' X is) ?_ ?_
  · rintro i js - _ ⟨b', rfl, h⟩
    unfold bufsyncRound
    simp only [wp_bind, wp_get, wp_ite]
    split
    · next dirty =>
      refine wp_mono (wp_bdwrite h.pool.wrErr) ?_ ?_
      · rintro r s' ⟨-, dev, rfl⟩
        exact ⟨_, rfl, h.round dirty dev⟩
      · rintro e ⟨rfl, dev⟩
        refine ⟨rfl, fun d => dev ?_⟩
        simp only [Kernel.buf, h.bufpool] at dirty ⊢
        exact d i dirty
    · next clean =>
      refine ⟨b', rfl, h.bufpool, h.content, h.pool, fun {j n} hj hn hd => ?_⟩
      by_cases e : j = i
      · subst e
        simp only [Kernel.buf, h.bufpool] at clean
        exact absurd hd clean
      · exact h.written (by simp [e, hj]) hn hd
  · exact ⟨s.bufs, rfl, rfl, fun _ => rfl, p, fun h => absurd (List.mem_finRange _) h⟩

end Uzi
