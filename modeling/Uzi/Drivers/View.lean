import Uzi.Drivers.BufCache
import Mathlib.Data.Fintype.Card

/-!
# The block buffers from above

What the rest of the kernel sees of the buffers: the content of every block and the blocks that are
held (`View`). The calls of `drivers/devio.c` are specified once more as operations on the view, on
pools in which no holder's change is pending (`Bufs.Good`).
-/

namespace Uzi
open Exec WriteBack

/-- The contents of the blocks, and which block each busy buffer holds. -/
@[ext] structure View where
  content : Nat × Word → Block
  held : Bufptr → Option (Nat × Word)

namespace View

/-- `bp` gets hold of block `n`. -/
def hold (v : View) (bp : Bufptr) (n : Nat × Word) : View :=
  { v with held := Function.update v.held bp (some n) }

/-- `bp` is released. -/
def release (v : View) (bp : Bufptr) : View := { v with held := Function.update v.held bp none }

/-- Block `n` gets new data. -/
def put (v : View) (n : Nat × Word) (x : Block) : View :=
  { v with content := Function.update v.content n x }

/-- The number of buffers that are held. -/
def nheld (v : View) : Nat := (Finset.univ.filter fun i => (v.held i).isSome).card

/-- Why code stops that gets hold of the blocks `N` and of at most `k + 1` buffers at a time. -/
def Stops (v : View) (k : Nat) (N : Set (Nat × Word)) (e : Panic) : Prop :=
  e = .wantBusyBlock ∧ (∃ i, ∃ n ∈ N, v.held i = some n) ∨
    e = .noFreeBuffers ∧ NBUFS ≤ v.nheld + k

variable {v : View} {bp : Bufptr} {n m : Nat × Word} {x : Block}

/-- To take a buffer leaves the contents. -/
@[simp] lemma content_hold : (v.hold bp n).content = v.content := rfl

/-- To release a buffer leaves the contents. -/
@[simp] lemma content_release : (v.release bp).content = v.content := rfl

/-- A new content leaves what is held. -/
@[simp] lemma held_put : (v.put n x).held = v.held := rfl

/-- A new content leaves how many are held. -/
@[simp] lemma nheld_put : (v.put n x).nheld = v.nheld := rfl

/-- The new content. -/
@[simp] lemma content_put : (v.put n x).content n = x := by
  simp only [put, Function.update_self]

/-- The other contents. -/
lemma content_put_of_ne (h : m ≠ n) : (v.put n x).content m = v.content m := by
  simp only [put, Function.update_of_ne h]

/-- The buffer is held. -/
@[simp] lemma held_hold : (v.hold bp n).held bp = some n := Function.update_self bp _ v.held

/-- The other buffers. -/
lemma held_hold_of_ne {i : Bufptr} (h : i ≠ bp) : (v.hold bp n).held i = v.held i :=
  Function.update_of_ne h _ v.held

/-- A buffer is taken, and then a content changes. -/
@[simp] lemma put_hold : (v.hold bp n).put m x = (v.put m x).hold bp n := rfl

/-- A content changes, and then a buffer is released. -/
@[simp] lemma release_put : (v.put m x).release bp = (v.release bp).put m x := rfl

/-- The last content. -/
@[simp] lemma put_put {y : Block} : (v.put n x).put n y = v.put n y := by
  simp only [put, Function.update_idem]

/-- A block that gets the data it has. -/
lemma put_content : v.put n (v.content n) = v := by
  simp only [put, Function.update_eq_self]

/-- A buffer that is held and released again. -/
lemma release_hold (h : v.held bp = none) : (v.hold bp n).release bp = v := by
  ext1
  · rfl
  · rw [release, hold, Function.update_idem, ← h, Function.update_eq_self]

/-- One more buffer is held. -/
lemma nheld_hold (h : v.held bp = none) : (v.hold bp n).nheld = v.nheld + 1 := by
  have e : Finset.univ.filter (fun i => ((v.hold bp n).held i).isSome) =
      insert bp (Finset.univ.filter fun i => (v.held i).isSome) := by
    ext i
    by_cases e : i = bp
    · subst e
      simp
    · simp [held_hold_of_ne e, e]
  rw [nheld, e, Finset.card_insert_of_notMem (by simp [h]), nheld]

/-- A larger number of buffers, and more blocks. -/
lemma Stops.mono {k k' : Nat} {N N' : Set (Nat × Word)} {e : Panic} (h : v.Stops k N e)
    (hk : k ≤ k') (hN : N ⊆ N') : v.Stops k' N' e := by
  rcases h with ⟨rfl, i, n, hn, hi⟩ | ⟨rfl, h⟩
  · exact .inl ⟨rfl, i, n, hN hn, hi⟩
  · exact .inr ⟨rfl, h.trans (Nat.add_le_add_left hk _)⟩

/-- The contents do not matter. -/
lemma Stops.of_held {v' : View} {k : Nat} {N : Set (Nat × Word)} {e : Panic} (h : v.Stops k N e)
    (held : v.held = v'.held) : v'.Stops k N e := by
  unfold Stops nheld at *
  rwa [← held]

/-- Code that runs while one more block is held. -/
lemma Stops.of_hold {k : Nat} {N : Set (Nat × Word)} {e : Panic} (h : (v.hold bp n).Stops k N e)
    (idle : v.held bp = none) (hn : n ∉ N) : v.Stops (k + 1) N e := by
  rcases h with ⟨rfl, i, m, hm, hi⟩ | ⟨rfl, h⟩
  · refine .inl ⟨rfl, i, m, hm, ?_⟩
    rw [← hi, held_hold_of_ne]
    rintro rfl
    rw [held_hold] at hi
    exact hn (Option.some.inj hi ▸ hm)
  · rw [nheld_hold idle] at h
    exact .inr ⟨rfl, by omega⟩

/-- Code that finds its blocks free and a buffer idle does not stop. -/
lemma not_stops {k : Nat} {N : Set (Nat × Word)} {e : Panic} (free : ∀ i, ∀ n ∈ N, v.held i ≠ some n)
    (idle : v.nheld + k < NBUFS) : ¬ v.Stops k N e := by
  rintro (⟨-, i, n, hn, hi⟩ | ⟨-, h⟩)
  · exact free i n hn hi
  · omega

/-- Nothing stops while no buffer is held. -/
lemma not_stops_of_idle {k : Nat} {N : Set (Nat × Word)} {e : Panic} (idle : ∀ i, v.held i = none)
    (hk : k < NBUFS) : ¬ v.Stops k N e := by
  refine not_stops (fun i n _ h => ?_) ?_
  · rw [idle i] at h
    cases h
  · have none : v.nheld = 0 := by simp [nheld, idle]
    omega

end View

namespace Bufs

/-- No change is pending, no driver reports an error, and every dirty buffer has a device and every
busy one a block. -/
structure Good (b : Bufs) : Prop where
  pool : b.Pool ∅
  dirtyDev : b.DirtyDev
  named : ∀ i ∈ b.busy, b.cache.name i ≠ none

/-- The pool from above. -/
noncomputable def view (b : Bufs) : View where
  content := b.cache.content
  held i := if (b.bufpool i).bfBusy then b.cache.name i else none

variable {b : Bufs} {i : Bufptr} {n : Nat × Word}

/-- What a busy buffer is held for. -/
lemma held_of_busy (h : i ∈ b.busy) : b.view.held i = b.cache.name i := if_pos h

/-- An idle buffer is not held. -/
lemma held_of_idle (h : i ∉ b.busy) : b.view.held i = none := if_neg h

/-- A buffer that is held is busy. -/
lemma busy_of_held (h : b.view.held i = some n) : i ∈ b.busy := by
  by_contra idle
  rw [held_of_idle idle] at h
  exact absurd h (by simp)

/-- The name of a buffer that is held. -/
lemma name_of_held (h : b.view.held i = some n) : b.cache.name i = some n := by
  rw [← held_of_busy (busy_of_held h), h]

/-- A held buffer has the content of its block. -/
lemma Good.data (g : b.Good) (h : b.view.held i = some n) :
    (b.bufpool i).bfData = b.view.content n :=
  (Cache.content_of_name g.pool.coherent.unique (name_of_held h)).symm

/-- All buffers are held when all are busy. -/
lemma Good.nheld (g : b.Good) (h : ∀ i, i ∈ b.busy) : NBUFS ≤ b.view.nheld := by
  have all : ∀ i, (b.view.held i).isSome := by
    intro i
    rw [held_of_busy (h i)]
    exact Option.isSome_iff_ne_none.mpr (g.named i (h i))
  simp [View.nheld, all]

/-- A pool without names is good, and shows the devices. -/
lemma good_inited {disk : Nat → Word → Block} :
    (Kernel.inited disk).bufs.Good ∧ (Kernel.inited disk).bufs.view =
      ⟨fun n => disk n.1 n.2, fun _ => none⟩ := by
  have noname : ∀ i, (Kernel.inited disk).bufs.cache.name i = none := by
    intro i
    have nodev : ((Kernel.inited disk).bufs.bufpool i).bfDev = NODEV := rfl
    simp only [cache, nodev, if_true]
  refine ⟨⟨⟨⟨?_, ?_⟩, Set.empty_subset _, fun _ _ => rfl, fun _ _ => rfl⟩, ?_, ?_⟩, ?_⟩
  · intro i j n h
    simp [noname] at h
  · intro i n h
    simp [noname] at h
  · exact fun i h => absurd rfl h
  · exact fun i h => absurd h Bool.false_ne_true
  · ext1
    · funext n
      exact Cache.content_of_forall_ne fun i => by simp [noname]
    · rfl

/-- The reasons for which `bread` stops, from above. -/
lemma Good.stops (g : b.Good) {dev : Nat} {blk : Word} (hdev : dev < NDEVS) {e : Panic}
    (h : b.BreadStops dev blk e) : b.view.Stops 0 {(dev, blk)} e := by
  rcases h with ⟨rfl, i, hi, name⟩ | (⟨rfl, all⟩ | ⟨-, h⟩) | ⟨-, h⟩
  · exact .inl ⟨rfl, i, (dev, blk), rfl, (held_of_busy hi).trans name⟩
  · exact .inr ⟨rfl, g.nheld all⟩
  · exact absurd g.dirtyDev h
  · exact absurd hdev h

/-- The view after a buffer has been handed out. -/
lemma Breaded.held {b b' : Bufs} {X : Set Bufptr} {dev : Nat} {blk : Word} {rewrite : Nat}
    {bp : Bufptr} (br : b.Breaded b' X dev blk rewrite bp) :
    b'.view.held = (b.view.hold bp (dev, blk)).held := by
  funext i
  by_cases e : i = bp
  · subst e
    rw [View.held_hold, held_of_busy (br.busy ▸ Set.mem_insert i b.busy), br.name]
  · rw [View.held_hold_of_ne e]
    have same : i ∈ b'.busy ↔ i ∈ b.busy := by
      rw [br.busy, Set.mem_insert_iff]
      exact or_iff_right e
    by_cases hi : i ∈ b.busy
    · rw [held_of_busy (same.mpr hi), held_of_busy hi, br.name_ne i e]
    · rw [held_of_idle (mt same.mp hi), held_of_idle hi]

/-- Every busy buffer still has a name. -/
lemma Breaded.named {b b' : Bufs} {X : Set Bufptr} {dev : Nat} {blk : Word} {rewrite : Nat}
    {bp : Bufptr} (br : b.Breaded b' X dev blk rewrite bp)
    (h : ∀ i ∈ b.busy, b.cache.name i ≠ none) : ∀ i ∈ b'.busy, b'.cache.name i ≠ none := by
  intro i hi
  by_cases e : i = bp
  · subst e
    rw [br.name]
    exact Option.some_ne_none _
  · rw [br.name_ne i e]
    rw [br.busy] at hi
    exact h i (hi.resolve_left e)

/-- The view after a buffer has been released. -/
lemma Freebuffed.view {b b' : Bufs} {X : Set Bufptr} {bp : Bufptr} (f : b.Freebuffed b' X bp) :
    b'.view = b.view.release bp := by
  ext1
  · funext n
    exact f.content n
  · funext i
    show _ = Function.update b.view.held bp none i
    by_cases e : i = bp
    · subst e
      rw [Function.update_self, held_of_idle]
      rw [f.busy]
      exact fun h => h.2 rfl
    · rw [Function.update_of_ne e]
      have same : i ∈ b'.busy ↔ i ∈ b.busy := by
        rw [f.busy, Set.mem_sdiff, Set.mem_singleton_iff]
        exact and_iff_left e
      by_cases hi : i ∈ b.busy
      · rw [held_of_busy (same.mpr hi), held_of_busy hi, f.name]
      · rw [held_of_idle (mt same.mp hi), held_of_idle hi]

end Bufs

/-- `bread` without `rewrite` hands the block out. -/
lemma wp_breadPtr {s : Kernel} {dev : Nat} {blk : Word} (g : s.bufs.Good) (hdev : dev < NDEVS) :
    wp (breadPtr dev blk 0)
      (fun bp s' => ∃ b', s' = { s with bufs := b' } ∧ b'.Good ∧ s.bufs.view.held bp = none ∧
        b'.view = s.bufs.view.hold bp (dev, blk))
      (s.bufs.view.Stops 0 {(dev, blk)}) s := by
  unfold breadPtr
  rw [wp_bind]
  refine wp_mono (wp_bread g.pool (Bufs.NDEVS_lt_NODEV hdev)) ?_ fun e => g.stops hdev
  rintro _ _ ⟨bp, b', rfl, rfl, br⟩
  obtain ⟨pool, own⟩ := br.kept (.inl rfl)
  refine ⟨b', rfl, ⟨pool, br.dirtyDev hdev g.dirtyDev, br.named g.named⟩,
    Bufs.held_of_idle br.idle, View.ext ?_ br.held⟩
  funext n
  by_cases e : n = (dev, blk)
  · subst e
    exact own
  · exact br.content_ne n e

/-- `brelse` releases the buffer. -/
lemma wp_brelse {s : Kernel} {bp : Bufptr} (g : s.bufs.Good) :
    wp (brelse bp)
      (fun _ s' => ∃ b', s' = { s with bufs := b' } ∧ b'.Good ∧ b'.view = s.bufs.view.release bp)
      (fun _ => False) s := by
  unfold brelse
  simp only [wp_bind, wp_pure]
  refine wp_mono (wp_bfree g.pool (by simp)) ?_ ?_
  · rintro _ _ ⟨b', rfl, f, d⟩
    refine ⟨b', rfl, ⟨?_, d g.dirtyDev (.inl rfl), fun i hi => ?_⟩, f.view⟩
    · simpa using f.pool
    · rw [f.name]
      rw [f.busy] at hi
      exact g.named i hi.1
  · rintro e ⟨-, two, -⟩
    exact absurd two (by decide)

/-- `brelse` ends what `bread` began. -/
lemma wp_brelse_hold {s : Kernel} {v : View} {bp : Bufptr} {n : Nat × Word} (g : s.bufs.Good)
    (idle : v.held bp = none) (hold : s.bufs.view = v.hold bp n) :
    wp (brelse bp) (fun _ s' => ∃ b', s' = { s with bufs := b' } ∧ b'.Good ∧ b'.view = v)
      (fun _ => False) s := by
  refine wp_post (wp_brelse g) ?_
  rintro _ _ ⟨b', rfl, g', v'⟩
  exact ⟨b', rfl, g', by rw [v', hold, View.release_hold idle]⟩

namespace Bufs

/-- The holder of `bp` is about to overwrite block `n`; `v` is the view without the buffer. -/
structure Pending (b : Bufs) (v : View) (bp : Bufptr) (n : Nat × Word) : Prop where
  dev : n.1 < NDEVS
  pool : b.Pool {bp}
  dirtyDev : b.DirtyDev
  named : ∀ i ∈ b.busy, b.cache.name i ≠ none
  idle : v.held bp = none
  held : b.view.held = (v.hold bp n).held
  content : ∀ m ≠ n, b.cache.content m = v.content m

/-- A holder may overwrite its block. -/
lemma Good.pending {b : Bufs} {bp : Bufptr} {n : Nat × Word} (g : b.Good)
    (h : b.view.held bp = some n) (dev : n.1 < NDEVS) :
    b.Pending (b.view.release bp) bp n where
  dev := dev
  pool := by
    have p := g.pool.insert (busy_of_held h)
    simpa using p
  dirtyDev := g.dirtyDev
  named := g.named
  idle := by simp only [View.release, Function.update_self]
  held := by
    simp only [View.release, View.hold, Function.update_idem, ← h, Function.update_eq_self]
  content _ _ := rfl

end Bufs

/-- `bread` with `rewrite` hands out a buffer whose data are not to be used. -/
lemma wp_breadPtr_rewrite {s : Kernel} {dev : Nat} {blk : Word} {rewrite : Nat} (g : s.bufs.Good)
    (hdev : dev < NDEVS) :
    wp (breadPtr dev blk rewrite)
      (fun bp s' => ∃ b', s' = { s with bufs := b' } ∧ b'.Pending s.bufs.view bp (dev, blk))
      (s.bufs.view.Stops 0 {(dev, blk)}) s := by
  unfold breadPtr
  rw [wp_bind]
  refine wp_mono (wp_bread g.pool (Bufs.NDEVS_lt_NODEV hdev)) ?_ fun e => g.stops hdev
  rintro _ _ ⟨bp, b', rfl, rfl, br⟩
  refine ⟨b', rfl, hdev, ?_, br.dirtyDev hdev g.dirtyDev, br.named g.named,
    Bufs.held_of_idle br.idle, br.held, br.content_ne⟩
  simpa using br.pool

/-- A buffer that is overwritten and released dirty puts its block. -/
lemma wp_bfree_fill {s : Kernel} {v : View} {bp : Bufptr} {n : Nat × Word} {x : Block}
    {dirty : Byte} (p : s.bufs.Pending v bp n) (hd : dirty ≠ 0) :
    wp (bfree bp dirty)
      (fun _ s' => ∃ b', s' = { s with bufs := b' } ∧ b'.Good ∧ b'.view = v.put n x)
      (fun _ => False) { s with bufs := s.bufs.fill bp x } := by
  have name : s.bufs.cache.name bp = some n := by
    refine Bufs.name_of_held ?_
    rw [p.held, View.held_hold]
  have busy : bp ∈ s.bufs.busy := by
    refine Bufs.busy_of_held (n := n) ?_
    rw [p.held, View.held_hold]
  have fl := p.pool.fill busy x
  have pool : (s.bufs.fill bp x).Pool {bp} := by simpa using fl.pool
  have dev : ((s.bufs.fill bp x).bufpool bp).bfDev < NDEVS := by
    obtain ⟨e, -⟩ := Bufs.name_eq.mp (fl.name ▸ name : _ = some (n.1, n.2))
    rw [e]
    exact p.dev
  refine wp_mono (wp_bfree pool fun _ => hd) ?_ fun e ⟨_, _, h⟩ => h dev
  rintro _ _ ⟨b', rfl, f, d⟩
  have same : ∀ i, i ∈ (s.bufs.fill bp x).busy ↔ i ∈ s.bufs.busy := fun i => by rw [fl.busy]
  refine ⟨b', rfl, ⟨?_, d (fl.dirtyDev p.dirtyDev) (.inr dev), fun i hi => ?_⟩, View.ext ?_ ?_⟩
  · simpa using f.pool
  · rw [f.name, fl.name]
    rw [f.busy] at hi
    exact p.named i ((same i).mp hi.1)
  · funext m
    show b'.cache.content m = _
    rw [f.content]
    by_cases e : m = n
    · subst e
      rw [View.content_put, Cache.content_of_name pool.coherent.unique (fl.name ▸ name), fl.data]
    · rw [View.content_put_of_ne e, fl.content m fun h => e ?_, p.content m e]
      exact (Option.some.inj (name.symm.trans h)).symm
  · rw [f.view, View.held_put]
    have held : (s.bufs.fill bp x).view.held = (v.hold bp n).held := by
      rw [← p.held]
      funext i
      by_cases hi : i ∈ s.bufs.busy
      · rw [Bufs.held_of_busy ((same i).mpr hi), Bufs.held_of_busy hi, fl.name]
      · rw [Bufs.held_of_idle (mt (same i).mp hi), Bufs.held_of_idle hi]
    have e := congrArg View.held (View.release_hold p.idle (n := n))
    rw [← e]
    simp only [View.release, held]

/-- `bawrite` puts the block of an overwritten buffer. -/
lemma wp_bawrite_fill {s : Kernel} {v : View} {bp : Bufptr} {n : Nat × Word} {x : Block}
    (p : s.bufs.Pending v bp n) :
    wp (bawrite bp)
      (fun _ s' => ∃ b', s' = { s with bufs := b' } ∧ b'.Good ∧ b'.view = v.put n x)
      (fun _ => False) { s with bufs := s.bufs.fill bp x } := by
  unfold bawrite
  rw [wp_bind]
  exact wp_bfree_fill p (by decide)

end Uzi
