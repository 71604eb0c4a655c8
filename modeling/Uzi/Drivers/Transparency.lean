import Uzi.Drivers.BufCache

/-!
# The buffer cache is transparent

Runs of calls of the buffer cache by callers that keep its rules, with a `Book` of what they have
changed and released. In every state of a run no two buffers carry one name, a block is read back
as it was last released, no call changes another block, and after `bufsync` the devices hold all.

A buffer that `bread` handed out without reading its block must be released dirty. `rule` says for
which rewrite flags the callers know that.
-/

namespace Uzi
open Exec WriteBack

/-- What the callers do: the calls of the buffer cache, and a holder's change of a buffer's data. -/
inductive Call
  | bread (dev : Nat) (blk : Word) (rewrite : Nat)
  | change (bp : Bufptr) (x : Block)
  | bfree (bp : Bufptr) (dirty : Byte)
  | zerobuf
  | bufsync

namespace Call

/-- The code of a call; `bread` and `zerobuf` give a buffer. -/
def run : Call → K (Option Bufptr)
  | bread dev blk rewrite => Uzi.bread dev blk rewrite
  | change bp x => do
    fill bp x
    pure none
  | bfree bp dirty => do
    let _ ← Uzi.bfree bp dirty
    pure none
  | zerobuf => do
    let bp ← Uzi.zerobuf
    pure (some bp)
  | bufsync => do
    Uzi.bufsync
    pure none

/-- The block a call is about. -/
def block (s : Bufs) : Call → Option (Nat × Word)
  | bread dev blk _ => some (dev, blk)
  | change bp _ => s.cache.name bp
  | bfree bp _ => s.cache.name bp
  | zerobuf => none
  | bufsync => none

end Call

/-- The callers' book: the buffers changed since they were handed out, and the data that each block
was last released with. -/
structure Book where
  changed : Set Bufptr
  last : Nat × Word → Option Block

namespace Book

/-- Nothing changed and nothing released yet. -/
def start : Book := ⟨∅, fun _ => none⟩

open Classical in
/-- The book after a call that returned `r`. -/
noncomputable def after (rule : Nat → Prop) (g : Book) (s : Bufs) (r : Option Bufptr) :
    Call → Book
  | .bread dev blk rewrite =>
    if rule rewrite ∧ bfind s dev blk = none then { g with changed := g.changed ∪ {i | r = some i} }
    else g
  | .change bp _ => { g with changed := insert bp g.changed }
  | .bfree bp _ =>
    { changed := g.changed \ {bp}
      last := fun n => if s.cache.name bp = some n then some (s.cache.data bp) else g.last n }
  | .zerobuf => g
  | .bufsync => g

/-- A read leaves what was released last. -/
@[simp] lemma last_after_bread {rule : Nat → Prop} {g : Book} {b : Bufs} {r : Option Bufptr}
    {dev : Nat} {blk : Word} {rewrite : Nat} :
    (g.after rule b r (.bread dev blk rewrite)).last = g.last := by
  rw [Book.after]
  split <;> rfl

/-- What is released is the last data of its block. -/
lemma last_after_bfree {rule : Nat → Prop} {g : Book} {b : Bufs} {r : Option Bufptr} {bp : Bufptr}
    {dirty : Byte} {n : Nat × Word} (h : b.cache.name bp = some n) :
    (g.after rule b r (.bfree bp dirty)).last n = some (b.cache.data bp) := if_pos h

/-- The rules that the callers keep: they name a device, change only what they hold, and release a
changed buffer with `dirty` 1 or 2. -/
def Allows (g : Book) (s : Bufs) : Call → Prop
  | .bread dev _ _ => dev < NODEV
  | .change bp _ => bp ∈ s.busy
  | .bfree bp dirty => bp ∈ g.changed → dirty = 1 ∨ dirty = 2
  | .zerobuf => True
  | .bufsync => True

end Book

/-- The states that the callers' calls lead to. -/
inductive Run (rule : Nat → Prop) (s₀ : Kernel) : Kernel → Book → Prop
  | start : Run rule s₀ s₀ .start
  | step {s s' g c r} (run : Run rule s₀ s g) (allowed : g.Allows s.bufs c)
      (ok : c.run s = .ok (r, s')) : Run rule s₀ s' (g.after rule s.bufs r c)

/-- A pool after `bufinit` with no dirty buffer, over drivers that report no error. -/
structure Fresh (s₀ : Kernel) : Prop where
  init : ∃ s, bufinit s = .ok (⟨⟩, s₀)
  clean : ∀ i, (s₀.buf i).bfDirty = 0
  rdErr : ∀ d n, s₀.bufs.rdErr d n = false
  wrErr : ∀ d n, s₀.bufs.wrErr d n = false

/-- What a state of a run promises. -/
structure Transparent (s₀ s : Kernel) (g : Book) : Prop where
  unique : ∀ i j, (s.buf i).bfDev ≠ NODEV → (s.buf i).bfDev = (s.buf j).bfDev →
    (s.buf i).bfBlk = (s.buf j).bfBlk → i = j
  read : ∀ dev blk, dev < NODEV →
    wp (bread dev blk 0)
      (fun r s' => ∃ bp, r = some bp ∧
        (s'.buf bp).bfData = (g.last (dev, blk)).getD (s₀.bufs.disk dev blk))
      (s.bufs.BreadStops dev blk) s
  others : ∀ c r s', g.Allows s.bufs c → c.run s = .ok (r, s') →
    ∀ dev blk, c.block s.bufs ≠ some (dev, blk) →
      s'.bufs.content dev blk = s.bufs.content dev blk
  sync : (∀ i, i ∉ s.bufs.busy) → ∀ s', bufsync s = .ok (⟨⟩, s') →
    ∀ dev blk, s'.bufs.disk dev blk = s'.bufs.content dev blk

/-- The invariant of a run. A block that no holder has changed has the content of the book. -/
structure RunInv (s₀ s : Kernel) (g : Book) : Prop where
  pool : s.bufs.Pool g.changed
  last : ∀ n, (∀ i ∈ g.changed, s.bufs.cache.name i ≠ some n) →
    s.bufs.cache.content n = (g.last n).getD (s₀.bufs.disk n.1 n.2)

/-- After `bufinit` no buffer has a name. -/
lemma wp_bufinit {s : Kernel} :
    wp bufinit (fun _ s' => ∀ i, (s'.buf i).bfDev = NODEV) (fun _ => False) s := by
  have h : wp bufinit (fun _ s' => ∀ i ∉ ([] : List Bufptr), (s'.buf i).bfDev = NODEV)
      (fun _ => False) s := by
    refine wp_each (fun is (s' : Kernel) => ∀ i ∉ is, (s'.buf i).bfDev = NODEV) ?_ ?_
    · rintro i js - s' h
      simp only [modifyBuf, wp_modify]
      intro j hj
      by_cases e : j = i
      · subst e
        simp only [Kernel.buf, Bufs.bufpool_set, Function.update_self]
      · simp only [Kernel.buf, Bufs.bufpool_set, Function.update_of_ne e]
        exact h j (by simp [e, hj])
    · intro i hi
      exact absurd (List.mem_finRange i) hi
  exact wp_post h fun _ s' h i => h i List.not_mem_nil

/-- The invariant holds at the start. -/
lemma RunInv.start {s₀ : Kernel} (f : Fresh s₀) : RunInv s₀ s₀ .start := by
  obtain ⟨s, init⟩ := f.init
  have nodev := wp_bufinit.ok init
  have noname : ∀ i, s₀.bufs.cache.name i = none := fun i => if_pos (nodev i)
  constructor
  · refine ⟨⟨?_, ?_⟩, Set.empty_subset _, f.rdErr, f.wrErr⟩
    · intro i j n h
      simp [noname] at h
    · intro i n h
      simp [noname] at h
  · intro n _
    rw [Cache.content_of_forall_ne fun i => by simp [noname]]
    rfl

/-- What a call does to the pool and the book. Where no changed buffer has the name afterwards, the
call left the content and its entry in the book alone, or entered the content. -/
structure Effect (b b' : Bufs) (g g' : Book) (c : Call) : Prop where
  pool : b'.Pool g'.changed
  content : ∀ n, c.block b ≠ some n → b'.cache.content n = b.cache.content n
  entry : ∀ n, (∀ i ∈ g'.changed, b'.cache.name i ≠ some n) →
    g'.last n = some (b'.cache.content n) ∨
      b'.cache.content n = b.cache.content n ∧ g'.last n = g.last n ∧
        ∀ i ∈ g.changed, b.cache.name i ≠ some n

section Effects

variable {b b' : Bufs} {g : Book} {bp : Bufptr}

/-- `bread` enters nothing; a buffer it does not read in counts as changed. -/
lemma Effect.bread {dev : Nat} {blk : Word} {rewrite : Nat} (p : b.Pool g.changed)
    (hdev : dev < NODEV) (br : b.Breaded b' g.changed dev blk rewrite bp) :
    Effect b b' g (g.after (· ≠ 0) b (some bp) (.bread dev blk rewrite))
      (.bread dev blk rewrite) := by
  have named : ∀ i ∈ g.changed, b'.cache.name i = b.cache.name i := by
    intro i hi
    refine br.name_ne i ?_
    rintro rfl
    exact br.idle (p.held hi)
  have others : ∀ n, Call.block b (.bread dev blk rewrite) ≠ some n →
      b'.cache.content n = b.cache.content n :=
    fun n hn => br.content_ne n fun e => hn (congrArg some e.symm)
  rw [Book.after]
  split
  · next miss =>
    have e : g.changed ∪ {i | some bp = some i} = insert bp g.changed := by
      ext i
      simp [eq_comm]
    rw [e]
    refine ⟨br.pool, others, fun n hn => .inr ⟨others n ?_, rfl, fun i hi => ?_⟩⟩
    · exact fun e => hn bp (Set.mem_insert bp _) (br.name.trans e)
    · exact named i hi ▸ hn i (Set.mem_insert_of_mem bp hi)
  · next kept =>
    have kept : rewrite = 0 ∨ ∃ i, b.cache.name i = some (dev, blk) := by
      by_cases e : rewrite = 0
      · exact .inl e
      · obtain ⟨i, hi⟩ := Option.ne_none_iff_exists'.mp fun none => kept ⟨e, none⟩
        exact .inr ⟨i, bfind_some hdev.ne hi⟩
    obtain ⟨pool, own⟩ := br.kept kept
    refine ⟨pool, others, fun n hn => .inr ⟨?_, rfl, fun i hi => named i hi ▸ hn i hi⟩⟩
    by_cases e : n = (dev, blk)
    · exact e ▸ own
    · exact br.content_ne n e

/-- A holder's change enters nothing. -/
lemma Effect.change {x : Block} (f : b.FilledWith b' g.changed bp x) :
    Effect b b' g (g.after (· ≠ 0) b none (.change bp x)) (.change bp x) where
  pool := f.pool
  content := f.content
  entry n hn := by
    refine .inr ⟨f.content n ?_, rfl, fun i hi => f.name ▸ hn i (Set.mem_insert_of_mem bp hi)⟩
    exact f.name ▸ hn bp (Set.mem_insert bp _)

/-- `bfree` enters the data of the buffer. -/
lemma Effect.bfree {dirty : Byte} (p : b.Pool g.changed) (f : b.Freebuffed b' g.changed bp) :
    Effect b b' g (g.after (· ≠ 0) b none (.bfree bp dirty)) (.bfree bp dirty) where
  pool := f.pool
  content n _ := f.content n
  entry n hn := by
    by_cases e : b.cache.name bp = some n
    · refine .inl ?_
      rw [f.content n, Cache.content_of_name p.coherent.unique e]
      exact if_pos e
    · refine .inr ⟨f.content n, if_neg e, fun i hi => ?_⟩
      by_cases ei : i = bp
      · exact ei ▸ e
      · exact f.name ▸ hn i ⟨hi, ei⟩

/-- `zerobuf` enters nothing. -/
lemma Effect.zerobuf {r : Option Bufptr} (p : b.Pool g.changed) (z : b.Zeroed b' g.changed bp) :
    Effect b b' g (g.after (· ≠ 0) b r .zerobuf) .zerobuf where
  pool := z.pool
  content n _ := z.content n
  entry n hn := by
    refine .inr ⟨z.content n, rfl, fun i hi => ?_⟩
    rw [← z.name_ne i fun e => z.idle (e ▸ p.held hi)]
    exact hn i hi

/-- `bufsync` enters nothing. -/
lemma Effect.bufsync {r : Option Bufptr} (sy : b.Synced b' g.changed []) :
    Effect b b' g (g.after (· ≠ 0) b r .bufsync) .bufsync where
  pool := sy.pool
  content n _ := sy.content n
  entry n hn := .inr ⟨sy.content n, rfl, fun i hi => sy.eqs.1 ▸ hn i hi⟩

end Effects

/-- Every call that returns has its effect. -/
lemma Call.effect {s s' : Kernel} {g : Book} {c : Call} {r : Option Bufptr}
    (p : s.bufs.Pool g.changed) (allowed : g.Allows s.bufs c) (ok : c.run s = .ok (r, s')) :
    Effect s.bufs s'.bufs g (g.after (· ≠ 0) s.bufs r c) c := by
  suffices spec : wp c.run
      (fun r s' => Effect s.bufs s'.bufs g (g.after (· ≠ 0) s.bufs r c) c) (fun _ => True) s from
    spec.ok ok
  cases c with
  | bread dev blk rewrite =>
    refine wp_mono (wp_bread p allowed) ?_ fun _ _ => trivial
    rintro _ _ ⟨bp, b', rfl, rfl, br⟩
    exact .bread p allowed br
  | change bp x => exact .change (p.fill allowed x)
  | bfree bp dirty =>
    have changed : bp ∈ g.changed → dirty ≠ 0 := by
      intro hb
      rcases allowed hb with rfl | rfl <;> decide
    simp only [Call.run, wp_bind, wp_pure]
    refine wp_mono (wp_bfree p changed) ?_ fun _ _ => trivial
    rintro _ _ ⟨b', rfl, f, -⟩
    exact .bfree p f
  | zerobuf =>
    simp only [Call.run, wp_bind, wp_pure]
    refine wp_mono (wp_zerobuf p) ?_ fun _ _ => trivial
    rintro bp _ ⟨b', rfl, z⟩
    exact .zerobuf p z
  | bufsync =>
    simp only [Call.run, wp_bind, wp_pure]
    refine wp_mono (wp_bufsync p) ?_ fun _ _ => trivial
    rintro _ _ ⟨b', rfl, sy⟩
    exact .bufsync sy

/-- One call keeps the invariant. -/
lemma RunInv.step {s₀ s s' : Kernel} {g : Book} {c : Call} {r : Option Bufptr}
    (h : RunInv s₀ s g) (allowed : g.Allows s.bufs c) (ok : c.run s = .ok (r, s')) :
    RunInv s₀ s' (g.after (· ≠ 0) s.bufs r c) := by
  have e := Call.effect h.pool allowed ok
  refine ⟨e.pool, fun n hn => ?_⟩
  rcases e.entry n hn with entered | ⟨cont, last, unchanged⟩
  · rw [entered, Option.getD_some]
  · rw [cont, last, h.last n unchanged]

/-- The invariant holds in every state of a run. -/
lemma RunInv.run {s₀ s : Kernel} {g : Book} (f : Fresh s₀) (h : Run (· ≠ 0) s₀ s g) :
    RunInv s₀ s g := by
  induction h with
  | start => exact .start f
  | step _ allowed ok ih => exact ih.step allowed ok

/-- A block that is read is what the book says. -/
lemma RunInv.read {s₀ s : Kernel} {g : Book} (h : RunInv s₀ s g) {dev : Nat} (blk : Word)
    (hdev : dev < NODEV) :
    wp (bread dev blk 0)
      (fun r s' => ∃ bp, r = some bp ∧
        (s'.buf bp).bfData = (g.last (dev, blk)).getD (s₀.bufs.disk dev blk))
      (s.bufs.BreadStops dev blk) s := by
  refine wp_post (wp_bread h.pool hdev) ?_
  rintro _ _ ⟨bp, b', rfl, rfl, br⟩
  refine ⟨bp, rfl, ?_⟩
  obtain ⟨pool, own⟩ := br.kept (.inl rfl)
  have idle : ∀ i ∈ g.changed, s.bufs.cache.name i ≠ some (dev, blk) := by
    intro i hi e
    have ne : i ≠ bp := fun e => br.idle (e ▸ h.pool.held hi)
    exact ne (pool.coherent.unique ((br.name_ne i ne).trans e) br.name)
  calc b'.cache.data bp = b'.content dev blk :=
        (Cache.content_of_name pool.coherent.unique br.name).symm
    _ = s.bufs.content dev blk := own
    _ = _ := h.last (dev, blk) idle

/-- In every state of a run whose callers count each buffer that is not read in as changed, the
cache is transparent. -/
theorem transparent {s₀ s : Kernel} {g : Book} (f : Fresh s₀) (run : Run (· ≠ 0) s₀ s g) :
    Transparent s₀ s g := by
  have h := RunInv.run f run
  constructor
  · intro i j hi hdev hblk
    exact h.pool.coherent.unique (Bufs.name_eq.mpr ⟨rfl, rfl, hi⟩)
      (Bufs.name_eq.mpr ⟨hdev.symm, hblk.symm, hi⟩)
  · intro dev blk hdev
    exact h.read blk hdev
  · intro c r s' allowed ok dev blk other
    exact (Call.effect h.pool allowed ok).content (dev, blk) other
  · intro idle s' ok
    obtain ⟨b', rfl, sy⟩ := (wp_bufsync h.pool).ok ok
    have none : g.changed = ∅ := Set.eq_empty_of_forall_notMem fun i hi => idle i (h.pool.held hi)
    exact (none ▸ sy).disk

/-- The pool after `bufinit`, over devices full of sevens. -/
def sevens : Kernel := Kernel.inited fun _ _ _ => 7

/-- A disk of sevens is fresh. -/
lemma fresh_sevens : Fresh sevens where
  init := by
    have round : ∀ i, modifyBuf i (fun b => { b with bfDev := NODEV }) sevens = .ok (⟨⟩, sevens) := by
      intro i
      have same : Function.update sevens.bufs.bufpool i (sevens.bufs.bufpool i)
        = sevens.bufs.bufpool := Function.update_eq_self i _
      show Except.ok (PUnit.unit, { sevens with bufs := { sevens.bufs with
        bufpool := Function.update sevens.bufs.bufpool i (sevens.bufs.bufpool i) } }) = _
      rw [same]
    have all : ∀ is, each is (fun i => modifyBuf i fun b => { b with bfDev := NODEV }) sevens =
        .ok (⟨⟩, sevens) := by
      intro is
      induction is with
      | nil => rfl
      | cons i is ih =>
        have e : ∀ c d : K PUnit, (c >>= fun _ => d) sevens = (c sevens).bind fun r => d r.2 :=
          fun _ _ => rfl
        rw [each, e, round i]
        exact ih
    exact ⟨sevens, all _⟩
  clean _ := rfl
  rdErr _ _ := rfl
  wrErr _ _ := rfl

/-- The cache is transparent in a run that releases a rewritten block. -/
theorem transparent_sevens :
    ∃ s g, Run (· ≠ 0) sevens s g ∧ g.last (0, 5) = some (fun _ => 3) ∧ Transparent sevens s g := by
  have run : Run (· ≠ 0) sevens _ _ := .step (c := .bread 0 5 1) .start (by decide : 0 < NODEV) rfl
  have run := run.step (c := .change 3 fun _ => 3) (rfl : _ = true) rfl
  have run := run.step (c := .bfree 3 2) (fun _ => .inr rfl) rfl
  exact ⟨_, _, run, Book.last_after_bfree rfl, transparent fresh_sevens run⟩

/-- A call that releases nothing leaves the data last released in the book. -/
lemma Run.step_last {rule : Nat → Prop} {s₀ s s' : Kernel} {g : Book} {c : Call} {r : Option Bufptr}
    (run : Run rule s₀ s g) (allowed : g.Allows s.bufs c) (ok : c.run s = .ok (r, s'))
    (keeps : (g.after rule s.bufs r c).last = g.last) :
    ∃ g', Run rule s₀ s' g' ∧ g'.last = g.last :=
  ⟨_, run.step allowed ok, keeps⟩

/-- A block that `bread` zeroed and that is released clean is lost, and read back from the device. -/
theorem not_transparent :
    ¬ ∀ {s₀ s : Kernel} {g : Book}, Fresh s₀ → Run (· = 1) s₀ s g → Transparent s₀ s g := by
  intro h
  have dev : 0 < NODEV := by decide
  have run : Run (· = 1) sevens _ _ := .step (c := .bread 0 0 2) .start dev rfl
  have run := run.step (c := .bfree 3 0) (by simp [Book.Allows, Book.after, Book.start]) rfl
  obtain ⟨g, run, last⟩ : ∃ g, Run (· = 1) sevens _ g ∧ g.last (0, 0) = some Block.zero :=
    ⟨_, run, Book.last_after_bfree rfl⟩
  -- The other three buffers are taken, so that the zeroed one is evicted.
  obtain ⟨g, run, e⟩ := run.step_last (c := .bread 0 1 0) dev rfl Book.last_after_bread
  rw [← e] at last
  obtain ⟨g, run, e⟩ := run.step_last (c := .bread 0 2 0) dev rfl Book.last_after_bread
  rw [← e] at last
  obtain ⟨g, run, e⟩ := run.step_last (c := .bread 0 3 0) dev rfl Book.last_after_bread
  rw [← e] at last
  obtain ⟨g, run, e⟩ := run.step_last (c := .zerobuf) trivial rfl rfl
  rw [← e] at last
  obtain ⟨bp, e, data⟩ := ((h fresh_sevens run).read 0 0 dev).ok rfl
  obtain rfl := Option.some.inj e
  rw [last, Option.getD_some] at data
  have seven : (7 : Word) = 0 := congrFun data 0
  exact absurd seven (by decide)

end Uzi
