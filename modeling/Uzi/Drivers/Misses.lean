import Uzi.Drivers.Transparency

/-!
# Hits and misses of the buffer cache

`bread` step by step, whatever the drivers report. A hit jumps over the clearing that `rewrite` 2
asks for, and a miss whose read fails leaves the buffer under the name of the block with the data
it had before.
-/

namespace Uzi
open Exec WriteBack

namespace Bufs

/-- The pool after `freebuf` has taken `bp`: a dirty buffer is written out, unless the driver fails,
and marked clean. -/
def evict (b : Bufs) (bp : Bufptr) : Bufs :=
  (if (b.bufpool bp).bfDirty ≠ 0 ∧ b.wrErr (b.bufpool bp).bfDev (b.bufpool bp).bfBlk = false then
    b.write (b.bufpool bp).bfDev (b.bufpool bp).bfBlk (b.bufpool bp).bfData else b).set bp
      { b.bufpool bp with bfDirty := 0 }

/-- What `bread` leaves in the buffer `bp` that it gives to a block not found. -/
def fetched (b : Bufs) (dev : Nat) (blk : Word) (rewrite : Nat) (bp : Bufptr) : Block :=
  if rewrite = 0 ∧ b.rdErr dev blk = false then b.disk dev blk
  else if rewrite = 2 then Block.zero
  else (b.bufpool bp).bfData

/-- The pool after a miss of `bread`, before the buffer is made busy. -/
def missed (b : Bufs) (dev : Nat) (blk : Word) (rewrite : Nat) (bp : Bufptr) : Bufs :=
  (b.evict bp).rename bp dev blk ((b.evict bp).fetched dev blk rewrite bp)

variable {b : Bufs} {bp : Bufptr} {dev : Nat} {blk : Word} {rewrite : Nat}

/-- The buffers after one has been given up. -/
@[simp] lemma bufpool_evict :
    (b.evict bp).bufpool = Function.update b.bufpool bp { b.bufpool bp with bfDirty := 0 } := by
  unfold evict
  split <;> rfl

/-- The failing reads are as before. -/
@[simp] lemma rdErr_evict : (b.evict bp).rdErr = b.rdErr := by
  unfold evict
  split <;> rfl

/-- The failing writes are as before. -/
@[simp] lemma wrErr_evict : (b.evict bp).wrErr = b.wrErr := by
  unfold evict
  split <;> rfl

/-- The clock is as before. -/
@[simp] lemma bufclock_evict : (b.evict bp).bufclock = b.bufclock := by
  unfold evict
  split <;> rfl

/-- The failing reads are as before. -/
@[simp] lemma rdErr_set {x : Blkbuf} : (b.set bp x).rdErr = b.rdErr := rfl

/-- The buffer has no name. -/
lemma name_evict : (b.evict bp).cache.name = b.cache.name := by
  funext i
  by_cases e : i = bp
  · subst e
    simp only [cache, bufpool_evict, Function.update_self]
  · simp only [cache, bufpool_evict, Function.update_of_ne e]

/-- The buffers in use are as before. -/
lemma busy_evict : (b.evict bp).busy = b.busy := by
  ext i
  by_cases e : i = bp
  · subst e
    simp only [mem_busy, bufpool_evict, Function.update_self]
  · simp only [mem_busy, bufpool_evict, Function.update_of_ne e]

/-- `freebuf` writes to the block of the buffer only. -/
lemma disk_evict_of_ne (h : ¬ ((b.bufpool bp).bfDev = dev ∧ (b.bufpool bp).bfBlk = blk)) :
    (b.evict bp).disk dev blk = b.disk dev blk := by
  unfold evict
  split
  · exact disk_write_of_ne fun e => h ⟨(congrArg Prod.fst e).symm, (congrArg Prod.snd e).symm⟩
  · rfl

/-- A clean buffer is taken as it is. -/
lemma evict_of_clean (h : (b.bufpool bp).bfDirty = 0) : b.evict bp = b := by
  unfold evict
  rw [if_neg fun e => e.1 h, ← h, set, Function.update_eq_self]

/-- A buffer that was not found has another name. -/
lemma ne_of_bfind (h : bfind b dev blk = none) (i : Bufptr) :
    ¬ ((b.bufpool i).bfDev = dev ∧ (b.bufpool i).bfBlk = blk) := by
  have e := List.find?_eq_none.mp h i (List.mem_finRange i)
  rwa [decide_eq_true_eq] at e

end Bufs

/-- `freebuf` takes the oldest buffer, whatever the drivers report. -/
lemma wp_freebuf_evict {s : Kernel} :
    wp freebuf (fun bp s' => oldest s.bufs = some bp ∧ s'.bufs = s.bufs.evict bp)
      s.bufs.FreebufStops s := by
  unfold freebuf
  rw [wp_bind, wp_get]
  cases h : oldest s.bufs with
  | none => exact .inl ⟨rfl, oldest_none h⟩
  | some bp =>
    simp only [wp_bind, wp_get, wp_ite]
    split
    · next dirty =>
      unfold bdwrite
      simp only [wp_bind, wp_get, wp_ite, validdev, not_true_eq_false, if_false, wp_throw]
      split
      · next dev => exact .inr ⟨rfl, fun d => dev (d bp dirty)⟩
      · split
        · next err =>
          refine ⟨rfl, ?_⟩
          rw [Bufs.evict, if_neg fun e => Bool.false_ne_true (e.2.symm.trans err)]
        · next works =>
          refine ⟨rfl, ?_⟩
          rw [Bufs.evict, if_pos ⟨dirty, Bool.eq_false_iff.mpr works⟩]
          rfl
    · next clean => exact ⟨rfl, (Bufs.evict_of_clean (not_not.mp clean)).symm⟩

/-- `bdread`, whatever the driver reports. -/
lemma wp_bdread_cases {s : Kernel} {bp : Bufptr} :
    wp (bdread bp)
      (fun r s' => r = -1 ∧ s.bufs.rdErr (s.buf bp).bfDev (s.buf bp).bfBlk = true ∧ s' = s ∨
        r = 0 ∧ s.bufs.rdErr (s.buf bp).bfDev (s.buf bp).bfBlk = false ∧
          ∃ x, x = s.bufs.disk (s.buf bp).bfDev (s.buf bp).bfBlk ∧
            s' = { s with bufs := s.bufs.set bp { s.buf bp with bfData := x } })
      (fun e => e = .undefined ∧ ¬ (s.buf bp).bfDev < NDEVS) s := by
  unfold bdread
  simp only [wp_bind, wp_get, wp_ite, validdev, not_true_eq_false, if_false, wp_throw]
  split
  · next dev => exact ⟨trivial, dev⟩
  · split
    · next err => exact .inl ⟨rfl, err, rfl⟩
    · next works => exact .inr ⟨rfl, Bool.eq_false_iff.mpr works, _, rfl, rfl⟩

/-- What `bread` has done when it returns `r`. -/
inductive Bread (b : Bufs) (dev : Nat) (blk : Word) (rewrite : Nat) : Option Bufptr → Kernel → Prop
  | hit {bp s'} (found : bfind b dev blk = some bp) (idle : bp ∉ b.busy) (bufs : s'.bufs = b.stamp bp) :
      Bread b dev blk rewrite (some bp) s'
  | miss {bp s'} (unfound : bfind b dev blk = none) (taken : oldest b = some bp)
      (read : rewrite = 0 → b.rdErr dev blk = false)
      (bufs : s'.bufs = (b.missed dev blk rewrite bp).stamp bp) : Bread b dev blk rewrite (some bp) s'
  | failed {bp s'} (unfound : bfind b dev blk = none) (taken : oldest b = some bp) (read : rewrite = 0)
      (err : b.rdErr dev blk = true) (eio : s'.udata.uError = .eio)
      (bufs : s'.bufs = b.missed dev blk 0 bp) : Bread b dev blk rewrite none s'

/-- `bread`, whatever the drivers report. -/
lemma wp_bread_cases {s : Kernel} {dev : Nat} {blk : Word} {rewrite : Nat} (hdev : dev < NODEV) :
    wp (bread dev blk rewrite) (Bread s.bufs dev blk rewrite) (s.bufs.BreadStops dev blk) s := by
  have mod : dev % 256 = dev := Nat.mod_eq_of_lt (hdev.trans (by decide))
  unfold bread
  rw [wp_bind, wp_get]
  cases h : bfind s.bufs dev blk with
  | some bp =>
    simp only [wp_bind, wp_get, wp_ite, wp_throw, wp_breadDone]
    split
    · next busy => exact .inl ⟨rfl, bp, busy, bfind_some hdev.ne h⟩
    · next idle => exact .hit h idle rfl
  | none =>
    simp only [wp_bind]
    refine wp_mono wp_freebuf_evict (fun bp s' got => ?_) fun e he => .inr (.inl he)
    obtain ⟨taken, bufs⟩ := got
    simp only [modifyBuf, wp_modify, wp_ite, wp_bind, mod]
    rw [bufs]
    split
    · next read =>
      refine wp_mono wp_bdread_cases (fun r s' got => ?_) fun e stop => ?_
      · simp only [Kernel.buf, Bufs.bufpool_set, Function.update_self, Bufs.disk_set, Bufs.rdErr_set,
          Bufs.rdErr_evict] at got
        obtain ⟨rfl, err, rfl⟩ | ⟨rfl, works, x, data, rfl⟩ := got
        · have fetched : (s.bufs.evict bp).fetched dev blk 0 bp = ((s.bufs.evict bp).bufpool bp).bfData := by
            refine (if_neg fun e => ?_).trans (if_neg (by decide))
            rw [Bufs.rdErr_evict, err] at e
            exact Bool.false_ne_true e.2.symm
          refine .failed h taken read err rfl ?_
          rw [Bufs.missed, fetched]
          rfl
        · have fetched : (s.bufs.evict bp).fetched dev blk rewrite bp = x :=
            (if_pos ⟨read, by rw [Bufs.rdErr_evict, works]⟩).trans data.symm
          refine .miss h taken (fun _ => works) ?_
          rw [Bufs.missed, fetched]
          exact congrArg (Bufs.stamp · bp) Bufs.set_set
      · simp only [Kernel.buf, Bufs.bufpool_set, Function.update_self] at stop
        exact .inr (.inr stop)
    · next rw =>
      split
      · next two =>
        have fetched : (s.bufs.evict bp).fetched dev blk rewrite bp = Block.zero :=
          (if_neg fun e => rw e.1).trans (if_pos two)
        refine .miss h taken (fun z => absurd z rw) ?_
        rw [Bufs.missed, fetched]
        exact congrArg (Bufs.stamp · bp) (Bufs.set_rename rfl)
      · next rw' =>
        have fetched : (s.bufs.evict bp).fetched dev blk rewrite bp = ((s.bufs.evict bp).bufpool bp).bfData :=
          (if_neg fun e => rw e.1).trans (if_neg rw')
        refine .miss h taken (fun z => absurd z rw) ?_
        rw [Bufs.missed, fetched]
        rfl

/-! ## A block in the pool and a block that is not -/

/-- A name is found in its buffer. -/
lemma bfind_of_name {b : Bufs} {dev : Nat} {blk : Word} {i : Bufptr} (u : b.cache.Unique)
    (name : b.cache.name i = some (dev, blk)) : bfind b dev blk = some i := by
  cases found : bfind b dev blk with
  | none => exact absurd name (bfind_none found i)
  | some j =>
    have hdev : dev ≠ NODEV := (Bufs.name_eq.mp name).2.2
    rw [u (bfind_some hdev found) name]

/-- A hit hands the buffer out as it is, for every `rewrite`. -/
lemma wp_bread_hit {s : Kernel} {dev : Nat} {blk : Word} {rewrite : Nat} {bp : Bufptr}
    {Q : Option Bufptr → Kernel → Prop} {E : Panic → Prop} (found : bfind s.bufs dev blk = some bp)
    (idle : bp ∉ s.bufs.busy) :
    wp (bread dev blk rewrite) Q E s ↔ Q (some bp) { s with bufs := s.bufs.stamp bp } := by
  unfold bread
  rw [wp_bind, wp_get, found]
  simp only [wp_bind, wp_get, wp_ite, wp_breadDone]
  have idle : ¬ (s.buf bp).bfBusy = true := idle
  rw [if_neg idle]

/-- Where `bread` returns it hands out `x`, unless the driver could not read the block. -/
def Kernel.HandsOut (s : Kernel) (dev : Nat) (blk : Word) (rewrite : Nat) (x : Block) : Prop :=
  wp (bread dev blk rewrite)
    (fun r s' => r = none ∧ s.bufs.rdErr dev blk = true ∨ ∃ bp, r = some bp ∧ (s'.buf bp).bfData = x)
    (s.bufs.BreadStops dev blk) s

/-- What `bread` is to hand out. -/
noncomputable def Bufs.promised (b : Bufs) (dev : Nat) (blk : Word) (rewrite : Nat) : Block :=
  if rewrite = 2 then Block.zero else b.content dev blk

/-- The block is in an idle buffer of the pool. -/
def Bufs.Hit (b : Bufs) (dev : Nat) (blk : Word) : Prop := ∃ i, i ∉ b.busy ∧ b.cache.name i = some (dev, blk)

section HandsOut

variable {s s' : Kernel} {dev : Nat} {blk : Word} {rewrite : Nat}

/-- A miss leaves in its buffer what was promised. -/
lemma Bufs.fetched_evict {b : Bufs} {bp : Bufptr} (unfound : bfind b dev blk = none) (rw : rewrite = 0 ∨ rewrite = 2)
    (read : rewrite = 0 → b.rdErr dev blk = false) :
    (b.evict bp).fetched dev blk rewrite bp = b.promised dev blk rewrite := by
  cases rw with
  | inl zero =>
    subst zero
    calc (b.evict bp).fetched dev blk 0 bp = (b.evict bp).disk dev blk :=
          if_pos ⟨rfl, by rw [rdErr_evict, read rfl]⟩
      _ = b.disk dev blk := disk_evict_of_ne (ne_of_bfind unfound bp)
      _ = b.content dev blk := (Cache.content_of_forall_ne (bfind_none unfound)).symm
  | inr two =>
    subst two
    rfl

/-- `bread` hands out what is promised, unless a hit is to be cleared. -/
lemma handsOut_promised (u : s.bufs.cache.Unique) (hdev : dev < NODEV) (rw : rewrite = 0 ∨ rewrite = 2) :
    s.HandsOut dev blk rewrite (s.bufs.promised dev blk rewrite) ↔
      rewrite = 0 ∨ s.bufs.content dev blk = Block.zero ∨ ¬ s.bufs.Hit dev blk := by
  constructor
  · intro h
    refine or_iff_not_imp_left.mpr fun ne => or_iff_not_imp_right.mpr fun hit => ?_
    obtain ⟨i, idle, name⟩ := not_not.mp hit
    have two : rewrite = 2 := rw.resolve_left ne
    rw [Kernel.HandsOut, wp_bread_hit (bfind_of_name u name) idle] at h
    obtain ⟨none, -⟩ | ⟨bp, e, data⟩ := h
    · exact absurd none (Option.some_ne_none i)
    · obtain rfl := Option.some.inj e
      calc s.bufs.content dev blk = (s.bufs.stamp i).cache.data i := by
            rw [Bufs.cache_stamp]
            exact Cache.content_of_name u name
        _ = s.bufs.promised dev blk rewrite := data
        _ = Block.zero := if_pos two
  · intro cond
    refine wp_post (wp_bread_cases hdev) fun r s' got => ?_
    cases got with
    | @hit bp _ found idle bufs =>
      have name := bfind_some hdev.ne found
      refine .inr ⟨bp, rfl, ?_⟩
      have content : (s'.buf bp).bfData = s.bufs.content dev blk := by
        rw [Kernel.buf, bufs]
        show (s.bufs.stamp bp).cache.data bp = _
        rw [Bufs.cache_stamp]
        exact (Cache.content_of_name u name).symm
      rw [content, Bufs.promised]
      obtain zero | zero | miss := cond
      · rw [if_neg (by omega)]
      · rw [zero, ite_self]
      · exact absurd ⟨bp, idle, name⟩ miss
    | @miss bp _ unfound taken read bufs =>
      refine .inr ⟨bp, rfl, ?_⟩
      rw [Kernel.buf, bufs]
      show ((s.bufs.missed dev blk rewrite bp).stamp bp).cache.data bp = _
      rw [Bufs.cache_stamp]
      calc (s.bufs.missed dev blk rewrite bp).cache.data bp =
            (s.bufs.evict bp).fetched dev blk rewrite bp := by
            simp only [Bufs.cache, Bufs.missed, Bufs.rename, Bufs.bufpool_set, Function.update_self]
        _ = _ := Bufs.fetched_evict unfound rw read
    | failed unfound taken read err eio bufs => exact .inl ⟨rfl, err⟩

/-- Two pools with the same contents hand out the same bytes, unless a block that one of them holds
is to be cleared. -/
theorem bread_agrees (u : s.bufs.cache.Unique) (u' : s'.bufs.cache.Unique)
    (same : ∀ d n, s'.bufs.content d n = s.bufs.content d n) (hdev : dev < NODEV)
    (rw : rewrite = 0 ∨ rewrite = 2) :
    s.HandsOut dev blk rewrite (s.bufs.promised dev blk rewrite) ∧
        s'.HandsOut dev blk rewrite (s.bufs.promised dev blk rewrite) ↔
      rewrite = 0 ∨ s.bufs.content dev blk = Block.zero ∨
        ¬ s.bufs.Hit dev blk ∧ ¬ s'.bufs.Hit dev blk := by
  have promised : s.bufs.promised dev blk rewrite = s'.bufs.promised dev blk rewrite := by
    rw [Bufs.promised, Bufs.promised, same]
  have first : s.HandsOut dev blk rewrite (s.bufs.promised dev blk rewrite) ↔ _ :=
    handsOut_promised u hdev rw
  have second : s'.HandsOut dev blk rewrite (s'.bufs.promised dev blk rewrite) ↔ _ :=
    handsOut_promised u' hdev rw
  rw [← promised, same] at second
  rw [first, second, ← or_and_left, ← or_and_left]

end HandsOut

/-- The sevens with one block in the pool. -/
def sevensHeld : Kernel := { sevens with bufs := sevens.bufs.rename 3 0 5 fun _ => 7 }

/-- No buffer has a name. -/
lemma noname_sevens (i : Bufptr) : sevens.bufs.cache.name i = none := by
  have nodev : (sevens.bufs.bufpool i).bfDev = NODEV := rfl
  simp only [Bufs.cache, nodev, if_true]

/-- Buffer 3 gets a name. -/
lemma renamed_sevens : sevens.bufs.cache.Renamed sevensHeld.bufs.cache 3 (some (0, 5)) :=
  Bufs.renamed (by decide) (fun i e => Option.some_ne_none _ (e.symm.trans (noname_sevens i))) fun e => e rfl

/-- The names are different. -/
lemma unique_sevens : sevens.bufs.cache.Unique := fun h => absurd (h.symm.trans (noname_sevens _)) (Option.some_ne_none _)

/-- The contents are sevens. -/
lemma content_sevens (n : Nat × Word) : sevens.bufs.cache.content n = fun _ => 7 :=
  Cache.content_of_forall_ne fun i e => Option.some_ne_none _ (e.symm.trans (noname_sevens i))

/-- The names are different. -/
lemma unique_sevensHeld : sevensHeld.bufs.cache.Unique := renamed_sevens.unique unique_sevens

/-- The block in the pool has the content it has on the device. -/
lemma content_sevensHeld (n : Nat × Word) : sevensHeld.bufs.cache.content n = fun _ => 7 := by
  by_cases e : n = (0, 5)
  · subst e
    exact Cache.content_of_name unique_sevensHeld renamed_sevens.named
  · have coh : sevens.bufs.cache.Coherent ∅ :=
      ⟨unique_sevens, fun h => absurd (h.symm.trans (noname_sevens _)) (Option.some_ne_none _)⟩
    rw [renamed_sevens.content coh (Set.notMem_empty _) fun h => e (Option.some.inj h).symm, content_sevens]

/-- The block is in a buffer. -/
lemma hit_sevensHeld : sevensHeld.bufs.Hit 0 5 := ⟨3, Bool.false_ne_true, renamed_sevens.named⟩

/-- The disk of sevens is handed out, on a miss and on a hit. -/
theorem bread_agrees_sevens :
    sevens.HandsOut 0 5 0 (sevens.bufs.promised 0 5 0) ∧ sevensHeld.HandsOut 0 5 0 (sevens.bufs.promised 0 5 0) :=
  (bread_agrees unique_sevens unique_sevensHeld
    (fun d n => (content_sevensHeld (d, n)).trans (content_sevens (d, n)).symm) (by decide) (.inl rfl)).mpr (.inl rfl)

/-- The block that is in the pool is not cleared, the same block on the device is. -/
theorem not_bread_agrees :
    ¬ ∀ {s s' : Kernel} {dev : Nat} {blk : Word} {rewrite : Nat}, s.bufs.cache.Unique → s'.bufs.cache.Unique →
      (∀ d n, s'.bufs.content d n = s.bufs.content d n) → dev < NODEV → rewrite = 0 ∨ rewrite = 2 →
        s.HandsOut dev blk rewrite (s.bufs.promised dev blk rewrite) ∧
          s'.HandsOut dev blk rewrite (s.bufs.promised dev blk rewrite) := by
  intro h
  have hands := (h unique_sevens unique_sevensHeld
    (fun d n => (content_sevensHeld (d, n)).trans (content_sevens (d, n)).symm) (by decide : 0 < NODEV)
    (.inr rfl : 2 = 0 ∨ 2 = 2) : _ ∧ sevensHeld.HandsOut 0 5 2 _).2
  obtain two | zero | miss := (handsOut_promised unique_sevensHeld (by decide) (.inr rfl)).mp hands
  · cases two
  · have seven : (7 : Word) = 0 := congrFun ((content_sevensHeld (0, 5)).symm.trans zero) 0
    exact absurd seven (by decide)
  · exact miss hit_sevensHeld

/-! ## After a read that failed -/

/-- The states that callers reach from `s₀` with the book `g₀`. -/
inductive Later (s₀ : Kernel) (g₀ : Book) : Kernel → Book → Prop
  | refl : Later s₀ g₀ s₀ g₀
  | step {s s' g c r} (run : Later s₀ g₀ s g) (allowed : g.Allows s.bufs c) (ok : c.run s = .ok (r, s')) :
      Later s₀ g₀ s' (g.after (· ≠ 0) s.bufs r c)

/-- The pool over drivers that report no error any more. -/
def Bufs.mend (b : Bufs) : Bufs := { b with rdErr := fun _ _ => false, wrErr := fun _ _ => false }

/-- The devices work from here on. -/
def Kernel.mend (s : Kernel) : Kernel := { s with bufs := s.bufs.mend }

/-- Whatever callers do after `s'`, a block is read as it was last released, or else as it was in `b`. -/
def Bufs.ReadsLike (b : Bufs) (X : Set Bufptr) (s' : Kernel) : Prop :=
  ∀ t g, Later s'.mend ⟨X, fun _ => none⟩ t g → ∀ dev blk, dev < NODEV →
    wp (bread dev blk 0)
      (fun r u => ∃ bp, r = some bp ∧ (u.buf bp).bfData = (g.last (dev, blk)).getD (b.content dev blk))
      (t.bufs.BreadStops dev blk) t

/-- `freebuf` loses nothing of the buffer it takes. -/
def Bufs.Saved (b : Bufs) (bp : Bufptr) : Prop :=
  (b.bufpool bp).bfDirty ≠ 0 → b.wrErr (b.bufpool bp).bfDev (b.bufpool bp).bfBlk = true →
    b.disk (b.bufpool bp).bfDev (b.bufpool bp).bfBlk = (b.bufpool bp).bfData

section ReadError

variable {s s' : Kernel} {X : Set Bufptr} {dev : Nat} {blk : Word} {bp : Bufptr}

/-- A buffer that is saved is freed. -/
lemma Bufs.Saved.freed {b : Bufs} (saved : b.Saved bp) (idle : bp ∉ b.busy) (d : b.DirtyDev) :
    b.mend.Freed (b.evict bp).mend bp where
  idle := idle
  bufpool := bufpool_evict
  disk := by
    by_cases clean : (b.bufpool bp).bfDirty = 0
    · refine .inl ⟨clean, ?_⟩
      rw [evict_of_clean clean]
    · refine .inr ⟨clean, d bp clean, ?_⟩
      show (b.evict bp).disk = (b.write ..).disk
      unfold evict
      split
      · rfl
      · next err =>
        have err : b.wrErr (b.bufpool bp).bfDev (b.bufpool bp).bfBlk = true :=
          eq_true_of_ne_false fun works => err ⟨clean, works⟩
        funext d n
        show b.disk d n = if d = _ ∧ n = _ then _ else b.disk d n
        split
        · next e =>
          rw [e.1, e.2]
          exact saved clean err
        · rfl
  bufclock := bufclock_evict
  rdErr := rfl
  wrErr := rfl

/-- In every later state blocks are read as the book says. -/
lemma RunInv.later {s₀ t : Kernel} {g₀ g : Book} (h : RunInv s₀ s' g₀) (run : Later s' g₀ t g) :
    RunInv s₀ t g := by
  induction run with
  | refl => exact h
  | step _ allowed ok ih => exact ih.step allowed ok

/-- The pool after a read that failed. -/
lemma Bufs.missed_of_rdErr {b : Bufs} (err : b.rdErr dev blk = true) :
    b.missed dev blk 0 bp = (b.evict bp).rename bp dev blk (b.bufpool bp).bfData := by
  have fetched : (b.evict bp).fetched dev blk 0 bp = (b.bufpool bp).bfData := by
    refine (if_neg fun e => ?_).trans ((if_neg (by decide)).trans ?_)
    · rw [rdErr_evict, err] at e
      exact Bool.false_ne_true e.2.symm
    · rw [bufpool_evict, Function.update_self]
  rw [missed, fetched]

/-- What `bread` leaves behind when it could not read a block. -/
structure Failed (b b' : Bufs) (dev : Nat) (blk : Word) (bp : Bufptr) : Prop where
  unfound : bfind b dev blk = none
  idle : bp ∉ b.busy
  bufs : b' = (b.evict bp).rename bp dev blk (b.bufpool bp).bfData

namespace Failed

variable {b b' : Bufs}

/-- The buffers in use are as before. -/
lemma busy (f : Failed b b' dev blk bp) : b'.busy = b.busy := by
  rw [f.bufs, Bufs.busy_rename, Bufs.busy_evict]

/-- The buffer has the name of the block. -/
lemma renamed (f : Failed b b' dev blk bp) (hdev : dev ≠ NODEV) :
    (b.evict bp).cache.Renamed b'.cache bp (some (dev, blk)) := by
  rw [f.bufs]
  refine Bufs.renamed hdev (fun i => ?_) fun dirty => ?_
  · rw [Bufs.name_evict]
    exact bfind_none f.unfound i
  · simp only [Bufs.cache, Bufs.bufpool_evict, Function.update_self] at dirty
    exact dirty rfl

/-- The names stay different. -/
lemma unique (f : Failed b b' dev blk bp) (hdev : dev ≠ NODEV) (u : b.cache.Unique) : b'.cache.Unique := by
  refine (f.renamed hdev).unique fun {i j n} hi hj => ?_
  rw [Bufs.name_evict] at hi hj
  exact u hi hj

/-- Dirty buffers stay on devices. -/
lemma dirtyDev (f : Failed b b' dev blk bp) (d : b.DirtyDev) (hdev : dev < NDEVS) : b'.DirtyDev := by
  rw [f.bufs]
  refine Bufs.DirtyDev.rename (fun i hi => ?_) hdev
  by_cases e : i = bp
  · subst e
    rw [Bufs.bufpool_evict, Function.update_self] at hi
    exact absurd rfl hi
  · rw [Bufs.bufpool_evict, Function.update_of_ne e] at hi ⊢
    exact d i hi

/-- The buffer has the data it had. -/
lemma data (f : Failed b b' dev blk bp) : (b'.bufpool bp).bfData = (b.bufpool bp).bfData := by
  rw [f.bufs, Bufs.rename, Bufs.bufpool_set, Function.update_self]

end Failed

/-- A `bread` that returns nothing could not read its block. -/
lemma failed_of_bread (hdev : dev < NDEVS) (taken : oldest s.bufs = some bp)
    (fails : bread dev blk 0 s = .ok (none, s')) : s'.udata.uError = .eio ∧ Failed s.bufs s'.bufs dev blk bp := by
  have got := (wp_bread_cases (Bufs.NDEVS_lt_NODEV hdev)).ok fails
  cases got with
  | failed unfound taken' read err eio bufs =>
    obtain rfl := Option.some.inj (taken.symm.trans taken')
    exact ⟨eio, unfound, oldest_not_busy taken, bufs.trans (Bufs.missed_of_rdErr err)⟩

/-- A buffer that has by chance the content of the block that could not be read does no harm. -/
lemma readsLike_of_data (f : Failed s.bufs s'.bufs dev blk bp) (coh : s.bufs.cache.Coherent X)
    (held : X ⊆ s.bufs.busy) (d : s.bufs.DirtyDev) (hdev : dev < NDEVS)
    (data : (s.bufs.bufpool bp).bfData = s.bufs.content dev blk) (saved : s.bufs.Saved bp) :
    s.bufs.ReadsLike X s' := by
  have freed := saved.freed f.idle d
  have pool : s.bufs.mend.Pool X := ⟨coh, held, fun _ _ => rfl, fun _ _ => rfl⟩
  have read : (s.bufs.bufpool bp).bfData = (s.bufs.evict bp).mend.disk dev blk := by
    rw [data]
    exact (Cache.content_of_forall_ne (bfind_none f.unfound)).trans
      (Bufs.disk_evict_of_ne (Bufs.ne_of_bfind f.unfound bp)).symm
  have br := Bufs.Breaded.miss pool (Bufs.NDEVS_lt_NODEV hdev).ne (bfind_none f.unfound) freed
    (fun _ => read) fun (two : 0 = 2) => absurd two (by decide)
  obtain ⟨pool', own⟩ := br.kept (.inl rfl)
  have cache : s'.mend.bufs.cache = (((s.bufs.evict bp).mend.rename bp dev blk
      (s.bufs.bufpool bp).bfData).stamp bp).cache := by
    rw [Bufs.cache_stamp]
    show s'.bufs.cache = _
    rw [f.bufs]
    rfl
  -- What was in the pool before counts as what the devices hold.
  have start : RunInv { s with bufs := { s.bufs with disk := s.bufs.content } } s'.mend ⟨X, fun _ => none⟩ := by
    refine ⟨⟨cache ▸ pool'.coherent, fun i hi => f.busy ▸ held hi, fun _ _ => rfl, fun _ _ => rfl⟩, fun n _ => ?_⟩
    rw [cache]
    by_cases e : n = (dev, blk)
    · exact e ▸ own
    · exact br.content_ne n e
  exact fun t g run d n hd => (start.later run).read n hd

/-- The block is found in the pool when it is read again. -/
lemma data_of_readsLike (f : Failed s.bufs s'.bufs dev blk bp) (u : s.bufs.cache.Unique) (hdev : dev < NDEVS)
    (reads : s.bufs.ReadsLike X s') : (s.bufs.bufpool bp).bfData = s.bufs.content dev blk := by
  have ne : dev ≠ NODEV := (Bufs.NDEVS_lt_NODEV hdev).ne
  have again := reads _ _ .refl dev blk (Bufs.NDEVS_lt_NODEV hdev)
  have found : bfind s'.mend.bufs dev blk = some bp := bfind_of_name (f.unique ne u) (f.renamed ne).named
  have idle : bp ∉ s'.mend.bufs.busy := fun busy => f.idle (f.busy ▸ busy : bp ∈ s.bufs.busy)
  rw [wp_bread_hit found idle] at again
  obtain ⟨q, e, data⟩ := again
  obtain rfl := Option.some.inj e
  calc (s.bufs.bufpool bp).bfData = (s'.bufs.bufpool bp).bfData := f.data.symm
    _ = ((s'.mend.bufs.stamp bp).bufpool bp).bfData := by
      simp only [Bufs.stamp, Bufs.bufpool_set, Function.update_self]
      rfl
    _ = s.bufs.content dev blk := data

/-- The block that the buffer had before is read from its device. -/
lemma saved_of_readsLike (f : Failed s.bufs s'.bufs dev blk bp) (u : s.bufs.cache.Unique) (d : s.bufs.DirtyDev)
    (hdev : dev < NDEVS) (reads : s.bufs.ReadsLike X s') : s.bufs.Saved bp := by
  intro dirty err
  have ne : dev ≠ NODEV := (Bufs.NDEVS_lt_NODEV hdev).ne
  have dev' := d bp dirty
  generalize hd : (s.bufs.bufpool bp).bfDev = d', hb : (s.bufs.bufpool bp).bfBlk = n at err dev' ⊢
  have name : s.bufs.cache.name bp = some (d', n) :=
    Bufs.name_eq.mpr ⟨hd, hb, (Bufs.NDEVS_lt_NODEV dev').ne⟩
  have away : ∀ i, s'.bufs.cache.name i ≠ some (d', n) := by
    intro i hi
    by_cases e : i = bp
    · subst e
      rw [(f.renamed ne).named] at hi
      exact bfind_none f.unfound i (name.trans hi.symm)
    · rw [(f.renamed ne).name_ne i e, Bufs.name_evict] at hi
      exact e (u hi name)
  have disk : s'.bufs.disk d' n = s.bufs.disk d' n := by
    rw [f.bufs]
    show (s.bufs.evict bp).disk d' n = _
    rw [Bufs.evict, if_neg fun e => ?_]
    · rfl
    · rw [hd, hb, err] at e
      exact Bool.false_ne_true e.2.symm
  have both := (reads _ _ .refl d' n (Bufs.NDEVS_lt_NODEV dev')).and (wp_bread_cases (Bufs.NDEVS_lt_NODEV dev'))
  have works : ∀ e, ¬ s'.mend.bufs.BreadStops d' n e := by
    intro e stop
    obtain ⟨-, i, -, hi⟩ | (⟨-, all⟩ | ⟨-, h⟩) | ⟨-, h⟩ := stop
    · exact away i hi
    · exact f.idle (f.busy ▸ all bp : bp ∈ s.bufs.busy)
    · exact h (f.dirtyDev d hdev)
    · exact h dev'
  obtain ⟨r, t, -, ⟨q, eq, data⟩, got⟩ := (wp_mono both (fun _ _ => id) fun e stop => works e stop.1).returns
  subst eq
  cases got with
  | hit found idle bufs => exact absurd (bfind_some (Bufs.NDEVS_lt_NODEV dev').ne found) (away _)
  | miss unfound taken read bufs =>
    have promised : (s'.mend.bufs.evict q).fetched d' n 0 q = s'.mend.bufs.disk d' n :=
      (Bufs.fetched_evict unfound (.inl rfl) read).trans (Cache.content_of_forall_ne away)
    have got : (t.buf q).bfData = s.bufs.disk d' n := by
      rw [Kernel.buf, bufs, ← disk]
      simp only [Bufs.stamp, Bufs.missed, Bufs.rename, Bufs.bufpool_set, Function.update_self, promised]
      rfl
    rw [← got, data]
    exact Cache.content_of_name u name

/-- After a read that failed all blocks are read as before exactly if the buffer taken had the content
of the block already and lost none of its own. -/
theorem bread_failed (coh : s.bufs.cache.Coherent X) (held : X ⊆ s.bufs.busy) (d : s.bufs.DirtyDev)
    (hdev : dev < NDEVS) (taken : oldest s.bufs = some bp) (fails : bread dev blk 0 s = .ok (none, s')) :
    s'.udata.uError = .eio ∧
      (s.bufs.ReadsLike X s' ↔ (s.bufs.bufpool bp).bfData = s.bufs.content dev blk ∧ s.bufs.Saved bp) := by
  obtain ⟨eio, f⟩ := failed_of_bread hdev taken fails
  refine ⟨eio, fun reads => ⟨?_, ?_⟩, fun cond => ?_⟩
  · exact data_of_readsLike f coh.unique hdev reads
  · exact saved_of_readsLike f coh.unique d hdev reads
  · exact readsLike_of_data f coh held d hdev cond.1 cond.2

end ReadError

/-- A pool after `bufinit`, over devices on which block 5 of device 0 cannot be read. -/
def unreadable (disk : Nat → Word → Block) : Kernel :=
  let s := Kernel.inited disk
  { s with bufs := { s.bufs with rdErr := fun d n => d = 0 ∧ n = 5 } }

section Unreadable

variable {disk : Nat → Word → Block}

/-- No buffer has a name. -/
lemma noname_unreadable (i : Bufptr) : (unreadable disk).bufs.cache.name i = none := by
  have nodev : ((unreadable disk).bufs.bufpool i).bfDev = NODEV := rfl
  simp only [Bufs.cache, nodev, if_true]

/-- Nothing is in the cache. -/
lemma coherent_unreadable : (unreadable disk).bufs.cache.Coherent ∅ :=
  ⟨fun h => absurd (h.symm.trans (noname_unreadable _)) (Option.some_ne_none _),
    fun h => absurd (h.symm.trans (noname_unreadable _)) (Option.some_ne_none _)⟩

/-- The contents are those of the disk. -/
lemma content_unreadable {dev : Nat} {blk : Word} : (unreadable disk).bufs.content dev blk = disk dev blk :=
  Cache.content_of_forall_ne fun i e => Option.some_ne_none _ (e.symm.trans (noname_unreadable i))

end Unreadable

/-- Over devices full of zeros the buffer taken has the content of the block. -/
theorem bread_failed_zeros : ∃ s', bread 0 5 0 (unreadable fun _ _ => Block.zero) = .ok (none, s') ∧
    (unreadable fun _ _ => Block.zero).bufs.ReadsLike ∅ s' := by
  have fails : bread 0 5 0 (unreadable fun _ _ => Block.zero) = .ok (none, _) := rfl
  have taken : oldest (unreadable fun _ _ => Block.zero).bufs = some 3 := rfl
  refine ⟨_, fails, (bread_failed coherent_unreadable (Set.empty_subset _) (fun _ h => absurd rfl h)
    (by decide : 0 < NDEVS) taken fails).2.mpr ⟨?_, fun h => absurd rfl h⟩⟩
  rw [content_unreadable]
  rfl

/-- Over devices full of sevens the block is read as zeros after the failure. -/
theorem not_bread_failed :
    ¬ ∀ {s s' : Kernel} {X : Set Bufptr} {dev : Nat} {blk : Word}, s.bufs.cache.Coherent X →
      X ⊆ s.bufs.busy → s.bufs.DirtyDev → dev < NDEVS → bread dev blk 0 s = .ok (none, s') →
        s.bufs.ReadsLike X s' := by
  intro h
  have dev : 0 < NDEVS := by decide
  have fails : bread 0 5 0 (unreadable fun _ _ _ => 7) = .ok (none, _) := rfl
  have taken : oldest (unreadable fun _ _ _ => 7).bufs = some 3 := rfl
  have reads := h coherent_unreadable (Set.empty_subset _) (fun _ h => absurd rfl h) dev fails
  have data := data_of_readsLike (failed_of_bread dev taken fails).2 coherent_unreadable.unique dev reads
  rw [content_unreadable] at data
  have seven : (0 : Word) = 7 := congrFun data 0
  exact absurd seven (by decide)

end Uzi
