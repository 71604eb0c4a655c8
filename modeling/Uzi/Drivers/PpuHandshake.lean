import Uzi.Drivers.PpuBudget
import Uzi.Drivers.Console

/-!
# The PPU buffer handshake

Between its statements the console and driver code keeps one of few assertions. `Idle`: the buffer holds
whole requests, none of them a read. `Held`: the same under `ppu_locked`, where the handler does
nothing. `Joined`: behind such requests the read of the present pass. `Fetched`: the read has been
performed, its bytes lie in `ppu_readbuf` and `ppu_readbuf_dirty` keeps the handler away. Each of them
implies `Handshake`.
-/

namespace Uzi.Ppu
open Interrupts Cmd

/-- The queue entry of a request. -/
def Request.entry (r : Request) : Entry :=
  ⟨r.desc, (List.range (descDatalen r.desc).toNat).map r.payload⟩

/-- The request is a read. -/
def Request.Reads : Request → Prop
  | .read _ _ _ => True
  | _ => False

/-- The bytes of a pass are those fetched for the descriptor that was queued in it. -/
def Copied.Faithful (c : Copied) (s : Vars) : Prop :=
  s.queued[c.number]?.map (·.desc) = some c.desc ∧ s.processed[c.number]?.map (·.fetched) = some c.bytes

/-- The handshake in a state: the entries of the queue are whole requests, the descriptors performed
so far are the first of them, each performed once and as it was asked for; every pass of `ppuwd_read`
that is over has copied what was fetched for its descriptor; and `handle_vblank` returns and performs
all the rest, unless the buffer is locked or the bytes of a read wait in `ppu_readbuf`. -/
def Handshake (s : Vars) : Prop :=
  ∃ rs : List Request, s.queued = rs.map Request.entry ∧
    s.processed.map (·.ops) = (rs.take s.processed.length).map Request.ops ∧
    (∀ c ∈ s.copied, c.Faithful s) ∧
    ∀ data, ∃ s', handleVblank data s = some s' ∧
      (s.ppuLocked = false → s.ppuReadbufDirty = 0 → s'.processed.map (·.ops) = rs.map Request.ops)

/-! ## The journals -/

/-- The journals when the requests `done` have been performed and `pending` have not. -/
structure Balanced (s : Vars) (done pending : List Request) : Prop where
  sound : ∀ r ∈ done ++ pending, r.Valid ∧ r.LowBank
  queued : s.queued = (done ++ pending).map Request.entry
  processed : s.processed.map (·.ops) = done.map Request.ops
  copied : ∀ c ∈ s.copied, c.Faithful s

namespace Balanced

variable {s s' : Vars} {done pending : List Request}

/-- What has been performed is as long as what has been taken off the queue. -/
lemma length (h : Balanced s done pending) : s.processed.length = done.length := by
  have e := congrArg List.length h.processed
  rwa [List.length_map, List.length_map] at e

/-- The journals alone matter. -/
lemma congr (h : Balanced s done pending) (hq : s'.queued = s.queued) (hp : s'.processed = s.processed)
    (hc : s'.copied = s.copied) : Balanced s' done pending where
  sound := h.sound
  queued := hq ▸ h.queued
  processed := hp ▸ h.processed
  copied c hc' := by
    rw [Copied.Faithful, hq, hp]
    exact h.copied c (hc ▸ hc')

/-- One more request in the queue. -/
lemma enqueue (h : Balanced s done pending) {r : Request} (valid : r.Valid) (low : r.LowBank)
    (hq : s'.queued = s.queued ++ [r.entry]) (hp : s'.processed = s.processed)
    (hc : s'.copied = s.copied) : Balanced s' done (pending ++ [r]) where
  sound q hq' := by
    rw [← List.append_assoc, List.mem_append, List.mem_singleton] at hq'
    obtain hq' | rfl := hq'
    · exact h.sound q hq'
    · exact ⟨valid, low⟩
  queued := by
    rw [hq, h.queued]
    simp only [List.map_append, List.map_cons, List.map_nil, List.append_assoc]
  processed := hp ▸ h.processed
  copied c hc' := by
    obtain ⟨desc, bytes⟩ := h.copied c (hc ▸ hc')
    refine ⟨?_, hp ▸ bytes⟩
    have lt : c.number < s.queued.length := by
      by_contra ge
      rw [List.getElem?_eq_none (Nat.le_of_not_lt ge)] at desc
      cases desc
    rw [hq, List.getElem?_append_left lt]
    exact desc

/-- The pending requests have been performed. -/
lemma drain (h : Balanced s done pending) {l : List Processed} (hq : s'.queued = s.queued)
    (hp : s'.processed = s.processed ++ l) (hl : l.map (·.ops) = pending.map Request.ops)
    (hc : s'.copied = s.copied) : Balanced s' (done ++ pending) [] where
  sound r hr := h.sound r (by rwa [List.append_nil] at hr)
  queued := by rw [hq, h.queued, List.append_nil]
  processed := by rw [hp, List.map_append, List.map_append, h.processed, hl]
  copied c hc' := by
    obtain ⟨desc, bytes⟩ := h.copied c (hc ▸ hc')
    refine ⟨hq ▸ desc, ?_⟩
    have lt : c.number < s.processed.length := by
      by_contra ge
      rw [List.getElem?_eq_none (Nat.le_of_not_lt ge)] at bytes
      cases bytes
    rw [hp, List.getElem?_append_left lt]
    exact bytes

/-- The handshake, from what the handler does next. -/
lemma handshake (h : Balanced s done pending)
    (vblank : ∀ data, ∃ s', handleVblank data s = some s' ∧
      (s.ppuLocked = false → s.ppuReadbufDirty = 0 → Balanced s' (done ++ pending) [])) : Handshake s := by
  refine ⟨done ++ pending, h.queued, ?_, h.copied, ?_⟩
  · rw [h.length, List.take_left']
    · exact h.processed
    · rfl
  · intro data
    obtain ⟨s', e, after⟩ := vblank data
    exact ⟨s', e, fun unlocked clean => (after unlocked clean).processed⟩

/-- Under the lock the handler does nothing. -/
lemma masked (h : Balanced s done pending) (locked : s.ppuLocked = true) : Firm Vblank Handshake (· = s) := by
  have nothing : ∀ data, handleVblank data s = some s := fun data => by rw [handleVblank, if_pos locked]
  apply Firm.masked
  · apply h.handshake
    intro data
    refine ⟨s, nothing data, fun unlocked => ?_⟩
    rw [locked] at unlocked
    cases unlocked
  · rintro s' ⟨data, e⟩
    rw [nothing data] at e
    cases e
    rfl

end Balanced

/-! ## What the handler does -/

section Handler

variable (s : Vars) (data : Nat → Byte → Byte) (rs : List Round)

/-- The rounds of `process_ppubuf` add to the journal of the performed descriptors and write `ppu_readbuf`. -/
lemma performAll_frame : ∃ buf l, l.map Processed.ops = rs.map Round.ops ∧
    performAll data rs s = { s with ppuReadbuf := buf, processed := s.processed ++ l } := by
  induction rs generalizing s data with
  | nil => exact ⟨s.ppuReadbuf, [], rfl, by rw [List.append_nil]; rfl⟩
  | cons r rs ih =>
    obtain ⟨buf, l, hl, e⟩ := ih (r.perform (data 0) s) fun i => data (i + 1)
    refine ⟨buf, ⟨r.ops, r.ops.filterMap (PpuOp.fetches (data 0))⟩ :: l, ?_, ?_⟩
    · rw [List.map_cons, List.map_cons, hl]
    · rw [performAll, e, Round.perform, List.append_assoc]
      rfl

/-- The last round is performed last. -/
lemma performAll_append (r : Round) :
    performAll data (rs ++ [r]) s = r.perform (data rs.length) (performAll data rs s) := by
  induction rs generalizing s data with
  | nil => rfl
  | cons q rs ih => exact ih _ _

/-- The accesses of a read chunk fetch `READ_CHUNK_SIZE` bytes. -/
lemma fetches_read {data : Byte → Byte} {bank : Nat} {target : Word} :
    (Request.read bank target 64).ops.filterMap (PpuOp.fetches data) =
      (List.range READ_CHUNK_SIZE).map fun i => data (BitVec.ofNat 8 i) := by
  simp only [Request.ops, Request.setAddr, Request.selectBank, List.filterMap_append, List.filterMap_cons,
    List.filterMap_nil, List.filterMap_map, PpuOp.fetches, List.nil_append, List.cons_append,
    List.append_nil]
  exact congrFun (List.filterMap_eq_map (f := fun i => data (BitVec.ofNat 8 i))) _

/-- The fetches of `n` bytes write the front of `ppu_readbuf`. -/
lemma readbuf_fetches (data : Byte → Byte) (buf : Nat → Byte) {n : Nat} (hn : n ≤ 256) :
    ((List.range n).map fun i => PpuOp.fetch (BitVec.ofNat 8 i)).foldl (PpuOp.readbuf data) buf =
      fun i => if i < n then data (BitVec.ofNat 8 i) else buf i := by
  induction n with
  | zero => rfl
  | succ n ih =>
    rw [List.range_succ, List.map_append, List.foldl_append, ih (by omega)]
    funext i
    have e : (BitVec.ofNat 8 n).toNat = n := by
      rw [BitVec.toNat_ofNat]
      exact Nat.mod_eq_of_lt (by omega)
    simp only [List.map_cons, List.map_nil, List.foldl_cons, List.foldl_nil, PpuOp.readbuf, e,
      Function.update_apply]
    by_cases h : i = n
    · subst h
      rw [if_pos rfl, if_pos (Nat.lt_succ_self i)]
    · rw [if_neg h]
      congr 1
      rw [Nat.lt_succ_iff_lt_or_eq, eq_iff_iff]
      tauto

/-- After a read chunk `ppu_readbuf` begins with the bytes fetched. -/
lemma readbuf_read {data : Byte → Byte} {buf : Nat → Byte} {bank : Nat} {target : Word} :
    (List.range READ_CHUNK_SIZE).map ((Request.read bank target 64).ops.foldl (PpuOp.readbuf data) buf) =
      (Request.read bank target 64).ops.filterMap (PpuOp.fetches data) := by
  rw [fetches_read]
  apply List.map_congr_left
  intro i hi
  have front := readbuf_fetches data buf (n := READ_CHUNK_SIZE) (by decide)
  simp only [Request.ops, Request.setAddr, Request.selectBank, List.foldl_append, List.foldl_cons,
    List.foldl_nil, List.cons_append, List.nil_append, PpuOp.readbuf]
  rw [show (64 : Byte).toNat = READ_CHUNK_SIZE from rfl, front]
  exact if_pos (List.mem_range.mp hi)

end Handler

/-- The rounds of requests have their accesses. -/
lemma rounds_ops (pos : Nat) {rs : List Request} : (rounds pos rs).map Round.ops = rs.map Request.ops := by
  induction rs generalizing pos with
  | nil => rfl
  | cons r rs ih => rw [rounds, List.map_cons, List.map_cons, ih]

/-- A request more is a round more. -/
lemma rounds_append (pos : Nat) (rs : List Request) (r : Request) :
    ∃ q : Round, q.ops = r.ops ∧ rounds pos (rs ++ [r]) = rounds pos rs ++ [q] := by
  induction rs generalizing pos with
  | nil => exact ⟨_, rfl, rfl⟩
  | cons p rs ih =>
    obtain ⟨q, hq, e⟩ := ih (pos + p.stored.length)
    exact ⟨q, hq, by rw [List.cons_append, rounds, e]; rfl⟩

/-- Only a read sets `ppu_readbuf_dirty`. -/
lemma Request.setDirty_mem {r : Request} : PpuOp.setDirty ∈ r.ops ↔ r.Reads := by
  cases r <;> simp [Request.ops, Request.setAddr, Request.selectBank, Request.Reads, List.mem_replicate]

/-- The rounds fill `ppu_readbuf` if one of the requests is a read. -/
lemma rounds_dirty (pos : Nat) {rs : List Request} :
    (rounds pos rs).any (·.ops.contains .setDirty) = true ↔ ∃ r ∈ rs, r.Reads := by
  have e : (rounds pos rs).any (·.ops.contains .setDirty) = (rs.map Request.ops).any (·.contains .setDirty) := by
    rw [← rounds_ops pos, List.any_map]
    rfl
  simp only [e, List.any_map, List.any_eq_true, Function.comp, List.contains_iff_mem, Request.setDirty_mem]

/-- What `process_ppubuf` makes of a buffer that holds requests for low banks. -/
lemma Holds.process {s : Databuf} {rs : List Request} (h : Holds s (rs.flatMap Request.stored))
    (sound : ∀ r ∈ rs, r.Valid ∧ r.LowBank) :
    ∃ dirty, (dirty = 0 ↔ ∀ r ∈ rs, ¬ r.Reads) ∧
      processPpubuf s = some (rounds 0 rs, { s with
        ppuDatabuf := Function.update s.ppuDatabuf 0 0, databufPos := 0, ppuReadbufDirty := dirty }) := by
  obtain ⟨s', e, -⟩ := (h.performs fun r hr => (sound r hr).1).mpr fun r hr => (sound r hr).2
  refine ⟨if (rounds 0 rs).any (·.ops.contains .setDirty) then 1 else 0, ?_, ?_⟩
  · have none : (∀ r ∈ rs, ¬ r.Reads) ↔ ¬ ∃ r ∈ rs, r.Reads := by
      push Not
      rfl
    rw [none, ← rounds_dirty 0]
    split
    · next d => exact iff_of_false (by decide) fun no => no d
    · next d => exact iff_of_true rfl d
  · simp only [processPpubuf, h.clean, ne_eq, not_true_eq_false, if_false, Option.map_eq_some_iff,
      Prod.mk.injEq] at e ⊢
    obtain ⟨_, walk_eq, rfl, -⟩ := e
    exact ⟨_, walk_eq, rfl, rfl⟩

/-- The handler over a buffer that holds requests performs them all. -/
lemma Balanced.vblank {s : Vars} {done pending : List Request} (b : Balanced s done pending)
    (h : Holds s.toDatabuf (pending.flatMap Request.stored)) (data : Nat → Byte → Byte) :
    ∃ dirty, (dirty = 0 ↔ ∀ r ∈ pending, ¬ r.Reads) ∧
      handleVblank data s = some { performAll data (rounds 0 pending) s with
        ppuDatabuf := Function.update s.ppuDatabuf 0 0
        databufPos := 0
        ppuReadbufDirty := dirty
        ppuLocked := false
        frameWaitSleep := false } := by
  obtain ⟨dirty, clean, e⟩ := h.process fun r hr => b.sound r (List.mem_append_right _ hr)
  refine ⟨dirty, clean, ?_⟩
  have unlocked : ¬ s.ppuLocked = true := by
    rw [h.unlocked]
    decide
  rw [handleVblank, if_neg unlocked, e]
  have locked := h.unlocked
  simp only [Option.map_some, locked]

/-- The handler leaves alone what belongs to the code it interrupts. -/
lemma Vblank.frame {s s' : Vars} (int : Vblank s s') :
    s'.eagain = s.eagain ∧ s'.bfData = s.bfData ∧ s'.screen = s.screen := by
  obtain ⟨data, e⟩ := int
  rw [handleVblank] at e
  split at e
  · cases e
    exact ⟨rfl, rfl, rfl⟩
  · obtain ⟨⟨rs, d⟩, -, rfl⟩ := Option.map_eq_some_iff.mp e
    obtain ⟨buf, l, -, frame⟩ := performAll_frame s data rs
    rw [frame]
    exact ⟨rfl, rfl, rfl⟩

/-- The console is left alone, and an empty buffer stays empty. -/
lemma Vblank.console {s s' : Vars} (int : Vblank s s') :
    s'.console = s.console ∧ (s.databufPos = 0 → s'.databufPos = 0) := by
  obtain ⟨data, e⟩ := int
  rw [handleVblank] at e
  split at e
  · cases e
    exact ⟨rfl, id⟩
  · obtain ⟨⟨rs, d⟩, processed, rfl⟩ := Option.map_eq_some_iff.mp e
    obtain ⟨buf, l, -, frame⟩ := performAll_frame s data rs
    rw [frame]
    refine ⟨rfl, fun empty => ?_⟩
    rw [processPpubuf] at processed
    split at processed
    · cases processed
      exact empty
    · obtain ⟨_, -, e⟩ := Option.map_eq_some_iff.mp processed
      cases e
      rfl

/-! ## The assertions -/

/-- The buffer holds whole requests, none of them a read. -/
def Idle (s : Vars) : Prop :=
  ∃ done pending, Balanced s done pending ∧ Holds s.toDatabuf (pending.flatMap Request.stored) ∧
    ∀ r ∈ pending, ¬ r.Reads

/-- The same under the lock. -/
def Held (s : Vars) : Prop := s.ppuLocked = true ∧ Idle { s with ppuLocked := false }

/-- The request `r` lies behind such requests. -/
def Joined (r : Request) (s : Vars) : Prop :=
  ∃ done pending, Balanced s done (pending ++ [r]) ∧
    Holds s.toDatabuf ((pending ++ [r]).flatMap Request.stored) ∧ ∀ q ∈ pending, ¬ q.Reads

/-- The request `r` has been performed and its bytes wait in `ppu_readbuf`. -/
structure Fetched (r : Request) (s : Vars) : Prop where
  balanced : ∃ done, Balanced s (done ++ [r]) []
  pos : s.databufPos = 0
  first : s.ppuDatabuf 0 = 0
  dirty : s.ppuReadbufDirty ≠ 0
  unlocked : s.ppuLocked = false
  bytes : ∃ front p, s.processed = front ++ [p] ∧
    p.fetched = (List.range READ_CHUNK_SIZE).map s.ppuReadbuf

/-- An emptied buffer is idle. -/
lemma Balanced.idle {s : Vars} {done : List Request} (b : Balanced s done []) (drained : Drained s.toDatabuf) :
    Idle s :=
  ⟨done, [], b, drained.holds, fun _ hr => by cases hr⟩

/-- The journals after the handler has run over the buffer. -/
lemma Balanced.performAll {s : Vars} {done pending : List Request} (b : Balanced s done pending)
    {data : Nat → Byte → Byte} {d : Databuf} {sleep : Bool} :
    Balanced { performAll data (rounds 0 pending) s with toDatabuf := d, frameWaitSleep := sleep }
      (done ++ pending) [] := by
  obtain ⟨buf, l, hl, frame⟩ := performAll_frame s data (rounds 0 pending)
  rw [rounds_ops] at hl
  rw [frame]
  exact b.drain rfl rfl hl rfl

/-- A vblank leaves an idle buffer idle. -/
lemma Idle.firm : Firm Vblank Handshake Idle where
  safe s := by
    rintro ⟨done, pending, b, h, -⟩
    apply b.handshake
    intro data
    obtain ⟨dirty, -, e⟩ := b.vblank h data
    exact ⟨_, e, fun _ _ => b.performAll⟩
  stable s s' := by
    rintro ⟨done, pending, b, h, quiet⟩ ⟨data, e⟩
    obtain ⟨dirty, clean, e'⟩ := b.vblank h data
    rw [e'] at e
    cases e
    exact b.performAll.idle ⟨rfl, Function.update_self 0 0 s.ppuDatabuf, clean.mpr quiet, rfl⟩

/-- A read that lies in the buffer is fetched by the next vblank. -/
lemma Joined.vblank {s s' : Vars} {bank : Nat} {target : Word} (h : Joined (.read bank target 64) s)
    (int : Vblank s s') : Fetched (.read bank target 64) s' := by
  obtain ⟨done, pending, b, h, -⟩ := h
  obtain ⟨data, e⟩ := int
  obtain ⟨dirty, clean, e'⟩ := b.vblank h data
  rw [e'] at e
  cases e
  obtain ⟨⟨start, stop, _⟩, rfl, last⟩ := rounds_append 0 pending (.read bank target 64)
  refine ⟨⟨done ++ pending, ?_⟩, rfl, Function.update_self 0 0 s.ppuDatabuf, ?_, rfl, ?_⟩
  · rw [List.append_assoc]
    exact b.performAll
  · intro zero
    exact clean.mp zero _ (List.mem_append_right _ (List.mem_singleton_self _)) trivial
  · rw [last, performAll_append]
    exact ⟨_, _, rfl, readbuf_read.symm⟩

/-- The handler leaves fetched bytes alone. -/
lemma Fetched.vblank {r : Request} {s s' : Vars} (h : Fetched r s) (int : Vblank s s') :
    s' = { s with frameWaitSleep := false } := by
  obtain ⟨data, e⟩ := int
  rw [handleVblank, h.unlocked, processPpubuf, if_pos h.dirty] at e
  cases e
  rfl

/-- A vblank leaves the bytes that have been fetched. -/
lemma Fetched.firm {r : Request} : Firm Vblank Handshake (Fetched r) where
  safe s h := by
    obtain ⟨done, b⟩ := h.balanced
    apply b.handshake
    intro data
    rw [handleVblank, h.unlocked, processPpubuf, if_pos h.dirty]
    exact ⟨_, rfl, fun _ clean => absurd clean h.dirty⟩
  stable s s' h int := by
    obtain ⟨done, b⟩ := h.balanced
    obtain rfl := h.vblank int
    exact ⟨⟨done, b.congr rfl rfl rfl⟩, h.pos, h.first, h.dirty, h.unlocked, h.bytes⟩

/-- A pass of `ppuwd_read` waits for its bytes. -/
def Waiting (r : Request) (s : Vars) : Prop := Joined r s ∨ Fetched r s

/-- A vblank leaves a pass waiting, or fetches its bytes. -/
lemma Waiting.firm (bank : Nat) (target : Word) : Firm Vblank Handshake (Waiting (.read bank target 64)) where
  safe s h := by
    obtain ⟨done, pending, b, h, -⟩ | h := h
    · apply b.handshake
      intro data
      obtain ⟨dirty, -, e⟩ := b.vblank h data
      exact ⟨_, e, fun _ _ => b.performAll⟩
    · exact Fetched.firm.safe s h
  stable s s' h int := by
    obtain h | h := h
    · exact .inr (h.vblank int)
    · exact .inr (Fetched.firm.stable s s' h int)

/-! ## The critical section -/

/-- An assignment under the lock. -/
lemma Balanced.set {s t : Vars} {done pending done' pending' : List Request} {f : Vars → Vars}
    (b : Balanced s done pending) (locked : s.ppuLocked = true) (b' : Balanced t done' pending')
    (locked' : t.ppuLocked = true) (e : f s = t) : Triple Vblank Handshake (· = s) (set f) (· = t) := by
  apply Triple.set (b.masked locked) (b'.masked locked')
  rintro _ rfl
  exact e

/-- A copy of no bytes. -/
lemma copyInto_zero {mem : Nat → Byte} {pos : Nat} {src : Nat → Byte} : copyInto mem pos src 0 = mem := by
  funext i
  exact if_neg (by omega)

/-- A copy of one byte more. -/
lemma copyInto_succ {mem : Nat → Byte} {pos : Nat} {src : Nat → Byte} {n : Nat} :
    Function.update (copyInto mem pos src n) (pos + n) (src n) = copyInto mem pos src (n + 1) := by
  funext i
  simp only [copyInto, Function.update_apply]
  by_cases last : i = pos + n
  · rw [if_pos last, if_pos (by omega)]
    congr 1
    omega
  · rw [if_neg last]
    congr 1
    rw [eq_iff_iff]
    omega

/-- Only the bytes that are copied matter. -/
lemma copyInto_congr {mem : Nat → Byte} {pos n : Nat} {src src' : Nat → Byte} (h : ∀ i < n, src i = src' i) :
    copyInto mem pos src n = copyInto mem pos src' n := by
  funext i
  simp only [copyInto]
  split
  · exact h _ (by omega)
  · rfl

/-- The copy loop of `__queue_descriptor`. -/
lemma Balanced.bcopyIn {s : Vars} {done pending : List Request} (b : Balanced s done pending)
    (locked : s.ppuLocked = true) (src : Nat → Byte) (n : Nat) :
    Triple Vblank Handshake (· = s) (Code.bcopyIn src n)
      (· = { s with ppuDatabuf := copyInto s.ppuDatabuf s.databufPos src n }) := by
  let after (k : Nat) : Vars := { s with ppuDatabuf := copyInto s.ppuDatabuf s.databufPos src k }
  have bal : ∀ k, Balanced (after k) done pending := fun k => b.congr rfl rfl rfl
  have start : after 0 = s := by simp only [after, copyInto_zero]
  suffices key : Triple Vblank Handshake (· = after 0) (Code.bcopyIn src n) (· = after n) by
    rwa [start] at key
  apply Triple.forUp (fun k t => t = after k) ((bal 0).masked locked)
  intro k _
  refine (bal k).set locked (bal (k + 1)) locked ?_
  simp only [after, copyInto_succ]

/-- The copies of `__queue_descriptor` put the descriptor into the buffer like `appendDesc`. -/
lemma Balanced.append {s : Vars} {done pending : List Request} (b : Balanced s done pending)
    (locked : s.ppuLocked = true) {r : Request} (valid : r.Valid) (low : r.LowBank) {data : Nat → Byte}
    (hdata : ∀ i < (descDatalen r.desc).toNat, data i = r.payload i) :
    Triple Vblank Handshake (· = s) (Code.append r.desc data)
      (· = { s with toDatabuf := appendDesc r.desc r.payload s.toDatabuf, queued := s.queued ++ [r.entry] }) := by
  have entry : r.entry = ⟨r.desc, (List.range (descDatalen r.desc).toNat).map data⟩ := by
    rw [Request.entry]
    congr 1
    apply List.map_congr_left
    intro i hi
    rw [hdata i (List.mem_range.mp hi)]
  let header : Vars :=
    { s with ppuDatabuf := copyInto s.ppuDatabuf s.databufPos (fun i => r.desc.bytes.getD i 0) DESC_SIZE }
  let behind : Vars := { header with databufPos := s.databufPos + DESC_SIZE }
  let filled : Vars := { behind with
    ppuDatabuf := copyInto behind.ppuDatabuf behind.databufPos r.payload (descDatalen r.desc).toNat
    databufPos := behind.databufPos + (descDatalen r.desc).toNat }
  have bh : Balanced header done pending := b.congr rfl rfl rfl
  have bb : Balanced behind done pending := b.congr rfl rfl rfl
  have bf : Balanced filled done pending := b.congr rfl rfl rfl
  refine Triple.seq (b.bcopyIn locked _ _) (Triple.seq (bh.set locked bb locked rfl) (Triple.seq (R := (· = filled)) ?_ ?_))
  · split
    · next none =>
      have same : behind = filled := by simp only [filled, none, copyInto_zero, Nat.add_zero]
      rw [← same]
      exact Triple.skip (bb.masked locked)
    · next =>
      refine Triple.seq (bb.bcopyIn locked _ _) ?_
      refine Balanced.set (b.congr rfl rfl rfl) locked bf locked ?_
      rw [copyInto_congr hdata]
  · refine bf.set locked (b.enqueue valid low rfl rfl rfl) locked ?_
    rw [entry]
    rfl

/-! ## Queueing -/

/-- A request has a type. -/
lemma Request.getDescType_ne_bad (r : Request) : getDescType r.desc ≠ .bad := by
  show getDescType ⟨0, 0, r.desc.flags⟩ ≠ .bad
  cases r with
  | video target data =>
    simp only [Request.desc]
    decide
  | null target size =>
    simp only [Request.desc]
    decide
  | read bank target size =>
    simp only [Request.desc]
    obtain u | u | u | u := bankUpperBits_cases bank <;> rw [u] <;> decide
  | write bank target data =>
    simp only [Request.desc]
    obtain u | u | u | u := bankUpperBits_cases bank <;> rw [u] <;> decide

/-- The weight of a request. -/
lemma Request.weight (r : Request) : ∃ w, ∀ t, calcDescWeight r.desc t = .ok (w, t) := by
  cases type : getDescType r.desc with
  | bad => exact absurd type r.getDescType_ne_bad
  | _ => exact ⟨_, fun t => by rw [calcDescWeight, type]; rfl⟩

/-- An idle buffer is unlocked. -/
lemma Idle.unlocked {s : Vars} (h : Idle s) : s.ppuLocked = false := by
  obtain ⟨_, _, -, h, -⟩ := h
  exact h.unlocked

/-- Any assertion about locked states is firm. -/
lemma Held.firm {P : Vars → Prop} (h : ∀ s, P s → Held s) : Firm Vblank Handshake P where
  safe s hs := by
    obtain ⟨locked, done, pending, b, -, -⟩ := h s hs
    have b : Balanced s done pending := b.congr rfl rfl rfl
    exact (b.masked locked).safe s rfl
  stable s s' hs int := by
    obtain ⟨locked, done, pending, b, -, -⟩ := h s hs
    have b : Balanced s done pending := b.congr rfl rfl rfl
    rw [(b.masked locked).stable s s' rfl int]
    exact hs

/-- What the queueing code does not change: a condition on the console and on the place in the buffer. -/
structure Ghost (F : Vars → Prop) : Prop where
  vblank : ∀ s s', Vblank s s' → F s → F s'
  other : ∀ s s', s'.console = s.console → s'.databufPos = s.databufPos → F s → F s'

/-- To ask for nothing is a ghost condition. -/
lemma Ghost.none : Ghost fun _ => True := ⟨fun _ _ _ => id, fun _ _ _ _ => id⟩

section Ghost

variable {F : Vars → Prop} (ghost : Ghost F)

include ghost

/-- An idle buffer stays idle. -/
lemma Ghost.firm : Firm Vblank Handshake (fun s => F s ∧ Idle s) := Idle.firm.and ghost.vblank

/-- `ppu_lock` takes the buffer. -/
lemma ppuLock_spec : Triple Vblank Handshake (fun s => F s ∧ Idle s) Code.ppuLock (fun s => F s ∧ Held s) := by
  apply Triple.seq (R := fun s => F s ∧ Idle s)
  · refine Triple.ite ghost.firm (fun _ => False) (fun s => F s ∧ Idle s) (fun s hs locked => ?_) (fun s hs _ => hs)
      Triple.of_false (Triple.skip ghost.firm)
    rw [hs.2.unlocked] at locked
    cases locked
  · refine Triple.set ghost.firm (Held.firm fun _ => And.right) fun s hs => ?_
    refine ⟨ghost.other s _ rfl rfl hs.1, rfl, ?_⟩
    obtain ⟨-, done, pending, b, h, quiet⟩ := hs
    exact ⟨done, pending, b.congr rfl rfl rfl, ⟨h.pos, h.bytes, h.fits, h.clean, rfl⟩, quiet⟩

end Ghost

section Queue

variable {Q : Vars → Prop} (firm : Firm Vblank Handshake Q) (keep : ∀ s b, Q s → Q { s with eagain := b })

include firm keep

/-- The buffer is unlocked on the way out. -/
lemma unlockReturn_spec {P : Vars → Prop} (hp : Firm Vblank Handshake P)
    (release : ∀ s, P s → Q { s with ppuLocked := false }) (again : Bool) :
    Triple Vblank Handshake P (Code.unlockReturn again) (fun s => s.eagain = again ∧ Q s) := by
  apply Triple.seq (R := Q)
  · exact Triple.set hp firm release
  · refine Triple.set firm (firm.and fun s s' int e => int.frame.1.trans e) fun s hs => ⟨rfl, keep s again hs⟩

end Queue

/-- Whether a try is to be made again does not matter to an idle buffer. -/
lemma Idle.eagain {s : Vars} {b : Bool} (h : Idle s) : Idle { s with eagain := b } := by
  obtain ⟨done, pending, b, h, quiet⟩ := h
  exact ⟨done, pending, b.congr rfl rfl rfl, h, quiet⟩

/-- `wait_frame` waits for an idle buffer. -/
lemma waitFrame_spec {F : Vars → Prop} (ghost : Ghost F) :
    Triple Vblank Handshake (fun s => F s ∧ Idle s) Code.waitFrame (fun s => F s ∧ Idle s) := by
  apply Triple.seq (R := fun s => F s ∧ Idle s)
  · refine Triple.set ghost.firm ghost.firm fun s hs => ⟨ghost.other s _ rfl rfl hs.1, ?_⟩
    obtain ⟨-, done, pending, b, h, quiet⟩ := hs
    exact ⟨done, pending, b.congr rfl rfl rfl, h, quiet⟩
  · exact Triple.loop ghost.firm ghost.firm (fun _ hs _ => hs) (Triple.skip ghost.firm) fun _ hs _ => hs

/-- What one `__queue_descriptor` leaves: `-EAGAIN` and nothing queued, or 0 and `Q`. -/
def Outcome (Q : Vars → Prop) (s : Vars) : Prop :=
  s.eagain = true ∧ Idle s ∨ s.eagain = false ∧ Q s

/-- The outcome of a try stays. -/
lemma Outcome.firm {Q : Vars → Prop} (firm : Firm Vblank Handshake Q) : Firm Vblank Handshake (Outcome Q) :=
  (Idle.firm.and fun _ _ int e => int.frame.1.trans e).or (firm.and fun _ _ int e => int.frame.1.trans e)

/-- One of the two tests of `__queue_descriptor` fails in a state with `F`. -/
def Refused (F : Vars → Prop) (desc : PpuDesc) : Prop :=
  ∃ s, F s ∧ (s.databufPos + DESC_SIZE + (descDatalen desc).toNat + 1 > PPU_BUF_SIZE ∨
    desc.cycles + BASE_PPU_LOOP_CYCLES > PPU_LOOP_MAX_CYCLES)

/-- What `-EAGAIN` tells. -/
def Again (F : Vars → Prop) (desc : PpuDesc) (s : Vars) : Prop := s.eagain = true → F s ∧ Refused F desc

/-- What is to be tried again stays. -/
lemma Again.firm {F P : Vars → Prop} {desc : PpuDesc} (ghost : Ghost F) (firm : Firm Vblank Handshake P) :
    Firm Vblank Handshake (fun s => Again F desc s ∧ P s) :=
  firm.and fun s s' int again e => (again (int.frame.1.symm.trans e)).imp_left (ghost.vblank s s' int)

section Queue

variable {F : Vars → Prop} (ghost : Ghost F) {Q : Vars → Prop} (firm : Firm Vblank Handshake Q)
  (keep : ∀ s b, Q s → Q { s with eagain := b })
  {r : Request} (valid : r.Valid) (low : r.LowBank)
  (join : ∀ s s', F s → Joined r s' → s'.console = s.console.queueDescriptor r.desc r.payload → Q s')
  {data : Nat → Byte} (hdata : ∀ i < (descDatalen r.desc).toNat, data i = r.payload i)

include ghost firm keep valid low join hdata

/-- `__queue_descriptor` queues the request, or is to be tried again. -/
lemma tryQueueDescriptor_spec :
    Triple Vblank Handshake (fun s => F s ∧ Idle s) (Code.tryQueueDescriptor r.desc data)
      (fun s => Again F r.desc s ∧ Outcome Q s) := by
  have again : ∀ P : Vars → Prop, (∀ s, P s → F s ∧ Held s) → Refused F r.desc →
      Triple Vblank Handshake P (Code.unlockReturn true) (fun s => Again F r.desc s ∧ Outcome Q s) := by
    intro P held refused
    have unlocks := unlockReturn_spec ghost.firm (fun s _ hs => ⟨ghost.other s _ rfl rfl hs.1, hs.2.eagain⟩)
      (Held.firm fun s hs => (held s hs).2)
      (fun s hs => ⟨ghost.other s _ rfl rfl (held s hs).1, (held s hs).2.2⟩) true
    exact unlocks.post fun s hs => ⟨fun _ => ⟨hs.2.1, refused⟩, .inl ⟨hs.1, hs.2.2⟩⟩
  obtain ⟨w, weight⟩ := r.weight
  have cycles : r.desc.cycles = w := by rw [PpuDesc.cycles, weight]
  apply Triple.seq (ppuLock_spec ghost)
  refine Triple.ite (Held.firm fun _ => And.right)
    (fun s => (F s ∧ Held s) ∧ s.databufPos + DESC_SIZE + (descDatalen r.desc).toNat + 1 > PPU_BUF_SIZE)
    (fun s => (F s ∧ Held s) ∧ ¬ s.databufPos + DESC_SIZE + (descDatalen r.desc).toNat + 1 > PPU_BUF_SIZE)
    (fun s hs full => ⟨hs, of_decide_eq_true full⟩) (fun s hs room => ⟨hs, of_decide_eq_false room⟩) ?_ ?_
  · apply Triple.each_pre
    intro s hs
    exact again _ (fun t e => e ▸ hs.1) ⟨s, hs.1.1, .inl hs.2⟩
  refine Triple.look (Held.firm fun s hs => hs.1.2) fun s hs => ⟨(· = s), rfl, ?_⟩
  obtain ⟨⟨f, held⟩, room⟩ := hs
  rw [weight]
  dsimp only
  split
  · next heavy => exact again _ (fun t e => e ▸ ⟨f, held⟩) ⟨s, f, .inr (cycles.symm ▸ heavy)⟩
  · next light =>
    obtain ⟨locked, done, pending, b, h, quiet⟩ := held
    have b : Balanced s done pending := b.congr rfl rfl rfl
    apply Triple.seq (b.append locked valid low hdata)
    have bal : Balanced { s with toDatabuf := appendDesc r.desc r.payload s.toDatabuf, queued := s.queued ++ [r.entry] }
      done (pending ++ [r]) := b.enqueue valid low rfl rfl rfl
    refine (unlockReturn_spec firm keep (bal.masked locked) ?_ false).post fun s hs =>
      ⟨fun yes => absurd (hs.1.symm.trans yes) Bool.false_ne_true, .inr hs⟩
    rintro _ rfl
    refine join s _ f ⟨done, pending, bal.congr rfl rfl rfl, ?_, quiet⟩ rfl
    rw [List.flatMap_append, List.flatMap_singleton]
    exact h.append (tryQueueDescriptor_ok rfl room weight light)

/-- `queue_descriptor` queues the request. -/
lemma queueDescriptor_spec :
    Triple Vblank Handshake (fun s => F s ∧ Idle s) (Code.queueDescriptor r.desc data) Q := by
  have once := tryQueueDescriptor_spec ghost firm keep valid low join hdata
  apply Triple.seq once
  refine Triple.loop (Again.firm ghost (Outcome.firm firm)) firm (R := fun s => F s ∧ Idle s) ?_
    (Triple.seq (waitFrame_spec ghost) once) ?_
  · intro s hs again
    obtain ⟨-, idle⟩ | ⟨no, -⟩ := hs.2
    · exact ⟨(hs.1 again).1, idle⟩
    · rw [no] at again
      cases again
  · intro s hs done
    obtain ⟨yes, -⟩ | ⟨-, q⟩ := hs.2
    · rw [yes] at done
      cases done
    · exact q

end Queue

/-! ## The console -/

/-- A request that is no read leaves the buffer idle. -/
lemma Joined.idle {r : Request} (h : ¬ r.Reads) {s : Vars} (joined : Joined r s) : Idle s := by
  obtain ⟨done, pending, b, holds, quiet⟩ := joined
  refine ⟨done, pending ++ [r], b, holds, fun q hq => ?_⟩
  obtain hq | hq := List.mem_append.mp hq
  · exact quiet q hq
  · rwa [List.mem_singleton.mp hq]

/-- The buffer is idle and the console is `t`. -/
def IdleAt (t : Console) (s : Vars) : Prop := s.console = t ∧ Idle s

/-- The same under the lock. -/
def HeldAt (t : Console) (s : Vars) : Prop := s.console = t ∧ Held s

section Console

variable {t : Console} {c d : Cmd Vars} {Q : Vars → Prop}

/-- The console is a ghost condition. -/
lemma Ghost.console : Ghost (·.console = t) :=
  ⟨fun _ _ int e => int.console.1.trans e, fun _ _ same _ e => same.trans e⟩

/-- The buffer stays idle, with the console. -/
lemma IdleAt.firm : Firm Vblank Handshake (IdleAt t) := Ghost.console.firm

/-- The buffer stays locked, with the console. -/
lemma HeldAt.firm : Firm Vblank Handshake (HeldAt t) := Held.firm fun _ => And.right

/-- A test of the screen. -/
lemma ite_screen {p : Screen → Bool} {A : Console → Vars → Prop} (console : ∀ s, A t s → s.console = t)
    (firm : Firm Vblank Handshake (A t)) (yes : p t.screen = true → Triple Vblank Handshake (A t) c Q)
    (no : p t.screen = false → Triple Vblank Handshake (A t) d Q) :
    Triple Vblank Handshake (A t) (ite (fun s => p s.screen) c d) Q := by
  have test : ∀ s, A t s → p s.screen = p t.screen := fun s hs =>
    congrArg (fun t : Console => p t.screen) (console s hs)
  cases h : p t.screen with
  | true =>
    refine Triple.ite firm (A t) (fun _ => False) (fun _ hs _ => hs) (fun s hs no => ?_) (yes h) Triple.of_false
    exact absurd ((test s hs).symm.trans no) (by rw [h]; nofun)
  | false =>
    refine Triple.ite firm (fun _ => False) (A t) (fun s hs yes => ?_) (fun _ hs _ => hs) Triple.of_false (no h)
    exact absurd ((test s hs).symm.trans yes) (by rw [h]; nofun)

/-- A look at the screen. -/
lemma look_screen {k : Screen → Cmd Vars} (h : Triple Vblank Handshake (IdleAt t) (k t.screen) Q) :
    Triple Vblank Handshake (IdleAt t) (look fun s => k s.screen) Q := by
  refine Triple.look IdleAt.firm fun s hs => ⟨IdleAt t, hs, ?_⟩
  have screen : s.screen = t.screen := congrArg Console.screen hs.1
  rw [screen]
  exact h

/-- The screen variables are set while the buffer is idle. -/
lemma IdleAt.onScreen {f : Screen → Screen} :
    Triple Vblank Handshake (IdleAt t) (Code.onScreen f) (IdleAt { t with screen := f t.screen }) := by
  refine Triple.set IdleAt.firm IdleAt.firm fun s hs => ⟨?_, ?_⟩
  · rw [← hs.1]
    rfl
  · obtain ⟨-, done, pending, b, h, quiet⟩ := hs
    exact ⟨done, pending, b.congr rfl rfl rfl, h, quiet⟩

/-- And while it is locked. -/
lemma HeldAt.onScreen {f : Screen → Screen} :
    Triple Vblank Handshake (HeldAt t) (Code.onScreen f) (HeldAt { t with screen := f t.screen }) := by
  refine Triple.set HeldAt.firm HeldAt.firm fun s hs => ⟨?_, ?_⟩
  · rw [← hs.1]
    rfl
  · obtain ⟨-, locked, done, pending, b, h, quiet⟩ := hs
    exact ⟨locked, done, pending, b.congr rfl rfl rfl, h, quiet⟩

/-- `swap_nametable` does what it does to the console. -/
lemma swapNametable_spec :
    Triple Vblank Handshake (IdleAt t) Code.swapNametable (IdleAt { t with screen := t.screen.swapNametable }) := by
  unfold Screen.swapNametable
  refine IdleAt.onScreen.seq ?_
  refine ite_screen (p := fun t => t.curNametable = 0) (fun _ => And.left) IdleAt.firm (fun yes => ?_) fun no => ?_
  · rw [if_pos (of_decide_eq_true yes)]
    exact IdleAt.onScreen.seq IdleAt.onScreen
  · rw [if_neg (of_decide_eq_false no)]
    exact IdleAt.onScreen.seq IdleAt.onScreen

/-- `write_blank_line_desc` does what it does to the console. -/
lemma writeBlankLineDesc_spec :
    Triple Vblank Handshake (IdleAt t) Code.writeBlankLineDesc (IdleAt t.writeBlankLineDesc) := by
  apply look_screen (k := fun t => Code.queueDescriptor
    ⟨BitVec.ofNat 8 SCREEN_COLS, t.curScreenPtr, PPU_DESC_FLAG_NULL⟩ fun _ => 0)
  have ne : BitVec.ofNat 8 SCREEN_COLS ≠ 0 := by decide
  exact queueDescriptor_spec (r := .null t.screen.curScreenPtr (BitVec.ofNat 8 SCREEN_COLS)) Ghost.console IdleAt.firm
    (fun s b hs => ⟨hs.1, hs.2.eagain⟩) ne trivial
    (fun s s' e joined same => ⟨by rw [same, e]; rfl, joined.idle id⟩) fun _ _ => rfl

/-- `scroll_one_row` does what it does to the console. -/
lemma scrollOneRow_spec : Triple Vblank Handshake (IdleAt t) Code.scrollOneRow (IdleAt t.scrollOneRow) := by
  apply Triple.seq writeBlankLineDesc_spec
  apply Triple.seq (ppuLock_spec Ghost.console)
  apply Triple.seq HeldAt.onScreen
  apply Triple.seq (R := HeldAt t.scrollOneRow)
  · unfold Console.scrollOneRow Screen.scroll
    refine ite_screen (p := fun t => t.yScrollFine ≥ SCREEN_ROW_PX * SCREEN_ROWS) (fun _ => And.left) HeldAt.firm
      (fun yes => ?_) fun no => ?_
    · dsimp only
      rw [if_pos (of_decide_eq_true yes)]
      exact HeldAt.onScreen.seq HeldAt.onScreen
    · dsimp only
      rw [if_neg (of_decide_eq_false no)]
      exact .skip HeldAt.firm
  · exact Triple.set HeldAt.firm IdleAt.firm fun _ hs => ⟨hs.1, hs.2.2⟩

/-- So does the test for the last row. -/
lemma scrollIfWrapped_spec {origX : Nat} :
    Triple Vblank Handshake (IdleAt t) (Code.scrollIfWrapped origX) (IdleAt (t.scrollIfWrapped origX)) := by
  unfold Console.scrollIfWrapped
  refine ite_screen (p := fun t => t.scrollStarted) (fun _ => And.left) IdleAt.firm (fun yes => ?_) fun no => ?_
  · rw [if_pos yes]
    apply look_screen (k := fun t => let curX := t.curNametablePos % SCREEN_COLS
      if curX < origX then Code.scrollOneRow else if curX = origX ∧ curX = 0 then Code.scrollOneRow else skip)
    dsimp only
    split
    · exact scrollOneRow_spec
    · split
      · exact scrollOneRow_spec
      · exact .skip IdleAt.firm
  · rw [if_neg (Bool.eq_false_iff.mp no)]
    exact .skip IdleAt.firm

/-- `update_screen_ptrs` does what it does to the console. -/
lemma updateScreenPtrs_spec {dist : Nat} :
    Triple Vblank Handshake (IdleAt t) (Code.updateScreenPtrs dist) (IdleAt (t.updateScreenPtrs dist)) := by
  let moved : Screen := { t.screen with
    curScreenPtr := t.screen.curScreenPtr + BitVec.ofNat 16 dist
    curNametablePos := t.screen.curNametablePos + dist }
  let swapped : Screen := if moved.curNametablePos ≥ SCREEN_SIZE then moved.swapNametable else moved
  have move : t.screen.move dist =
      if !swapped.scrollStarted && swapped.curNametablePos ≥ SCREEN_VIS_SIZE + SCREEN_COLS then
        { swapped with scrollStarted := true }
      else swapped := rfl
  refine Triple.look IdleAt.firm fun s hs => ⟨IdleAt t, hs, ?_⟩
  have screen : s.screen = t.screen := congrArg Console.screen hs.1
  dsimp only
  rw [screen]
  unfold Console.updateScreenPtrs
  split
  · exact .skip IdleAt.firm
  · apply Triple.seq IdleAt.onScreen
    apply Triple.seq IdleAt.onScreen
    apply Triple.seq (R := IdleAt { t with screen := swapped })
    · refine ite_screen (p := fun t => t.curNametablePos ≥ SCREEN_SIZE) (fun _ => And.left) IdleAt.firm
        (fun yes => ?_) fun no => ?_
      · rw [show swapped = moved.swapNametable from if_pos (of_decide_eq_true yes)]
        exact swapNametable_spec
      · rw [show swapped = moved from if_neg (of_decide_eq_false no)]
        exact .skip IdleAt.firm
    apply Triple.seq (R := IdleAt { t with screen := t.screen.move dist }) _ scrollIfWrapped_spec
    refine ite_screen (p := fun t => !t.scrollStarted && t.curNametablePos ≥ SCREEN_VIS_SIZE + SCREEN_COLS)
      (fun _ => And.left) IdleAt.firm (fun yes => ?_) fun no => ?_
    · rw [move, if_pos yes]
      exact IdleAt.onScreen
    · rw [move, if_neg (Bool.eq_false_iff.mp no)]
      exact .skip IdleAt.firm

/-- The request of a character. -/
lemma char_valid (target : Word) (c : Byte) : (Request.video target [c]).Valid :=
  ⟨Nat.le_refl 1, by rw [List.length_singleton]; decide⟩

/-- A character has one byte. -/
lemma char_datalen (target : Word) : (descDatalen ⟨1, target, 0⟩).toNat = 1 := by
  show (descDatalen ⟨1, 0, 0⟩).toNat = 1
  decide

/-- The byte of a character is that character. -/
lemma char_data (target : Word) (c : Byte) :
    ∀ i < (descDatalen (Request.video target [c]).desc).toNat, c = (Request.video target [c]).payload i := by
  intro i hi
  obtain rfl : i = 0 := Nat.lt_one_iff.mp (char_datalen target ▸ hi)
  rfl

/-- A character is queued. -/
lemma queueChar_spec {c : Byte} : Triple Vblank Handshake (IdleAt t)
    (look fun s => Code.queueDescriptor { size := 1, target := s.screen.curScreenPtr, flags := 0 } fun _ => c)
    (IdleAt (t.queueDescriptor t.charDesc fun _ => c)) := by
  apply look_screen (k := fun t => Code.queueDescriptor { size := 1, target := t.curScreenPtr, flags := 0 } fun _ => c)
  have queued : (t.queueDescriptor t.charDesc fun _ => c) =
      t.queueDescriptor (Request.video t.screen.curScreenPtr [c]).desc
        (Request.video t.screen.curScreenPtr [c]).payload := by
    have one := char_datalen t.screen.curScreenPtr
    show Console.mk _ (_ ++ [⟨_, (List.range (descDatalen t.charDesc).toNat).map _⟩]) =
      Console.mk _ (_ ++ [⟨_, (List.range (descDatalen t.charDesc).toNat).map _⟩])
    unfold Console.charDesc
    rw [one]
    rfl
  exact queueDescriptor_spec (r := .video t.screen.curScreenPtr [c]) Ghost.console IdleAt.firm
    (fun s b hs => ⟨hs.1, hs.2.eagain⟩) (char_valid _ c) trivial
    (fun s s' e joined same => ⟨by rw [same, e, queued], joined.idle id⟩) (char_data _ c)

/-- The code of `ppu_putc` leaves the console that `Console.ppuPutc` computes. -/
lemma ppuPutc_spec {c : Byte} : Triple Vblank Handshake (IdleAt t) (Code.ppuPutc c) (IdleAt (t.ppuPutc c)) := by
  unfold Code.ppuPutc Console.ppuPutc
  split
  · exact look_screen (k := fun t => Code.updateScreenPtrs (SCREEN_COLS - t.curScreenPtr.toNat % SCREEN_COLS))
      updateScreenPtrs_spec
  · exact queueChar_spec.seq updateScreenPtrs_spec

end Console

/-! ## The disk driver -/

/-- Whether a try is to be made again does not matter to a pass that waits. -/
lemma Waiting.eagain {r : Request} {s : Vars} {b : Bool} (h : Waiting r s) : Waiting r { s with eagain := b } := by
  obtain ⟨done, pending, b, h, quiet⟩ | h := h
  · exact .inl ⟨done, pending, b.congr rfl rfl rfl, h, quiet⟩
  · obtain ⟨⟨done, b⟩, pos, first, dirty, unlocked, bytes⟩ := h
    exact .inr ⟨⟨done, b.congr rfl rfl rfl⟩, pos, first, dirty, unlocked, bytes⟩

/-- The first `k` bytes have been copied into the chunk at `offset`. -/
def Copying (r : Request) (offset k : Nat) (s : Vars) : Prop :=
  (∀ i < k, s.bfData (offset + i) = s.ppuReadbuf i) ∧ Fetched r s

/-- A vblank leaves a pass copying. -/
lemma Copying.firm {r : Request} {offset k : Nat} : Firm Vblank Handshake (Copying r offset k) where
  safe s h := Fetched.firm.safe s h.2
  stable s s' h int := by
    have fetched := Fetched.firm.stable s s' h.2 int
    obtain rfl := h.2.vblank int
    exact ⟨h.1, fetched⟩

/-- The end of a pass: the chunk in the block buffer is what has been fetched for the descriptor. -/
lemma Copying.finish {r : Request} {offset : Nat} {s : Vars} (h : Copying r offset READ_CHUNK_SIZE s) :
    Idle { s with
      ppuReadbufDirty := 0
      copied := s.copied ++ [⟨r.desc, s.queued.length - 1,
        (List.range READ_CHUNK_SIZE).map fun i => s.bfData (offset + i)⟩] } := by
  obtain ⟨chunk, ⟨⟨done, b⟩, pos, first, -, unlocked, front, p, last, bytes⟩⟩ := h
  have same : (List.range READ_CHUNK_SIZE).map (fun i => s.bfData (offset + i)) = p.fetched := by
    rw [bytes]
    exact List.map_congr_left fun i hi => chunk i (List.mem_range.mp hi)
  have entries := b.queued
  rw [List.append_nil, List.map_append, List.map_singleton] at entries
  have number : s.queued.length - 1 = done.length := by
    rw [entries, List.length_append, List.length_map]
    rfl
  have performed : done.length = front.length := by
    have e := b.length
    rw [last, List.length_append, List.length_append] at e
    exact Nat.add_right_cancel e.symm
  refine ⟨done ++ [r], [], ⟨b.sound, b.queued, b.processed, fun c hc => ?_⟩, Drained.holds ⟨pos, first, rfl, unlocked⟩,
    fun q hq => absurd hq List.not_mem_nil⟩
  obtain hc | hc := List.mem_append.mp hc
  · exact b.copied c hc
  · rw [List.mem_singleton.mp hc]
    constructor
    · show s.queued[s.queued.length - 1]?.map _ = _
      rw [number, entries, List.getElem?_append_right (by rw [List.length_map]), List.length_map, Nat.sub_self]
      rfl
    · show s.processed[s.queued.length - 1]?.map _ = _
      rw [number, performed, last, List.getElem?_append_right (Nat.le_refl _), Nat.sub_self, same]
      rfl

/-- Nothing has been queued after the start. -/
lemma booted_idle : Idle booted := by
  have b : Balanced booted [] [] := ⟨fun r hr => absurd hr List.not_mem_nil, rfl, rfl,
    fun c hc => absurd hc List.not_mem_nil⟩
  exact b.idle ⟨rfl, rfl, rfl, rfl⟩

end Uzi.Ppu
