import Uzi.Exec.Args
import Uzi.Fs.Path

/-!
# Buffers of a process

`valadr` looks at an address that a process passes to the kernel, and `_stat`, `_fstat` and `_times` write there
without a further check. The copy of the bytes is a parameter of these calls, so that one that stops outside of the
user area can take its place.
-/

namespace Uzi
open Exec Memory

/-- `valadr`, whose sum wraps. -/
def valadr (base size : Word) : K Bool := do
  if base.toNat < PROGBASE ∨ (← get).layout.udata ≤ (base + size).toNat then do
    setError .efault
    pure false
  else pure true

/-- The bytes of some words one after the other. -/
def wordBytes (ws : List Word) (i : Nat) : Byte := (ws.getD (i / 2) 0 >>> (8 * (i % 2))).setWidth 8

/-- A copy of `n` bytes to an address of the process. -/
abbrev Bcopy := Word → Nat → (Nat → Byte) → K PUnit

/-- `bcopy`. -/
def bcopy : Bcopy := fun dest n f => modifyUdata (·.store dest n f)

/-- `stcpy`. -/
def stcpy (bcopy : Bcopy) (ino : Inoptr) (buf : Word) : K PUnit := do
  let c := (← get).iTab ino
  bcopy buf 12 (wordBytes [BitVec.ofNat 16 c.cDev, c.cNum, c.cNode.iMode, c.cNode.iNlink, c.cNode.iUid, c.cNode.iGid])
  bcopy (buf + 12) 2 (wordBytes [c.cNode.iAddr ⟨0, Nat.zero_lt_succ 19⟩])
  bcopy (buf + 14) 16 (wordBytes [c.cNode.iSize.oBlkno, c.cNode.iSize.oOffset, c.cNode.iAtime.tTime,
    c.cNode.iAtime.tDate, c.cNode.iMtime.tTime, c.cNode.iMtime.tDate, c.cNode.iCtime.tTime, c.cNode.iCtime.tDate])

/-- `sizeof(struct stat)`. -/
def SIZEOF_STAT : Word := 30

/-- `sizeof(time_t)`. -/
def SIZEOF_TIME : Word := 4

/-- `_stat`. -/
def _stat (bcopy : Bcopy) (path : CStr) (buf : Word) : K Int := do
  if ← valadr buf SIZEOF_STAT then do
    match ← nOpen path false with
    | (some ino, _) => do
      stcpy bcopy ino buf
      iDeref ino
      pure 0
    | (none, _) => pure (-1)
  else pure (-1)

/-- `_fstat`. -/
def _fstat (bcopy : Bcopy) (fd buf : Word) : K Int := do
  if ← valadr buf SIZEOF_STAT then do
    match ← getinode fd with
    | some ino => do
      stcpy bcopy ino buf
      pure 0
    | none => pure (-1)
  else pure (-1)

/-- `_times`, with the variable `ticks`. -/
def _times (bcopy : Bcopy) (ticks : Time) (buf : Word) : K Int := do
  if ← valadr buf (6 * SIZEOF_TIME) then do
    let u := (← get).udata
    bcopy buf 16 (wordBytes [u.uUtime.tTime, u.uUtime.tDate, u.uStime.tTime, u.uStime.tDate, u.uCutime.tTime,
      u.uCutime.tDate, u.uCstime.tTime, u.uCstime.tDate])
    bcopy (buf + 16) 4 (wordBytes [ticks.tTime, ticks.tDate])
    pure 0
  else pure (-1)

/-! ## The user area -/

/-- The bytes from `base` on are in the user area, and do not go around the end of the address space. -/
def InUserArea (l : Layout) (base : Word) (n : Nat) : Prop :=
  ∀ i < n, PROGBASE ≤ base.toNat + i ∧ base.toNat + i < l.udata

/-- A copy that stops with `e` where it would write outside of the user area. -/
def checkedBcopy (l : Layout) (e : Panic) : Bcopy := fun dest n f =>
  if PROGBASE ≤ dest.toNat ∧ dest.toNat + n ≤ l.udata then bcopy dest n f else throw e

/-- The call writes nothing outside of the user area: it is the same call with the check, whatever that stops with. -/
def WritesInside {α : Type} (s : Kernel) (call : Bcopy → K α) : Prop :=
  ∀ e, call (checkedBcopy s.layout e) s = call bcopy s

/-- The address behind a buffer in the upper part of the address space comes out below the process data. -/
def Wraps (s : Kernel) (base size : Word) : Prop :=
  PROGBASE ≤ base.toNat ∧ 2 ^ 16 ≤ base.toNat + size.toNat ∧ base.toNat + size.toNat - 2 ^ 16 < s.layout.udata

/-- `sizeof(struct u_data)`. -/
def SIZEOF_UDATA : Nat := 120

/-- The call gets as far as its copy. -/
def Finds (s : Kernel) (path : CStr) : Prop := ∃ ino parent s', nOpen path false s = .ok ((some ino, parent), s')

/-- The descriptor has an inode. -/
def Opened (s : Kernel) (fd : Word) : Prop := ∃ ino s', getinode fd s = .ok (some ino, s')

section Calls

variable {α : Type} {s : Kernel} {base size buf : Word} {call : Bcopy → K α} {l : Layout} {e : Panic}

/-- What `valadr` does. -/
lemma valadr_eq : valadr base size s =
    if base.toNat < PROGBASE ∨ s.layout.udata ≤ (base + size).toNat then
      .ok (false, s.withUdata { s.udata with uError := .efault })
    else .ok (true, s) := by
  show (if base.toNat < PROGBASE ∨ s.layout.udata ≤ (base + size).toNat then _ else _ : K Bool) s = _
  split <;> rfl

/-- A copy inside is not stopped. -/
lemma checkedBcopy_inside {dest : Word} {n : Nat} (inside : PROGBASE ≤ dest.toNat ∧ dest.toNat + n ≤ l.udata) :
    checkedBcopy l e dest n = bcopy dest n :=
  funext fun _ => if_pos inside

/-- The blocks of `stcpy` in a buffer that is inside. -/
lemma stcpy_checked {ino : Inoptr} (ge : PROGBASE ≤ buf.toNat) (le : buf.toNat + 30 ≤ l.udata)
    (hl : l.udata < 2 ^ 16) : stcpy (checkedBcopy l e) ino buf = stcpy bcopy ino buf := by
  have second : (buf + 12).toNat = buf.toNat + 12 := BitVec.toNat_add_of_lt (show buf.toNat + 12 < 2 ^ 16 by omega)
  have third : (buf + 14).toNat = buf.toNat + 14 := BitVec.toNat_add_of_lt (show buf.toNat + 14 < 2 ^ 16 by omega)
  unfold stcpy
  rw [checkedBcopy_inside (by omega), checkedBcopy_inside (by rw [second]; omega),
    checkedBcopy_inside (by rw [third]; omega)]

/-- The copy of `stcpy` is stopped. -/
lemma stcpy_stops {ino : Inoptr} (gt : l.udata < buf.toNat + 12) : stcpy (checkedBcopy l e) ino buf s = .error e := by
  have stops : ∀ f, checkedBcopy l e buf 12 f = throw e := fun f => if_neg fun inside => by omega
  unfold stcpy
  simp only [stops]
  rfl

/-- A call that the check stops has written outside. -/
lemma not_writesInside (stops : ∀ e, call (checkedBcopy s.layout e) s = .error e) : ¬ WritesInside s call := by
  intro inside
  have hangs := (stops .hang).symm.trans (inside .hang)
  have undefined := (stops .undefined).symm.trans (inside .undefined)
  cases hangs.trans undefined.symm

/-- What an accepted buffer can be. -/
lemma accepted (hl : s.layout.udata + SIZEOF_UDATA ≤ 2 ^ 16)
    (accepts : ¬ (base.toNat < PROGBASE ∨ s.layout.udata ≤ (base + size).toNat)) :
    PROGBASE ≤ base.toNat ∧ (¬ Wraps s base size → base.toNat + size.toNat < s.layout.udata) ∧
      (Wraps s base size ↔ 2 ^ 16 ≤ base.toNat + size.toNat) := by
  have lt := base.isLt
  have ltSize := size.isLt
  rw [not_or, BitVec.toNat_add] at accepts
  unfold Wraps
  unfold SIZEOF_UDATA at hl
  refine ⟨Nat.not_lt.mp accepts.1, fun fits => ?_, fun wraps => wraps.2.1, fun ge => ⟨Nat.not_lt.mp accepts.1, ge, ?_⟩⟩
  · omega
  · omega

/-- An address that is rejected. -/
lemma valadr_rejects (rejects : base.toNat < PROGBASE ∨ s.layout.udata ≤ (base + size).toNat) :
    valadr base size s = .ok (false, s.withUdata { s.udata with uError := .efault }) := by
  rw [valadr_eq, if_pos rejects]

/-- An address that is accepted. -/
lemma valadr_accepts (accepts : ¬ (base.toNat < PROGBASE ∨ s.layout.udata ≤ (base + size).toNat)) :
    valadr base size s = .ok (true, s) := by
  rw [valadr_eq, if_neg accepts]

/-- A buffer that goes around the end is accepted. -/
lemma Wraps.accepted (wraps : Wraps s base size) (hl : s.layout.udata + SIZEOF_UDATA ≤ 2 ^ 16) :
    ¬ (base.toNat < PROGBASE ∨ s.layout.udata ≤ (base + size).toNat) := by
  obtain ⟨ge, around, lt⟩ := wraps
  have ltBase := base.isLt
  have ltSize := size.isLt
  unfold SIZEOF_UDATA at hl
  rw [not_or, BitVec.toNat_add]
  omega

/-- A call that checks its buffer and then either leaves the memory of the process alone or begins with a copy that
the buffer has to hold writes inside unless it gets to the copy with a buffer that goes around the end. -/
lemma writesInside_checked {f : Bcopy → K α} {g : K α} {reaches : Prop} (hl : s.layout.udata + SIZEOF_UDATA ≤ 2 ^ 16)
    (runs : ∀ bc, call bc = (do if ← valadr buf size then f bc else g))
    (inside : buf.toNat + size.toNat < s.layout.udata → PROGBASE ≤ buf.toNat →
      ∀ e, f (checkedBcopy s.layout e) s = f bcopy s)
    (outside : reaches → 2 ^ 16 ≤ buf.toNat + size.toNat → ∀ e, f (checkedBcopy s.layout e) s = .error e)
    (before : ¬ reaches → ∀ bc, f bc s = f bcopy s) :
    WritesInside s call ↔ (reaches → ¬ Wraps s buf size) := by
  by_cases rejects : buf.toNat < PROGBASE ∨ s.layout.udata ≤ (buf + size).toNat
  · refine iff_of_true (fun e => ?_) fun _ wraps => wraps.accepted hl rejects
    rw [runs, runs, bind_of_ok (valadr_rejects rejects), bind_of_ok (valadr_rejects rejects)]
    rfl
  · obtain ⟨ge, fits, around⟩ := Uzi.accepted hl rejects
    have goes : ∀ bc, call bc s = f bc s := fun bc => by
      rw [runs, bind_of_ok (valadr_accepts rejects)]
      rfl
    unfold WritesInside
    simp only [goes]
    constructor
    · intro same reached wraps
      exact not_writesInside (outside reached (around.mp wraps)) (show WritesInside s f from same)
    · intro safe e
      by_cases reached : reaches
      · exact inside (fits (safe reached)) ge e
      · exact before reached _

end Calls

/-- `valadr` accepts no more than the user area, and a call that passes it writes nowhere else, except where the end
of the buffer goes around the end of the address space. -/
theorem valadr_inside_iff {s : Kernel} (hl : s.layout.udata + SIZEOF_UDATA ≤ 2 ^ 16) :
    (∀ base size, ((∃ s', valadr base size s = .ok (true, s')) → InUserArea s.layout base size.toNat) ↔
      ¬ Wraps s base size) ∧
    (∀ path buf, WritesInside s (_stat · path buf) ↔ (Finds s path → ¬ Wraps s buf SIZEOF_STAT)) ∧
    (∀ fd buf, WritesInside s (_fstat · fd buf) ↔ (Opened s fd → ¬ Wraps s buf SIZEOF_STAT)) ∧
    ∀ ticks buf, WritesInside s (_times · ticks buf) ↔ ¬ Wraps s buf (6 * SIZEOF_TIME) := by
  have lt : s.layout.udata < 2 ^ 16 := by
    unfold SIZEOF_UDATA at hl
    omega
  have far : ∀ {buf : Word}, 2 ^ 16 ≤ buf.toNat + SIZEOF_STAT.toNat → s.layout.udata < buf.toNat + 12 := by
    intro buf around
    have size : SIZEOF_STAT.toNat = 30 := rfl
    unfold SIZEOF_UDATA at hl
    omega
  have whole : ∀ {buf : Word} {e}, buf.toNat + SIZEOF_STAT.toNat < s.layout.udata → PROGBASE ≤ buf.toNat →
      ∀ ino, stcpy (checkedBcopy s.layout e) ino buf = stcpy bcopy ino buf :=
    fun le ge ino => stcpy_checked ge (Nat.le_of_lt le) lt
  refine ⟨fun base size => ?_, fun path buf => ?_, fun fd buf => ?_, fun ticks buf => ?_⟩
  · constructor
    · intro inside wraps
      have far := inside ⟨s, valadr_accepts (wraps.accepted hl)⟩ (size.toNat - 1)
      obtain ⟨_, around, _⟩ := wraps
      have ltBase := base.isLt
      have ends := far (by omega)
      omega
    · rintro safe ⟨s', accepts⟩ i inside
      by_cases rejects : base.toNat < PROGBASE ∨ s.layout.udata ≤ (base + size).toNat
      · cases (valadr_rejects rejects).symm.trans accepts
      · obtain ⟨ge, fits, _⟩ := accepted hl rejects
        have le := fits safe
        omega
  · refine writesInside_checked hl (fun bc => rfl) (fun le ge e => ?_) (fun finds around e => ?_) fun fails bc => ?_
    · simp only [whole le ge]
    · obtain ⟨ino, parent, s', found⟩ := finds
      rw [bind_of_ok found]
      exact bind_of_error (stcpy_stops (far around))
    · cases found : nOpen path false s with
      | error e => rw [bind_of_error found, bind_of_error found]
      | ok r =>
        obtain ⟨⟨ino, parent⟩, s'⟩ := r
        cases ino with
        | none => rw [bind_of_ok found, bind_of_ok found]
        | some ino => exact absurd ⟨ino, parent, s', found⟩ fails
  · refine writesInside_checked hl (fun bc => rfl) (fun le ge e => ?_) (fun opened around e => ?_) fun fails bc => ?_
    · simp only [whole le ge]
    · obtain ⟨ino, s', found⟩ := opened
      rw [bind_of_ok found]
      exact bind_of_error (stcpy_stops (far around))
    · cases found : getinode fd s with
      | error e => rw [bind_of_error found, bind_of_error found]
      | ok r =>
        obtain ⟨ino, s'⟩ := r
        cases ino with
        | none => rw [bind_of_ok found, bind_of_ok found]
        | some ino => exact absurd ⟨ino, s', found⟩ fails
  · have size : (6 * SIZEOF_TIME).toNat = 24 := rfl
    rw [← true_implies (¬ Wraps s buf (6 * SIZEOF_TIME))]
    refine writesInside_checked hl (fun bc => rfl) (fun le ge e => ?_) (fun _ around e => ?_)
      fun fails => absurd trivial fails
    · have second : (buf + 16).toNat = buf.toNat + 16 := BitVec.toNat_add_of_lt (show buf.toNat + 16 < 2 ^ 16 by omega)
      rw [checkedBcopy_inside (by omega), checkedBcopy_inside (by rw [second]; omega)]
    · unfold SIZEOF_UDATA at hl
      have stops : ∀ f, checkedBcopy s.layout e buf 16 f = throw e := fun f => if_neg fun inside => by omega
      simp only [stops]
      rfl

/-- A kernel with the process data where `uzi.cfg` has them. -/
def Kernel.linked : Kernel :=
  { Kernel.zeroed fun _ _ => .zero with layout := { Layout.example with udata := 0xa000 } }

/-- `_times` writes outside for a buffer 16 bytes before the end of the address space. -/
theorem valadr_inside_linked : ¬ WritesInside Kernel.linked (_times · ⟨0, 0⟩ 0xfff0) := fun inside =>
  ((valadr_inside_iff (s := Kernel.linked) (by decide)).2.2.2 ⟨0, 0⟩ 0xfff0).mp inside (by unfold Wraps; decide)

/-- A buffer of 30 bytes is accepted there. -/
theorem not_valadr_inside : (∃ s', valadr 0xfff0 30 Kernel.linked = .ok (true, s')) ∧
    ¬ InUserArea Kernel.linked.layout 0xfff0 30 :=
  ⟨⟨Kernel.linked, valadr_accepts (by decide)⟩, fun inside => absurd (inside 16 (by decide)).2 (by decide)⟩

end Uzi
