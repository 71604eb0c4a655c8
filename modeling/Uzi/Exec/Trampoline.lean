import Uzi.Lib.Interrupts
import Uzi.Unix

/-!
# Calls between banks

`_trampoline` of `kernel/trampoline.S`: a call of a function in another bank of the code. A program runs as if all of it
were in one memory, as long as no interrupt that makes such calls itself comes between the `sta trampoline_tmp` and the
`lda trampoline_tmp` that belong together: what it does there, and in what memory it ends, is what the program does with
the same interrupts when there are no banks (`Flat`).
-/

namespace Uzi.Banks
open Interrupts Cmd

/-! ## The machine -/

/-- What a program works on: the accumulator, and all other registers and memory. -/
structure Flat (D : Type) where
  a : Byte
  data : D

/-- The machine with what the trampoline uses, and with the stack of the CPU. `p2` is the register `MMC5_PRG_MODE3_P2`.
`saved` tells whether A is in `trampoline_tmp`, and `log` has for every instruction outside of the trampoline, branches
apart, the bank that it is in, if it is in one, and the bank that was mapped. -/
structure Mach (D : Type) extends Flat D where
  tmp4 : Byte
  p2 : Byte
  curCodeBank : Byte
  trampolineTmp : Byte
  stack : List Byte
  saved : Bool
  log : List (Option Byte × Byte)

/-- The bank that the trampoline maps for a page: ROM banks have bit 7 set. -/
def romBank (page : Byte) : Byte := page ||| 0x80

variable {D : Type}

/-- `sta trampoline_tmp`. -/
def staTmp : Cmd (Mach D) := set fun s => { s with trampolineTmp := s.a, saved := true }

/-- `lda trampoline_tmp`. -/
def ldaTmp : Cmd (Mach D) := set fun s => { s with a := s.trampolineTmp, saved := false }

/-- `lda cur_code_bank`. -/
def ldaCur : Cmd (Mach D) := set fun s => { s with a := s.curCodeBank }

/-- `lda tmp4; ora #$80`. -/
def ldaPage : Cmd (Mach D) := seq (set fun s => { s with a := s.tmp4 }) (set fun s => { s with a := romBank s.a })

/-- `sta MMC5_PRG_MODE3_P2; sta cur_code_bank`. -/
def staBank : Cmd (Mach D) := seq (set fun s => { s with p2 := s.a }) (set fun s => { s with curCodeBank := s.a })

/-- `pha`. -/
def pha : Cmd (Mach D) := set fun s => { s with stack := s.a :: s.stack }

/-- `pla`. -/
def pla : Cmd (Mach D) := act fun s =>
  match s.stack with
  | [] => none
  | x :: stack => some { s with a := x, stack }

/-- `call_target_noswitch`. -/
def callTargetNoswitch (target : Cmd (Mach D)) : Cmd (Mach D) := seq ldaTmp target

/-- `trampoline_init`. -/
def trampolineInit (target : Cmd (Mach D)) : Cmd (Mach D) := seq ldaPage (seq staBank (callTargetNoswitch target))

/-- What follows the call in the rest of `trampoline_main`. -/
def mapBack : Cmd (Mach D) := seq staTmp (seq pla (seq staBank ldaTmp))

/-- The rest of `trampoline_main` where the page is another one. -/
def callTargetSwitch (target : Cmd (Mach D)) : Cmd (Mach D) :=
  seq ldaCur (seq pha (seq ldaPage (seq staBank (seq ldaTmp (seq target mapBack)))))

/-- `trampoline_main`. -/
def trampolineMain (target : Cmd (Mach D)) : Cmd (Mach D) :=
  seq ldaPage (ite (fun s => s.a = s.curCodeBank) (callTargetNoswitch target) (callTargetSwitch target))

/-- `_trampoline`, with what is at `callptr4`. -/
def trampoline (target : Cmd (Mach D)) : Cmd (Mach D) :=
  seq staTmp (seq ldaCur (ite (fun s => s.a ≠ 0) (trampolineMain target) (trampolineInit target)))

/-- A piece of code: instructions, code that depends on what they have computed, loops, and calls of code in the bank of
a page. -/
inductive Code (D : Type)
  | done
  | compute (f : Flat D → Flat D) (next : Code D)
  | look (k : Flat D → Code D)
  | loop (p : Flat D → Bool) (body next : Code D)
  | call (page : Byte) (target next : Code D)

namespace Code

/-- The code in the bank `own`, or in the memory that is always mapped. A call leaves the page in `tmp4`. -/
def cmd : Code D → Option Byte → Cmd (Mach D)
  | done, _ => skip
  | compute f next, own =>
    seq (set fun s => { s with toFlat := f s.toFlat, log := (own, s.p2) :: s.log }) (next.cmd own)
  | look k, own => Cmd.look fun s => (k s.toFlat).cmd own
  | loop p body next, own => seq (Cmd.loop (fun s => p s.toFlat) (body.cmd own)) (next.cmd own)
  | call page target next, own =>
    seq (set fun s => { s with tmp4 := page, log := (own, s.p2) :: s.log })
      (seq (trampoline (target.cmd (some (romBank page)))) (next.cmd own))

/-- The code when all of it is in one memory. -/
def flat : Code D → Cmd (Flat D)
  | done => skip
  | compute f next => seq (set f) next.flat
  | look k => Cmd.look fun y => (k y).flat
  | loop p body next => seq (Cmd.loop p body.flat) next.flat
  | call _ target next => seq target.flat next.flat

end Code

/-- No interrupt does anything. -/
def Quiet {σ : Type} (s s' : σ) : Prop := s' = s

/-- An interrupt does nothing to the flat machine, or runs its handler. The handler runs without interrupts, and `irq`
gives A back and, of the registers and the zero page, what `back` makes of the memory before and after. -/
def FlatIrq (handler : Code D) (back : D → D → D) (y y' : Flat D) : Prop :=
  y' = y ∨ ∃ t, Run Quiet handler.flat y skip t ∧ y' = ⟨y.a, back y.data t.data⟩

/-- An interrupt of the banked machine does the same where it is allowed, with a handler that makes calls between
banks. -/
def Irq (handler : Code D) (back : D → D → D) (allowed : Mach D → Prop) (s s' : Mach D) : Prop :=
  s' = s ∨ allowed s ∧ ∃ t, Run Quiet (handler.cmd none) s skip t ∧
    s' = { t with a := s.a, data := back s.data t.data, tmp4 := s.tmp4 }

/-- Everywhere but where A is in `trampoline_tmp`. -/
abbrev Unsaved (s : Mach D) : Prop := s.saved = false

/-! ## Between the calls -/

/-- Every instruction so far was in a bank that was mapped. -/
def Mach.InBank (s : Mach D) : Prop := ∀ e ∈ s.log, ∀ b, e.1 = some b → e.2 = b

/-- The bank `cur` is mapped and is known to be, or, where there is none, the one that is known to be mapped is. -/
def Mach.Mapped (s : Mach D) (cur : Option Byte) : Prop :=
  match cur with
  | some b => s.curCodeBank = b ∧ s.p2 = b
  | none => s.curCodeBank = 0 ∨ s.p2 = s.curCodeBank

/-- Outside of the trampoline, with `Φ` for the flat machine. -/
structure At (cur : Option Byte) (Φ : Flat D → Prop) (stack : List Byte) (s : Mach D) : Prop where
  saved : s.saved = false
  holds : Φ s.toFlat
  stack : s.stack = stack
  mapped : s.Mapped cur
  inBank : s.InBank

variable {cur own : Option Byte} {page : Byte} {stack : List Byte} {Φ Ψ : Flat D → Prop} {s t : Mach D} {y z : Flat D}

/-- An instruction in the bank that is mapped. -/
lemma At.logged (h : At cur Φ stack s) (known : ∀ b, own = some b → cur = some b) :
    ∀ e ∈ (own, s.p2) :: s.log, ∀ b, e.1 = some b → e.2 = b := by
  refine List.forall_mem_cons.mpr ⟨fun b e => ?_, h.inBank⟩
  have mapped := h.mapped
  rw [known b e] at mapped
  exact mapped.2

/-- Of the flat machine something else is said. -/
lemma At.mono (h : At cur Φ stack s) (holds : Ψ s.toFlat) : At cur Ψ stack s :=
  ⟨h.saved, holds, h.stack, h.mapped, h.inBank⟩

/-- In the trampoline, with `Φ` for the flat machine, of which A is in `trampoline_tmp`. -/
structure Saved (cur : Option Byte) (Φ : Flat D → Prop) (stack : List Byte) (s : Mach D) : Prop where
  saved : s.saved = true
  holds : Φ ⟨s.trampolineTmp, s.data⟩
  stack : s.stack = stack
  mapped : s.Mapped cur
  inBank : s.InBank

/-- In the trampoline, with nothing said about what has been saved. -/
def Mach.Inside (s : Mach D) : Prop := s.saved = true ∧ s.InBank

/-- The next step is inside. -/
lemma Mach.Inside.next {s s' : Mach D} (h : s.Inside) (same : s'.saved = s.saved ∧ s'.log = s.log) : s'.Inside := by
  refine ⟨same.1.trans h.1, fun e mem => h.2 e ?_⟩
  rw [← same.2]
  exact mem

/-- The registers are saved inside. -/
lemma Saved.inside (h : Saved cur Φ stack s) : s.Inside := ⟨h.saved, h.inBank⟩

/-- What interrupts of the flat machine keep. -/
def Stable (M : Flat D → Flat D → Prop) (Φ : Flat D → Prop) : Prop := ∀ y y', M y y' → Φ y → Φ y'

/-- What is asked of interrupts `N`, to be interrupts `M` of the flat machine. -/
structure Gentle (N : Mach D → Mach D → Prop) (M : Flat D → Flat D → Prop) : Prop where
  saved : ∀ s s', N s s' → s.saved = true → s' = s
  keeps : ∀ s s' cur Φ stack, cur ≠ some 0 → Stable M Φ → N s s' → At cur Φ stack s →
    At cur Φ stack s' ∧ s'.tmp4 = s.tmp4

variable {N : Mach D → Mach D → Prop} {M : Flat D → Flat D → Prop} {f : Mach D → Mach D} {c d : Cmd (Mach D)}
  {Q : Mach D → Prop}

namespace Gentle

variable (g : Gentle N M)
include g

/-- Interrupts keep a condition that the handler keeps. -/
lemma firm (ne : cur ≠ some 0) (keeps : Stable M Φ) : Firm N Mach.InBank (At cur Φ stack) where
  safe _ at_ := at_.inBank
  stable s s' at_ int := (g.keeps s s' cur Φ stack ne keeps int at_).1

/-- And while the page is in `tmp4`. -/
lemma firmCall (ne : cur ≠ some 0) (keeps : Stable M Φ) :
    Firm N Mach.InBank (fun s => s.tmp4 = page ∧ At cur Φ stack s) where
  safe _ at_ := at_.2.inBank
  stable s s' at_ int := by
    obtain ⟨kept, same⟩ := g.keeps s s' cur Φ stack ne keeps int at_.2
    exact ⟨same.trans at_.1, kept⟩

/-- In the trampoline every state stays as it is. -/
lemma firmInside {P : Mach D → Prop} (h : ∀ s, P s → s.Inside) : Firm N Mach.InBank P where
  safe s hs := (h s hs).2
  stable s s' hs int := g.saved s s' int (h s hs).1 ▸ hs

/-- Interrupts keep a state inside. -/
lemma firmEq (h : t.Inside) : Firm N Mach.InBank (· = t) := g.firmInside fun _ e => e ▸ h

/-- An instruction of the trampoline. -/
lemma step (h : t.Inside) (same : (f t).saved = t.saved ∧ (f t).log = t.log)
    (next : (f t).Inside → Triple N Mach.InBank (· = f t) d Q) : Triple N Mach.InBank (· = t) (seq (set f) d) Q := by
  have inside := h.next same
  exact .seq (.set (g.firmEq h) (g.firmEq inside) fun _ e => congrArg f e) (next inside)

/-- Two of them. -/
lemma pair {f' : Mach D → Mach D} (h : t.Inside) (same : (f t).saved = t.saved ∧ (f t).log = t.log)
    (same' : (f' (f t)).saved = (f t).saved ∧ (f' (f t)).log = (f t).log)
    (next : (f' (f t)).Inside → Triple N Mach.InBank (· = f' (f t)) d Q) :
    Triple N Mach.InBank (· = t) (seq (seq (set f) (set f')) d) Q := by
  have inside := (h.next same).next same'
  refine .seq (g.step h same fun first => ?_) (next inside)
  exact .set (g.firmEq first) (g.firmEq inside) fun _ e => congrArg f' e

/-- A test in the trampoline. -/
lemma test {p : Mach D → Bool} (h : t.Inside) (yes : p t = true → Triple N Mach.InBank (· = t) c Q)
    (no : p t = false → Triple N Mach.InBank (· = t) d Q) : Triple N Mach.InBank (· = t) (ite p c d) Q := by
  refine .look (g.firmEq h) fun s e => ⟨(· = t), e, ?_⟩
  subst e
  cases h : p s with
  | true => exact yes h
  | false => exact no h

/-- The trampoline is left with `lda trampoline_tmp`. -/
lemma leave (ne : cur ≠ some 0) (keeps : Stable M Φ) (h : Saved cur Φ stack t) :
    Triple N Mach.InBank (· = t) ldaTmp (At cur Φ stack) := by
  refine .set (g.firmEq h.inside) (g.firm ne keeps) fun s e => ?_
  subst e
  exact ⟨rfl, h.holds, h.stack, h.mapped, h.inBank⟩

end Gentle

/-- A bank of the cartridge is not bank 0. -/
lemma romBank_ne_zero : romBank page ≠ 0 := by
  intro e
  have bit := congrArg (BitVec.getLsbD · 7) e
  simp [romBank] at bit

/-- A known bank of the cartridge is not bank 0. -/
lemma some_romBank_ne : some (romBank page) ≠ some 0 := fun e => romBank_ne_zero (Option.some.inj e)

/-- The bank is mapped and known. -/
lemma Mach.Mapped.of_some {b : Byte} (h : s.Mapped (some b)) (known : ∀ b', cur = some b' → b' = b) : s.Mapped cur := by
  cases cur with
  | none => exact .inr (h.2.trans h.1.symm)
  | some b' => exact known b' rfl ▸ h

/-- The bank that is mapped is the current one. -/
lemma Mach.Mapped.self (h : s.Mapped cur) (used : s.curCodeBank ≠ 0) : s.Mapped (some s.curCodeBank) := by
  cases cur with
  | none => exact ⟨rfl, h.resolve_left used⟩
  | some b => exact ⟨rfl, h.2.trans h.1.symm⟩

/-- The bank that is known is the current one. -/
lemma Mach.Mapped.known (h : s.Mapped cur) (b : Byte) (e : cur = some b) : b = s.curCodeBank := by
  subst e
  exact h.1.symm

namespace Gentle

variable (g : Gentle N M)
include g

section Call

variable (target : ∀ stack, Triple N Mach.InBank (At (some (romBank page)) Φ stack) c
  (At (some (romBank page)) Ψ stack)) (before : Stable M Φ)
include target before

/-- The target is called without a change of the bank. -/
lemma noswitch (h : Saved (some (romBank page)) Φ stack t) (known : ∀ b, cur = some b → b = romBank page) :
    Triple N Mach.InBank (· = t) (callTargetNoswitch c) (At cur Ψ stack) := by
  refine .seq (g.leave some_romBank_ne before h) ((target stack).post fun s at_ => ?_)
  exact ⟨at_.saved, at_.holds, at_.stack, at_.mapped.of_some known, at_.inBank⟩

variable (ne : cur ≠ some 0) (after : Stable M Ψ)
include ne after

/-- The target is called in its bank, and the bank from before is mapped again. -/
lemma switch (h : Saved cur Φ stack t) (tmp4 : t.tmp4 = page) (known : ∀ b, cur = some b → b = t.curCodeBank) :
    Triple N Mach.InBank (· = t) (callTargetSwitch c) (At cur Ψ stack) := by
  refine g.step h.inside ⟨rfl, rfl⟩ fun inside => g.step inside ⟨rfl, rfl⟩ fun inside =>
    g.pair inside ⟨rfl, rfl⟩ ⟨rfl, rfl⟩ fun inside => g.pair inside ⟨rfl, rfl⟩ ⟨rfl, rfl⟩ fun inside => ?_
  -- the bank of the page is mapped, and the one from before is on the stack
  have bank : romBank t.tmp4 = romBank page := congrArg romBank tmp4
  refine .seq (R := At (some (romBank page)) Φ (t.curCodeBank :: stack)) (g.leave some_romBank_ne before ?_) ?_
  · exact ⟨inside.1, h.holds, congrArg _ h.stack, ⟨bank, bank⟩, inside.2⟩
  refine .seq (target _) ?_
  have back : Triple N Mach.InBank (At (some (romBank page)) Ψ (t.curCodeBank :: stack)) staTmp
      (Saved (some (romBank page)) Ψ (t.curCodeBank :: stack)) := by
    refine .set (g.firm some_romBank_ne after) (g.firmInside fun _ h => h.inside) fun s at_ => ?_
    exact ⟨rfl, at_.holds, at_.stack, at_.mapped, at_.inBank⟩
  refine back.seq (.each_pre fun s h => .seq (R := (· = { s with a := t.curCodeBank, stack })) ?_ ?_)
  · have inside' : Mach.Inside { s with a := t.curCodeBank, stack } := h.inside.next ⟨rfl, rfl⟩
    refine .act (g.firmEq h.inside) (g.firmEq inside') fun s' e => ⟨_, ?_, rfl⟩
    subst e
    rw [h.stack]
  · refine g.pair (h.inside.next ⟨rfl, rfl⟩) ⟨rfl, rfl⟩ ⟨rfl, rfl⟩ fun inside => g.leave ne after ?_
    exact ⟨inside.1, h.holds, rfl, Mach.Mapped.of_some ⟨rfl, rfl⟩ known, inside.2⟩

/-- The trampoline calls its target in the bank of the page, and gives A on in both directions. -/
lemma trampoline : Triple N Mach.InBank (fun s => s.tmp4 = page ∧ At cur Φ stack s) (trampoline c)
    (At cur Ψ stack) := by
  have enter : Triple N Mach.InBank (fun s => s.tmp4 = page ∧ At cur Φ stack s) staTmp
      (fun s => s.tmp4 = page ∧ Saved cur Φ stack s) := by
    refine .set (g.firmCall ne before) (g.firmInside fun _ h => h.2.inside) fun s h => ?_
    obtain ⟨tmp4, at_⟩ := h
    exact ⟨tmp4, rfl, at_.holds, at_.stack, at_.mapped, at_.inBank⟩
  refine enter.seq (.each_pre fun s h => ?_)
  obtain ⟨rfl, h⟩ := h
  refine g.step h.inside ⟨rfl, rfl⟩ fun inside => g.test inside (fun used => ?_) fun unused => ?_
  · have used : s.curCodeBank ≠ 0 := of_decide_eq_true used
    refine g.pair inside ⟨rfl, rfl⟩ ⟨rfl, rfl⟩ fun inside => g.test inside (fun same => ?_) fun _ => ?_
    · have same : romBank s.tmp4 = s.curCodeBank := of_decide_eq_true same
      have mapped : s.Mapped (some (romBank s.tmp4)) := same ▸ h.mapped.self used
      refine g.noswitch target before ⟨inside.1, h.holds, h.stack, mapped, inside.2⟩ fun b e => ?_
      exact (h.mapped.known b e).trans same.symm
    · exact g.switch target before ne after ⟨inside.1, h.holds, h.stack, h.mapped, inside.2⟩ rfl h.mapped.known
  · -- no bank is mapped, and none is again afterwards
    have unused : s.curCodeBank = 0 := of_not_not (of_decide_eq_false unused)
    refine g.pair inside ⟨rfl, rfl⟩ ⟨rfl, rfl⟩ fun inside => g.pair inside ⟨rfl, rfl⟩ ⟨rfl, rfl⟩ fun inside => ?_
    refine g.noswitch target before ⟨inside.1, h.holds, h.stack, ⟨rfl, rfl⟩, inside.2⟩ fun b e => absurd ?_ ne
    rw [e, h.mapped.known b e, unused]

end Call

end Gentle

/-! ## The flat program next to the banked one -/

/-- How far a run of the flat program has come. -/
lemma stable_run {c₀ d : Cmd (Flat D)} {y₀ : Flat D} : Stable M (Run M c₀ y₀ d) := fun _ _ int run => run.interrupt int

/-- A piece of code in the bank that is mapped, or in the memory that always is, while a run of the flat program goes
on: every state of it is the one that the flat program has come to. -/
lemma Gentle.code (g : Gentle N M) (known : ∀ b, own = some b → cur = some b) (ne : cur ≠ some 0) (c : Code D)
    {c₀ : Cmd (Flat D)} {y₀ : Flat D} (ds : List (Cmd (Flat D))) :
    Triple N Mach.InBank (At cur (Run M c₀ y₀ (c.flat.plug ds)) stack) (c.cmd own)
      (At cur (Run M c₀ y₀ (skip.plug ds)) stack) := by
  induction c generalizing own cur stack ds with
  | done => exact .skip (g.firm ne stable_run)
  | compute f next ih =>
    refine .seq (.set (g.firm ne stable_run) (g.firm ne stable_run) fun s at_ => ?_) (ih known ne ds)
    exact ⟨at_.saved, at_.holds.assign, at_.stack, at_.mapped, at_.logged known⟩
  | look k ih =>
    refine .look (g.firm ne stable_run) fun s at_ => ⟨_, at_.mono ?_, ih s.toFlat known ne ds⟩
    exact at_.holds.step (Step.look.plug ds)
  | loop p body next ihBody ihNext =>
    -- the round is in front of the loop, and the loop in front of the rest
    have round : Triple N Mach.InBank
        (At cur (Run M c₀ y₀ (body.flat.plug (Cmd.loop p body.flat :: next.flat :: ds))) stack) (body.cmd own)
        (At cur (Run M c₀ y₀ ((Cmd.loop p body.flat).plug (next.flat :: ds))) stack) :=
      (ihBody known ne _).post fun s at_ => at_.mono at_.holds.unplug
    refine .seq (.loop (g.firm ne stable_run) (g.firm ne stable_run) (fun s at_ more => at_.mono ?_) round
      fun s at_ ends => at_.mono ?_) (ihNext known ne ds)
    · exact at_.holds.step ((Step.again more).plug (next.flat :: ds))
    · exact (at_.holds.step ((Step.leave ends).plug (next.flat :: ds))).unplug
  | call page target next ihTarget ihNext =>
    have called : ∀ stack, Triple N Mach.InBank
        (At (some (romBank page)) (Run M c₀ y₀ (target.flat.plug (next.flat :: ds))) stack)
        (target.cmd (some (romBank page))) (At (some (romBank page)) (Run M c₀ y₀ (next.flat.plug ds)) stack) :=
      fun stack => (ihTarget (fun _ => id) some_romBank_ne _).post fun s at_ => at_.mono at_.holds.unplug
    refine .seq (.set (g.firm ne stable_run) (g.firmCall ne stable_run) fun s at_ => ?_)
      ((g.trampoline called stable_run ne stable_run).seq (ihNext known ne ds))
    exact ⟨rfl, at_.saved, at_.holds, at_.stack, at_.mapped, at_.logged known⟩

/-- A handler that does nothing is gentle. -/
lemma gentle_quiet : Gentle (D := D) Quiet Quiet where
  saved _ _ same _ := same
  keeps s s' cur Φ stack _ _ same at_ := by
    obtain rfl := same
    exact ⟨at_, rfl⟩

section Handler

variable (handler : Code D) (back : D → D → D)

/-- The handler does on the banked machine what it does on the flat one. -/
lemma gentle_irq : Gentle (Irq handler back Unsaved) (FlatIrq handler back) where
  saved s s' int h := by
    obtain same | ⟨free, -⟩ := int
    · exact same
    · cases h.symm.trans free
  keeps s s' cur Φ stack ne stable int at_ := by
    obtain rfl | ⟨-, t, run, rfl⟩ := int
    · exact ⟨at_, rfl⟩
    · have after := (gentle_quiet.code (fun _ e => by cases e) ne handler [] s
        (at_.mono (Run.start (N := Quiet) (c := handler.flat))) _ t run).2.2 rfl
      refine ⟨⟨after.saved, ?_, after.stack, after.mapped, after.inBank⟩, rfl⟩
      exact stable s.toFlat _ (.inr ⟨t.toFlat, after.holds, rfl⟩) at_.holds

end Handler

/-! ## The banked program next to the flat one -/

/-- A run of a banked program has come to `d`, with the A and the memory of the flat one. -/
def Beside (N : Mach D → Mach D → Prop) (d₀ : Cmd (Mach D)) (s₀ : Mach D) (cur : Option Byte) (stack : List Byte)
    (d : Cmd (Mach D)) (y : Flat D) : Prop :=
  ∃ s, Run N d₀ s₀ d s ∧ At cur (· = y) stack s

/-- To every interrupt of the flat machine there is one of the banked machine that does the same. -/
def Answers (N : Mach D → Mach D → Prop) (M : Flat D → Flat D → Prop) : Prop :=
  ∀ s y cur stack, cur ≠ some 0 → M s.toFlat y → At cur (fun _ => True) stack s →
    ∃ s', N s s' ∧ At cur (· = y) stack s'

/-- The trampoline can be entered, and left again after the call. -/
lemma trampoline_enter (ne : cur ≠ some 0) (tmp4 : s.tmp4 = page) (h : At cur (· = y) stack s) (c : Cmd (Mach D)) :
    ∃ ds stack' s', Run N (trampoline c) s (c.plug ds) s' ∧ At (some (romBank page)) (· = y) stack' s' ∧
      ∀ z t, At (some (romBank page)) (· = z) stack' t →
        ∃ t', Run N (skip.plug ds) t skip t' ∧ At cur (· = z) stack t' := by
  have entered : Run N (trampoline c) s (trampoline c) s := .start
  have tested := entered.set.set
  by_cases unused : s.curCodeBank = 0
  · have called := (tested.no (decide_eq_false (not_not_intro unused))).pair.pair.set
    have bank : romBank s.tmp4 = romBank page := congrArg romBank tmp4
    refine ⟨[], stack, _, called, ⟨rfl, h.holds, h.stack, ⟨bank, bank⟩, h.inBank⟩, fun z t at_ => ?_⟩
    refine ⟨t, .start, at_.saved, at_.holds, at_.stack, at_.mapped.of_some fun b e => absurd ?_ ne, at_.inBank⟩
    rw [e, h.mapped.known b e, unused]
  · have paged := (tested.yes (decide_eq_true unused)).pair
    by_cases same : romBank s.tmp4 = s.curCodeBank
    · have called := (paged.yes (decide_eq_true same)).set
      have bank : s.curCodeBank = romBank page := same.symm.trans (congrArg romBank tmp4)
      refine ⟨[], stack, _, called, ⟨rfl, h.holds, h.stack, bank ▸ h.mapped.self unused, h.inBank⟩, fun z t at_ => ?_⟩
      refine ⟨t, .start, at_.saved, at_.holds, at_.stack, at_.mapped.of_some fun b e => ?_, at_.inBank⟩
      exact (h.mapped.known b e).trans bank
    · have called := (paged.no (decide_eq_false same)).set.set.pair.pair.set
      have bank : romBank s.tmp4 = romBank page := congrArg romBank tmp4
      refine ⟨[mapBack], s.curCodeBank :: stack, _, called,
        ⟨rfl, h.holds, congrArg _ h.stack, ⟨bank, bank⟩, h.inBank⟩, fun z t at_ => ?_⟩
      have left : Run N (skip.plug [mapBack]) t mapBack t := Run.start.step .seqR
      have popped := left.set.step (.seqL (.act (by rw [at_.stack])))
      have mapped := (popped.step .seqR).pair.step (.act rfl)
      exact ⟨_, mapped, rfl, at_.holds, rfl, .of_some ⟨rfl, rfl⟩ h.mapped.known, at_.inBank⟩

namespace Answers

variable (answers : Answers N M)
include answers

/-- Interrupts keep the two programs beside each other. -/
lemma firm {d₀ d : Cmd (Mach D)} {s₀ : Mach D} (ne : cur ≠ some 0) :
    Firm M (fun _ => True) (Beside N d₀ s₀ cur stack d) where
  safe _ _ := trivial
  stable y y' beside int := by
    obtain ⟨s, run, at_⟩ := beside
    obtain ⟨s', int', at_'⟩ := answers s y' cur stack ne (at_.holds ▸ int) (at_.mono trivial)
    exact ⟨s', run.interrupt int', at_'⟩

/-- The flat program, while a run of the banked one goes on. -/
lemma code (known : ∀ b, own = some b → cur = some b) (ne : cur ≠ some 0) (c : Code D) {d₀ : Cmd (Mach D)}
    {s₀ : Mach D} (ds : List (Cmd (Mach D))) :
    Triple M (fun _ => True) (Beside N d₀ s₀ cur stack ((c.cmd own).plug ds)) c.flat
      (Beside N d₀ s₀ cur stack (skip.plug ds)) := by
  induction c generalizing own cur stack ds with
  | done => exact .skip (answers.firm ne)
  | compute f next ih =>
    refine .seq (.set (answers.firm ne) (answers.firm ne) fun y beside => ?_) (ih known ne ds)
    obtain ⟨s, run, at_⟩ := beside
    exact ⟨_, run.assign, at_.saved, congrArg f at_.holds, at_.stack, at_.mapped, at_.logged known⟩
  | look k ih =>
    refine .look (answers.firm ne) fun y beside => ⟨_, ?_, ih y known ne ds⟩
    obtain ⟨s, run, at_⟩ := beside
    obtain rfl := at_.holds
    exact ⟨s, run.step (Step.look.plug ds), at_⟩
  | loop p body next ihBody ihNext =>
    have round : Triple M (fun _ => True)
        (Beside N d₀ s₀ cur stack
          ((body.cmd own).plug (Cmd.loop (fun s => p s.toFlat) (body.cmd own) :: next.cmd own :: ds)))
        body.flat
        (Beside N d₀ s₀ cur stack ((Cmd.loop (fun s => p s.toFlat) (body.cmd own)).plug (next.cmd own :: ds))) :=
      (ihBody known ne _).post fun z ended => ended.imp fun s got => ⟨got.1.unplug, got.2⟩
    refine .seq (.loop (answers.firm ne) (answers.firm ne) (fun y beside more => ?_) round
      fun y beside ends => ?_) (ihNext known ne ds)
    · obtain ⟨s, run, at_⟩ := beside
      obtain rfl := at_.holds
      have st : Step (Cmd.loop (fun s => p s.toFlat) (body.cmd own)) s _ s := .again more
      exact ⟨s, run.step (st.plug (next.cmd own :: ds)), at_⟩
    · obtain ⟨s, run, at_⟩ := beside
      obtain rfl := at_.holds
      have st : Step (Cmd.loop (fun s => p s.toFlat) (body.cmd own)) s skip s := .leave ends
      exact ⟨s, (run.step (st.plug (next.cmd own :: ds))).unplug, at_⟩
  | call page target next ihTarget ihNext =>
    refine .seq (.each_pre fun y beside => ?_) (ihNext known ne ds)
    obtain ⟨s, run, at_⟩ := beside
    have given : At cur (· = y) stack { s with tmp4 := page, log := (own, s.p2) :: s.log } :=
      ⟨at_.saved, at_.holds, at_.stack, at_.mapped, at_.logged known⟩
    obtain ⟨es, stack', s', entered, inside, leave⟩ :=
      trampoline_enter ne rfl given (target.cmd (some (romBank page)))
    have begun := run.assign.trans (entered.plug (next.cmd own :: ds))
    rw [plug_plug] at begun
    have called : Triple M (fun _ => True)
        (Beside N d₀ s₀ (some (romBank page)) stack'
          ((target.cmd (some (romBank page))).plug (es ++ next.cmd own :: ds)))
        target.flat (Beside N d₀ s₀ (some (romBank page)) stack' (skip.plug (es ++ next.cmd own :: ds))) :=
      ihTarget (fun _ => id) some_romBank_ne _
    refine (called.pre fun x e => ?_).post fun z ended => ?_
    · obtain rfl : x = y := e
      exact ⟨s', begun, inside⟩
    · obtain ⟨t, run, at_⟩ := ended
      rw [← plug_plug] at run
      obtain ⟨t', left, at_'⟩ := leave z t at_
      exact ⟨t', (run.trans (left.plug (next.cmd own :: ds))).unplug, at_'⟩

/-- What the flat program can do, the banked one can. -/
lemma run (known : ∀ b, own = some b → cur = some b) (ne : cur ≠ some 0) {c : Code D} (at_ : At cur (· = y) stack s)
    (ran : Run M c.flat y skip z) : ∃ s', Run N (c.cmd own) s skip s' ∧ At cur (· = z) stack s' :=
  (answers.code known ne c [] y ⟨s, .start, at_⟩ _ z ran).2.2 rfl

end Answers

/-- A handler that does nothing answers. -/
lemma answers_quiet : Answers (D := D) Quiet Quiet :=
  fun s _ _ _ _ same at_ => ⟨s, rfl, at_.mono same.symm⟩

/-- The banked machine can be interrupted wherever the flat one can. -/
lemma answers_irq (handler : Code D) (back : D → D → D) :
    Answers (Irq handler back Unsaved) (FlatIrq handler back) := by
  intro s y cur stack ne int at_
  obtain rfl | ⟨z, ran, rfl⟩ := int
  · exact ⟨s, .inl rfl, at_.mono rfl⟩
  · have unowned : ∀ b, (none : Option Byte) = some b → cur = some b := fun _ e => by cases e
    obtain ⟨t, run, after⟩ := answers_quiet.run unowned ne (at_.mono rfl) ran
    obtain rfl := after.holds
    exact ⟨_, .inr ⟨at_.saved, t, run, rfl⟩, after.saved, rfl, after.stack, after.mapped, after.inBank⟩

/-! ## Whole programs -/

/-- The kernel where no banked function has been called yet. -/
def reset (y : Flat D) (tmp4 p2 : Byte) (stack : List Byte) : Mach D :=
  { toFlat := y, tmp4, p2, curCodeBank := 0, trampolineTmp := 0, stack, saved := false, log := [] }

/-- The kernel at its start. -/
lemma at_reset {tmp4 p2 : Byte} (holds : Φ y) : At none Φ stack (reset y tmp4 p2 stack) :=
  ⟨rfl, holds, rfl, .inl rfl, nofun⟩

/-- A program whose functions are in banks does what it does when all of it is in one memory: it is never stuck, every
instruction is executed while its bank is mapped, the stack is what it was at its end, and the values of A and of the
memory with which it can end are those with which the flat program can. -/
theorem banked_is_flat (c handler : Code D) (back : D → D → D) (y : Flat D) (tmp4 p2 : Byte) (stack : List Byte) :
    (∀ d s, Run (Irq handler back Unsaved) (c.cmd none) (reset y tmp4 p2 stack) d s →
      s.InBank ∧ Live d s ∧ (d = skip → s.stack = stack)) ∧
    ∀ z, Run (FlatIrq handler back) c.flat y skip z ↔
      ∃ s, Run (Irq handler back Unsaved) (c.cmd none) (reset y tmp4 p2 stack) skip s ∧ s.toFlat = z := by
  have ne : (none : Option Byte) ≠ some 0 := (Option.some_ne_none 0).symm
  have known : ∀ b : Byte, (none : Option Byte) = some b → (none : Option Byte) = some b := fun _ => id
  have triple := (gentle_irq handler back).code known ne c [] (reset y tmp4 p2 stack) (at_reset .start)
  refine ⟨fun d s run => ?_, fun z => ⟨fun ran => ?_, fun banked => ?_⟩⟩
  · obtain ⟨inBank, live, fin⟩ := triple d s run
    exact ⟨inBank, live, fun e => (fin e).stack⟩
  · obtain ⟨s, run, at_⟩ := (answers_irq handler back).run known ne (at_reset rfl) ran
    exact ⟨s, run, at_.holds⟩
  · obtain ⟨s, run, rfl⟩ := banked
    exact ((triple _ s run).2.2 rfl).holds

/-- A loop in one bank, which goes on to 9 in A, and behind it the call of a function in another one. -/
def looping : Code Byte :=
  .call 1 (.loop (fun y => y.a.toNat < 9) (.compute (fun y => { y with a := y.a + 1 }) .done)
    (.call 2 (.compute (fun y => { y with a := y.a * 2 }) .done) .done)) .done

/-- A handler that counts in the memory, and calls a function in a bank. -/
def ticking : Code Byte := .compute (fun y => ⟨3, y.data + 1⟩) (.call 2 .done .done)

/-- With an interrupt in the loop. -/
theorem banked_is_flat_looping : ∃ s,
    Run (Irq ticking (fun _ data => data) Unsaved) (looping.cmd none) (reset ⟨7, 0⟩ 0 0 []) skip s ∧ s.InBank ∧
      s.stack = [] ∧ s.toFlat = ⟨18, 1⟩ ∧
      Run (FlatIrq ticking fun _ data => data) looping.flat ⟨7, 0⟩ skip ⟨18, 1⟩ := by
  have first : Run (Irq ticking (fun _ data => data) Unsaved) (looping.cmd none) (reset ⟨7, 0⟩ 0 0 []) _ _ :=
    Run.start.steps (n := 22) rfl
  have back := first.interrupt (.inr ⟨rfl, _, Run.start.steps (n := 39) rfl, rfl⟩)
  have run := back.steps (n := 45) rfl
  obtain ⟨safe, same⟩ := banked_is_flat looping ticking (fun _ data => data) ⟨7, 0⟩ 0 0 []
  obtain ⟨inBank, -, stack⟩ := safe _ _ run
  exact ⟨_, run, inBank, stack rfl, rfl, (same _).mpr ⟨_, run, rfl⟩⟩

/-- Interrupts that make calls between banks everywhere change the argument of a function: `trampoline_tmp` is one place
for all calls. -/
lemma not_flat_of_irq_everywhere : ∃ s,
    Run (Irq ticking (fun _ data => data) fun _ => True) ((Code.call 1 .done .done).cmd none) (reset ⟨7, 0⟩ 0 0 [])
      skip s ∧ s.a ≠ 7 := by
  have entered : Run (Irq ticking (fun _ data => data) fun _ => True) ((Code.call 1 .done .done).cmd none)
      (reset ⟨7, 0⟩ 0 0 []) _ _ := Run.start.steps (n := 3) rfl
  -- the handler makes a call with 3 in A, and leaves it in trampoline_tmp
  have back := entered.interrupt (.inr ⟨trivial, _, Run.start.steps (n := 20) rfl, rfl⟩)
  have run := back.steps (n := 34) rfl
  exact ⟨_, run, by decide⟩

end Uzi.Banks
