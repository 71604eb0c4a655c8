import Mathlib.Tactic.Common

/-!
# Interrupted programs

A program made of statements over a state `σ`, run with a handler `N` that may come in between any
two of them, as often as it likes. A `Triple` says what holds before and after such a run, that no
statement of it fails, and that `J` holds in every state on the way. Its assertions are `Firm`: the
handler keeps them.
-/

namespace Interrupts

/-- A program. A statement `act f` fails where `f` gives nothing; `look` goes on with what it reads
from the state. -/
inductive Cmd (σ : Type)
  | skip
  | act (f : σ → Option σ)
  | seq (c d : Cmd σ)
  | look (k : σ → Cmd σ)
  | loop (p : σ → Bool) (c : Cmd σ)

namespace Cmd

variable {σ : Type}

/-- An assignment. -/
def set (f : σ → σ) : Cmd σ := act fun s => some (f s)

/-- The statement that never succeeds. -/
def fail : Cmd σ := act fun _ => none

/-- A test. -/
def ite (p : σ → Bool) (c d : Cmd σ) : Cmd σ := look fun s => if p s then c else d

/-- `body 0; body 1; ...; body (n-1)`, the counting-up loop of C. -/
def forUp (body : Nat → Cmd σ) : Nat → Cmd σ
  | 0 => skip
  | n + 1 => seq (forUp body n) (body n)

/-- The program in front of others, as a run of it leaves them behind. -/
def plug (c : Cmd σ) (ds : List (Cmd σ)) : Cmd σ := ds.foldl seq c

/-- `body` for every element of a list in turn. -/
def each {ι : Type} (body : ι → Cmd σ) : List ι → Cmd σ
  | [] => skip
  | i :: is => seq (body i) (each body is)

end Cmd

open Cmd

variable {σ : Type}

/-- One statement. -/
inductive Step : Cmd σ → σ → Cmd σ → σ → Prop
  | act {f : σ → Option σ} {s s' : σ} (ok : f s = some s') : Step (act f) s skip s'
  | seqL {c c' d : Cmd σ} {s s' : σ} (st : Step c s c' s') : Step (seq c d) s (seq c' d) s'
  | seqR {d : Cmd σ} {s : σ} : Step (seq skip d) s d s
  | look {k : σ → Cmd σ} {s : σ} : Step (look k) s (k s) s
  | again {p : σ → Bool} {c : Cmd σ} {s : σ} (h : p s = true) : Step (loop p c) s (seq c (loop p c)) s
  | leave {p : σ → Bool} {c : Cmd σ} {s : σ} (h : p s = false) : Step (loop p c) s skip s

/-- The statement that comes next, if it succeeds. -/
def Cmd.next : Cmd σ → σ → Option (Cmd σ × σ)
  | skip, _ => none
  | act f, s => (f s).map fun t => (skip, t)
  | seq skip d, s => some (d, s)
  | seq c d, s => (c.next s).map fun p => (seq p.1 d, p.2)
  | look k, s => some (k s, s)
  | loop p c, s => some (if p s then seq c (loop p c) else skip, s)

/-- `n` statements without an interrupt. -/
def Cmd.steps : Nat → Cmd σ → σ → Option (Cmd σ × σ)
  | 0, c, s => some (c, s)
  | n + 1, c, s => (c.next s).bind fun p => Cmd.steps n p.1 p.2

/-- A run of a program, with the handler wherever it comes in. -/
inductive Run (N : σ → σ → Prop) (c : Cmd σ) (s : σ) : Cmd σ → σ → Prop
  | start : Run N c s c s
  | step {c' c'' : Cmd σ} {s' s'' : σ} (run : Run N c s c' s') (st : Step c' s' c'' s'') : Run N c s c'' s''
  | interrupt {c' : Cmd σ} {s' s'' : σ} (run : Run N c s c' s') (int : N s' s'') : Run N c s c' s''

/-- The next step is a step. -/
lemma Step.of_next {c c' : Cmd σ} {s s' : σ} (h : c.next s = some (c', s')) : Step c s c' s' := by
  fun_induction Cmd.next c s generalizing c' s' with
  | case1 => cases h
  | case2 s f =>
    obtain ⟨t, e, e'⟩ := Option.map_eq_some_iff.mp h
    cases e'
    exact .act e
  | case3 s d =>
    cases h
    exact .seqR
  | case4 s c d _ ih =>
    obtain ⟨p, e, e'⟩ := Option.map_eq_some_iff.mp h
    cases e'
    exact .seqL (ih e)
  | case5 s k =>
    cases h
    exact .look
  | case6 s p c =>
    cases h
    split
    · next h => exact .again h
    · next h => exact .leave (Bool.eq_false_iff.mpr h)

/-- Steps on from where a run has come to. -/
lemma Run.steps {N : σ → σ → Prop} {c c' c'' : Cmd σ} {s s' s'' : σ} (run : Run N c s c' s') {n : Nat}
    (h : c'.steps n s' = some (c'', s'')) : Run N c s c'' s'' := by
  induction n generalizing c' s' with
  | zero =>
    cases h
    exact run
  | succ n ih =>
    obtain ⟨p, e, rest⟩ := Option.bind_eq_some_iff.mp h
    exact ih (run.step (.of_next e)) rest

/-- The program runs for numbers of statements, with the handler after each of them. -/
def Cmd.ride (h : σ → Option σ) : List Nat → Cmd σ → σ → Option (Cmd σ × σ)
  | [], c, s => some (c, s)
  | n :: ns, c, s => (c.steps n s).bind fun p => (h p.2).bind fun t => p.1.ride h ns t

/-- Steps with interrupts between them, on from where a run has come to. -/
lemma Run.ride {N : σ → σ → Prop} {c c' c'' : Cmd σ} {s s' s'' : σ} {h : σ → Option σ}
    (handler : ∀ s s', h s = some s' → N s s') (run : Run N c s c' s') {ns : List Nat}
    (e : c'.ride h ns s' = some (c'', s'')) : Run N c s c'' s'' := by
  induction ns generalizing c' s' with
  | nil =>
    cases e
    exact run
  | cons n ns ih =>
    obtain ⟨p, stepped, e⟩ := Option.bind_eq_some_iff.mp e
    obtain ⟨t, handled, e⟩ := Option.bind_eq_some_iff.mp e
    exact ih ((run.steps stepped).interrupt (handler _ _ handled)) e

/-- Nothing is left to be done. -/
def Cmd.finished : Cmd σ → Bool
  | skip => true
  | _ => false

/-- A command that is finished is over. -/
lemma Cmd.eq_skip {c : Cmd σ} (h : c.finished = true) : c = skip := by
  cases c with
  | skip => rfl
  | act => cases h
  | seq => cases h
  | look => cases h
  | loop => cases h

/-- The program is at its end or can go on. -/
def Live (c : Cmd σ) (s : σ) : Prop := c = skip ∨ ∃ c' s', Step c s c' s'

variable {N : σ → σ → Prop} {J : σ → Prop}

/-- An assertion that implies `J` and that the handler keeps. -/
structure Firm (N : σ → σ → Prop) (J : σ → Prop) (P : σ → Prop) : Prop where
  safe : ∀ s, P s → J s
  stable : ∀ s s', P s → N s s' → P s'

/-- A state that the handler leaves alone. -/
lemma Firm.masked {s : σ} (hj : J s) (mask : ∀ s', N s s' → s' = s) : Firm N J (· = s) where
  safe t e := e ▸ hj
  stable t t' e int := by
    subst e
    exact mask t' int

/-- One of two conditions that interrupts keep. -/
lemma Firm.or {P Q : σ → Prop} (hp : Firm N J P) (hq : Firm N J Q) : Firm N J (fun s => P s ∨ Q s) where
  safe s h := h.elim (hp.safe s) (hq.safe s)
  stable s s' h int := h.imp (hp.stable s s' · int) (hq.stable s s' · int)

/-- A condition that the handler keeps, next to a firm assertion. -/
lemma Firm.and {A P : σ → Prop} (keep : ∀ s s', N s s' → A s → A s') (hp : Firm N J P) :
    Firm N J (fun s => A s ∧ P s) where
  safe s h := hp.safe s h.2
  stable s s' h int := ⟨keep s s' int h.1, hp.stable s s' h.2 int⟩

/-- From `P` the program runs without failing and with `J` all along, and ends, if it does, with `Q`. -/
def Triple (N : σ → σ → Prop) (J P : σ → Prop) (c : Cmd σ) (Q : σ → Prop) : Prop :=
  ∀ s, P s → ∀ c' s', Run N c s c' s' → J s' ∧ Live c' s' ∧ (c' = skip → Q s')

variable {P Q R : σ → Prop} {c d : Cmd σ}

namespace Triple

/-- The rule of consequence. -/
lemma conseq {P' Q' : σ → Prop} (h : Triple N J P c Q) (hp : ∀ s, P' s → P s) (hq : ∀ s, Q s → Q' s) :
    Triple N J P' c Q' := by
  intro s hs c' s' run
  obtain ⟨hj, live, fin⟩ := h s (hp s hs) c' s' run
  exact ⟨hj, live, fun e => hq s' (fin e)⟩

/-- More may be known before. -/
lemma pre {P' : σ → Prop} (h : Triple N J P c Q) (hp : ∀ s, P' s → P s) : Triple N J P' c Q :=
  h.conseq hp fun _ => id

/-- Less may be known afterwards. -/
lemma post {Q' : σ → Prop} (h : Triple N J P c Q) (hq : ∀ s, Q s → Q' s) : Triple N J P c Q' :=
  h.conseq (fun _ => id) hq

/-- Nothing comes from a state that there is not. -/
lemma of_false : Triple N J (fun _ => False) c Q := fun _ hs => hs.elim

/-- The states of the precondition one by one. -/
lemma each_pre (h : ∀ s, P s → Triple N J (· = s) c Q) : Triple N J P c Q :=
  fun s hs => h s hs s rfl

/-- Nothing is done. -/
lemma skip (hp : Firm N J P) : Triple N J P skip P := by
  intro s hs c' s' run
  have key : c' = Cmd.skip ∧ P s' := by
    induction run with
    | start => exact ⟨rfl, hs⟩
    | step _ st ih =>
      obtain ⟨rfl, -⟩ := ih
      cases st
    | interrupt _ int ih => exact ⟨ih.1, hp.stable _ _ ih.2 int⟩
  exact ⟨hp.safe s' key.2, .inl key.1, fun _ => key.2⟩

/-- An action that can be taken. -/
lemma act {f : σ → Option σ} (hp : Firm N J P) (hq : Firm N J Q)
    (h : ∀ s, P s → ∃ s', f s = some s' ∧ Q s') : Triple N J P (act f) Q := by
  intro s hs c' s' run
  have key : c' = .act f ∧ P s' ∨ c' = Cmd.skip ∧ Q s' := by
    induction run with
    | start => exact .inl ⟨rfl, hs⟩
    | step _ st ih =>
      obtain ⟨rfl, ps⟩ | ⟨rfl, -⟩ := ih
      · obtain ⟨t, e, qt⟩ := h _ ps
        cases st with
        | act ok =>
          rw [e] at ok
          cases ok
          exact .inr ⟨rfl, qt⟩
      · cases st
    | interrupt _ int ih =>
      exact ih.imp (fun k => ⟨k.1, hp.stable _ _ k.2 int⟩) fun k => ⟨k.1, hq.stable _ _ k.2 int⟩
  obtain ⟨rfl, ps⟩ | ⟨rfl, qs⟩ := key
  · obtain ⟨t, e, -⟩ := h s' ps
    exact ⟨hp.safe s' ps, .inr ⟨_, t, .act e⟩, fun e => by cases e⟩
  · exact ⟨hq.safe s' qs, .inl rfl, fun _ => qs⟩

/-- An assignment. -/
lemma set {f : σ → σ} (hp : Firm N J P) (hq : Firm N J Q) (h : ∀ s, P s → Q (f s)) :
    Triple N J P (set f) Q :=
  act hp hq fun s hs => ⟨f s, rfl, h s hs⟩

end Triple

/-- A run of two programs is in the first of them or in the second. -/
lemma Run.seq {s s' : σ} {x : Cmd σ} (run : Run N (seq c d) s x s') :
    (∃ c', x = Cmd.seq c' d ∧ Run N c s c' s') ∨ ∃ s₁, Run N c s skip s₁ ∧ Run N d s₁ x s' := by
  induction run with
  | start => exact .inl ⟨c, rfl, .start⟩
  | step _ st ih =>
    obtain ⟨c', rfl, run⟩ | ⟨s₁, first, second⟩ := ih
    · cases st with
      | seqL st => exact .inl ⟨_, rfl, run.step st⟩
      | seqR => exact .inr ⟨_, run, .start⟩
    · exact .inr ⟨s₁, first, second.step st⟩
  | interrupt _ int ih =>
    obtain ⟨c', rfl, run⟩ | ⟨s₁, first, second⟩ := ih
    · exact .inl ⟨c', rfl, run.interrupt int⟩
    · exact .inr ⟨s₁, first, second.interrupt int⟩

/-- A run of a look is before it or behind it. -/
lemma Run.look {k : σ → Cmd σ} {s s' : σ} {x : Cmd σ} (run : Run N (look k) s x s') (hp : Firm N J P) (hs : P s) :
    x = .look k ∧ P s' ∨ ∃ s₁, P s₁ ∧ Run N (k s₁) s₁ x s' := by
  induction run with
  | start => exact .inl ⟨rfl, hs⟩
  | step _ st ih =>
    obtain ⟨rfl, ps⟩ | ⟨s₁, ps, run⟩ := ih
    · cases st
      exact .inr ⟨_, ps, .start⟩
    · exact .inr ⟨s₁, ps, run.step st⟩
  | interrupt _ int ih =>
    obtain ⟨rfl, ps⟩ | ⟨s₁, ps, run⟩ := ih
    · exact .inl ⟨rfl, hp.stable _ _ ps int⟩
    · exact .inr ⟨s₁, ps, run.interrupt int⟩

/-- A run of a loop is before a round, in one or behind the last. -/
lemma Run.loop {p : σ → Bool} {s s' : σ} {x : Cmd σ} (run : Run N (loop p c) s x s') (hp : Firm N J P)
    (hq : Firm N J Q) (enter : ∀ s, P s → p s = true → R s) (body : Triple N J R c P)
    (leave : ∀ s, P s → p s = false → Q s) (hs : P s) :
    x = .loop p c ∧ P s' ∨ (∃ c' s₁, x = .seq c' (.loop p c) ∧ R s₁ ∧ Run N c s₁ c' s') ∨ x = Cmd.skip ∧ Q s' := by
  induction run with
  | start => exact .inl ⟨rfl, hs⟩
  | step _ st ih =>
    obtain ⟨rfl, ps⟩ | ⟨c', s₁, rfl, rs, run⟩ | ⟨rfl, -⟩ := ih
    · cases st with
      | again h => exact .inr (.inl ⟨_, _, rfl, enter _ ps h, .start⟩)
      | leave h => exact .inr (.inr ⟨rfl, leave _ ps h⟩)
    · cases st with
      | seqL st => exact .inr (.inl ⟨_, _, rfl, rs, run.step st⟩)
      | seqR => exact .inl ⟨rfl, (body s₁ rs _ _ run).2.2 rfl⟩
    · cases st
  | interrupt _ int ih =>
    obtain ⟨rfl, ps⟩ | ⟨c', s₁, rfl, rs, run⟩ | ⟨rfl, qs⟩ := ih
    · exact .inl ⟨rfl, hp.stable _ _ ps int⟩
    · exact .inr (.inl ⟨c', s₁, rfl, rs, run.interrupt int⟩)
    · exact .inr (.inr ⟨rfl, hq.stable _ _ qs int⟩)

/-- A command with another one behind it can go on. -/
lemma Live.seq {s : σ} (h : Live c s) : Live (seq c d) s := by
  obtain rfl | ⟨c', s', st⟩ := h
  · exact .inr ⟨d, s, .seqR⟩
  · exact .inr ⟨_, s', .seqL st⟩

namespace Triple

/-- One command after the other. -/
lemma seq (hc : Triple N J P c R) (hd : Triple N J R d Q) : Triple N J P (seq c d) Q := by
  intro s hs x s' run
  obtain ⟨c', rfl, first⟩ | ⟨s₁, first, second⟩ := run.seq
  · obtain ⟨hj, live, -⟩ := hc s hs c' s' first
    exact ⟨hj, live.seq, fun e => by cases e⟩
  · obtain ⟨-, -, fin⟩ := hc s hs _ s₁ first
    exact hd s₁ (fin rfl) x s' second

/-- What follows a look may use what was seen, in an assertion `R` that is still true then. -/
lemma look {k : σ → Cmd σ} (hp : Firm N J P)
    (h : ∀ s, P s → ∃ R : σ → Prop, R s ∧ Triple N J R (k s) Q) : Triple N J P (look k) Q := by
  intro s hs c' s' run
  obtain ⟨rfl, ps⟩ | ⟨s₁, ps, run⟩ := run.look hp hs
  · exact ⟨hp.safe s' ps, .inr ⟨_, s', .look⟩, fun e => by cases e⟩
  · obtain ⟨R, rs, triple⟩ := h s₁ ps
    exact triple s₁ rs c' s' run

/-- A test. -/
lemma ite {p : σ → Bool} (hp : Firm N J P) (P₁ P₂ : σ → Prop) (yes : ∀ s, P s → p s = true → P₁ s)
    (no : ∀ s, P s → p s = false → P₂ s) (hc : Triple N J P₁ c Q) (hd : Triple N J P₂ d Q) :
    Triple N J P (ite p c d) Q := by
  apply look hp
  intro s hs
  cases h : p s with
  | true => exact ⟨P₁, yes s hs h, hc⟩
  | false => exact ⟨P₂, no s hs h, hd⟩

/-- The loop keeps its invariant. -/
lemma loop {p : σ → Bool} (hp : Firm N J P) (hq : Firm N J Q) (enter : ∀ s, P s → p s = true → R s)
    (body : Triple N J R c P) (leave : ∀ s, P s → p s = false → Q s) : Triple N J P (loop p c) Q := by
  intro s hs x s' run
  obtain ⟨rfl, ps⟩ | ⟨c', s₁, rfl, rs, run⟩ | ⟨rfl, qs⟩ := run.loop hp hq enter body leave hs
  · refine ⟨hp.safe s' ps, .inr ?_, fun e => by cases e⟩
    cases h : p s' with
    | true => exact ⟨_, s', .again h⟩
    | false => exact ⟨_, s', .leave h⟩
  · obtain ⟨hj, live, -⟩ := body s₁ rs c' s' run
    exact ⟨hj, live.seq, fun e => by cases e⟩
  · exact ⟨hq.safe s' qs, .inl rfl, fun _ => qs⟩

/-- The counting-up loop keeps an invariant indexed by the number of rounds done. -/
lemma forUp {body : Nat → Cmd σ} (I : Nat → σ → Prop) (firm : Firm N J (I 0)) {n : Nat}
    (step : ∀ i < n, Triple N J (I i) (body i) (I (i + 1))) : Triple N J (I 0) (forUp body n) (I n) := by
  induction n with
  | zero => exact skip firm
  | succ n ih => exact (ih fun i hi => step i (Nat.lt_succ_of_lt hi)).seq (step n (Nat.lt_succ_self n))

/-- The loop over a list keeps an invariant. -/
lemma each {ι : Type} (body : ι → Cmd σ) (hp : Firm N J P) {is : List ι}
    (step : ∀ i ∈ is, Triple N J P (body i) P) : Triple N J P (each body is) P := by
  induction is with
  | nil => exact skip hp
  | cons i is ih =>
    apply seq (step i List.mem_cons_self)
    exact ih fun j hj => step j (List.mem_cons_of_mem _ hj)

end Triple

/-! ## Programs that come to their end -/

variable {s s' s'' : σ} {c' c'' : Cmd σ}

/-- A run, and another one from where it has come to. -/
lemma Run.trans (first : Run N c s c' s') (second : Run N c' s' c'' s'') : Run N c s c'' s'' := by
  induction second with
  | start => exact first
  | step _ st ih => exact ih.step st
  | interrupt _ int ih => exact ih.interrupt int

/-- A run of the first of two commands. -/
lemma Run.seqL (run : Run N c s c' s') : Run N (Cmd.seq c d) s (Cmd.seq c' d) s' := by
  induction run with
  | start => exact .start
  | step _ st ih => exact ih.step (.seqL st)
  | interrupt _ int ih => exact ih.interrupt int

/-- A statement of the program in front. -/
lemma Step.plug (st : Step c s c' s') (ds : List (Cmd σ)) : Step (c.plug ds) s (c'.plug ds) s' := by
  induction ds generalizing c c' with
  | nil => exact st
  | cons d ds ih => exact ih (.seqL st)

/-- A run of the program in front. -/
lemma Run.plug (run : Run N c s c' s') (ds : List (Cmd σ)) : Run N (c.plug ds) s (c'.plug ds) s' := by
  induction run with
  | start => exact .start
  | step _ st ih => exact ih.step (st.plug ds)
  | interrupt _ int ih => exact ih.interrupt int

/-- Behind the program in front the next one is reached. -/
lemma Run.unplug {ds : List (Cmd σ)} (run : Run N c s (Cmd.skip.plug (d :: ds)) s') : Run N c s (d.plug ds) s' :=
  run.step (Step.seqR.plug ds)

/-- Programs behind programs. -/
lemma Cmd.plug_plug {ds es : List (Cmd σ)} : (c.plug ds).plug es = c.plug (ds ++ es) := List.foldl_append.symm

section Straight

variable {f f' : σ → σ} {p : σ → Bool}

/-- An assignment is a step. -/
lemma Step.set : Step (Cmd.set f) s Cmd.skip (f s) := .act rfl

/-- An assignment is done. -/
lemma Run.set (run : Run N c s (Cmd.seq (Cmd.set f) d) s') : Run N c s d (f s') :=
  (run.step (.seqL .set)).step .seqR

/-- An assignment in front is done. -/
lemma Run.assign {ds : List (Cmd σ)} (run : Run N c s ((Cmd.seq (Cmd.set f) d).plug ds) s') :
    Run N c s (d.plug ds) (f s') :=
  (run.step (Step.set.seqL.plug ds)).step (Step.seqR.plug ds)

/-- Two assignments are done. -/
lemma Run.pair (run : Run N c s (Cmd.seq (Cmd.seq (Cmd.set f) (Cmd.set f')) d) s') : Run N c s d (f' (f s')) :=
  (((run.step (.seqL (.seqL .set))).step (.seqL .seqR)).step (.seqL .set)).step .seqR

/-- A test is passed. -/
lemma Run.yes (run : Run N c s (Cmd.ite p c' d) s') (h : p s' = true) : Run N c s c' s' := by
  have next := run.step .look
  rw [if_pos h] at next
  exact next

/-- A test is not passed. -/
lemma Run.no (run : Run N c s (Cmd.ite p c' d) s') (h : p s' = false) : Run N c s d s' := by
  have next := run.step .look
  rw [if_neg (Bool.eq_false_iff.mp h)] at next
  exact next

end Straight

/-- Two runs to the end. -/
lemma Run.seqEnd (first : Run N c s skip s') (second : Run N d s' skip s'') :
    Run N (Cmd.seq c d) s skip s'' :=
  (first.seqL.step .seqR).trans second

/-- The program has no loop. -/
inductive Straight : Cmd σ → Prop
  | skip : Straight skip
  | act {f : σ → Option σ} : Straight (act f)
  | seq {c d : Cmd σ} (hc : Straight c) (hd : Straight d) : Straight (seq c d)
  | look {k : σ → Cmd σ} (hk : ∀ s, Straight (k s)) : Straight (look k)

namespace Straight

/-- Rounds without loops. -/
lemma forUp {body : Nat → Cmd σ} (h : ∀ i, Straight (body i)) (n : Nat) : Straight (forUp body n) := by
  induction n with
  | zero => exact .skip
  | succ n ih => exact .seq ih (h n)

/-- A test. -/
lemma ite {p : σ → Bool} (hc : Straight c) (hd : Straight d) : Straight (ite p c d) := by
  refine .look fun s => ?_
  split
  · exact hc
  · exact hd

/-- A step leaves a command without loops. -/
lemma step (h : Straight c) (st : Step c s c' s') : Straight c' := by
  induction st with
  | act _ => exact .skip
  | seqL _ ih =>
    cases h with
    | seq hc hd => exact .seq (ih hc) hd
  | seqR =>
    cases h with
    | seq _ hd => exact hd
  | look =>
    cases h with
    | look hk => exact hk _
  | again _ => cases h
  | leave _ => exact .skip

/-- A run leaves a command without loops. -/
lemma run (h : Straight c) (run : Run N c s c' s') : Straight c' := by
  induction run with
  | start => exact h
  | step _ st ih => exact ih.step st
  | interrupt _ _ ih => exact ih

/-- A program without loops that is never stuck can be brought to its end. -/
lemma runEnd (h : Straight c) (live : ∀ c' s', Run N c s c' s' → Live c' s') : ∃ s', Run N c s Cmd.skip s' := by
  induction h generalizing s with
  | skip => exact ⟨s, .start⟩
  | act =>
    obtain e | ⟨_, s', st⟩ := live _ s .start
    · cases e
    · cases st with
      | act ok => exact ⟨s', Run.start.step (.act ok)⟩
  | @seq c d _ _ ihc ihd =>
    obtain ⟨s₁, first⟩ := ihc fun c' s' run => by
      obtain e | ⟨_, t, st⟩ := live _ s' (run.seqL (d := d))
      · cases e
      · cases st with
        | seqL st => exact .inr ⟨_, t, st⟩
        | seqR => exact .inl rfl
    obtain ⟨s₂, second⟩ := ihd fun c' s' run => live c' s' ((first.seqL.step .seqR).trans run)
    exact ⟨s₂, first.seqEnd second⟩
  | look _ ih =>
    obtain ⟨s', rest⟩ := ih s fun c' s' run => live c' s' ((Run.start.step .look).trans run)
    exact ⟨s', (Run.start.step .look).trans rest⟩

end Straight

/-- Wherever a run from `P` has come, it can be brought to its end. -/
def Ends (N : σ → σ → Prop) (P : σ → Prop) (c : Cmd σ) : Prop :=
  ∀ s, P s → ∀ c' s', Run N c s c' s' → ∃ s'', Run N c' s' skip s''

namespace Ends

/-- More may be known before. -/
lemma pre {P' : σ → Prop} (h : Ends N P c) (hp : ∀ s, P' s → P s) : Ends N P' c :=
  fun s hs => h s (hp s hs)

/-- A command without loops comes to its end. -/
lemma straight (h : Straight c) (triple : Triple N J P c Q) : Ends N P c :=
  fun s hs _ _ run => (h.run run).runEnd fun _ _ rest => (triple s hs _ _ (run.trans rest)).2.1

/-- One command after the other. -/
lemma seq (hc : Ends N P c) (triple : Triple N J P c R) (hd : Ends N R d) : Ends N P (seq c d) := by
  intro s hs x s' run
  obtain ⟨c', rfl, first⟩ | ⟨s₁, first, second⟩ := run.seq
  · obtain ⟨s₁, rest⟩ := hc s hs c' s' first
    have rs := (triple s hs _ _ (first.trans rest)).2.2 rfl
    obtain ⟨s₂, second⟩ := hd s₁ rs d s₁ .start
    exact ⟨s₂, rest.seqEnd second⟩
  · exact hd s₁ ((triple s hs _ _ first).2.2 rfl) x s' second

/-- A command that depends on the state. -/
lemma look {k : σ → Cmd σ} (hp : Firm N J P) (h : ∀ s, P s → ∃ R : σ → Prop, R s ∧ Ends N R (k s)) :
    Ends N P (look k) := by
  intro s hs x s' run
  obtain ⟨rfl, ps⟩ | ⟨s₁, ps, run⟩ := run.look hp hs
  · obtain ⟨R, rs, ends⟩ := h s' ps
    obtain ⟨s'', rest⟩ := ends s' rs _ _ .start
    exact ⟨s'', (Run.start.step .look).trans rest⟩
  · obtain ⟨R, rs, ends⟩ := h s₁ ps
    exact ends s₁ rs x s' run

/-- The loop comes to its end if a round can always be its last. -/
lemma loop {p : σ → Bool} (hp : Firm N J P) (hq : Firm N J Q) (enter : ∀ s, P s → p s = true → R s)
    (body : Triple N J R c P) (leave : ∀ s, P s → p s = false → Q s) (ends : Ends N R c)
    (last : ∀ s, P s → p s = true → ∃ s', Run N c s skip s' ∧ p s' = false) : Ends N P (loop p c) := by
  have out : ∀ s, P s → ∃ s', Run N (.loop p c) s skip s' := by
    intro s ps
    cases h : p s with
    | false => exact ⟨s, Run.start.step (.leave h)⟩
    | true =>
      obtain ⟨s', round, done⟩ := last s ps h
      exact ⟨s', (Run.start.step (.again h)).trans (round.seqEnd (Run.start.step (.leave done)))⟩
  intro s hs x s' run
  obtain ⟨rfl, ps⟩ | ⟨c', s₁, rfl, rs, run⟩ | ⟨rfl, -⟩ := run.loop hp hq enter body leave hs
  · exact out s' ps
  · obtain ⟨s₂, rest⟩ := ends s₁ rs c' s' run
    obtain ⟨s₃, rest'⟩ := out s₂ ((body s₁ rs _ _ (run.trans rest)).2.2 rfl)
    exact ⟨s₃, rest.seqEnd rest'⟩
  · exact ⟨s', .start⟩

end Ends

/-! ## What all statements keep -/

section Maintains

variable {I : σ → Prop}

/-- Every statement of the program keeps `I`. -/
inductive Maintains (I : σ → Prop) : Cmd σ → Prop
  | skip : Maintains I skip
  | act {f : σ → Option σ} (h : ∀ s s', f s = some s' → I s → I s') : Maintains I (act f)
  | seq {c d : Cmd σ} (hc : Maintains I c) (hd : Maintains I d) : Maintains I (seq c d)
  | look {k : σ → Cmd σ} (hk : ∀ s, Maintains I (k s)) : Maintains I (look k)
  | loop {p : σ → Bool} {c : Cmd σ} (hc : Maintains I c) : Maintains I (loop p c)

namespace Maintains

/-- An assignment. -/
lemma set {f : σ → σ} (h : ∀ s, I s → I (f s)) : Maintains I (set f) := by
  refine .act fun s s' e => ?_
  cases e
  exact h s

/-- A command that fails changes nothing. -/
lemma fail : Maintains I fail := .act nofun

/-- A test. -/
lemma ite {p : σ → Bool} (hc : Maintains I c) (hd : Maintains I d) : Maintains I (ite p c d) := by
  refine .look fun s => ?_
  split
  · exact hc
  · exact hd

/-- Rounds that maintain it. -/
lemma forUp {body : Nat → Cmd σ} (h : ∀ i, Maintains I (body i)) (n : Nat) : Maintains I (forUp body n) := by
  induction n with
  | zero => exact .skip
  | succ n ih => exact .seq ih (h n)

/-- A command for each element of a list. -/
lemma each {ι : Type} {body : ι → Cmd σ} {is : List ι} (h : ∀ i ∈ is, Maintains I (body i)) :
    Maintains I (each body is) := by
  induction is with
  | nil => exact .skip
  | cons i is ih =>
    obtain ⟨first, rest⟩ := List.forall_mem_cons.mp h
    exact .seq first (ih rest)

/-- A step maintains it. -/
lemma step (h : Maintains I c) (st : Step c s c' s') : Maintains I c' ∧ (I s → I s') := by
  induction st with
  | act ok =>
    cases h with
    | act h => exact ⟨.skip, h _ _ ok⟩
  | seqL _ ih =>
    cases h with
    | seq hc hd =>
      obtain ⟨maintains, keeps⟩ := ih hc
      exact ⟨.seq maintains hd, keeps⟩
  | seqR =>
    cases h with
    | seq _ hd => exact ⟨hd, id⟩
  | look =>
    cases h with
    | look hk => exact ⟨hk _, id⟩
  | again =>
    cases h with
    | loop hc => exact ⟨.seq hc (.loop hc), id⟩
  | leave => exact ⟨.skip, id⟩

/-- A run maintains it, if its interrupts do. -/
lemma run (h : Maintains I c) (handler : ∀ s s', N s s' → I s → I s') (run : Run N c s c' s') (hs : I s) :
    Maintains I c' ∧ I s' := by
  induction run with
  | start => exact ⟨h, hs⟩
  | step _ st ih =>
    obtain ⟨maintains, keeps⟩ := ih.1.step st
    exact ⟨maintains, keeps ih.2⟩
  | interrupt _ int ih => exact ⟨ih.1, handler _ _ int ih.2⟩

/-- A program that keeps `I` up to its end, before another one that does. -/
lemma seq_until (h : Maintains I c) (handler : ∀ s s', N s s' → I s → I s')
    (rest : ∀ s x s', Run N d s x s' → I s → x = Cmd.skip ∨ I s') {x : Cmd σ} (run : Run N (Cmd.seq c d) s x s')
    (hs : I s) : x = Cmd.skip ∨ I s' := by
  obtain ⟨c', -, first⟩ | ⟨s₁, first, second⟩ := run.seq
  · exact .inr (h.run handler first hs).2
  · exact rest s₁ x s' second (h.run handler first hs).2

end Maintains

/-- A statement keeps `I` up to its end. -/
lemma Run.act_until {f : σ → Option σ} {x : Cmd σ} (handler : ∀ s s', N s s' → I s → I s')
    (run : Run N (Cmd.act f) s x s') (hs : I s) : x = Cmd.skip ∨ I s' := by
  have key : x = Cmd.skip ∨ x = Cmd.act f ∧ I s' := by
    induction run with
    | start => exact .inr ⟨rfl, hs⟩
    | step _ st ih =>
      obtain rfl | ⟨rfl, -⟩ := ih
      · cases st
      · cases st
        exact .inl rfl
    | interrupt _ int ih => exact ih.imp id fun h => ⟨h.1, handler _ _ int h.2⟩
  exact key.imp id And.right

/-- What every statement and the handler keep stays next to what the program does. -/
lemma Triple.frame (h : Triple N J P c Q) (maintains : Maintains I c) (handler : ∀ s s', N s s' → I s → I s') :
    Triple N J (fun s => P s ∧ I s) c (fun s => Q s ∧ I s) := by
  intro s hs c' s' run
  obtain ⟨hj, live, fin⟩ := h s hs.1 c' s' run
  exact ⟨hj, live, fun e => ⟨fin e, (maintains.run handler run hs.2).2⟩⟩

end Maintains

/-- Nothing can be done when all has been done. -/
lemma Run.of_skip {x : Cmd σ} (run : Run N Cmd.skip s x s') : x = Cmd.skip := by
  induction run with
  | start => rfl
  | step _ st ih =>
    subst ih
    cases st
  | interrupt _ _ ih => exact ih

/-- A run of a loop over a list is over, or in a round for one of the elements, behind those before it. -/
lemma Run.each {ι : Type} {body : ι → Cmd σ} {is : List ι} {x : Cmd σ} (run : Run N (Cmd.each body is) s x s') :
    x = Cmd.skip ∨ ∃ front i back c' s₁, is = front ++ i :: back ∧ x = .seq c' (.each body back) ∧
      Run N (Cmd.each body front) s Cmd.skip s₁ ∧ Run N (body i) s₁ c' s' := by
  induction is generalizing s with
  | nil => exact .inl run.of_skip
  | cons i is ih =>
    obtain ⟨c', rfl, first⟩ | ⟨s₁, first, second⟩ := run.seq
    · exact .inr ⟨[], i, is, c', s, rfl, rfl, .start, first⟩
    · obtain ended | ⟨front, j, back, c', s₂, e, residual, before, within⟩ := ih second
      · exact .inl ended
      · exact .inr ⟨i :: front, j, back, c', s₂, by rw [e, List.cons_append], residual, first.seqEnd before, within⟩

/-- The loop over a list, with an assertion for what has been done. -/
lemma Triple.eachFrom {ι : Type} {body : ι → Cmd σ} {I : List ι → σ → Prop} (firm : ∀ is, Firm N J (I is))
    (front : List ι) {back : List ι}
    (step : ∀ is i is', front ++ back = is ++ i :: is' → Triple N J (I is) (body i) (I (is ++ [i]))) :
    Triple N J (I front) (Cmd.each body back) (I (front ++ back)) := by
  induction back generalizing front with
  | nil =>
    rw [List.append_nil]
    exact .skip (firm front)
  | cons i back ih =>
    have rest := ih (front ++ [i]) fun is j is' e => step is j is' (by rw [← e, List.append_assoc]; rfl)
    rw [List.append_assoc] at rest
    exact (step front i back rfl).seq rest

/-- The loop over a list comes to its end if every round does. -/
lemma Ends.eachFrom {ι : Type} {body : ι → Cmd σ} {I : List ι → σ → Prop} (firm : ∀ is, Firm N J (I is))
    (front : List ι) {back : List ι}
    (step : ∀ is i is', front ++ back = is ++ i :: is' → Triple N J (I is) (body i) (I (is ++ [i])))
    (ends : ∀ is i is', front ++ back = is ++ i :: is' → Ends N (I is) (body i)) :
    Ends N (I front) (Cmd.each body back) := by
  induction back generalizing front with
  | nil => exact .straight .skip (.skip (firm front))
  | cons i back ih =>
    have shift : front ++ i :: back = front ++ [i] ++ back := by
      rw [List.append_assoc]
      rfl
    refine (ends front i back rfl).seq (step front i back rfl) (ih (front ++ [i]) ?_ ?_)
    · exact fun is j is' e => step is j is' (shift.trans e)
    · exact fun is j is' e => ends is j is' (shift.trans e)

/-- The element of a counted list behind a front. -/
lemma range_split {ι : Type} {f : Nat → ι} {n : Nat} {is is' : List ι} {i : ι}
    (e : (List.range n).map f = is ++ i :: is') : is.length < n ∧ i = f is.length := by
  have here : ((List.range n).map f)[is.length]? = some i := by
    rw [e, List.getElem?_append_right (Nat.le_refl _), Nat.sub_self]
    rfl
  rw [List.getElem?_map, Option.map_eq_some_iff] at here
  obtain ⟨k, hk, rfl⟩ := here
  obtain ⟨lt, rfl⟩ := List.getElem?_eq_some_iff.mp hk
  rw [List.length_range] at lt
  rw [List.getElem_range]
  exact ⟨lt, rfl⟩

section Range

variable {ι : Type} {body : ι → Cmd σ} {f : Nat → ι} {I : Nat → σ → Prop} (firm : ∀ k, Firm N J (I k)) {n : Nat}
  (step : ∀ k < n, Triple N J (I k) (body (f k)) (I (k + 1)))

include firm step

/-- The loop over a counted list. -/
lemma Triple.eachRange : Triple N J (I 0) (Cmd.each body ((List.range n).map f)) (I n) := by
  have all : Triple N J (I 0) (Cmd.each body ((List.range n).map f)) (I ([] ++ (List.range n).map f).length) := by
    refine Triple.eachFrom (I := fun is => I is.length) (fun is => firm is.length) [] fun is i is' e => ?_
    obtain ⟨lt, rfl⟩ := range_split e
    rw [List.length_append]
    exact step is.length lt
  rw [List.nil_append, List.length_map, List.length_range] at all
  exact all

/-- Rounds over a range come to their end. -/
lemma Ends.eachRange (ends : ∀ k < n, Ends N (I k) (body (f k))) :
    Ends N (I 0) (Cmd.each body ((List.range n).map f)) := by
  refine Ends.eachFrom (I := fun is => I is.length) (fun is => firm is.length) [] (fun is i is' e => ?_)
    fun is i is' e => ?_
  · obtain ⟨lt, rfl⟩ := range_split e
    rw [List.length_append]
    exact step is.length lt
  · obtain ⟨lt, rfl⟩ := range_split e
    exact ends is.length lt

end Range

end Interrupts
