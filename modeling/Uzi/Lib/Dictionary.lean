import Uzi.Lib.FlatFile

/-!
# Tables of slots as dictionaries

A table of slots, each with a key and a value, is searched from the front. As long as no key but the blank one is in two
slots it is a dictionary: to overwrite a slot is to let one key give way to another. A volume has flat files, some of
which are such tables, and is changed by actions on the files and by entries that give way to others.
-/

namespace Dictionary

section Slots

variable {χ ν : Type} [DecidableEq χ]

/-- The value in the first of `n` slots that has the key `c`. -/
def lookup (slot : Nat → χ × ν) (n : Nat) (c : χ) : Option ν :=
  ((List.range n).find? fun j => (slot j).1 = c).map fun j => (slot j).2

/-- The dictionary of the first `n` slots, which has no entry for the blank key. -/
def names (blank : χ) (slot : Nat → χ × ν) (n : Nat) (c : χ) : Option ν :=
  if c = blank then none else lookup slot n c

/-- No key but `blank` is in two of the first `n` slots. -/
def Distinct (blank : χ) (slot : Nat → χ × ν) (n : Nat) : Prop :=
  ∀ i < n, ∀ j < n, (slot i).1 = (slot j).1 → (slot i).1 ≠ blank → i = j

/-- The entry of `old` gives way to one of `new`. -/
def rebind (blank : χ) (d : χ → Option ν) (old new : χ) (v : ν) (c : χ) : Option ν :=
  if c = blank then none else if c = new then some v else if c = old then none else d c

/-- Slot `j` is overwritten. There may be more slots than there were, which were blank. -/
structure Overwritten (blank : χ) (slot : Nat → χ × ν) (n : Nat) (slot' : Nat → χ × ν) (n' j : Nat) (e : χ × ν) :
    Prop where
  covers : n ≤ n'
  inside : j < n'
  written : slot' j = e
  others : ∀ i < n', i ≠ j → slot' i = slot i
  added : ∀ i, n ≤ i → i < n' → (slot i).1 = blank

variable {blank : χ} {slot slot' : Nat → χ × ν} {n n' j : Nat} {c old new : χ} {v w : ν} {d : χ → Option ν}

/-- What a dictionary has for a key is in a slot. -/
lemma names_eq_some (distinct : Distinct blank slot n) :
    names blank slot n c = some w ↔ c ≠ blank ∧ ∃ i < n, slot i = (c, w) := by
  rw [names]
  split
  · next e => exact iff_of_false nofun fun h => h.1 e
  · next ne =>
    rw [and_iff_right ne, lookup, Option.map_eq_some_iff]
    constructor
    · rintro ⟨i, found, value⟩
      have hit := List.find?_some found
      have key : (slot i).1 = c := of_decide_eq_true hit
      exact ⟨i, List.mem_range.mp (List.mem_of_find?_eq_some found), Prod.ext key value⟩
    · rintro ⟨i, lt, e⟩
      have key : (slot i).1 = c := congrArg Prod.fst e
      cases found : (List.range n).find? fun j => decide ((slot j).1 = c) with
      | none =>
        have not := List.find?_eq_none.mp found i (List.mem_range.mpr lt)
        exact absurd (decide_eq_true key) not
      | some k =>
        have hit := List.find?_some found
        have other : (slot k).1 = c := of_decide_eq_true hit
        have lt' := List.mem_range.mp (List.mem_of_find?_eq_some found)
        obtain rfl := distinct i lt k lt' (key.trans other.symm) (key.symm ▸ ne)
        exact ⟨i, rfl, congrArg Prod.snd e⟩

/-- A key without an entry is in no slot. -/
lemma names_eq_none (distinct : Distinct blank slot n) :
    names blank slot n c = none ↔ c = blank ∨ ∀ i < n, (slot i).1 ≠ c := by
  constructor
  · intro none
    by_contra h
    obtain ⟨ne, there⟩ := not_or.mp h
    obtain ⟨i, lt, key⟩ : ∃ i < n, (slot i).1 = c := by
      by_contra nowhere
      exact there fun i lt key => nowhere ⟨i, lt, key⟩
    have some := (names_eq_some distinct (w := (slot i).2)).mpr ⟨ne, i, lt, Prod.ext key rfl⟩
    exact nomatch none.symm.trans some
  · rintro h
    cases e : names blank slot n c with
    | none => rfl
    | some w =>
      obtain ⟨ne, i, lt, there⟩ := (names_eq_some distinct).mp e
      exact absurd (congrArg Prod.fst there) (h.resolve_left ne i lt)

namespace Overwritten

variable (h : Overwritten blank slot n slot' n' j (new, v))
include h

omit [DecidableEq χ] in
/-- A slot with a key was there before. -/
lemma was_there {i : Nat} (lt : i < n') (ne : (slot i).1 ≠ blank) : i < n :=
  Nat.lt_of_not_le fun past => ne (h.added i past lt)

omit [DecidableEq χ] in
/-- What is in the slots is the new entry and what was in the others. -/
lemma there_iff (ne : c ≠ blank) :
    (∃ i < n', slot' i = (c, w)) ↔ (new, v) = (c, w) ∨ ∃ i < n, i ≠ j ∧ slot i = (c, w) := by
  constructor
  · rintro ⟨i, lt, there⟩
    by_cases e : i = j
    · exact .inl (h.written.symm.trans (e ▸ there))
    · rw [h.others i lt e] at there
      have key : (slot i).1 ≠ blank := there ▸ ne
      exact .inr ⟨i, h.was_there lt key, e, there⟩
  · rintro (e | ⟨i, lt, other, there⟩)
    · exact ⟨j, h.inside, h.written.trans e⟩
    · have lt' := Nat.lt_of_lt_of_le lt h.covers
      exact ⟨i, lt', (h.others i lt' other).trans there⟩

variable (distinct : Distinct blank slot n) (fresh : new = (slot j).1 ∨ names blank slot n new = none)
include distinct fresh

/-- No other slot has the new key. -/
lemma key_ne {i : Nat} (lt : i < n) (other : i ≠ j) (ne : new ≠ blank) : (slot i).1 ≠ new := by
  intro e
  cases fresh with
  | inl same =>
    have key : (slot j).1 ≠ blank := same ▸ ne
    exact other (distinct i lt j (h.was_there h.inside key) (e.trans same) (e ▸ ne))
  | inr none => exact ((names_eq_none distinct).mp none).resolve_left ne i lt e

/-- A directory that is not changed has no name twice. -/
lemma still_distinct : Distinct blank slot' n' := by
  intro i hi k hk e ne
  -- the new key is in no slot but `j`, and the others were distinct before
  by_cases ei : i = j <;> by_cases ek : k = j
  · rw [ei, ek]
  · rw [ei, h.written] at e ne
    rw [h.others k hk ek] at e
    exact absurd e.symm (h.key_ne distinct fresh (h.was_there hk (e ▸ ne)) ek ne)
  · rw [ek, h.written] at e
    rw [e] at ne
    rw [h.others i hi ei] at e
    exact absurd e (h.key_ne distinct fresh (h.was_there hi (e ▸ ne)) ei ne)
  · rw [h.others i hi ei] at e ne
    rw [h.others k hk ek] at e
    exact distinct i (h.was_there hi ne) k (h.was_there hk (e ▸ ne)) e ne

/-- To overwrite a slot is to let its key give way. -/
lemma names_eq : names blank slot' n' = rebind blank (names blank slot n) (slot j).1 new v := by
  funext c
  apply Option.ext
  intro w
  rw [names_eq_some (h.still_distinct distinct fresh), rebind]
  split
  · next e => exact iff_of_false (fun there => there.1 e) nofun
  · next ne =>
    rw [and_iff_right ne, h.there_iff ne]
    split
    · next e =>
      subst e
      rw [Option.some_inj]
      constructor
      · rintro (there | ⟨i, lt, other, there⟩)
        · exact congrArg Prod.snd there
        · exact absurd (congrArg Prod.fst there) (h.key_ne distinct fresh lt other ne)
      · rintro rfl
        exact .inl rfl
    · next not_new =>
      have not_new : (new, v) ≠ (c, w) := fun e => not_new (congrArg Prod.fst e).symm
      rw [or_iff_right not_new]
      split
      · next e =>
        refine iff_of_false ?_ nofun
        rintro ⟨i, lt, other, there⟩
        have key : (slot i).1 = c := congrArg Prod.fst there
        exact other (distinct i lt j (h.was_there h.inside (e ▸ ne)) (key.trans e) (key ▸ ne))
      · next not_old =>
        rw [names_eq_some distinct, and_iff_right ne]
        constructor
        · rintro ⟨i, lt, -, there⟩
          exact ⟨i, lt, there⟩
        · rintro ⟨i, lt, there⟩
          refine ⟨i, lt, ?_, there⟩
          rintro rfl
          exact not_old (congrArg Prod.fst there).symm

end Overwritten

end Slots

/-! ## Volumes -/

open FlatFile

/-- Flat files, and the dictionaries that some of them are. -/
structure Volume (δ ι π β χ ν : Type) where
  names : δ → χ → Option ν
  files : Files ι π β

/-- An action on the files, or an entry of a dictionary that gives way to another. -/
inductive Change (δ ι π β χ ν : Type)
  | act (a : Action ι π β)
  | link (d : δ) (old new : χ) (v : ν)

/-- The event is about the entry of `c` in `d`. -/
def Change.Touches {δ ι π β χ ν : Type} (d : δ) (c : χ) : Change δ ι π β χ ν → Prop
  | act _ => False
  | link d' old new _ => d' = d ∧ (old = c ∨ new = c)

namespace Volume

variable {δ ι π β χ ν : Type} [DecidableEq δ] [DecidableEq ι] [DecidableEq π] [DecidableEq χ]

/-- What one event does. The files that are dictionaries are not written by the actions, and the other files do not
change with the entries. -/
inductive Step (dir : δ → ι) (blank : χ) (v : Volume δ ι π β χ ν) :
    Change δ ι π β χ ν → Volume δ ι π β χ ν → Prop
  | act {a : Action ι π β} (gives : v.files.Allows a) (spares : ∀ d, ¬ a.Writes (dir d)) :
    Step dir blank v (.act a) { v with files := v.files.after a }
  | link {d : δ} {old new : χ} {w : ν} {v' : Volume δ ι π β χ ν}
    (names : v'.names = Function.update v.names d (rebind blank (v.names d) old new w))
    (files : ∀ i, i ≠ dir d → v'.files.bytes i = v.files.bytes i ∧ v'.files.size i = v.files.size i)
    (pos : v'.files.pos = v.files.pos) : Step dir blank v (.link d old new w) v'

/-- The events that may be seen, in their order. -/
inductive Run (dir : δ → ι) (blank : χ) (v : Volume δ ι π β χ ν) :
    List (Change δ ι π β χ ν) → Volume δ ι π β χ ν → Prop
  | start : Run dir blank v [] v
  | next {es : List (Change δ ι π β χ ν)} {v' v'' : Volume δ ι π β χ ν} {e : Change δ ι π β χ ν}
    (before : Run dir blank v es v') (step : Step dir blank v' e v'') : Run dir blank v (es ++ [e]) v''

variable {dir : δ → ι} {blank : χ} {v v' : Volume δ ι π β χ ν} {es : List (Change δ ι π β χ ν)}
  {e : Change δ ι π β χ ν} {d : δ} {old new c : χ} {w : ν}

/-- An entry stays when the event is about another one. -/
lemma Step.names_eq (step : Step dir blank v e v') (off : ¬ e.Touches d c) :
    v'.names d c = v.names d c ∨ c = blank := by
  cases step with
  | act => exact .inl rfl
  | @link d' old new _ _ names =>
    rw [names]
    by_cases ed : d' = d
    · subst ed
      rw [Function.update_self, rebind]
      split
      · next e => exact .inr e
      · left
        rw [if_neg fun e => off ⟨rfl, .inr e.symm⟩, if_neg fun e => off ⟨rfl, .inl e.symm⟩]
    · rw [Function.update_of_ne (Ne.symm ed)]
      exact .inl rfl

/-- A run that does not touch a name leaves it. -/
lemma Run.names_eq (run : Run dir blank v es v') (off : ∀ e ∈ es, ¬ e.Touches d c) (ne : c ≠ blank) :
    v'.names d c = v.names d c := by
  induction run with
  | start => rfl
  | next _ step ih =>
    have last := step.names_eq (off _ (List.mem_append_right _ (List.mem_singleton_self _)))
    rw [last.resolve_right ne]
    exact ih fun e he => off e (List.mem_append_left _ he)

/-- A run in two parts. -/
lemma Run.split {es' : List (Change δ ι π β χ ν)} (run : Run dir blank v (es ++ es') v') :
    ∃ v₁, Run dir blank v es v₁ ∧ Run dir blank v₁ es' v' := by
  induction es' using List.reverseRecOn generalizing v' with
  | nil => exact ⟨v', List.append_nil es ▸ run, .start⟩
  | append_singleton es' e ih =>
    rw [← List.append_assoc] at run
    generalize all : es ++ es' ++ [e] = es'' at run
    cases run with
    | start => exact absurd all (by simp)
    | next before step =>
      obtain ⟨rfl, last⟩ := List.append_inj' all rfl
      obtain rfl := List.singleton_injective last
      obtain ⟨v₁, first, rest⟩ := ih before
      exact ⟨v₁, first, rest.next step⟩

/-- The last change about a key decides what it has. -/
lemma Run.last {es' : List (Change δ ι π β χ ν)} (run : Run dir blank v (es ++ .link d old new w :: es') v')
    (about : old = c ∨ new = c) (off : ∀ e ∈ es', ¬ e.Touches d c) (ne : c ≠ blank) :
    v'.names d c = if new = c then some w else none := by
  rw [← List.singleton_append, ← List.append_assoc] at run
  obtain ⟨v₂, before, after⟩ := run.split
  obtain ⟨v₁, -, last⟩ := before.split
  rw [after.names_eq off ne]
  generalize one : [Change.link d old new w] = es'' at last
  cases last with
  | start => cases one
  | next _ step =>
    rw [← List.nil_append [Change.link d old new w]] at one
    obtain ⟨-, e⟩ := List.append_inj' one rfl
    cases List.singleton_injective e
    cases step with
    | link names =>
      rw [names, Function.update_self, rebind, if_neg ne]
      by_cases e : new = c
      · rw [if_pos e.symm, if_pos e]
      · rw [if_neg (Ne.symm e), if_neg e, if_pos (about.resolve_right e).symm]

end Volume

end Dictionary
