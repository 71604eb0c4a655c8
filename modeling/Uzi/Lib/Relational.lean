import Mathlib.Logic.Nontrivial.Defs
import Uzi.Lib.Exec

/-!
# Two runs of one program

`Blind R c`: from states that are related by `R` the program `c` returns the same value in states that are related
again, or stops in the same way, so that it does not see in what the states differ.

A program with a probe is a family `c` over the program that is run at one of its places: `c (pure ⟨⟩)` is the program
itself, and `c (throw e)` stops there. `Watched R c`: unless the probe is reached from the first state, the runs from
both states go alike.
-/

namespace Exec

variable {σ ε α β ι : Type} {R : σ → σ → Prop} {s t : σ}

/-- Two runs with the same end. -/
inductive Agree (R : σ → σ → Prop) : Except ε (α × σ) → Except ε (α × σ) → Prop
  | ok {a : α} {s t : σ} (h : R s t) : Agree R (.ok (a, s)) (.ok (a, t))
  | error {e : ε} : Agree R (.error e) (.error e)

/-- A larger relation. -/
lemma Agree.mono {R' : σ → σ → Prop} {r r' : Except ε (α × σ)} (h : Agree R r r') (le : ∀ s t, R s t → R' s t) :
    Agree R' r r' := by
  cases h with
  | ok h => exact .ok (le _ _ h)
  | error => exact .error

/-- The other way round. -/
lemma Agree.symm {r r' : Except ε (α × σ)} (h : Agree R r r') : Agree (fun t s => R s t) r' r := by
  cases h with
  | ok h => exact .ok h
  | error => exact .error

/-- The same outcome. -/
lemma Agree.refl (h : ∀ s, R s s) (r : Except ε (α × σ)) : Agree R r r := by
  cases r with
  | ok r => exact .ok (h r.2)
  | error e => exact .error

/-- One program after the other. -/
lemma Agree.bind {R' : σ → σ → Prop} {c d : Prog σ ε α} {f g : α → Prog σ ε β} (h : Agree R (c s) (d t))
    (hf : ∀ a s' t', c s = .ok (a, s') → d t = .ok (a, t') → R s' t' → Agree R' (f a s') (g a t')) :
    Agree R' ((c >>= f) s) ((d >>= g) t) := by
  cases es : c s with
  | ok r =>
    cases et : d t with
    | ok r' =>
      rw [es, et] at h
      cases h with
      | ok related =>
        rw [bind_of_ok es, bind_of_ok et]
        exact hf _ _ _ es et related
    | error e' =>
      rw [es, et] at h
      cases h
  | error e =>
    cases et : d t with
    | ok r' =>
      rw [es, et] at h
      cases h
    | error e' =>
      rw [es, et] at h
      cases h
      rw [bind_of_error es, bind_of_error et]
      exact .error

/-- The program does not see in what related states differ. -/
def Blind (R : σ → σ → Prop) (c : Prog σ ε α) : Prop := ∀ s t, R s t → Agree R (c s) (c t)

namespace Blind

variable {c d : Prog σ ε α} {f : α → Prog σ ε β} {p : Prop} [Decidable p]

/-- A value is returned. -/
lemma pure {a : α} : Blind R (pure a : Prog σ ε α) := fun _ _ h => .ok h

/-- A program stops. -/
lemma throw {e : ε} : Blind R (throw e : Prog σ ε α) := fun _ _ _ => .error

/-- The state is changed. -/
lemma modify {f : σ → σ} (h : ∀ s t, R s t → R (f s) (f t)) : Blind R (modify f : Prog σ ε PUnit) :=
  fun s t related => .ok (h s t related)

/-- One program after the other. -/
lemma bind (hc : Blind R c) (hf : ∀ a, Blind R (f a)) : Blind R (c >>= f) :=
  fun s t h => (hc s t h).bind fun a s' t' _ _ related => hf a s' t' related

/-- A program that depends on a test. -/
lemma ite (hc : Blind R c) (hd : Blind R d) : Blind R (if p then c else d) := by
  split
  · exact hc
  · exact hd

/-- The state is looked at, and the rest is the same for both. -/
lemma look {f : σ → Prog σ ε β} (same : ∀ s t, R s t → f s = f t) (hf : ∀ s, Blind R (f s)) :
    Blind R (get >>= f) := by
  intro s t h
  have first : (get >>= f) s = f s s := bind_of_ok rfl
  have second : (get >>= f) t = f t t := bind_of_ok rfl
  rw [first, second, ← same s t h]
  exact hf s s t h

/-- A step that is taken under a condition, and the rest of the program. -/
lemma when {c : Prog σ ε PUnit} {f : PUnit → Prog σ ε β} (hc : Blind R c) (hf : ∀ r, Blind R (f r)) :
    Blind R (if p then c >>= f else f ⟨⟩) :=
  ite (hc.bind hf) (hf _)

/-- One of two steps, and the rest of the program. -/
lemma either (hc : Blind R c) (hd : Blind R d) (hf : ∀ a, Blind R (f a)) : Blind R (if p then c >>= f else d >>= f) :=
  ite (hc.bind hf) (hd.bind hf)

/-- A program for each element of a list. -/
lemma each {body : ι → Prog σ ε PUnit} (h : ∀ i, Blind R (body i)) (is : List ι) : Blind R (each is body) := by
  induction is with
  | nil => exact pure
  | cons i is ih => exact (h i).bind fun _ => ih

/-- A program for each number, from the last one down. -/
lemma forDown {body : Nat → Prog σ ε PUnit} (h : ∀ i, Blind R (body i)) (n : Nat) : Blind R (forDown body n) := by
  induction n with
  | zero => exact pure
  | succ n ih => exact (h n).bind fun _ => ih

end Blind

/-! ## Programs with a probe -/

/-- A program with a probe in it. -/
abbrev Probing (σ ε α : Type) := Prog σ ε PUnit → Prog σ ε α

/-- The run gets to the probe. -/
def Probed (c : Probing σ ε α) (s : σ) : Prop := ∀ e, c (throw e) s = .error e

/-- A program without a probe does not get to one. -/
lemma not_probed [Nontrivial ε] {c : Prog σ ε α} : ¬ Probed (fun _ => c) s := by
  intro probed
  obtain ⟨e, e', ne⟩ := exists_pair_ne ε
  exact ne (Except.error.inj ((probed e).symm.trans (probed e')))

/-- From related states the runs go alike, unless the first one gets to the probe. -/
def Watched (R : σ → σ → Prop) (c : Probing σ ε α) : Prop :=
  ∀ s t, R s t → ∀ e, c (throw e) s = .error e ∨
    c (throw e) s = c (pure ⟨⟩) s ∧ Agree R (c (pure ⟨⟩) s) (c (pure ⟨⟩) t)

namespace Watched

variable {c d : Probing σ ε α} {f : Prog σ ε PUnit → α → Prog σ ε β} {p : Prop} [Decidable p]

/-- Runs that do not get to the probe. -/
lemma agree (h : Watched R c) (related : R s t) (passes : ¬ Probed c s) :
    Agree R (c (pure ⟨⟩) s) (c (pure ⟨⟩) t) := by
  obtain ⟨e, ne⟩ := not_forall.mp passes
  exact ((h s t related e).resolve_left ne).2

/-- A blind program is watched. -/
lemma of_blind {c : Prog σ ε α} (h : Blind R c) : Watched R fun _ => c := fun s t related _ => .inr ⟨rfl, h s t related⟩

/-- One program after the other. -/
lemma bind (hc : Watched R c) (hf : ∀ a, Watched R fun w => f w a) : Watched R fun w => c w >>= f w := by
  intro s t h e
  cases hc s t h e with
  | inl stops => exact .inl (bind_of_error stops)
  | inr goes =>
    obtain ⟨same, agree⟩ := goes
    dsimp only
    cases es : c (pure ⟨⟩) s with
    | error e' =>
      rw [bind_of_error (same.trans es), bind_of_error es]
      rw [es] at agree
      generalize et : c (pure ⟨⟩) t = r at agree
      cases agree
      rw [bind_of_error et]
      exact .inr ⟨rfl, .error⟩
    | ok r =>
      rw [bind_of_ok (same.trans es), bind_of_ok es]
      rw [es] at agree
      generalize et : c (pure ⟨⟩) t = r' at agree
      cases agree with
      | ok related =>
        rw [bind_of_ok et]
        exact hf _ _ _ related e

/-- A program that depends on a test. -/
lemma ite (hc : Watched R c) (hd : Watched R d) : Watched R fun w => if p then c w else d w := by
  by_cases h : p
  · simp only [if_pos h]
    exact hc
  · simp only [if_neg h]
    exact hd

/-- A step without a probe, and the rest of the program. -/
lemma after {c : Prog σ ε α} (hc : Blind R c) (hf : ∀ a, Watched R fun w => f w a) : Watched R fun w => c >>= f w :=
  (of_blind hc).bind hf

/-- A step that is taken under a condition, and the rest of the program. -/
lemma when {c : Prog σ ε PUnit} {f : Prog σ ε PUnit → PUnit → Prog σ ε β} (hc : Blind R c)
    (hf : ∀ r, Watched R fun w => f w r) : Watched R fun w => if p then c >>= f w else f w ⟨⟩ :=
  ite (after hc hf) (hf _)

/-- The state is read where the relation does not matter. -/
lemma look {f : Prog σ ε PUnit → σ → Prog σ ε β} (same : ∀ s t w, R s t → f w s = f w t)
    (hf : ∀ s, Watched R fun w => f w s) : Watched R fun w => get >>= f w := by
  intro s t h e
  have first : ∀ w, (get >>= f w) s = f w s s := fun w => bind_of_ok rfl
  have second : ∀ w, (get >>= f w) t = f w t t := fun w => bind_of_ok rfl
  dsimp only
  rw [first, first, second, ← same s t _ h]
  exact hf s s t h e

end Watched

end Exec
