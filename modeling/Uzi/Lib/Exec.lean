import Mathlib.Order.Defs.Unbundled
import Mathlib.Tactic.Common

/-!
# Stateful programs that can stop

A program over a state `σ` that either returns a value and a new state or stops with an `ε`, and
the weakest precondition `wp c Q E` of such a program: from the state at hand `c` either returns
with `Q` or stops with `E`. The `wp_*` equations push `wp` through the program one construct at a
time; `wp_mono` is the rule of consequence. With `E := fun _ => False` a `wp` statement says that
the program returns.
-/

namespace Exec

/-- A program over `σ` that can stop with `ε`. -/
abbrev Prog (σ ε α : Type) := StateT σ (Except ε) α

variable {σ ε α β : Type}

/-- The weakest precondition: `c` returns with `Q` or stops with `E`. -/
def wp (c : Prog σ ε α) (Q : α → σ → Prop) (E : ε → Prop) (s : σ) : Prop :=
  match c s with
  | .ok (a, s') => Q a s'
  | .error e => E e

instance {c : Prog σ ε α} {Q : α → σ → Prop} {E : ε → Prop} {s : σ} [∀ a s', Decidable (Q a s')]
    [∀ e, Decidable (E e)] : Decidable (wp c Q E s) :=
  match h : c s with
  | .ok (a, s') => decidable_of_iff (Q a s') (by rw [wp, h])
  | .error e => decidable_of_iff (E e) (by rw [wp, h])

section Rules

variable {Q : α → σ → Prop} {R : β → σ → Prop} {E : ε → Prop} {s : σ}

/-- A value is returned. -/
@[simp] lemma wp_pure {a : α} : wp (pure a) Q E s ↔ Q a s := Iff.rfl

/-- A program stops. -/
@[simp] lemma wp_throw {e : ε} : wp (throw e : Prog σ ε α) Q E s ↔ E e := Iff.rfl

/-- The state is read. -/
@[simp] lemma wp_get {Q : σ → σ → Prop} : wp (get : Prog σ ε σ) Q E s ↔ Q s s := Iff.rfl

/-- The state is set. -/
@[simp] lemma wp_set {s' : σ} {Q : PUnit → σ → Prop} :
    wp (set s' : Prog σ ε PUnit) Q E s ↔ Q ⟨⟩ s' := Iff.rfl

/-- The state is changed. -/
@[simp] lemma wp_modify {f : σ → σ} {Q : PUnit → σ → Prop} :
    wp (modify f : Prog σ ε PUnit) Q E s ↔ Q ⟨⟩ (f s) := Iff.rfl

/-- One program after the other. -/
@[simp] lemma wp_bind {c : Prog σ ε α} {f : α → Prog σ ε β} :
    wp (c >>= f) R E s ↔ wp c (fun a s' => wp (f a) R E s') E s := by
  have e : (c >>= f) s = (c s).bind (fun p => f p.1 p.2) := rfl
  unfold wp
  rw [e]
  cases c s <;> rfl

/-- A function of what is returned. -/
@[simp] lemma wp_map {c : Prog σ ε α} {f : α → β} :
    wp (f <$> c) R E s ↔ wp c (fun a s' => R (f a) s') E s := by
  rw [map_eq_pure_bind, wp_bind]
  rfl

/-- A program that depends on a test. -/
@[simp] lemma wp_ite {p : Prop} [Decidable p] {c d : Prog σ ε α} :
    wp (if p then c else d) Q E s ↔ if p then wp c Q E s else wp d Q E s := by
  split <;> rfl

/-- The rule of consequence. -/
lemma wp_mono {c : Prog σ ε α} {Q' : α → σ → Prop} {E' : ε → Prop}
    (h : wp c Q E s) (hq : ∀ a s', Q a s' → Q' a s') (he : ∀ e, E e → E' e) :
    wp c Q' E' s := by
  unfold wp at *
  cases e : c s with
  | ok r => rw [e] at h; exact hq _ _ h
  | error e' => rw [e] at h; exact he _ h

/-- The rule of consequence for a program that is let stop in the same way. -/
lemma wp_post {c : Prog σ ε α} {Q' : α → σ → Prop}
    (h : wp c Q E s) (hq : ∀ a s', Q a s' → Q' a s') : wp c Q' E s :=
  wp_mono h hq fun _ => id

/-- What a `wp` says of a run that returns. -/
lemma wp.ok {c : Prog σ ε α} {a : α} {s' : σ} (h : wp c Q E s) (e : c s = .ok (a, s')) :
    Q a s' := by
  unfold wp at h
  rw [e] at h
  exact h

/-- What a `wp` says of a run that stops. -/
lemma wp.error {c : Prog σ ε α} {e' : ε} (h : wp c Q E s) (e : c s = .error e') : E e' := by
  unfold wp at h
  rw [e] at h
  exact h

/-- Where a program returns, it returns from a run. -/
lemma wp.run {c : Prog σ ε α} (h : wp c Q E s) : wp c (fun a s' => Q a s' ∧ c s = .ok (a, s')) E s := by
  unfold wp at *
  cases e : c s with
  | ok r => rw [e] at h; exact ⟨h, rfl⟩
  | error e' => rw [e] at h; exact h

/-- A run that returns with the postcondition. -/
lemma wp_of_ok {c : Prog σ ε α} {a : α} {s' : σ} (e : c s = .ok (a, s')) (h : Q a s') : wp c Q E s := by
  unfold wp
  rw [e]
  exact h

/-- Of a program that may return with anything and stop in any way nothing is said. -/
lemma wp_true {c : Prog σ ε α} : wp c (fun _ _ => True) (fun _ => True) s := by
  unfold wp
  split <;> trivial

/-- A program that may not stop returns. -/
lemma wp.returns {c : Prog σ ε α} (h : wp c Q (fun _ => False) s) :
    ∃ a s', c s = .ok (a, s') ∧ Q a s' := by
  unfold wp at h
  cases e : c s with
  | ok r => rw [e] at h; exact ⟨r.1, r.2, rfl, h⟩
  | error e' => rw [e] at h; exact h.elim

/-- Both postconditions of two `wp` statements of one program. -/
lemma wp.and {c : Prog σ ε α} {Q' : α → σ → Prop} {E' : ε → Prop}
    (h : wp c Q E s) (h' : wp c Q' E' s) :
    wp c (fun a s' => Q a s' ∧ Q' a s') (fun e => E e ∧ E' e) s := by
  unfold wp at *
  cases e : c s with
  | ok r => rw [e] at h h'; exact ⟨h, h'⟩
  | error e' => rw [e] at h h'; exact ⟨h, h'⟩

/-- A step that is taken under a condition, and the rest of the program. -/
lemma wp_when {p : Prop} [Decidable p] {c : Prog σ ε PUnit} {f : PUnit → Prog σ ε β} (I : σ → Prop)
    (step : p → wp c (fun _ s' => I s') E s) (skip : ¬ p → I s) (rest : ∀ s', I s' → wp (f ⟨⟩) R E s') :
    wp (if p then c >>= f else f ⟨⟩) R E s := by
  rw [wp_ite]
  split
  · next h =>
    rw [wp_bind]
    exact wp_post (step h) fun _ s' => rest s'
  · next h => exact rest s (skip h)

/-- A run of two programs that returns consists of two runs that return. -/
lemma bind_ok {c : Prog σ ε α} {f : α → Prog σ ε β} {b : β} {s'' : σ}
    (h : (c >>= f) s = .ok (b, s'')) : ∃ a s', c s = .ok (a, s') ∧ f a s' = .ok (b, s'') := by
  have e : (c >>= f) s = (c s).bind (fun p => f p.1 p.2) := rfl
  rw [e] at h
  cases e' : c s with
  | ok r => rw [e'] at h; exact ⟨r.1, r.2, rfl, h⟩
  | error e'' => rw [e'] at h; cases h

/-- The rest of a run whose first part returns. -/
lemma bind_of_ok {c : Prog σ ε α} {f : α → Prog σ ε β} {a : α} {s' : σ} (e : c s = .ok (a, s')) :
    (c >>= f) s = f a s' := by
  show (c s).bind (fun p => f p.1 p.2) = _
  rw [e]
  rfl

/-- A run whose first part stops. -/
lemma bind_of_error {c : Prog σ ε α} {f : α → Prog σ ε β} {e' : ε} (e : c s = .error e') :
    (c >>= f) s = .error e' := by
  show (c s).bind (fun p => f p.1 p.2) = _
  rw [e]
  rfl

end Rules

/-- `body` for every element of a list in turn. -/
def each {ι : Type} : List ι → (ι → Prog σ ε PUnit) → Prog σ ε PUnit
  | [], _ => pure ⟨⟩
  | i :: is, body => do
    body i
    each is body

/-- The loop over a list keeps an invariant indexed by the elements left. -/
lemma wp_each {ι : Type} {body : ι → Prog σ ε PUnit} {E : ε → Prop} (I : List ι → σ → Prop)
    {is : List ι}
    (step : ∀ i js, (i :: js) <:+ is → ∀ s, I (i :: js) s → wp (body i) (fun _ s' => I js s') E s) :
    ∀ {s}, I is s → wp (each is body) (fun _ s' => I [] s') E s := by
  induction is with
  | nil => intro s h; exact h
  | cons i is ih =>
    intro s h
    rw [each, wp_bind]
    refine wp_post (step i is (List.suffix_refl _) s h) fun _ s' h' => ?_
    exact ih (fun j js hj => step j js (hj.trans (List.suffix_cons i is))) h'

/-- `body (n-1); ...; body 1; body 0`, the counting-down loop of C. -/
def forDown (body : Nat → Prog σ ε PUnit) : Nat → Prog σ ε PUnit
  | 0 => pure ⟨⟩
  | n + 1 => do
    body n
    forDown body n

/-- The counting-down loop keeps an invariant indexed by the number of rounds left. -/
lemma wp_forDown {body : Nat → Prog σ ε PUnit} {E : ε → Prop} (I : Nat → σ → Prop) {n : Nat}
    (step : ∀ k < n, ∀ s, I (k + 1) s → wp (body k) (fun _ s' => I k s') E s) :
    ∀ {s}, I n s → wp (forDown body n) (fun _ s' => I 0 s') E s := by
  induction n with
  | zero => intro s h; exact h
  | succ n ih =>
    intro s h
    rw [forDown, wp_bind]
    refine wp_post (step n (Nat.lt_succ_self n) s h) fun _ s' h' => ?_
    exact ih (fun k hk => step k (Nat.lt_succ_of_lt hk)) h'

/-! ## What a program may change -/

section Within

variable {R : σ → σ → Prop} {E : ε → Prop}

/-- Where `c` returns, the state has moved along `R`, and where it stops, it stops with `E`. -/
def Within (R : σ → σ → Prop) (E : ε → Prop) (c : Prog σ ε α) : Prop :=
  ∀ s, wp c (fun _ s' => R s s') E s

namespace Within

variable {c : Prog σ ε α} {f : α → Prog σ ε β}

/-- Where a program within a relation ends. -/
lemma ok (h : Within R E c) {s s' : σ} {a : α} (e : c s = .ok (a, s')) : R s s' := (h s).ok e

/-- A larger relation. -/
lemma mono {R' : σ → σ → Prop} (h : Within R E c) (le : ∀ s s', R s s' → R' s s') : Within R' E c :=
  fun s => wp_post (h s) fun _ s' => le s s'

/-- A program stops. -/
lemma throw {e : ε} (h : E e) : Within R E (throw e : Prog σ ε α) := fun _ => h

/-- The state is changed. -/
lemma modify {f : σ → σ} (h : ∀ s, R s (f s)) : Within R E (modify f : Prog σ ε PUnit) := h

/-- A program that depends on a test. -/
lemma ite {p : Prop} [Decidable p] {c d : Prog σ ε α} (hc : Within R E c) (hd : Within R E d) :
    Within R E (if p then c else d) := by
  split
  · exact hc
  · exact hd

/-- A function of what is returned. -/
lemma map {g : α → β} (hc : Within R E c) : Within R E (g <$> c) := fun s => wp_map.mpr (hc s)

variable [IsPreorder σ R]

/-- A value is returned. -/
lemma pure {a : α} : Within R E (pure a : Prog σ ε α) := fun s => refl_of R s

/-- The state is read. -/
lemma get : Within R E (get : Prog σ ε σ) := fun s => refl_of R s

/-- One program after the other. -/
lemma bind (hc : Within R E c) (hf : ∀ a, Within R E (f a)) : Within R E (c >>= f) := by
  intro s
  rw [wp_bind]
  refine wp_post (hc s) fun a s' h => ?_
  exact wp_post (hf a s') fun _ s'' h' => trans_of R h h'

/-- A step that is taken under a condition, and the rest of the program. -/
lemma when {p : Prop} [Decidable p] {c : Prog σ ε PUnit} {f : PUnit → Prog σ ε β}
    (hc : Within R E c) (hf : ∀ r, Within R E (f r)) : Within R E (if p then c >>= f else f ⟨⟩) :=
  ite (hc.bind hf) (hf _)

/-- One of two steps, and the rest of the program. -/
lemma either {p : Prop} [Decidable p] {c d : Prog σ ε α} {f : α → Prog σ ε β} (hc : Within R E c)
    (hd : Within R E d) (hf : ∀ a, Within R E (f a)) : Within R E (if p then c >>= f else d >>= f) :=
  ite (hc.bind hf) (hd.bind hf)

/-- A program for each element of a list. -/
lemma each {ι : Type} {body : ι → Prog σ ε PUnit} (h : ∀ i, Within R E (body i)) (is : List ι) :
    Within R E (each is body) := by
  induction is with
  | nil => exact pure
  | cons i is ih => exact (h i).bind fun _ => ih

/-- A program for each number, from the last one down. -/
lemma forDown {body : Nat → Prog σ ε PUnit} (h : ∀ i, Within R E (body i)) (n : Nat) :
    Within R E (forDown body n) := by
  induction n with
  | zero => exact pure
  | succ n ih => exact (h n).bind fun _ => ih

end Within

end Within

end Exec
