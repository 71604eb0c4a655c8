import Uzi.Lib.Exec

/-!
# Loops, round by round

A `while` loop whose body may break off, and the states that its rounds lead to (`Reaches`): a loop ends in
one of them, by its condition or by a break, and a property of its rounds is an invariant of `Reaches`.
-/

namespace Exec

variable {σ ε β : Type}

/-- What follows a choice follows both of its branches. -/
lemma ite_bind {α γ : Type} {P : Prop} [Decidable P] {c d : Prog σ ε α} {f : α → Prog σ ε γ} :
    (if P then c else d) >>= f = if P then c >>= f else d >>= f := by
  split <;> rfl

/-- `while (more b) b = body b`, for at most `fuel` rounds. The body breaks off with `none`. -/
def rounds (more : β → Bool) (stuck : ε) (body : β → Prog σ ε (Option β)) :
    (fuel : Nat) → β → Prog σ ε PUnit
  | 0, b => if more b then throw stuck else pure ⟨⟩
  | fuel + 1, b =>
    if more b then do
      match ← body b with
      | some b' => rounds more stuck body fuel b'
      | none => pure ⟨⟩
    else pure ⟨⟩

/-- `k` rounds from `s` and `b` on, and where they lead. -/
inductive Reaches (more : β → Bool) (body : β → Prog σ ε (Option β)) (s : σ) (b : β) :
    Nat → σ → β → Prop
  | start : Reaches more body s b 0 s b
  | next {k : Nat} {s' s'' : σ} {b' b'' : β} (before : Reaches more body s b k s' b') (goes : more b' = true)
    (round : body b' s' = .ok (some b'', s'')) : Reaches more body s b (k + 1) s'' b''

variable {more : β → Bool} {stuck : ε} {body : β → Prog σ ε (Option β)} {s s' s'' : σ} {b b' b'' : β}
  {k : Nat}

namespace Reaches

/-- One more round in front. -/
lemma cons (goes : more b = true) (round : body b s = .ok (some b', s')) (h : Reaches more body s' b' k s'' b'') :
    Reaches more body s b (k + 1) s'' b'' := by
  induction h with
  | start => exact .next .start goes round
  | next _ goes' round' ih => exact .next ih goes' round'

/-- What every round keeps holds in every state that the rounds lead to. -/
lemma invariant {I : Nat → σ → β → Prop} (init : I 0 s b)
    (step : ∀ k s' b', I k s' b' → more b' = true →
      wp (body b') (fun r s'' => ∀ b'', r = some b'' → I (k + 1) s'' b'') (fun _ => True) s')
    (h : Reaches more body s b k s' b') : I k s' b' := by
  induction h with
  | start => exact init
  | next _ goes round ih => exact (step _ _ _ ih goes).ok round _ rfl

end Reaches

/-- The loop ends where its rounds lead: by its condition or a break, or because a round does not return or
none is left. -/
lemma wp_rounds {fuel : Nat} :
    wp (rounds more stuck body fuel b)
      (fun _ s' => ∃ k s'' b', Reaches more body s b k s'' b' ∧
        (more b' = false ∧ s' = s'' ∨ more b' = true ∧ body b' s'' = .ok (none, s')))
      (fun e => ∃ k s'' b', Reaches more body s b k s'' b' ∧ more b' = true ∧
        (body b' s'' = .error e ∨ k = fuel ∧ e = stuck)) s := by
  induction fuel generalizing s b with
  | zero =>
    rw [rounds, wp_ite]
    split
    · next goes => exact ⟨0, s, b, .start, goes, .inr ⟨rfl, rfl⟩⟩
    · next ends => exact ⟨0, s, b, .start, .inl ⟨Bool.not_eq_true _ ▸ ends, rfl⟩⟩
  | succ fuel ih =>
    rw [rounds, wp_ite]
    split
    · next goes =>
      rw [wp_bind]
      cases round : body b s with
      | error e =>
        unfold wp
        rw [round]
        exact ⟨0, s, b, .start, goes, .inl round⟩
      | ok r =>
        obtain ⟨r, s₁⟩ := r
        unfold wp
        rw [round]
        cases r with
        | none => exact ⟨0, s, b, .start, .inr ⟨goes, round⟩⟩
        | some b₁ =>
          refine wp_mono ih (fun _ s' => ?_) fun e => ?_
          · intro ⟨k, s'', b', reached, ends⟩
            exact ⟨k + 1, s'', b', reached.cons goes round, ends⟩
          · intro ⟨k, s'', b', reached, goes', ends⟩
            refine ⟨k + 1, s'', b', reached.cons goes round, goes', ?_⟩
            cases ends with
            | inl error => exact .inl error
            | inr out => exact .inr ⟨congrArg _ out.1, out.2⟩
    · next ends => exact ⟨0, s, b, .start, .inl ⟨Bool.not_eq_true _ ▸ ends, rfl⟩⟩

/-- A loop that does not begin. -/
lemma wp_rounds_none {Q : PUnit → σ → Prop} {E : ε → Prop} {fuel : Nat} (ends : more b = false) (post : Q ⟨⟩ s) :
    wp (rounds more stuck body fuel b) Q E s := by
  have ends : ¬ more b = true := Bool.not_eq_true _ ▸ ends
  cases fuel with
  | zero =>
    rw [rounds, wp_ite, if_neg ends]
    exact post
  | succ fuel =>
    rw [rounds, wp_ite, if_neg ends]
    exact post

/-- A loop that one round ends. -/
lemma wp_rounds_one {Q : PUnit → σ → Prop} {E : ε → Prop} {fuel : Nat} (goes : more b = true)
    (round : wp (body b) (fun r s' => (∀ b', r = some b' → more b' = false) ∧ Q ⟨⟩ s') E s) :
    wp (rounds more stuck body (fuel + 1) b) Q E s := by
  rw [rounds, wp_ite, if_pos goes, wp_bind]
  refine wp_post round fun r s' got => ?_
  obtain ⟨ends, post⟩ := got
  cases r with
  | none => exact post
  | some b' => exact wp_rounds_none (ends b' rfl) post

/-! ## Loops that run on -/

/-- `while (more b) b = body b`, and `stuck` where it has not ended after `fuel` rounds. -/
def loop (more : β → Bool) (body : β → Prog σ ε β) (stuck : Prog σ ε β) : (fuel : Nat) → β → Prog σ ε β
  | 0, b => if more b then stuck else pure b
  | fuel + 1, b =>
    if more b then do
      let b ← body b
      loop more body stuck fuel b
    else pure b

section Loop

variable {σ ε β : Type} {more : β → Bool} {body : β → Prog σ ε β} {stuck : Prog σ ε β} {E : ε → Prop}

/-- What every round keeps holds where the loop ends. -/
lemma wp_loop (I : β → σ → Prop)
    (step : ∀ b s, I b s → more b = true → wp (body b) I E s)
    (out : ∀ b s, I b s → more b = true → wp stuck (fun b' s' => I b' s' ∧ more b' = false) E s) :
    ∀ {fuel b s}, I b s → wp (loop more body stuck fuel b) (fun b' s' => I b' s' ∧ more b' = false) E s := by
  intro fuel
  induction fuel with
  | zero =>
    intro b s h
    rw [loop, wp_ite]
    split
    · next goes => exact out b s h goes
    · next ends => exact ⟨h, Bool.not_eq_true _ ▸ ends⟩
  | succ fuel ih =>
    intro b s h
    rw [loop, wp_ite]
    split
    · next goes =>
      rw [wp_bind]
      exact wp_post (step b s h goes) fun _ _ => ih
    · next ends => exact ⟨h, Bool.not_eq_true _ ▸ ends⟩

/-- A loop whose measure goes down in every round ends. -/
lemma wp_loop_measure (I : β → σ → Prop) (m : β → Nat) (pos : ∀ b s, I b s → more b = true → 0 < m b)
    (step : ∀ b s, I b s → more b = true → wp (body b) (fun b' s' => I b' s' ∧ m b' < m b) E s) :
    ∀ {fuel b s}, m b ≤ fuel → I b s →
      wp (loop more body stuck fuel b) (fun b' s' => I b' s' ∧ more b' = false) E s := by
  intro fuel
  induction fuel with
  | zero =>
    intro b s le h
    rw [loop, wp_ite]
    split
    · next goes => exact absurd (pos b s h goes) (Nat.not_lt.mpr le)
    · next ends => exact ⟨h, Bool.not_eq_true _ ▸ ends⟩
  | succ fuel ih =>
    intro b s le h
    rw [loop, wp_ite]
    split
    · next goes =>
      rw [wp_bind]
      exact wp_post (step b s h goes) fun _ _ got => ih (Nat.le_of_lt_succ (Nat.lt_of_lt_of_le got.2 le)) got.1
    · next ends => exact ⟨h, Bool.not_eq_true _ ▸ ends⟩

end Loop

end Exec
