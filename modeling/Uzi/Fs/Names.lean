import Uzi.Fs.PathWalk

/-!
# Names in directory entries

What `namecomp` finds in the 14 bytes that `ch_link` copies from the last component of a path.
-/

namespace Uzi

/-- The characters at `f` are the component `l`, up to a null or a slash. -/
structure Component (f : Nat → Byte) (l : List Byte) : Prop where
  chars : ∀ k a, l[k]? = some a → f k = a
  plain : ∀ a ∈ l, a ≠ 0 ∧ a ≠ SLASH
  ends : f l.length = 0 ∨ f l.length = SLASH

/-- How the name of a slot has come about: it was written for a component, for the empty name with which `ch_link`
removes an entry, or never. -/
inductive Slot (ino : Word) : (name : Nat → Byte) → (used : Bool) → Prop
  | named {f : Nat → Byte} {d : List Byte} (component : Component f d) (ne : d ≠ []) :
    Slot ino (Direct.ofName ino f).name true
  | removed {f : Nat → Byte} (empty : f 0 = 0) : Slot ino (Direct.ofName ino f).name false
  | unused : Slot ino (Direct.ofName ino fun _ => 0).name false

namespace Component

variable {f g : Nat → Byte} {c : List Byte} {n : Nat}

/-- The component without its first character. -/
lemma tail {a : Byte} (h : Component f (a :: c)) : Component (fun k => f (k + 1)) c where
  chars k b mem := h.chars (k + 1) b mem
  plain b mem := h.plain b (List.mem_cons_of_mem a mem)
  ends := h.ends

/-- What `namecomp` sees of a component. -/
lemma takeWhile (h : Component f c) :
    ((List.range n).map f).takeWhile (fun a => a ≠ 0 ∧ a ≠ SLASH) = c.take n := by
  induction n generalizing f c with
  | zero => rfl
  | succ n ih =>
    rw [List.range_succ_eq_map, List.map_cons, List.takeWhile_cons, List.map_map]
    cases c with
    | nil =>
      rw [if_neg]
      · rfl
      · rw [decide_eq_true_iff, ← not_or, not_not]
        exact h.ends
    | cons a c =>
      have first : f 0 = a := h.chars 0 a rfl
      rw [first, if_pos (decide_eq_true (h.plain a List.mem_cons_self)), List.take_succ_cons]
      exact congrArg (a :: ·) (ih h.tail)

/-- The stem of a component. -/
lemma stem (h : Component f c) : Uzi.stem f = c.take 14 := h.takeWhile

/-- The copy of 14 bytes. -/
lemma stem_copy {ino : Word} : Uzi.stem (Direct.ofName ino f).name = Uzi.stem f := by
  unfold Uzi.stem
  refine congrArg _ (List.map_congr_left fun k mem => ?_)
  exact dif_pos (List.mem_range.mp mem)

end Component

/-- `namecomp` looks at 14 bytes of the stored name. -/
lemma namecomp_congr {n1 n2 n2' : Nat → Byte} (same : ∀ k < 14, n2' k = n2 k) : namecomp n1 n2' = namecomp n1 n2 := by
  have rounds : ∀ n ≤ 14, namecompRounds n1 n2' n = namecompRounds n1 n2 n := by
    intro n le
    induction n with
    | zero => rfl
    | succ n ih =>
      rw [namecompRounds, namecompRounds, same (13 - n) (by omega), ih (Nat.le_of_succ_le le)]
  exact rounds 14 (Nat.le_refl 14)

/-! ## Components of paths -/

namespace CStr

variable {s : CStr} {i : Nat}

/-- A component of a path is one in memory. -/
lemma component_at (le : i ≤ s.len) : Component (fun k => s.chr (i + k)) (s.component i) := by
  obtain ⟨n, left⟩ := Nat.exists_eq_add_of_le le
  induction n generalizing i with
  | zero =>
    rw [Nat.add_zero] at left
    rw [← left, component, drop_bytes_len]
    exact ⟨fun k a mem => by simp at mem, fun a mem => absurd mem List.not_mem_nil, .inl s.terminated⟩
  | succ n ih =>
    have ne : s.chr i ≠ 0 := s.ne_zero i (by omega)
    by_cases slash : s.chr i = SLASH
    · rw [component, drop_bytes (by omega), List.takeWhile_cons,
        if_neg (by rw [decide_eq_true_iff]; exact not_not.mpr slash)]
      exact ⟨fun k a mem => by simp at mem, fun a mem => absurd mem List.not_mem_nil, .inr slash⟩
    · have rest := ih (i := i + 1) (by omega) (by omega)
      rw [component_eq le ne slash]
      refine ⟨fun k a mem => ?_, fun a mem => ?_, ?_⟩
      · cases k with
        | zero => exact Option.some.inj mem
        | succ k =>
          have later := rest.chars k a mem
          rwa [Nat.add_assoc, Nat.add_comm 1 k] at later
      · cases List.mem_cons.mp mem with
        | inl own => exact own ▸ ⟨ne, slash⟩
        | inr later => exact rest.plain a later
      · have ends := rest.ends
        rwa [Nat.add_assoc, Nat.add_comm 1] at ends

end CStr

/-- `namecomp` finds the names that are equal in 14 characters, without a look behind the 14 bytes stored, and finds
the empty name in the slots that are not used. -/
theorem namecomp_stored {n1 f empty : Nat → Byte} {c d : List Byte} {ino : Word} (hc : Component n1 c)
    (hd : Component f d) (he : empty 0 = 0) :
    (namecomp n1 (Direct.ofName ino f).name = true ↔ c.take 14 = d.take 14) ∧
    (∀ n2, (∀ k < 14, n2 k = (Direct.ofName ino f).name k) →
      namecomp n1 n2 = namecomp n1 (Direct.ofName ino f).name) ∧
    ∀ name used, Slot ino name used → (namecomp empty name = true ↔ used = false) := by
  have none : ∀ g : Nat → Byte, g 0 = 0 → stem g = [] := by
    intro g zero
    have nil : Component g [] := ⟨fun k a mem => by simp at mem, fun a mem => absurd mem List.not_mem_nil, .inl zero⟩
    exact nil.stem
  refine ⟨?_, fun n2 same => namecomp_congr same, fun name used slot => ?_⟩
  · rw [namecomp_iff, Component.stem_copy, hc.stem, hd.stem]
  · rw [namecomp_iff, none empty he]
    cases slot with
    | named component ne =>
      rw [Component.stem_copy, component.stem]
      refine iff_of_false (fun nil => ne ?_) (by decide)
      exact (List.take_eq_nil_iff.mp nil.symm).resolve_left (by decide)
    | removed empty =>
      rw [Component.stem_copy, none _ empty]
      exact iff_of_true rfl rfl
    | unused =>
      rw [Component.stem_copy, none _ rfl]
      exact iff_of_true rfl rfl

/-- The component of `/m` against the name stored for the last component of `/m/.b`, and the empty name. -/
theorem namecomp_stored_m :
    (namecomp (fun k => pathM.chr (1 + k)) (Direct.ofName 2 fun k => pathAB.chr (3 + k)).name = true ↔
      (pathM.component 1).take 14 = (pathAB.component 3).take 14) ∧
    (∀ n2, (∀ k < 14, n2 k = (Direct.ofName 2 fun k => pathAB.chr (3 + k)).name k) →
      namecomp (fun k => pathM.chr (1 + k)) n2 =
        namecomp (fun k => pathM.chr (1 + k)) (Direct.ofName 2 fun k => pathAB.chr (3 + k)).name) ∧
    ∀ name used, Slot 2 name used → (namecomp (fun _ => 0) name = true ↔ used = false) :=
  namecomp_stored (CStr.component_at (by decide)) (CStr.component_at (by decide)) rfl

end Uzi
