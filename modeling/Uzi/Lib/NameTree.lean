import Mathlib.Data.List.TakeWhile

/-!
# Trees of names

A path of names is followed through directories that may be mounted on each other: a node on which something
is mounted stands for what is mounted there, and some names lead from the top of what is mounted up to the node
below it before they are looked up. `NameTree.resolve` follows a path, and `NameTree.Within` says of which names
this depends.

The second part is about paths as lists of characters that a separator cuts into components.
-/

/-- Directories with nodes `N` and names `C`. -/
structure NameTree (N C : Type) where
  /-- The node is a directory. -/
  isDir : N → Bool
  /-- What a directory has under a name. -/
  entry : N → C → Option N
  /-- What is mounted on a node, or else the node. -/
  through : N → N
  /-- The node is the top of something mounted. -/
  isTop : N → Bool
  /-- The node on which something is mounted whose top this is. -/
  below : N → N

/-- Where a path leads: to a node, to a directory that lacks its last name, or nowhere. -/
inductive Lead (N : Type)
  | node (n : N)
  | missing (dir : N)
  | nowhere

namespace NameTree

variable {N C : Type} (t : NameTree N C) (up : C → Bool)

/-- The directory in which `c` is looked up at `n`; the names that are `up` lead up first. -/
def base (n : N) (c : C) : N := if t.isTop n && up c then t.below n else n

/-- The path of names from `n`. -/
def resolve (n : N) : List C → Lead N
  | [] => .node (t.through n)
  | c :: cs =>
    if t.isDir (t.through n) then
      match t.entry (t.base up (t.through n) c) c with
      | some m => resolve m cs
      | none => if cs.isEmpty then .missing (t.base up (t.through n) c) else .nowhere
    else .nowhere

/-- Of all the names that are looked up along the path, `good` holds. -/
def Along (good : N → C → Prop) (n : N) : List C → Prop
  | [] => True
  | c :: cs =>
    t.isDir (t.through n) → good (t.through n) c ∧
      ∀ m, t.entry (t.base up (t.through n) c) c = some m → Along good m cs

variable {t up} {up' : C → Bool} {n : N} {cs : List C}

/-- A weaker condition along the way. -/
lemma Along.mono {good good' : N → C → Prop} (h : t.Along up good n cs) (le : ∀ n c, good n c → good' n c) :
    t.Along up good' n cs := by
  induction cs generalizing n with
  | nil => trivial
  | cons c cs ih =>
    intro dir
    obtain ⟨here, rest⟩ := h dir
    exact ⟨le _ _ here, fun m found => ih (rest m found)⟩

/-- Two ways to go up that agree at every top that the path comes to. -/
lemma resolve_congr (h : t.Along up (fun n c => t.isTop n → up' c = up c) n cs) :
    t.resolve up' n cs = t.resolve up n cs := by
  induction cs generalizing n with
  | nil => rfl
  | cons c cs ih =>
    by_cases dir : t.isDir (t.through n)
    · obtain ⟨agree, rest⟩ := h dir
      have same : t.base up' (t.through n) c = t.base up (t.through n) c := by
        cases top : t.isTop (t.through n) with
        | true => rw [base, base, agree top]
        | false => rw [base, base, top, Bool.false_and, Bool.false_and]
      simp only [resolve, same, dir, if_true]
      cases found : t.entry (t.base up (t.through n) c) c with
      | some m => exact ih (rest m found)
      | none => rfl
    · simp only [resolve, dir, Bool.false_eq_true, if_false]

end NameTree

/-! ## Components -/

namespace List

variable {α : Type} [DecidableEq α] {sep : α}

/-- The components into which the separators cut a list. -/
def components (sep : α) (l : List α) : List (List α) := (l.splitOn sep).filter (· ≠ [])

/-- A list without separators is one component. -/
lemma components_of_notMem {l : List α} (h : sep ∉ l) : l.components sep = if l = [] then [] else [l] := by
  rw [components, splitOn_eq_singleton h]
  cases l with
  | nil => rfl
  | cons a l => rfl

/-- A component ends at the first separator. -/
lemma components_append_cons {l r : List α} (h : sep ∉ l) :
    (l ++ sep :: r).components sep = if l = [] then r.components sep else l :: r.components sep := by
  rw [components, splitOn_append_cons_self_of_not_mem h, filter_cons]
  cases l with
  | nil => rfl
  | cons a l => rfl

/-- A separator in front does not matter. -/
lemma components_cons {l : List α} : (sep :: l).components sep = l.components sep :=
  (components_append_cons not_mem_nil).trans (if_pos rfl)

/-- Separators in front do not matter. -/
lemma components_dropWhile {l : List α} : (l.dropWhile (· = sep)).components sep = l.components sep := by
  induction l with
  | nil => rfl
  | cons a l ih =>
    rw [dropWhile_cons]
    split
    · next e => rw [ih, of_decide_eq_true e, components_cons]
    · rfl

/-- The first component, and the rest. -/
lemma components_takeWhile {l : List α} (h : l.takeWhile (· ≠ sep) ≠ []) :
    l.components sep = l.takeWhile (· ≠ sep) :: (l.dropWhile (· ≠ sep)).components sep := by
  have clean : sep ∉ l.takeWhile (· ≠ sep) := by
    intro mem
    have ne := mem_takeWhile_imp mem
    simp at ne
  have whole : l.takeWhile (· ≠ sep) ++ l.dropWhile (· ≠ sep) = l := takeWhile_append_dropWhile
  generalize l.takeWhile (· ≠ sep) = first at h clean whole
  cases rest : l.dropWhile (· ≠ sep) with
  | nil =>
    rw [rest, append_nil] at whole
    rw [← whole, components_of_notMem clean, if_neg h]
    rfl
  | cons a r =>
    have a_eq : a = sep := by
      have stop := head?_dropWhile_not (fun b => decide (b ≠ sep)) l
      rw [rest] at stop
      simpa using stop
    rw [rest, a_eq] at whole
    rw [← whole, components_append_cons clean, if_neg h, a_eq, components_cons]

end List
