import Mathlib.Logic.Function.Basic
import Mathlib.Data.Set.Basic
import Mathlib.Data.Set.Insert

/-!
# Write-back caches

A cache keeps named copies of the cells of a backing store in slots `ι`. The logical content of a
name is the copy in the slot of that name, if there is one, and the cell behind it otherwise.

`Coherent c X` is the invariant: no two slots carry one name, and every slot that is not dirty and
not in `X` (the slots that their holders have changed and not released yet) agrees with its cell.
Each operation of a cache comes with its effect on `content` and with the invariant after it.
-/

namespace WriteBack

/-- Named slots over a backing store. -/
structure Cache (ι N D : Type) where
  name : ι → Option N
  data : ι → D
  dirty : ι → Prop
  back : N → D

variable {ι N D : Type}

namespace Cache

open Classical in
/-- The logical content of a name. -/
noncomputable def content (c : Cache ι N D) (n : N) : D :=
  if h : ∃ i, c.name i = some n then c.data h.choose else c.back n

/-- No two slots carry one name. -/
def Unique (c : Cache ι N D) : Prop := ∀ {i j n}, c.name i = some n → c.name j = some n → i = j

/-- The names are unique and the clean slots outside `X` agree with the store. -/
structure Coherent (c : Cache ι N D) (X : Set ι) : Prop where
  unique : c.Unique
  clean : ∀ {i n}, c.name i = some n → ¬ c.dirty i → i ∉ X → c.data i = c.back n

/-- A slot holds the content of its name. -/
lemma content_of_name {c : Cache ι N D} (u : c.Unique) {i : ι} {n : N} (h : c.name i = some n) :
    c.content n = c.data i := by
  have ex : ∃ j, c.name j = some n := ⟨i, h⟩
  rw [content, dif_pos ex, u ex.choose_spec h]

/-- A name without a slot has its content in the store. -/
lemma content_of_forall_ne {c : Cache ι N D} {n : N} (h : ∀ i, c.name i ≠ some n) :
    c.content n = c.back n := by
  have nex : ¬ ∃ j, c.name j = some n := fun ⟨j, hj⟩ => h j hj
  rw [content, dif_neg nex]

/-- Two caches agree on a name that the same slots carry, with the same data, over equal cells. -/
lemma content_congr {c c' : Cache ι N D} (u : c.Unique) {n : N}
    (hname : ∀ i, c'.name i = some n ↔ c.name i = some n)
    (hdata : ∀ i, c.name i = some n → c'.data i = c.data i)
    (hback : (∀ i, c.name i ≠ some n) → c'.back n = c.back n) : c'.content n = c.content n := by
  by_cases ex : ∃ i, c.name i = some n
  · obtain ⟨i, hi⟩ := ex
    have ex' : ∃ j, c'.name j = some n := ⟨i, (hname i).mpr hi⟩
    have ei := u ((hname _).mp ex'.choose_spec) hi
    rw [content_of_name u hi, content, dif_pos ex', ei, hdata i hi]
  · have none : ∀ i, c.name i ≠ some n := fun i hi => ex ⟨i, hi⟩
    rw [content_of_forall_ne none, content_of_forall_ne fun i hi => none i ((hname i).mp hi),
      hback none]

/-- A clean cache shows the backing store. -/
lemma Coherent.content_eq_back {c : Cache ι N D} (h : c.Coherent ∅) {n : N}
    (clean : ∀ i, c.name i = some n → ¬ c.dirty i) : c.content n = c.back n := by
  by_cases ex : ∃ i, c.name i = some n
  · obtain ⟨i, hi⟩ := ex
    rw [content_of_name h.unique hi, h.clean hi (clean i hi) (by simp)]
  · exact content_of_forall_ne fun i hi => ex ⟨i, hi⟩

/-- More slots may be taken for changed. -/
lemma Coherent.mono {c : Cache ι N D} {X Y : Set ι} (h : c.Coherent X) (sub : X ⊆ Y) :
    c.Coherent Y :=
  ⟨h.unique, fun hn hd hy => h.clean hn hd fun hx => hy (sub hx)⟩

section Ops

variable {c c' : Cache ι N D} {X : Set ι} {i : ι} {n : N} {n' : Option N}

/-- `c'` is `c` after slot `i` named `n` has been written to the store. -/
structure Flushed (c c' : Cache ι N D) (i : ι) (n : N) : Prop where
  named : c.name i = some n
  name : c'.name = c.name
  data : c'.data = c.data
  back : c'.back n = c.data i
  back_ne : ∀ m ≠ n, c'.back m = c.back m
  dirty : ∀ j ≠ i, c'.dirty j ↔ c.dirty j

/-- Writing a slot out changes no content. -/
lemma Flushed.content (f : Flushed c c' i n) (u : c.Unique) (m : N) :
    c'.content m = c.content m := by
  apply content_congr u
  · intro j
    rw [f.name]
  · intro j _
    rw [f.data]
  · intro none
    exact f.back_ne m fun e => none i (e ▸ f.named)

/-- Writing a slot out keeps the cache coherent. -/
lemma Flushed.coherent (f : Flushed c c' i n) (h : c.Coherent X) : c'.Coherent X where
  unique := by
    intro j k m hj hk
    rw [f.name] at hj hk
    exact h.unique hj hk
  clean := by
    intro j m hj hd hx
    rw [f.name] at hj
    rw [f.data]
    by_cases e : j = i
    · subst e
      obtain rfl : m = n := by simpa [f.named] using hj.symm
      exact f.back.symm
    · have ne : m ≠ n := fun emn => e (h.unique hj (emn ▸ f.named))
      rw [f.back_ne m ne]
      exact h.clean hj (fun hdj => hd ((f.dirty j e).mpr hdj)) hx

/-- `c'` is `c` after slot `i` has been given to `n'` (to no name, if `n' = none`). -/
structure Renamed (c c' : Cache ι N D) (i : ι) (n' : Option N) : Prop where
  named : c'.name i = n'
  name_ne : ∀ j ≠ i, c'.name j = c.name j
  data_ne : ∀ j ≠ i, c'.data j = c.data j
  back : c'.back = c.back
  dirty_ne : ∀ j ≠ i, c'.dirty j ↔ c.dirty j
  fresh : ∀ j m, n' = some m → c.name j ≠ some m
  was_clean : ¬ c.dirty i

/-- Giving a clean slot away leaves the content of every other name. -/
lemma Renamed.content (r : Renamed c c' i n') (h : c.Coherent X) (hx : i ∉ X) {m : N}
    (ne : n' ≠ some m) : c'.content m = c.content m := by
  by_cases ei : c.name i = some m
  · -- The slot was the one of `m`: it agrees with the store, where `m` is looked up from now on.
    have none' : ∀ j, c'.name j ≠ some m := by
      intro j hj
      by_cases e : j = i
      · subst e
        exact ne (r.named ▸ hj)
      · rw [r.name_ne j e] at hj
        exact e (h.unique hj ei)
    rw [content_of_forall_ne none', content_of_name h.unique ei, r.back,
      h.clean ei r.was_clean hx]
  · apply content_congr h.unique
    · intro j
      by_cases e : j = i
      · subst e
        rw [r.named]
        exact ⟨fun hj => absurd hj ne, fun hj => absurd hj ei⟩
      · rw [r.name_ne j e]
    · intro j hj
      exact r.data_ne j fun e => ei (e ▸ hj)
    · intro _
      rw [r.back]

/-- The names stay unique when a slot is given to a name that had none. -/
lemma Renamed.unique (r : Renamed c c' i n') (u : c.Unique) : c'.Unique := by
  intro j k m hj hk
  by_cases ej : j = i
  · by_cases ek : k = i
    · rw [ej, ek]
    · rw [r.name_ne k ek] at hk
      rw [ej, r.named] at hj
      exact absurd hk (r.fresh k m hj)
  · rw [r.name_ne j ej] at hj
    by_cases ek : k = i
    · rw [ek, r.named] at hk
      exact absurd hj (r.fresh j m hk)
    · rw [r.name_ne k ek] at hk
      exact u hj hk

/-- The cache stays coherent when the slot given away is filled from the store or counts as
changed. -/
lemma Renamed.coherent (r : Renamed c c' i n') (h : c.Coherent X)
    (fill : i ∉ X → ∀ m, n' = some m → c'.data i = c.back m) : c'.Coherent X where
  unique := r.unique h.unique
  clean := by
    intro j m hj hd hx
    by_cases e : j = i
    · subst e
      rw [r.named] at hj
      rw [r.back, fill hx m hj]
    · rw [r.name_ne j e] at hj
      rw [r.data_ne j e, r.back]
      exact h.clean hj (fun hdj => hd ((r.dirty_ne j e).mpr hdj)) hx

/-- `c'` is `c` with new data in slot `i`. -/
structure Filled (c c' : Cache ι N D) (i : ι) : Prop where
  name : c'.name = c.name
  data_ne : ∀ j ≠ i, c'.data j = c.data j
  back : c'.back = c.back
  dirty : ∀ j, c'.dirty j ↔ c.dirty j

/-- New data in a slot change the content of its name only. -/
lemma Filled.content (f : Filled c c' i) (u : c.Unique) {m : N} (ne : c.name i ≠ some m) :
    c'.content m = c.content m := by
  apply content_congr u
  · intro j
    rw [f.name]
  · intro j hj
    exact f.data_ne j fun e => ne (e ▸ hj)
  · intro _
    rw [f.back]

/-- A slot with new data counts as changed. -/
lemma Filled.coherent (f : Filled c c' i) (h : c.Coherent X) : c'.Coherent (insert i X) where
  unique := by
    intro j k m hj hk
    rw [f.name] at hj hk
    exact h.unique hj hk
  clean := by
    intro j m hj hd hx
    rw [f.name] at hj
    rw [f.data_ne j fun e => hx (e ▸ Set.mem_insert i X), f.back]
    exact h.clean hj (fun hdj => hd ((f.dirty j).mpr hdj)) fun hj => hx (Set.mem_insert_of_mem i hj)

/-- `c'` is `c` with possibly more dirty slots. -/
structure Marked (c c' : Cache ι N D) : Prop where
  name : c'.name = c.name
  data : c'.data = c.data
  back : c'.back = c.back
  dirty : ∀ j, c.dirty j → c'.dirty j

/-- Dirty marks change no content. -/
lemma Marked.content (f : Marked c c') (u : c.Unique) (m : N) : c'.content m = c.content m := by
  apply content_congr u
  · intro j
    rw [f.name]
  · intro j _
    rw [f.data]
  · intro _
    rw [f.back]

/-- A changed slot that is marked dirty need not be taken for changed any more. -/
lemma Marked.coherent (f : Marked c c') (h : c.Coherent X) {Y : Set ι}
    (marked : ∀ j ∈ X, j ∉ Y → c'.dirty j) : c'.Coherent Y where
  unique := by
    intro j k m hj hk
    rw [f.name] at hj hk
    exact h.unique hj hk
  clean := by
    intro j m hj hd hy
    rw [f.name] at hj
    rw [f.data, f.back]
    exact h.clean hj (fun hdj => hd (f.dirty j hdj)) fun hx => hd (marked j hx hy)

end Ops

end Cache

end WriteBack
