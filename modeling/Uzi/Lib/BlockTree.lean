import Mathlib.Algebra.BigOperators.Group.Finset.Basic
import Mathlib.Algebra.Order.BigOperators.Group.Finset
import Mathlib.Algebra.Order.Group.Multiset
import Mathlib.Data.List.Infix
import Mathlib.Tactic.Abel

/-!
# Trees of blocks

A block of level `l + 1` names `F` blocks of level `l`, and a block of level 0 names none; `nil` names
no block. `sub nil F cell l b` is the multiset of the blocks in the tree of level `l` below `b`, each as
often as it has a position there.
-/

namespace BlockTree

variable {N : Type}

/-- A sum in which one summand changes. -/
lemma sum_add_eq {s : Finset Nat} {f g : Nat → Multiset N} {i : Nat} (hi : i ∈ s)
    (same : ∀ j ∈ s, j ≠ i → g j = f j) : ∑ j ∈ s, g j + f i = ∑ j ∈ s, f j + g i := by
  rw [← Finset.add_sum_erase s f hi, ← Finset.add_sum_erase s g hi,
    Finset.sum_congr rfl fun j hj => same j (Finset.mem_of_mem_erase hj) (Finset.ne_of_mem_erase hj)]
  abel

variable [DecidableEq N]

/-- The blocks of the tree of level `l` below `b`. -/
def sub (nil : N) (F : Nat) (cell : N → Nat → N) : Nat → N → Multiset N
  | 0, b => if b = nil then 0 else {b}
  | l + 1, b => if b = nil then 0 else {b} + ∑ j ∈ Finset.range F, sub nil F cell l (cell b j)

variable {nil : N} {F : Nat} {cell cell' : N → Nat → N} {l : Nat} {b x : N}

/-- No block has no tree. -/
@[simp] lemma sub_nil : sub nil F cell l nil = 0 := by
  cases l with
  | zero => exact if_pos rfl
  | succ l => exact if_pos rfl

/-- A leaf. -/
lemma sub_zero (h : b ≠ nil) : sub nil F cell 0 b = {b} := if_neg h

/-- A block, and what is below it. -/
lemma sub_succ (h : b ≠ nil) :
    sub nil F cell (l + 1) b = {b} + ∑ j ∈ Finset.range F, sub nil F cell l (cell b j) := if_neg h

/-- The root of a tree is in it. -/
lemma self_mem (h : b ≠ nil) : b ∈ sub nil F cell l b := by
  cases l with
  | zero =>
    rw [sub_zero h]
    exact Multiset.mem_singleton_self b
  | succ l =>
    rw [sub_succ h]
    exact Multiset.mem_add.mpr (.inl (Multiset.mem_singleton_self b))

/-- No tree has `nil` in it. -/
lemma ne_nil (h : x ∈ sub nil F cell l b) : x ≠ nil := by
  induction l generalizing b with
  | zero =>
    rw [sub] at h
    split at h
    · exact absurd h (Multiset.notMem_zero x)
    · next ne => exact Multiset.mem_singleton.mp h ▸ ne
  | succ l ih =>
    rw [sub] at h
    split at h
    · exact absurd h (Multiset.notMem_zero x)
    · next ne =>
      cases Multiset.mem_add.mp h with
      | inl h => exact Multiset.mem_singleton.mp h ▸ ne
      | inr h =>
        obtain ⟨j, -, h⟩ := Multiset.mem_sum.mp h
        exact ih h

/-- A tree depends on the cells of its blocks only. -/
lemma sub_congr (h : ∀ c ∈ sub nil F cell l b, ∀ j < F, cell' c j = cell c j) :
    sub nil F cell' l b = sub nil F cell l b := by
  induction l generalizing b with
  | zero => rfl
  | succ l ih =>
    by_cases hb : b = nil
    · rw [hb, sub_nil, sub_nil]
    · rw [sub_succ hb, sub_succ hb]
      rw [sub_succ hb] at h
      congr 1
      refine Finset.sum_congr rfl fun j hj => ?_
      rw [h b (Multiset.mem_add.mpr (.inl (Multiset.mem_singleton_self b))) j
        (Finset.mem_range.mp hj)]
      refine ih fun c hc => h c (Multiset.mem_add.mpr (.inr ?_))
      exact Multiset.mem_sum.mpr ⟨j, hj, hc⟩

/-- A block that names no block is a tree of its own. -/
lemma sub_leaf (h : b ≠ nil) (leaf : ∀ j < F, cell b j = nil) : sub nil F cell l b = {b} := by
  cases l with
  | zero => exact sub_zero h
  | succ l =>
    rw [sub_succ h, Finset.sum_eq_zero, add_zero]
    intro j hj
    rw [leaf j (Finset.mem_range.mp hj), sub_nil]

/-- The tree of a child is a part of the tree. -/
lemma child_le (hb : b ≠ nil) {i : Nat} (hi : i < F) :
    {b} + sub nil F cell l (cell b i) ≤ sub nil F cell (l + 1) b := by
  rw [sub_succ hb]
  refine add_le_add_right ?_ _
  exact Finset.single_le_sum (f := fun j => sub nil F cell l (cell b j))
    (fun j _ => Multiset.zero_le _) (Finset.mem_range.mpr hi)

/-! ## Growing a tree from a list -/

variable {L L' : Multiset N}

omit [DecidableEq N] in
/-- What is in one part of a multiset without repetitions is not in the other. -/
lemma notMem_of_nodup {M M' : Multiset N} (h : (M + M').Nodup) (hx : x ∈ M) : x ∉ M' :=
  fun hx' => Multiset.disjoint_left.mp (Multiset.nodup_add.mp h).2.2 hx hx'

/-- Of the trees below `w 0` to `w (n - 1)` one changes, and takes blocks from `L`. -/
lemma sum_sub_set {n i : Nat} {lv : Nat → Nat} {w w' : Nat → N} (hi : i < n)
    (nodup : (L + ∑ j ∈ Finset.range n, sub nil F cell (lv j) (w j)).Nodup)
    (slots : ∀ j < n, j ≠ i → w' j = w j)
    (same : ∀ c ∈ ∑ j ∈ Finset.range n, sub nil F cell (lv j) (w j),
      c ∉ L + sub nil F cell (lv i) (w i) → ∀ k < F, cell' c k = cell c k)
    (grown : L' + sub nil F cell' (lv i) (w' i) = L + sub nil F cell (lv i) (w i)) :
    L' + ∑ j ∈ Finset.range n, sub nil F cell' (lv j) (w' j) =
      L + ∑ j ∈ Finset.range n, sub nil F cell (lv j) (w j) := by
  have mem := Finset.mem_range.mpr hi
  have split := Finset.add_sum_erase _ (fun j => sub nil F cell (lv j) (w j)) mem
  have others : ∀ j ∈ Finset.range n, j ≠ i →
      sub nil F cell' (lv j) (w' j) = sub nil F cell (lv j) (w j) := by
    intro j hj hji
    have part : ∀ c ∈ sub nil F cell (lv j) (w j),
        c ∈ ∑ k ∈ (Finset.range n).erase i, sub nil F cell (lv k) (w k) := fun c hc =>
      Multiset.mem_sum.mpr ⟨j, Finset.mem_erase.mpr ⟨hji, hj⟩, hc⟩
    rw [← split] at nodup same
    rw [slots j (Finset.mem_range.mp hj) hji]
    refine sub_congr fun c hc => same c (Multiset.mem_add.mpr (.inr (part c hc))) fun hm => ?_
    cases Multiset.mem_add.mp hm with
    | inl hL => exact notMem_of_nodup nodup hL (Multiset.mem_add.mpr (.inr (part c hc)))
    | inr hT => exact notMem_of_nodup (Multiset.nodup_add.mp nodup).2.1 hT (part c hc)
  have sum : ∑ j ∈ Finset.range n, sub nil F cell' (lv j) (w' j) + sub nil F cell (lv i) (w i) =
      ∑ j ∈ Finset.range n, sub nil F cell (lv j) (w j) + sub nil F cell' (lv i) (w' i) :=
    sum_add_eq (f := fun j => sub nil F cell (lv j) (w j)) mem others
  refine add_right_cancel (b := sub nil F cell (lv i) (w i)) ?_
  calc L' + ∑ j ∈ Finset.range n, sub nil F cell' (lv j) (w' j) + sub nil F cell (lv i) (w i)
      = L' + sub nil F cell' (lv i) (w' i) + ∑ j ∈ Finset.range n, sub nil F cell (lv j) (w j) := by
        rw [add_assoc, sum]
        abel
    _ = L + sub nil F cell (lv i) (w i) + ∑ j ∈ Finset.range n, sub nil F cell (lv j) (w j) := by
        rw [grown]
    _ = L + ∑ j ∈ Finset.range n, sub nil F cell (lv j) (w j) + sub nil F cell (lv i) (w i) := by abel

/-- A tree changes in one of the blocks that its root names, and the tree there takes blocks from `L`. -/
lemma sub_set (hb : b ≠ nil) {i : Nat} (hi : i < F) (nodup : (L + sub nil F cell (l + 1) b).Nodup)
    (root : ∀ j < F, j ≠ i → cell' b j = cell b j)
    (same : ∀ c, c ≠ b → c ∉ L + sub nil F cell l (cell b i) → ∀ k < F, cell' c k = cell c k)
    (grown : L' + sub nil F cell' l (cell' b i) = L + sub nil F cell l (cell b i)) :
    L' + sub nil F cell' (l + 1) b = L + sub nil F cell (l + 1) b := by
  rw [sub_succ hb, add_left_comm] at nodup
  rw [sub_succ hb, sub_succ hb, add_left_comm, add_left_comm L]
  congr 1
  let lv (_ : Nat) : Nat := l
  refine @sum_sub_set _ _ _ _ _ _ _ _ _ _ lv _ _ hi (Multiset.nodup_add.mp nodup).2.1 root
    (fun c hc => same c ?_) grown
  rintro rfl
  exact notMem_of_nodup nodup (Multiset.mem_singleton_self c) (Multiset.mem_add.mpr (.inr hc))

/-! ## Following a path -/

/-- The block that the path `is` leads to from `b`. -/
def walk (nil : N) (cell : N → Nat → N) : List Nat → N → N
  | [], b => b
  | i :: is, b => if b = nil then nil else walk nil cell is (cell b i)

/-- The number of blocks that are missing on the path from `b`. -/
def missing (nil : N) (cell : N → Nat → N) : List Nat → N → Nat
  | [], b => if b = nil then 1 else 0
  | i :: is, b => if b = nil then is.length + 2 else missing nil cell is (cell b i)

variable {i : Nat} {is js : List Nat}

/-- A walk from no block. -/
@[simp] lemma walk_nil : walk nil cell is nil = nil := by
  cases is with
  | nil => rfl
  | cons i is => exact if_pos rfl

/-- A step of a walk. -/
lemma walk_cons (h : b ≠ nil) : walk nil cell (i :: is) b = walk nil cell is (cell b i) := if_neg h

/-- All blocks are missing. -/
@[simp] lemma missing_nil : missing nil cell is nil = is.length + 1 := by
  cases is with
  | nil => exact if_pos rfl
  | cons i is => exact if_pos rfl

/-- The blocks that are missing behind one that is there. -/
lemma missing_cons (h : b ≠ nil) : missing nil cell (i :: is) b = missing nil cell is (cell b i) := if_neg h

/-- No block is missing on the path to a block. -/
lemma missing_of_walk (h : walk nil cell is b ≠ nil) : missing nil cell is b = 0 := by
  induction is generalizing b with
  | nil => exact if_neg h
  | cons i is ih =>
    have hb : b ≠ nil := fun e => h (e ▸ walk_nil)
    rw [missing_cons hb]
    rw [walk_cons hb] at h
    exact ih h

/-- A path depends on the cells of the tree only. -/
lemma walk_congr (h : ∀ c ∈ sub nil F cell l b, ∀ j < F, cell' c j = cell c j) (len : is.length ≤ l)
    (lt : ∀ j ∈ is, j < F) : walk nil cell' is b = walk nil cell is b := by
  induction is generalizing l b with
  | nil => rfl
  | cons i is ih =>
    by_cases hb : b = nil
    · rw [hb, walk_nil, walk_nil]
    · cases l with
      | zero => exact absurd len (Nat.not_succ_le_zero _)
      | succ l =>
        have hi := lt i (List.mem_cons_self ..)
        rw [walk_cons hb, walk_cons hb, h b (self_mem hb) i hi]
        refine ih (fun c hc => h c ?_) (Nat.le_of_succ_le_succ len) fun j hj => lt j (List.mem_cons_of_mem i hj)
        exact Multiset.mem_of_le (child_le hb hi) (Multiset.mem_add.mpr (.inr hc))

/-- The missing blocks are those that starts of the path lead to. -/
lemma missing_eq :
    missing nil cell is b = is.inits.countP fun js => walk nil cell js b = nil := by
  induction is generalizing b with
  | nil =>
    rw [missing, List.inits, List.countP_singleton, walk]
    simp only [decide_eq_true_eq]
  | cons i is ih =>
    rw [List.inits_cons, List.countP_cons, List.countP_map]
    by_cases hb : b = nil
    · have all : is.inits.countP ((fun js => decide (walk nil cell js nil = nil)) ∘ (i :: ·)) = is.inits.length :=
        List.countP_eq_length.mpr fun js _ => decide_eq_true walk_nil
      rw [hb, missing_nil, all, List.length_inits, if_pos (decide_eq_true walk_nil), List.length_cons]
    · have below : ((fun js => decide (walk nil cell js b = nil)) ∘ (i :: ·)) =
          fun js => decide (walk nil cell js (cell b i) = nil) := by
        funext js
        rw [Function.comp_apply, walk_cons hb]
      rw [missing_cons hb, ih, below, walk, if_neg (by rwa [decide_eq_true_eq]), add_zero]

/-- What a path leads to is in the tree. -/
lemma walk_mem (len : is.length ≤ l) (lt : ∀ j ∈ is, j < F) (ne : walk nil cell is b ≠ nil) :
    walk nil cell is b ∈ sub nil F cell l b := by
  induction is generalizing l b with
  | nil => exact self_mem ne
  | cons i is ih =>
    have hb : b ≠ nil := fun e => ne (by rw [e, walk_nil])
    cases l with
    | zero => exact absurd len (Nat.not_succ_le_zero _)
    | succ l =>
      rw [walk_cons hb] at ne ⊢
      have below := ih (Nat.le_of_succ_le_succ len) (fun j hj => lt j (List.mem_cons_of_mem i hj)) ne
      exact Multiset.mem_of_le (child_le hb (lt i (List.mem_cons_self ..))) (Multiset.mem_add.mpr (.inr below))

/-- The trees of two children have no block in common. -/
lemma notMem_child (hb : b ≠ nil) (nodup : (sub nil F cell (l + 1) b).Nodup) {i j : Nat} (hi : i < F) (hj : j < F)
    (ji : j ≠ i) (hx : x ∈ sub nil F cell l (cell b i)) : x ∉ sub nil F cell l (cell b j) := by
  have split := Finset.add_sum_erase _ (fun j => sub nil F cell l (cell b j)) (Finset.mem_range.mpr hi)
  rw [sub_succ hb, ← split] at nodup
  intro hx'
  refine notMem_of_nodup (Multiset.nodup_add.mp nodup).2.1 hx ?_
  exact Multiset.mem_sum.mpr ⟨j, Finset.mem_erase.mpr ⟨ji, Finset.mem_range.mpr hj⟩, hx'⟩

/-- In a tree that has each block once no two paths lead to one block at the bottom. -/
lemma walk_inj (nodup : (sub nil F cell l b).Nodup) (len : is.length = l) (len' : js.length = l)
    (lt : ∀ j ∈ is, j < F) (lt' : ∀ j ∈ js, j < F) (ne : walk nil cell is b ≠ nil)
    (e : walk nil cell js b = walk nil cell is b) : js = is := by
  induction is generalizing js l b with
  | nil => exact List.length_eq_zero_iff.mp (len'.trans len.symm)
  | cons i is ih =>
    have hb : b ≠ nil := fun e => ne (by rw [e, walk_nil])
    have hi := lt i (List.mem_cons_self ..)
    have lt : ∀ j ∈ is, j < F := fun j hj => lt j (List.mem_cons_of_mem i hj)
    cases len
    cases js with
    | nil => cases len'
    | cons j js =>
      have hj := lt' j (List.mem_cons_self ..)
      have lt' : ∀ k ∈ js, k < F := fun k hk => lt' k (List.mem_cons_of_mem j hk)
      have len' := Nat.succ.inj len'
      rw [walk_cons hb] at ne
      rw [walk_cons hb, walk_cons hb] at e
      have there := walk_mem (Nat.le_refl _) lt ne
      by_cases eq : j = i
      · rw [eq] at e ⊢
        have nodup' := Multiset.nodup_of_le (child_le (l := is.length) hb hi) nodup
        rw [ih (Multiset.nodup_add.mp nodup').2.1 rfl len' lt lt' ne e]
      · refine absurd ?_ (notMem_child hb nodup hi hj eq there)
        rw [← e] at ne ⊢
        exact walk_mem (Nat.le_of_eq len') lt' ne

/-- The block at the end of a path is overwritten. In a tree that has each block once this changes no path. -/
lemma sub_put (nodup : (sub nil F cell l b).Nodup) (len : is.length = l) (lt : ∀ j ∈ is, j < F)
    (ne : walk nil cell is b ≠ nil) (same : ∀ c, c ≠ walk nil cell is b → ∀ j < F, cell' c j = cell c j) :
    sub nil F cell' l b = sub nil F cell l b ∧
      ∀ js, js.length ≤ l → (∀ j ∈ js, j < F) → walk nil cell' js b = walk nil cell js b := by
  induction is generalizing l b with
  | nil =>
    cases len
    refine ⟨rfl, fun js len _ => ?_⟩
    rw [List.length_eq_zero_iff.mp (Nat.le_zero.mp len)]
    rfl
  | cons i is ih =>
    have hb : b ≠ nil := fun e => ne (by rw [e, walk_nil])
    have hi := lt i (List.mem_cons_self ..)
    have lt : ∀ j ∈ is, j < F := fun j hj => lt j (List.mem_cons_of_mem i hj)
    cases len
    rw [walk_cons hb] at ne same
    have there := walk_mem (Nat.le_refl _) lt ne
    have below := Multiset.nodup_of_le (child_le (l := is.length) hb hi) nodup
    have root : ∀ j < F, cell' b j = cell b j := by
      refine same b fun e => notMem_of_nodup below (Multiset.mem_singleton_self b) ?_
      rwa [← e] at there
    -- the block is in no other tree below
    have others : ∀ j < F, j ≠ i → ∀ c ∈ sub nil F cell is.length (cell b j), ∀ k < F, cell' c k = cell c k := by
      intro j hj ji c hc
      refine same c fun e => notMem_child hb nodup hi hj ji there ?_
      rwa [← e]
    obtain ⟨tree, paths⟩ := ih (Multiset.nodup_add.mp below).2.1 rfl lt ne same
    constructor
    · rw [List.length_cons, sub_succ hb, sub_succ hb]
      congr 1
      refine Finset.sum_congr rfl fun j hj => ?_
      have hj := Finset.mem_range.mp hj
      rw [root j hj]
      by_cases e : j = i
      · rw [e, tree]
      · exact sub_congr (others j hj e)
    · intro js len lt
      cases js with
      | nil => rfl
      | cons j js =>
        have hj := lt j (List.mem_cons_self ..)
        have len := Nat.le_of_succ_le_succ len
        have lt : ∀ k ∈ js, k < F := fun k hk => lt k (List.mem_cons_of_mem j hk)
        rw [walk_cons hb, walk_cons hb, root j hj]
        by_cases e : j = i
        · rw [e]
          exact paths js len lt
        · exact walk_congr (others j hj e) len lt

/-- The path `is` from `b` has been filled with blocks, of which there were `k`, and starts with `b'` now. It
leads to `r`, and `k'` blocks are left, or there were too few blocks, and it leads nowhere. A block that is new at
its end is blank. Other paths lead where they did, to blocks that have kept their cells. -/
structure Fill (nil : N) (F : Nat) (cell cell' : N → Nat → N) (k k' : Nat) (is : List Nat) (b b' : N)
    (r : Option N) : Prop where
  found : walk nil cell is b ≠ nil → r = some (walk nil cell is b) ∧ walk nil cell' is b' = walk nil cell is b
  taken : walk nil cell is b = nil → missing nil cell is b ≤ k → ∃ x, r = some x ∧ walk nil cell' is b' = x
  failed : walk nil cell is b = nil → k < missing nil cell is b → r = none ∧ walk nil cell' is b' = nil
  others : ∀ js, js.length = is.length → (∀ j ∈ js, j < F) → js ≠ is →
    walk nil cell' js b' = walk nil cell js b
  paid : ∀ x, r = some x → k' + missing nil cell is b = k
  nodes : ∀ x, r = some x → ∀ js, js.length ≤ is.length → (∀ j ∈ js, j < F) →
    (walk nil cell' js b' = nil ↔ walk nil cell js b = nil ∧ ¬ js <+: is)
  blank : ∀ x, r = some x → ∀ j < F, cell' x j = if walk nil cell is b = nil then nil else cell x j
  leaves : ∀ js, js.length = is.length → (∀ j ∈ js, j < F) → js ≠ is → walk nil cell js b ≠ nil →
    ∀ j < F, cell' (walk nil cell js b) j = cell (walk nil cell js b) j

namespace Fill

variable {k k' : Nat} {b' : N} {r : Option N}

/-- The path ends. -/
lemma leaf (h : b ≠ nil) : Fill nil F cell cell k k [] b b (some b) where
  found _ := ⟨rfl, rfl⟩
  taken e := absurd e h
  failed e := absurd e h
  others _ len _ ne := absurd (List.length_eq_zero_iff.mp len) ne
  paid _ _ := congrArg (k + ·) (if_neg h)
  nodes _ _ js len _ := by
    have nil : js = [] := List.length_eq_zero_iff.mp (Nat.le_zero.mp len)
    rw [nil]
    exact iff_of_false h fun e => h e.1
  blank x e j _ := by
    cases e
    exact (if_neg h).symm
  leaves _ len _ ne := absurd (List.length_eq_zero_iff.mp len) ne

/-- No block is there. -/
lemma none : Fill nil F cell cell 0 k' is nil nil none where
  found h := absurd walk_nil h
  taken _ le := by
    rw [missing_nil] at le
    exact absurd le (Nat.not_succ_le_zero _)
  failed _ _ := ⟨rfl, walk_nil⟩
  others _ _ _ _ := rfl
  paid _ e := absurd e nofun
  nodes _ e := absurd e nofun
  blank _ e := absurd e nofun
  leaves _ _ _ _ ne := absurd walk_nil ne

/-- The path goes through `b`, whose other trees do not change. -/
lemma down (hb : b ≠ nil) (f : Fill nil F cell cell' k k' is (cell b i) (cell' b i) r)
    (root : ∀ j < F, j ≠ i → cell' b j = cell b j)
    (same : ∀ j < F, j ≠ i → ∀ c ∈ sub nil F cell is.length (cell b j), ∀ n < F, cell' c n = cell c n) :
    Fill nil F cell cell' k k' (i :: is) b b r := by
  refine ⟨?_, ?_, ?_, fun js len lt ne => ?_, ?_, fun x e js len lt => ?_, ?_, fun js len lt ne => ?_⟩
  · rw [walk_cons hb, walk_cons hb]
    exact f.found
  · rw [walk_cons hb, walk_cons hb, missing_cons hb]
    exact f.taken
  · rw [walk_cons hb, walk_cons hb, missing_cons hb]
    exact f.failed
  · cases js with
    | nil => cases len
    | cons j js =>
      have hj := lt j (List.mem_cons_self ..)
      have len := Nat.succ.inj len
      have lt : ∀ n ∈ js, n < F := fun n hn => lt n (List.mem_cons_of_mem j hn)
      rw [walk_cons hb, walk_cons hb]
      by_cases e : j = i
      · rw [e]
        exact f.others js len lt fun e' => ne (by rw [e, e'])
      · rw [root j hj e]
        exact walk_congr (same j hj e) (Nat.le_of_eq len) lt
  · rw [missing_cons hb]
    exact f.paid
  · cases js with
    | nil => exact iff_of_false hb fun e => hb e.1
    | cons j js =>
      have hj := lt j (List.mem_cons_self ..)
      have len := Nat.le_of_succ_le_succ len
      have lt : ∀ n ∈ js, n < F := fun n hn => lt n (List.mem_cons_of_mem j hn)
      rw [walk_cons hb, walk_cons hb, List.cons_prefix_cons]
      by_cases eq : j = i
      · rw [eq, and_iff_right rfl]
        exact f.nodes x e js len lt
      · rw [root j hj eq, walk_congr (same j hj eq) len lt]
        exact (and_iff_left fun e => eq e.1).symm
  · rw [walk_cons hb]
    exact f.blank
  · cases js with
    | nil => cases len
    | cons j js =>
      have hj := lt j (List.mem_cons_self ..)
      have len := Nat.succ.inj len
      have lt : ∀ n ∈ js, n < F := fun n hn => lt n (List.mem_cons_of_mem j hn)
      rw [walk_cons hb]
      by_cases e : j = i
      · rw [e]
        exact f.leaves js len lt fun e' => ne (by rw [e, e'])
      · exact fun there => same j hj e _ (walk_mem (Nat.le_of_eq len) lt there)

/-- A new block is put at the start of the path. -/
lemma new {cell₁ : N → Nat → N} {c : N} (hc : c ≠ nil) (fresh : ∀ j < F, cell₁ c j = nil) (lt : ∀ j ∈ is, j < F)
    (f : Fill nil F cell₁ cell' k k' is c c r) : Fill nil F cell cell' (k + 1) k' is nil c r := by
  refine ⟨fun h => absurd walk_nil h, fun _ le => ?_, fun _ lt' => ?_, fun js len lt' ne => ?_, fun x e => ?_,
    fun x e js len lt' => ?_, fun x e j hj => ?_, fun _ _ _ _ there => absurd walk_nil there⟩
  · rw [missing_nil] at le
    cases is with
    | nil => exact ⟨c, (f.found hc).1, (f.found hc).2⟩
    | cons i is =>
      have hi := fresh i (lt i (List.mem_cons_self ..))
      refine f.taken ?_ ?_
      · rw [walk_cons hc, hi, walk_nil]
      · rw [missing_cons hc, hi, missing_nil]
        exact Nat.le_of_succ_le_succ le
  · rw [missing_nil] at lt'
    cases is with
    | nil => exact absurd lt' (Nat.not_lt.mpr (Nat.succ_le_succ (Nat.zero_le k)))
    | cons i is =>
      have hi := fresh i (lt i (List.mem_cons_self ..))
      refine f.failed ?_ ?_
      · rw [walk_cons hc, hi, walk_nil]
      · rw [missing_cons hc, hi, missing_nil]
        exact Nat.lt_of_succ_lt_succ lt'
  · rw [f.others js len lt' ne, walk_nil]
    cases js with
    | nil => exact absurd (List.length_eq_zero_iff.mp len.symm).symm ne
    | cons j js => rw [walk_cons hc, fresh j (lt' j (List.mem_cons_self ..)), walk_nil]
  · have below : missing nil cell₁ is c = is.length := by
      cases is with
      | nil => exact if_neg hc
      | cons i is => rw [missing_cons hc, fresh i (lt i (List.mem_cons_self ..)), missing_nil, List.length_cons]
    rw [missing_nil, ← add_assoc, ← below, f.paid x e]
  · rw [f.nodes x e js len lt', walk_nil, and_iff_right rfl, and_iff_right_iff_imp]
    intro off
    cases js with
    | nil => exact absurd List.nil_prefix off
    | cons j js => rw [walk_cons hc, fresh j (lt' j (List.mem_cons_self ..)), walk_nil]
  · rw [f.blank x e j hj, if_pos walk_nil]
    cases is with
    | nil =>
      obtain ⟨eq, -⟩ := f.found hc
      cases e.symm.trans eq
      rw [walk, if_neg hc, fresh j hj]
    | cons i is => rw [walk_cons hc, fresh i (lt i (List.mem_cons_self ..)), walk_nil, if_pos rfl]

end Fill

end BlockTree
