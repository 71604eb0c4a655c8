import Mathlib.Data.Fintype.Pigeonhole
import Uzi.Sched.Exit

/-!
# Forks

`ptab_alloc` finds a number that no process has, within one round for each entry of the table and one
more, and `dofork` leaves the child running and the image of the parent in the swap space.
-/

namespace Uzi
open Exec ParentTree

variable {s s' : Kernel} {p q : Fin PTABSIZE} {E : Panic → Prop}

/-! ## Process numbers -/

/-- The range of the pids. -/
lemma nextPid_range {n : Nat} : 1 ≤ nextPid n ∧ nextPid n ≤ 32001 := by
  unfold nextPid
  split <;> omega

/-- The numbers come round after 32001 steps. -/
lemma nextPid_iterate {n i : Nat} (h : 1 ≤ n ∧ n ≤ 32001) : nextPid^[i] n = (n - 1 + i) % 32001 + 1 := by
  induction i with
  | zero =>
    rw [Function.iterate_zero, id, Nat.add_zero, Nat.mod_eq_of_lt (by omega)]
    omega
  | succ i ih =>
    rw [Function.iterate_succ_apply', ih]
    unfold nextPid
    split <;> omega

/-- A fresh pid is not taken. -/
lemma freshPid_some {rounds n pid : Nat} (h : freshPid s rounds n = some pid) :
    ¬ s.pidTaken pid ∧ 1 ≤ pid ∧ pid ≤ 32001 := by
  induction rounds generalizing n with
  | zero => cases h
  | succ rounds ih =>
    rw [freshPid] at h
    split at h
    · exact ih h
    · next free =>
      cases h
      exact ⟨free, nextPid_range⟩

/-- All pids that have been tried are taken. -/
lemma freshPid_none {rounds n : Nat} (h : freshPid s rounds n = none) :
    ∀ i < rounds, s.pidTaken (nextPid^[i] (nextPid n)) := by
  induction rounds generalizing n with
  | zero => exact nofun
  | succ rounds ih =>
    rw [freshPid] at h
    split at h
    · next taken =>
      intro i hi
      cases i with
      | zero => exact taken
      | succ i => exact ih h i (by omega)
    · cases h

/-- There are more rounds than processes, so that one of them finds a number. -/
lemma exists_freshPid {n : Nat} : ∃ pid, freshPid s (PTABSIZE + 1) n = some pid := by
  cases h : freshPid s (PTABSIZE + 1) n with
  | some pid => exact ⟨pid, rfl⟩
  | none =>
    have taken : ∀ i : Fin (PTABSIZE + 1), s.pidTaken (nextPid^[i.val] (nextPid n)) := fun i =>
      freshPid_none h i i.isLt
    choose pp used using taken
    obtain ⟨i, j, ne, same⟩ := Fintype.exists_ne_map_eq_of_card_lt pp (by simp)
    have e : nextPid^[i.val] (nextPid n) = nextPid^[j.val] (nextPid n) := by
      rw [← (used i).2, ← (used j).2, same]
    rw [nextPid_iterate nextPid_range, nextPid_iterate nextPid_range] at e
    have hi := i.isLt
    have hj := j.isLt
    have size : PTABSIZE = 20 := rfl
    exact absurd (Fin.ext (by omega)) ne

/-- The slot `p` is free, and no process has the number `pid`. -/
structure Kernel.Free (s : Kernel) (p : Fin PTABSIZE) (pid : Nat) : Prop where
  empty : (s.ptab p).pStatus = .empty
  fresh : ¬ s.pidTaken pid
  low : 1 ≤ pid
  high : pid ≤ 32001
  lowest : ∀ q, q < p → (s.ptab q).pStatus ≠ .empty

/-- The kernel after `ptab_alloc` has given out `p`. -/
def Kernel.forking (s : Kernel) (p : Fin PTABSIZE) (pid : Nat) : Kernel :=
  ({ s with nextpid := pid } : Kernel).setProc p { PTab.zero with pPid := pid, pStatus := .forking }

/-- The first element that a search over all of `Fin n` finds. -/
lemma find?_finRange {n : Nat} {f : Fin n → Bool} {i : Fin n} :
    (List.finRange n).find? f = some i ↔ f i = true ∧ ∀ j, j < i → f j = false := by
  rw [List.find?_eq_some_iff_getElem]
  refine and_congr_right fun _ => ⟨?_, fun before => ?_⟩
  · rintro ⟨k, hk, rfl, before⟩ j lt
    rw [List.getElem_finRange] at lt
    have no := before j lt
    rw [List.getElem_finRange] at no
    exact (Bool.not_eq_true' _).mp no
  · refine ⟨i, by rw [List.length_finRange]; exact i.isLt, List.getElem_finRange .., fun j lt => ?_⟩
    rw [List.getElem_finRange]
    exact (Bool.not_eq_true' _).mpr (before _ lt)

/-- `ptab_alloc` finds a free entry with a fresh pid. -/
lemma wp_ptabAlloc :
    wp ptabAlloc
      (fun r s' => r.elim (s' = s) fun p => ∃ pid, s.Free p pid ∧ s' = s.forking p pid) E s := by
  unfold ptabAlloc
  rw [wp_bind, wp_get]
  cases slot : (List.finRange PTABSIZE).find? fun p => (s.ptab p).pStatus = .empty with
  | none => exact rfl
  | some p =>
    obtain ⟨pid, found⟩ := exists_freshPid (s := s) (n := s.nextpid)
    obtain ⟨fresh, low, high⟩ := freshPid_some found
    obtain ⟨empty, before⟩ := find?_finRange.mp slot
    rw [found]
    exact ⟨pid, ⟨of_decide_eq_true empty, fresh, low, high, fun q lt => of_decide_eq_false (before q lt)⟩, rfl⟩

/-! ## The child -/

/-- The entry of a child. -/
structure PTab.Child (x : PTab) (parent p : Fin PTABSIZE) (pid : Nat) : Prop where
  status : x.pStatus = .running
  pid : x.pPid = pid
  parent : x.pPptr = some parent
  swap : x.pSwap = swapBlk p

/-- Each process has its own place in the swap area. -/
lemma swapBlk_inj (h : swapBlk p = swapBlk q) : p = q := by
  have e := congrArg BitVec.toNat h
  unfold swapBlk at e
  rw [BitVec.toNat_ofNat, BitVec.toNat_ofNat] at e
  have hp := p.isLt
  have hq := q.isLt
  have size : PTABSIZE = 20 := rfl
  exact Fin.ext (by omega)

/-- `s'` comes from `s` by a fork of the current process into the slot `p`. -/
structure Kernel.Forked (s s' : Kernel) (p : Fin PTABSIZE) (pid : Nat) : Prop where
  child : (s'.ptab p).Child s.udata.uPtab p pid
  parent : s'.ptab s.udata.uPtab = { s.ptab s.udata.uPtab with pStatus := .ready }
  others : ∀ q, q ≠ p → q ≠ s.udata.uPtab → s'.ptab q = s.ptab q
  uPtab : s'.udata.uPtab = p
  nextpid : s'.nextpid = pid
  layout : s'.layout = s.layout
  initproc : s'.initproc = s.initproc
  swap : s'.swap = Function.update s.swap (swapBlk s.udata.uPtab) s.udata

namespace Kernel.Forked

variable {pid : Nat}

/-- Apart from the child, a fork changes the status of the parent only. -/
lemma alike (f : s.Forked s' p pid) (a : s.Active) (ne : q ≠ p) : (s.ptab q).Alike (s'.ptab q) := by
  by_cases parent : q = s.udata.uPtab
  · rw [parent, f.parent]
    exact .of_alive a.alive ⟨nofun, nofun⟩ rfl rfl rfl
  · rw [f.others q ne parent]
    exact .refl

/-- The table after a fork. -/
lemma table (f : s.Forked s' p pid) (a : s.Active) (free : s.Free p pid) : s'.Table := by
  have t := a.table
  have other : ∀ q, (s.ptab q).pStatus ≠ .empty → q ≠ p := fun q hq e => hq (e ▸ free.empty)
  have below : ∀ q, (s.ptab q).pStatus ≠ .empty → Below (fun n => (s.ptab n).pPptr) s.initproc q →
      Below (fun n => (s'.ptab n).pPptr) s'.initproc q := by
    intro q hq h
    rw [f.initproc]
    have closed : ∀ n q, (s.ptab n).pStatus ≠ .empty → (s.ptab n).pPptr = some q →
        (s.ptab q).pStatus ≠ .empty := by
      intro n q hn parent
      obtain ⟨q', parent', alive, -⟩ := t.parent n hn
      cases parent.symm.trans parent'
      exact alive.1
    exact h.congr closed (fun n hn => (f.alike a (other n hn)).parent) hq
  have own : Below (fun n => (s.ptab n).pPptr) s.initproc s.udata.uPtab := by
    obtain ⟨q, parent, -, hq⟩ := t.parent _ a.alive.1
    exact .child parent hq
  have live : ∀ q, q ≠ p → (s'.ptab q).pStatus ≠ .empty → (s.ptab q).pStatus ≠ .empty :=
    fun q ne hq e => hq ((f.alike a ne).empty.mpr e)
  refine ⟨?_, ?_, f.nextpid ▸ free.high, ?_, ?_, ?_, ?_⟩
  · intro q hq
    by_cases ne : q = p
    · rw [ne, f.child.pid]
      exact ⟨free.low, free.high⟩
    · rw [(f.alike a ne).pid]
      exact t.pid_range q (live q ne hq)
  · intro q r hq hr e
    -- the number of the child is the number of no other process
    have apart : ∀ n, n ≠ p → (s'.ptab n).pStatus ≠ .empty → (s'.ptab n).pPid ≠ (s'.ptab p).pPid := by
      intro n ne hn e
      rw [(f.alike a ne).pid, f.child.pid] at e
      exact free.fresh ⟨n, live n ne hn, e⟩
    by_cases hqp : q = p
    · by_cases hrp : r = p
      · exact hqp.trans hrp.symm
      · exact absurd (hqp ▸ e.symm) (apart r hrp hr)
    · by_cases hrp : r = p
      · exact absurd (hrp ▸ e) (apart q hqp hq)
      · rw [(f.alike a hqp).pid, (f.alike a hrp).pid] at e
        exact t.pid_inj q r (live q hqp hq) (live r hrp hr) e
  · rw [f.initproc]
    exact (f.alike a (other _ t.init.1)).alive.mpr t.init
  · intro q hq
    by_cases ne : q = p
    · refine ⟨s.udata.uPtab, ne ▸ f.child.parent, ?_, below _ a.alive.1 own⟩
      rw [f.parent]
      exact ⟨nofun, nofun⟩
    · obtain ⟨r, parent, alive, hr⟩ := t.parent q (live q ne hq)
      exact ⟨r, (f.alike a ne).parent.trans parent, (f.alike a (other r alive.1)).alive.mpr alive,
        below r alive.1 hr⟩
  · intro q hq
    by_cases ne : q = p
    · rw [ne, f.child.swap]
    · rw [(f.alike a ne).swap]
      exact t.swap q (live q ne hq)
  · intro q alive ne
    rw [f.uPtab] at ne
    rw [f.swap]
    have alive := (f.alike a ne).alive.mp alive
    by_cases parent : q = s.udata.uPtab
    · rw [parent, Function.update_self]
    · rw [Function.update_of_ne fun e => parent (swapBlk_inj e)]
      exact t.image q alive parent

/-- The child runs after a fork. -/
lemma active (f : s.Forked s' p pid) (a : s.Active) (free : s.Free p pid) : s'.Active ∧ s'.Running := by
  have running : s'.Running := by
    show (s'.ptab s'.udata.uPtab).pStatus = .running
    rw [f.uPtab]
    exact f.child.status
  refine ⟨⟨f.table a free, ?_, running ▸ ⟨nofun, nofun⟩, ?_⟩, running⟩
  · intro q dead e ne
    have hqp : q ≠ p := by
      intro h
      rw [h, f.child.status] at dead
      exact absurd dead nofun
    have hqu : q ≠ s.udata.uPtab := by
      intro h
      rw [h, f.parent] at dead
      exact absurd dead nofun
    rw [f.others q hqp hqu] at dead ⊢
    rw [f.layout]
    exact a.apart q dead e ne
  · intro q hq
    rw [f.uPtab]
    by_contra hqp
    by_cases hqu : q = s.udata.uPtab
    · rw [hqu, f.parent] at hq
      exact absurd hq nofun
    · rw [f.others q hqp hqu] at hq
      exact hqu (a.only q hq)

/-- What follows in `newproc` does not matter. -/
lemma calmly {s'' : Kernel} (f : s.Forked s' p pid) (h : Calmly s' s'') (a : s.Active)
    (free : s.Free p pid) : s''.Active ∧ s''.Running ∧ s''.udata.uPtab = p := by
  obtain ⟨a', running⟩ := f.active a free
  exact ⟨(a'.calmly h).1, (a'.calmly h).2.mpr running, (a'.uPtab h).trans f.uPtab⟩

end Kernel.Forked

/-! ## `dofork` -/

/-- The kernel after `swrite`. -/
def Kernel.saved (s : Kernel) : Kernel :=
  { s with swap := Function.update s.swap (s.ptab s.udata.uPtab).pSwap s.udata }

/-- `swrite` saves the process. -/
lemma wp_swrite {Q : PUnit → Kernel → Prop} : wp swrite Q E s ↔ Q ⟨⟩ s.saved := Iff.rfl

/-- `dofork` has made the parent ready and saved its image, and `p` is being forked. -/
structure Kernel.Saved (s s' : Kernel) (p : Fin PTABSIZE) (pid : Nat) : Prop where
  child : (s'.ptab p).pPid = pid
  parent : s'.ptab s.udata.uPtab = { s.ptab s.udata.uPtab with pStatus := .ready }
  others : ∀ q, q ≠ p → q ≠ s.udata.uPtab → s'.ptab q = s.ptab q
  uPtab : s'.udata.uPtab = s.udata.uPtab
  nextpid : s'.nextpid = pid
  layout : s'.layout = s.layout
  initproc : s'.initproc = s.initproc
  swap : s'.swap = Function.update s.swap (swapBlk s.udata.uPtab) s.udata

/-- The parent is saved, and the child is made. -/
lemma Kernel.Saved.forking {pid : Nat} (swap : (s.ptab s.udata.uPtab).pSwap = swapBlk s.udata.uPtab)
    (ne : s.udata.uPtab ≠ p) :
    s.Saved ((s.forking p pid).setProc s.udata.uPtab
      { (s.forking p pid).ptab s.udata.uPtab with pStatus := .ready }).saved p pid := by
  have own : (s.forking p pid).ptab s.udata.uPtab = s.ptab s.udata.uPtab := Kernel.ptab_setProc_of_ne ne
  rw [own]
  refine ⟨?_, Kernel.ptab_setProc, fun q hp hu => ?_, rfl, rfl, rfl, rfl, ?_⟩
  · show (Kernel.ptab (Kernel.setProc _ _ _) p).pPid = pid
    rw [Kernel.ptab_setProc_of_ne ne.symm]
    exact congrArg PTab.pPid Kernel.ptab_setProc
  · show Kernel.ptab (Kernel.setProc _ _ _) q = s.ptab q
    rw [Kernel.ptab_setProc_of_ne hu]
    exact Kernel.ptab_setProc_of_ne hp
  · rw [← swap]
    show Function.update s.swap (Kernel.ptab (Kernel.setProc _ _ _) s.udata.uPtab).pSwap s.udata = _
    rw [Kernel.ptab_setProc]

/-- The child is entered into the table. -/
lemma Kernel.Saved.enter {pid : Nat} {x : PTab} {u : UData} (h : s.Saved s' p pid)
    (child : x.Child s.udata.uPtab p (s'.ptab p).pPid) (uPtab : u.uPtab = p) (ne : s.udata.uPtab ≠ p) :
    s.Forked ((s'.setProc p x).withUdata u) p pid where
  child := by
    show (Kernel.ptab (Kernel.setProc _ _ _) p).Child s.udata.uPtab p pid
    rw [Kernel.ptab_setProc]
    exact h.child ▸ child
  parent := (Kernel.ptab_setProc_of_ne ne).trans h.parent
  others q hp hu := (Kernel.ptab_setProc_of_ne hp).trans (h.others q hp hu)
  uPtab := uPtab
  nextpid := h.nextpid
  layout := h.layout
  initproc := h.initproc
  swap := h.swap

/-- The relation also allows what a child does with its own data in `newproc`. -/
class Forking (R : Kernel → Kernel → Prop) : Prop extends Filing R where
  time (s : Kernel) (t : Time) : R s (s.withUdata { s.udata with uTime := t })
  reset (s : Kernel) : R s (s.withUdata { s.udata with uCursig := 0, uError := .ok })

instance : Forking Calmly where
  time _ _ := .withUdata rfl
  reset _ := .withUdata rfl

/-- The data of a child. -/
def UData.child (u : UData) (p : Fin PTABSIZE) : UData :=
  { u with uPtab := p, uUtime := ⟨0, 0⟩, uStime := ⟨0, 0⟩, uCutime := ⟨0, 0⟩, uCstime := ⟨0, 0⟩ }

variable [Stopping E] {R : Kernel → Kernel → Prop} [Forking R]

/-- The rest of `newproc`, when the current process is the child. -/
lemma within_newproc {cwd : Inoptr} :
    Within R E (do
      modifyUdata fun u => { u with uTime := s.tod }
      iRef cwd
      modifyUdata fun u => { u with uCursig := 0, uError := .ok }
      each (List.finRange UFTSIZE) fun j => do oftRef ((← get).udata.uFiles j)) := by
  have oftRefs : ∀ js : List (Fin UFTSIZE),
      Within R E (each js fun j => do oftRef ((← get).udata.uFiles j)) :=
    .each fun j => .bind .get fun _ => Describing.oftRef
  refine .bind ?_ fun _ => Quiet.iRef.bind fun _ => .bind ?_ fun _ => oftRefs _
  · exact .modify fun s => Forking.time s _
  · exact .modify Forking.reset

/-- There was no slot, or the child runs: `s₁` is the kernel when it has become the current process. -/
lemma wp_dofork_forked (swap : (s.ptab s.udata.uPtab).pSwap = swapBlk s.udata.uPtab)
    (used : (s.ptab s.udata.uPtab).pStatus ≠ .empty) :
    wp dofork
      (fun _ s' => R s s' ∨ ∃ p pid s₁ s₂, s.Free p pid ∧ s.Forked s₁ p pid ∧ s₁.udata = s.udata.child p ∧
        R s₁ s₂ ∧ s' = ({ s₂ with runticks := 0 } : Kernel).setProc p { s₂.ptab p with pStatus := .running }) E s := by
  unfold dofork
  rw [wp_bind]
  refine wp_post wp_ptabAlloc fun r s₁ h => ?_
  cases r with
  | none =>
    cases h
    rw [wp_bind]
    have error : Within R E (setError .eagain) := Quiet.setError
    exact wp_post (error s) fun _ s₂ h => .inl h
  | some p =>
    obtain ⟨pid, free, rfl⟩ := h
    have ne : s.udata.uPtab ≠ p := fun e => used (e ▸ free.empty)
    dsimp only
    rw [wp_bind, wp_get, wp_bind, wp_modifyPtab, wp_bind, wp_swrite, wp_bind]
    generalize hs : ((s.forking p pid).setProc _ _).saved = s₁
    have saved : s.Saved s₁ p pid := hs ▸ .forking swap ne
    have udata : s₁.udata = s.udata := hs ▸ rfl
    unfold newproc
    rw [wp_bind, wp_get, wp_bind, wp_modifyPtab, wp_bind, wp_modifyUdata]
    generalize hs₂ : (s₁.setProc p _).withUdata _ = s₂
    have forked : s.Forked s₂ p pid := hs₂ ▸ saved.enter ⟨rfl, rfl, congrArg some saved.uPtab, rfl⟩ rfl ne
    have child : s₂.udata = s.udata.child p := by
      rw [← hs₂, ← udata]
      rfl
    refine wp_post (within_newproc (R := R) s₂) fun _ s₃ h => ?_
    rw [wp_bind, wp_modify, wp_bind, wp_modifyPtab]
    exact .inr ⟨p, pid, s₂, s₃, free, forked, child, h, rfl⟩

omit [Forking R] in
/-- `dofork` keeps the table. -/
lemma wp_dofork (a : s.Active) (running : s.Running) :
    wp dofork (fun _ s' => s'.Active ∧ s'.Running) E s := by
  refine wp_post (wp_dofork_forked (R := Calmly) (a.table.swap _ a.alive.1) a.alive.1) fun _ s' outcome => ?_
  cases outcome with
  | inl calmly => exact ⟨(a.calmly calmly).1, (a.calmly calmly).2.mpr running⟩
  | inr forked =>
    obtain ⟨p, pid, s₂, s₃, free, forked, -, calmly, rfl⟩ := forked
    obtain ⟨a₃, running₃, rfl⟩ := forked.calmly calmly a free
    have tick : Calmly s₃ { s₃ with runticks := 0 } := .of_ptab rfl rfl rfl rfl rfl rfl
    generalize hs₄ : ({ s₃ with runticks := 0 } : Kernel) = s₄ at tick
    have same : s₃.ptab = s₄.ptab := hs₄ ▸ rfl
    have again : Calmly s₄ (s₄.setProc s₃.udata.uPtab
        { s₄.ptab s₃.udata.uPtab with pStatus := .running }) := by
      have own : s₄.ptab s₃.udata.uPtab = s₃.ptab s₃.udata.uPtab := hs₄ ▸ rfl
      rw [own]
      refine Calmly.setProc ?_ (iff_of_true rfl (own.symm ▸ running₃))
      rw [own]
      exact .of_alive a₃.alive ⟨nofun, nofun⟩ rfl rfl rfl
    obtain ⟨a₄, running₄⟩ := a₃.calmly (trans_of Calmly tick again)
    rw [same]
    exact ⟨a₄, running₄.mpr running₃⟩

end Uzi
