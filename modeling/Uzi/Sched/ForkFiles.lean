import Uzi.Fs.FileRuns
import Uzi.Sched.Signals
import Uzi.Sched.TableRuns

/-!
# The files of all processes

A fork makes a second reference to everything that the parent has open, and an exit closes what its process
has open. `newproc` counts a reference for every descriptor, also for those that are closed, and `init2` calls
it while the descriptors of the first process are still zero. Over a whole run, `Kernel.Shares` says that every
`o_refs` is the number of descriptors of all live processes, together with the references `lost` that no
descriptor has.
-/

namespace Uzi
open Exec RefCount

variable {s s' : Kernel} {p q : Fin PTABSIZE} {i : Fin OFTSIZE} {E : Panic → Prop}

/-! ## The references of a child -/

/-- The kernel after `++of_tab[x].o_refs`. -/
def Kernel.ref (s : Kernel) (x : Byte) : Kernel :=
  if x.toNat < OFTSIZE then
    s.setOft (Fin.ofNat OFTSIZE x.toNat)
      { s.ofTab (Fin.ofNat OFTSIZE x.toNat) with oRefs := (s.ofTab (Fin.ofNat OFTSIZE x.toNat)).oRefs + 1 }
  else { s with ofBss := Function.update s.ofBss x.toNat (s.ofBss x.toNat + 1) }

/-- `oft_ref` adds a reference, and stops nowhere. -/
lemma wp_oftRef {x : Byte} {Q : PUnit → Kernel → Prop} : wp (oftRef x) Q E s ↔ Q ⟨⟩ (s.ref x) := by
  unfold oftRef Kernel.ref
  rw [wp_ite, wp_modifyOft, wp_modify]
  split
  · rfl
  · rfl

/-- A reference leaves the data of the process as they are. -/
lemma Kernel.ref_udata {x : Byte} : (s.ref x).udata = s.udata := by
  unfold Kernel.ref
  split
  · rfl
  · rfl

/-- `s'` comes from `s` by references to these entries of `of_tab`, or of what lies behind it. -/
structure Kernel.Referred (s : Kernel) (xs : List Byte) (s' : Kernel) : Prop where
  tab : ∀ i, s'.ofTab i = { s.ofTab i with
    oRefs := (s.ofTab i).oRefs + BitVec.ofNat 8 (xs.countP fun x => x = oftByte i) }
  bss : ∀ n, s'.ofBss n = s.ofBss n + BitVec.ofNat 8 (xs.countP fun x => OFTSIZE ≤ x.toNat ∧ x.toNat = n)
  rest : s' = { s with ofTab := s'.ofTab, ofBss := s'.ofBss }

namespace Kernel.Referred

/-- A process without descriptors refers to nothing. -/
lemma nil : s.Referred [] s := by
  refine ⟨fun i => ?_, fun n => ?_, rfl⟩
  · rw [List.countP_nil, BitVec.add_zero]
  · rw [List.countP_nil, BitVec.add_zero]

/-- Counts in a `char` are added one by one. -/
lemma add_succ {b : Byte} {n : Nat} : b + 1 + BitVec.ofNat 8 n = b + BitVec.ofNat 8 (n + 1) := by
  rw [BitVec.ofNat_add, BitVec.add_assoc, BitVec.add_comm 1]
  rfl

/-- The first descriptor, and then the others. -/
lemma cons {x : Byte} {xs : List Byte} (h : (s.ref x).Referred xs s') : s.Referred (x :: xs) s' := by
  obtain ⟨tab, bss, rest⟩ := h
  by_cases inside : x.toNat < OFTSIZE
  · have entry : oftByte (Fin.ofNat OFTSIZE x.toNat) = x := oftByte_ofIndex inside
    simp only [Kernel.ref, if_pos inside] at tab bss rest
    refine ⟨fun i => ?_, fun n => ?_, rest⟩
    · rw [tab, List.countP_cons]
      by_cases same : i = Fin.ofNat OFTSIZE x.toNat
      · rw [same, Kernel.ofTab_setOft, if_pos (decide_eq_true entry.symm), add_succ]
      · rw [if_neg, Nat.add_zero]
        · show Oft.mk .. = _
          rw [show (s.setOft _ _).ofTab i = s.ofTab i from Function.update_of_ne same ..]
        · rw [decide_eq_true_iff]
          exact fun e => same (oftByte_injective (e.symm.trans entry.symm))
    · rw [bss, List.countP_cons, if_neg, Nat.add_zero]
      · rfl
      · rw [decide_eq_true_iff]
        exact fun e => absurd inside (Nat.not_lt.mpr e.1)
  · simp only [Kernel.ref, if_neg inside] at tab bss rest
    refine ⟨fun i => ?_, fun n => ?_, rest⟩
    · rw [tab, List.countP_cons, if_neg, Nat.add_zero]
      rw [decide_eq_true_iff]
      rintro rfl
      have lt : i.val < 15 := i.isLt
      refine inside ?_
      simp only [oftByte, BitVec.toNat_ofNat]
      show _ < 15
      omega
    · rw [bss, List.countP_cons]
      by_cases same : n = x.toNat
      · rw [same, Function.update_self, if_pos (decide_eq_true ⟨Nat.not_lt.mp inside, rfl⟩), add_succ]
      · rw [Function.update_of_ne same, if_neg, Nat.add_zero]
        rw [decide_eq_true_iff]
        exact fun e => same e.2.symm

end Kernel.Referred

/-- The loop at the end of `newproc`. -/
lemma wp_oftRefs {js : List (Fin UFTSIZE)} :
    wp (each js fun j => do oftRef ((← get).udata.uFiles j))
      (fun _ s' => s.Referred (js.map s.udata.uFiles) s') E s := by
  induction js generalizing s with
  | nil => exact .nil
  | cons j js ih =>
    rw [each, wp_bind, wp_bind, wp_get, wp_oftRef]
    refine wp_post ih fun _ s' h => .cons ?_
    rwa [Kernel.ref_udata] at h

/-- `newproc` has counted the files of the current process exactly: every entry has got one reference for each
of its descriptors, nothing outside the table is touched, and there is one more reference to the directory. -/
structure Kernel.CountsFiles (s s' : Kernel) : Prop where
  refs : ∀ i, (s'.ofTab i).oRefs.toNat = (s.ofTab i).oRefs.toNat + refs s.udata.uFiles (oftByte i)
  outside : s'.ofBss = s.ofBss
  cwd : (s'.iTab s.udata.uCwd).cRefs.toNat = (s.iTab s.udata.uCwd).cRefs.toNat + 1

/-- Every descriptor is open, and there is room in the counts for the references of a child. -/
structure Kernel.AllOpen (s : Kernel) : Prop where
  opened : ∀ j, (s.udata.uFiles j).toNat < OFTSIZE
  room : ∀ i, (s.ofTab i).oRefs.toNat + refs s.udata.uFiles (oftByte i) < 256
  cwd : (s.iTab s.udata.uCwd).cRefs.toNat < 255

/-- `newproc` refers to every descriptor, and adds a reference to the directory. -/
lemma wp_newproc :
    wp (newproc p) (fun _ s' => ∃ s₁ : Kernel, s₁.ofTab = s.ofTab ∧ s₁.ofBss = s.ofBss ∧
      s₁.udata.uFiles = s.udata.uFiles ∧ s₁.udata.uPtab = p ∧
      (s₁.iTab s.udata.uCwd).cRefs = (s.iTab s.udata.uCwd).cRefs + 1 ∧
      s₁.Referred ((List.finRange UFTSIZE).map s.udata.uFiles) s') (fun _ => True) s := by
  unfold newproc
  rw [wp_bind, wp_get, wp_bind, wp_modifyPtab, wp_bind, wp_modifyUdata, wp_bind, wp_modifyUdata, wp_bind]
  generalize hs : ((s.setProc p _).withUdata _).withUdata _ = s₁
  have tab : s₁.ofTab = s.ofTab := hs ▸ rfl
  have bss : s₁.ofBss = s.ofBss := hs ▸ rfl
  have files : s₁.udata.uFiles = s.udata.uFiles := hs ▸ rfl
  have uPtab : s₁.udata.uPtab = p := hs ▸ rfl
  have inodes : s₁.iTab = s.iTab := hs ▸ rfl
  unfold iRef
  rw [wp_bind, wp_modifyInode, wp_bind, wp_get, wp_ite]
  split
  · trivial
  · rw [wp_pure, wp_bind, wp_modifyUdata]
    generalize hs₂ : (s₁.setInode s.udata.uCwd _).withUdata _ = s₂
    have tab₂ : s₂.ofTab = s.ofTab := hs₂ ▸ tab
    have bss₂ : s₂.ofBss = s.ofBss := hs₂ ▸ bss
    have files₂ : s₂.udata.uFiles = s.udata.uFiles := hs₂ ▸ files
    have uPtab₂ : s₂.udata.uPtab = p := hs₂ ▸ uPtab
    have cwd : (s₂.iTab s.udata.uCwd).cRefs = (s.iTab s.udata.uCwd).cRefs + 1 := by
      rw [← hs₂, ← inodes]
      exact congrArg Cinode.cRefs Kernel.iTab_setInode
    exact wp_post wp_oftRefs fun _ s' h => ⟨s₂, tab₂, bss₂, files₂, uPtab₂, cwd, files₂ ▸ h⟩

/-- A byte counts `n` more exactly if and only if there is room for them. -/
lemma Byte.toNat_add_iff {b : Byte} {n : Nat} : (b + BitVec.ofNat 8 n).toNat = b.toNat + n ↔ b.toNat + n < 256 := by
  have lt := b.isLt
  rw [BitVec.toNat_add, BitVec.toNat_ofNat]
  omega

/-- The list of the descriptors has as many references as their table. -/
lemma Kernel.countP_files {x : Byte} :
    ((List.finRange UFTSIZE).map s.udata.uFiles).countP (fun y => y = x) = refs s.udata.uFiles x := by
  rw [List.countP_map, refs_eq_countP]
  rfl

/-- `newproc` counts the files exactly if and only if every descriptor is open and no count overflows. -/
lemma countsFiles_iff (returned : newproc p s = .ok (⟨⟩, s')) : s.CountsFiles s' ↔ s.AllOpen := by
  obtain ⟨s₁, tab, bss, -, -, cwd, referred⟩ := (wp_newproc (s := s) (p := p)).ok returned
  have count : ∀ i, (s'.ofTab i).oRefs.toNat = (s.ofTab i).oRefs.toNat + refs s.udata.uFiles (oftByte i) ↔
      (s.ofTab i).oRefs.toNat + refs s.udata.uFiles (oftByte i) < 256 := by
    intro i
    rw [referred.tab, tab, s.countP_files]
    exact Byte.toNat_add_iff
  have inode : (s'.iTab s.udata.uCwd).cRefs.toNat = (s.iTab s.udata.uCwd).cRefs.toNat + 1 ↔
      (s.iTab s.udata.uCwd).cRefs.toNat < 255 := by
    have same : s'.iTab = s₁.iTab := by rw [referred.rest]
    rw [same, cwd]
    exact Byte.toNat_add_iff.trans Nat.succ_lt_succ_iff
  have outside : s'.ofBss = s.ofBss ↔ ∀ j, (s.udata.uFiles j).toNat < OFTSIZE := by
    refine ⟨fun same j => ?_, fun opened => funext fun n => ?_⟩
    · by_contra beyond
      have e := referred.bss (s.udata.uFiles j).toNat
      rw [bss, same] at e
      -- at least this descriptor is counted there, and at most all ten of them
      have pos : 0 < ((List.finRange UFTSIZE).map s.udata.uFiles).countP
          fun x => OFTSIZE ≤ x.toNat ∧ x.toNat = (s.udata.uFiles j).toNat :=
        List.countP_pos_iff.mpr ⟨_, List.mem_map_of_mem (List.mem_finRange j),
          decide_eq_true ⟨Nat.not_lt.mp beyond, rfl⟩⟩
      have few := List.countP_le_length
        (p := fun x : Byte => decide (OFTSIZE ≤ x.toNat ∧ x.toNat = (s.udata.uFiles j).toNat))
        (l := (List.finRange UFTSIZE).map s.udata.uFiles)
      rw [List.length_map, List.length_finRange] at few
      have few : _ ≤ 10 := few
      have e := congrArg BitVec.toNat e
      have lt := (s.ofBss (s.udata.uFiles j).toNat).isLt
      rw [BitVec.toNat_add, BitVec.toNat_ofNat] at e
      omega
    · rw [referred.bss, bss, List.countP_eq_zero.mpr, BitVec.add_zero]
      intro x mem e
      obtain ⟨j, -, rfl⟩ := List.mem_map.mp mem
      exact absurd (opened j) (Nat.not_lt.mpr (of_decide_eq_true e).1)
  constructor
  · intro h
    exact ⟨outside.mp h.outside, fun i => (count i).mp (h.refs i), inode.mp h.cwd⟩
  · intro h
    exact ⟨fun i => (count i).mpr (h.room i), outside.mpr h.opened, inode.mpr h.cwd⟩

/-! ## What happens to the other processes -/

/-- No time stored in a zombie other than the current process is the address of something that processes
sleep on. -/
def Kernel.OthersApart (s : Kernel) : Prop :=
  ∀ p, p ≠ s.udata.uPtab → (s.ptab p).pStatus = .zombie → ∀ e, e ≠ .none → (s.ptab p).pWait ≠ s.layout.addr e

/-- The other processes are alive as before, and the images are the same. -/
structure Beside (s s' : Kernel) : Prop where
  apart : s'.OthersApart
  alive : ∀ p, p ≠ s.udata.uPtab → ((s'.ptab p).pStatus.Alive ↔ (s.ptab p).pStatus.Alive)
  parent : ∀ p, (s.ptab p).pPptr ≠ none → (s'.ptab p).pPptr ≠ none
  pSwap : ∀ p, (s'.ptab p).pSwap = (s.ptab p).pSwap
  swap : s'.swap = s.swap
  uPtab : s'.udata.uPtab = s.udata.uPtab

namespace Beside

variable {s'' : Kernel}

/-- Two pieces of code that leave the others alone, one after the other. -/
lemma trans (h : Beside s s') (h' : Beside s' s'') : Beside s s'' where
  apart := h'.apart
  alive p ne := (h'.alive p (h.uPtab ▸ ne)).trans (h.alive p ne)
  parent p some := h'.parent p (h.parent p some)
  pSwap p := (h'.pSwap p).trans (h.pSwap p)
  swap := h'.swap.trans h.swap
  uPtab := h'.uPtab.trans h.uPtab

/-- Every entry other than the one of the current process keeps what matters. -/
lemma of_entries (apart : s.OthersApart) (layout : s'.layout = s.layout) (swap : s'.swap = s.swap)
    (uPtab : s'.udata.uPtab = s.udata.uPtab) (pSwap : ∀ p, (s'.ptab p).pSwap = (s.ptab p).pSwap)
    (parent : ∀ p, (s.ptab p).pPptr ≠ none → (s'.ptab p).pPptr ≠ none)
    (alive : ∀ p, p ≠ s.udata.uPtab → ((s'.ptab p).pStatus.Alive ↔ (s.ptab p).pStatus.Alive))
    (time : ∀ p, p ≠ s.udata.uPtab → (s'.ptab p).pStatus = .zombie →
      (s.ptab p).pStatus = .zombie ∧ ((s'.ptab p).pWait = (s.ptab p).pWait ∨ (s'.ptab p).pWait = 0)) :
    Beside s s' := by
  refine ⟨fun p ne zombie e he => ?_, alive, parent, pSwap, swap, uPtab⟩
  rw [uPtab] at ne
  rw [layout]
  obtain ⟨dead, same | zero⟩ := time p ne zombie
  · exact same ▸ apart p ne dead e he
  · rw [zero, ← s.layout.null]
    exact fun same => he (s.layout.injective same).symm

/-- One entry changes. -/
lemma setProc {x : PTab} (apart : s.OthersApart)
    (alive : p ≠ s.udata.uPtab → (x.pStatus.Alive ↔ (s.ptab p).pStatus.Alive))
    (dead : p ≠ s.udata.uPtab → x.pStatus = .zombie →
      (s.ptab p).pStatus = .zombie ∧ (x.pWait = (s.ptab p).pWait ∨ x.pWait = 0))
    (parent : x.pPptr = (s.ptab p).pPptr) (swap : x.pSwap = (s.ptab p).pSwap) : Beside s (s.setProc p x) := by
  have entry : ∀ q, (s.setProc p x).ptab q = if q = p then x else s.ptab q := fun q => Function.update_apply ..
  refine .of_entries apart rfl rfl rfl (fun q => ?_) (fun q => ?_) (fun q ne => ?_) fun q ne => ?_
  · rw [entry]
    split
    · next same => rw [same, swap]
    · rfl
  · rw [entry]
    split
    · next same => rw [same, parent]; exact id
    · exact id
  · rw [entry]
    split
    · next same => rw [same] at ne ⊢; exact alive ne
    · rfl
  · rw [entry]
    split
    · next same => rw [same] at ne ⊢; exact dead ne
    · exact fun zombie => ⟨zombie, .inl rfl⟩

end Beside

/-- The code of the current process leaves the others alone, and the process stays alive. -/
def Besides (s s' : Kernel) : Prop :=
  s.OthersApart → Beside s s' ∧ ((s.ptab s.udata.uPtab).pStatus.Alive → (s'.ptab s.udata.uPtab).pStatus.Alive)

namespace Besides

/-- Code that leaves the process table, the swap space and the number of the current process alone. -/
lemma of_ptab (ptab : s'.ptab = s.ptab) (layout : s'.layout = s.layout) (swap : s'.swap = s.swap)
    (uPtab : s'.udata.uPtab = s.udata.uPtab) : Besides s s' := fun apart =>
  ⟨.of_entries apart layout swap uPtab (fun _ => ptab ▸ rfl) (fun _ => ptab ▸ id) (fun _ _ => ptab ▸ .rfl)
    fun _ _ dead => ⟨ptab ▸ dead, .inl (ptab ▸ rfl)⟩, ptab ▸ id⟩

/-- An entry changes, but not whether its process is alive. -/
lemma setProc {x : PTab} (alive : p ≠ s.udata.uPtab → (x.pStatus.Alive ↔ (s.ptab p).pStatus.Alive))
    (own : (s.ptab p).pStatus.Alive → p = s.udata.uPtab → x.pStatus.Alive)
    (dead : p ≠ s.udata.uPtab → x.pStatus = .zombie →
      (s.ptab p).pStatus = .zombie ∧ (x.pWait = (s.ptab p).pWait ∨ x.pWait = 0))
    (parent : x.pPptr = (s.ptab p).pPptr) (swap : x.pSwap = (s.ptab p).pSwap) : Besides s (s.setProc p x) := by
  refine fun apart => ⟨.setProc apart alive dead parent swap, fun alive => ?_⟩
  show ((Function.update s.ptab p x) s.udata.uPtab).pStatus.Alive
  rw [Function.update_apply]
  split
  · next same => exact own (same ▸ alive) same.symm
  · exact alive

/-- The current process changes its own entry. -/
lemma setOwn {x : PTab} (alive : (s.ptab s.udata.uPtab).pStatus.Alive → x.pStatus.Alive)
    (parent : x.pPptr = (s.ptab s.udata.uPtab).pPptr) (swap : x.pSwap = (s.ptab s.udata.uPtab).pSwap) :
    Besides s (s.setProc s.udata.uPtab x) :=
  .setProc (fun ne => absurd rfl ne) (fun own _ => alive own) (fun ne => absurd rfl ne) parent swap

/-- A wakeup makes processes ready, which stay alive. -/
lemma woken {event : Event} (ne : event ≠ .none) : Besides s { s with ptab := s.woken event } := by
  intro apart
  have woken : ∀ p, s.woken event p = s.ptab p ∨
      (s.ptab p).pStatus.isBehindRunning ∧ (s.ptab p).pWait = s.layout.addr event ∧
        s.woken event p = { s.ptab p with pStatus := .ready, pWait := 0 } := by
    intro p
    unfold Kernel.woken
    split
    · next sleeps => exact .inr ⟨sleeps.1, sleeps.2, rfl⟩
    · exact .inl rfl
  have ready : PStatus.ready.Alive := ⟨nofun, nofun⟩
  refine ⟨.of_entries apart rfl rfl rfl (fun p => ?_) (fun p => ?_) (fun p other => ?_) fun p other dead => ?_,
    fun alive => ?_⟩
  · show (s.woken event p).pSwap = _
    rcases woken p with same | ⟨-, -, up⟩
    · rw [same]
    · rw [up]
  · show _ → (s.woken event p).pPptr ≠ none
    rcases woken p with same | ⟨-, -, up⟩
    · rw [same]
      exact id
    · rw [up]
      exact id
  · show (s.woken event p).pStatus.Alive ↔ _
    rcases woken p with same | ⟨behind, on, up⟩
    · rw [same]
    · rw [up]
      refine iff_of_true ready ⟨fun empty => ?_, fun dead => apart p other dead event ne on⟩
      rw [empty] at behind
      exact absurd behind Bool.false_ne_true
  · change (s.woken event p).pStatus = .zombie at dead
    show _ ∧ ((s.woken event p).pWait = _ ∨ (s.woken event p).pWait = 0)
    rcases woken p with same | ⟨-, -, up⟩
    · rw [same] at dead ⊢
      exact ⟨dead, .inl rfl⟩
    · rw [up] at dead
      exact absurd dead nofun
  · show (s.woken event s.udata.uPtab).pStatus.Alive
    rcases woken s.udata.uPtab with same | ⟨-, -, up⟩
    · rwa [same]
    · rwa [up]

end Besides

instance : Filing Besides where
  refl _ := .of_ptab rfl rfl rfl rfl
  trans _ _ _ h h' apart := by
    obtain ⟨beside, alive⟩ := h apart
    obtain ⟨beside', alive'⟩ := h' beside.apart
    exact ⟨beside.trans beside', fun own => beside.uPtab ▸ alive' (beside.uPtab.symm ▸ alive own)⟩
  bufs _ _ := .of_ptab rfl rfl rfl rfl
  fsTab _ _ _ _ := .of_ptab rfl rfl rfl rfl
  iTab _ _ := .of_ptab rfl rfl rfl rfl
  nexti _ _ := .of_ptab rfl rfl rfl rfl
  error _ _ := .of_ptab rfl rfl rfl rfl
  woken _ ino := .woken (nofun : Event.inode ino ≠ .none)
  ofTab _ _ := .of_ptab rfl rfl rfl rfl
  ofBss _ _ := .of_ptab rfl rfl rfl rfl
  files _ _ := .of_ptab rfl rfl rfl rfl

/-- Nor does it touch any files. -/
def Idly (s s' : Kernel) : Prop := Besides s s' ∧ SameFiles s s'

instance : Quiet Idly where
  refl _ := ⟨refl_of Besides _, refl_of SameFiles _⟩
  trans _ _ _ h h' := ⟨trans_of Besides h.1 h'.1, trans_of SameFiles h.2 h'.2⟩
  bufs _ _ := ⟨.of_ptab rfl rfl rfl rfl, rfl, rfl, rfl⟩
  fsTab _ _ _ _ := ⟨.of_ptab rfl rfl rfl rfl, rfl, rfl, rfl⟩
  iTab _ _ := ⟨.of_ptab rfl rfl rfl rfl, rfl, rfl, rfl⟩
  nexti _ _ := ⟨.of_ptab rfl rfl rfl rfl, rfl, rfl, rfl⟩
  error _ _ := ⟨.of_ptab rfl rfl rfl rfl, rfl, rfl, rfl⟩
  woken _ ino := ⟨.woken (nofun : Event.inode ino ≠ .none), rfl, rfl, rfl⟩

namespace Idly

/-- The data of the process change but for its number and its descriptors. -/
lemma of_udata {u : UData} (uPtab : u.uPtab = s.udata.uPtab) (files : u.uFiles = s.udata.uFiles) :
    Idly s (s.withUdata u) := ⟨.of_ptab rfl rfl rfl uPtab, rfl, rfl, files⟩

/-- The current process changes its own entry and data. -/
lemma own {x : PTab} {u : UData} (alive : (s.ptab s.udata.uPtab).pStatus.Alive → x.pStatus.Alive)
    (parent : x.pPptr = (s.ptab s.udata.uPtab).pPptr) (swap : x.pSwap = (s.ptab s.udata.uPtab).pSwap)
    (uPtab : u.uPtab = s.udata.uPtab) (files : u.uFiles = s.udata.uFiles) :
    Idly s ((s.setProc s.udata.uPtab x).withUdata u) :=
  trans_of Idly ⟨.setOwn alive parent swap, rfl, rfl, rfl⟩ (.of_udata uPtab files)

/-- A change of the data of the process, in the same terms. -/
lemma modifyUdata {f : UData → UData} (uPtab : ∀ u, (f u).uPtab = u.uPtab)
    (files : ∀ u, (f u).uFiles = u.uFiles) : Within Idly E (modifyUdata f) :=
  .modify fun _ => .of_udata (uPtab _) (files _)

/-- A change of its own entry that keeps the status, the parent and the place in the swap space. -/
lemma modifyOwn {f : PTab → PTab} (alive : ∀ x, (f x).pStatus = x.pStatus) (parent : ∀ x, (f x).pPptr = x.pPptr)
    (swap : ∀ x, (f x).pSwap = x.pSwap) : Within Idly E (modifyOwn f) :=
  fun _ => ⟨.setOwn (fun own => by rwa [alive]) (parent _) (swap _), rfl, rfl, rfl⟩

/-- `wakeup` touches no files. -/
lemma wakeup {event : Event} (ne : event ≠ .none) : Within Idly E (wakeup event) :=
  .modify fun _ => ⟨.woken ne, rfl, rfl, rfl⟩

/-- A signal is posted, and no file is touched. -/
lemma ssig {sig : Nat} : Within Idly E (ssig p sig) := by
  refine .bind .get fun x => .ite .pure (.ite .pure fun s => ?_)
  have alive : PStatus.Alive (if (s.ptab p).pStatus = .pause ∨ (s.ptab p).pStatus = .wait ∨
      (s.ptab p).pStatus = .sleep then .ready else (s.ptab p).pStatus) ↔ (s.ptab p).pStatus.Alive := by
    split
    · next asleep =>
      refine iff_of_true ⟨nofun, nofun⟩ ?_
      rcases asleep with e | e | e
      · exact e ▸ ⟨nofun, nofun⟩
      · exact e ▸ ⟨nofun, nofun⟩
      · exact e ▸ ⟨nofun, nofun⟩
    · rfl
  refine ⟨.setProc (fun _ => alive) (fun own _ => alive.mpr own) (fun _ => ?_) rfl rfl, rfl, rfl, rfl⟩
  dsimp only
  split
  · exact nofun
  · exact fun dead => ⟨dead, .inr rfl⟩

/-- `sendsig` touches no files. -/
lemma sendsig {proc : Option (Fin PTABSIZE)} {sig : Nat} : Within Idly E (sendsig proc sig) := by
  cases proc with
  | some p => exact ssig
  | none => exact .each (fun p => .bind .get fun _ => .ite ssig .pure) _

/-- `psleep` touches no files. -/
lemma psleep {event : Event} : Within Idly (fun _ => True) (psleep event) := by
  intro s
  unfold Uzi.psleep
  rw [wp_bind, wp_get, wp_ite]
  split
  · trivial
  · rw [wp_modifyPtab]
    refine ⟨.setOwn (fun _ => ?_) rfl rfl, rfl, rfl, rfl⟩
    dsimp only
    split
    · exact ⟨nofun, nofun⟩
    split
    · exact ⟨nofun, nofun⟩
    · exact ⟨nofun, nofun⟩

/-- The slot of a child that has exited becomes empty. -/
lemma reap {l : Layout} {statloc : Nat} (user : l.TakesStatus statloc) (zombie : (s.ptab p).pStatus = .zombie) :
    wp (reap l statloc p) (fun _ s' => Idly s s') E s := by
  refine wp_post (wp_reap_files user) fun _ s' ⟨u, ⟨uPtab, files⟩, eq⟩ => ?_
  have empty : Besides s (s.setProc p { s.ptab p with pStatus := .empty }) :=
    .setProc (fun _ => iff_of_false (fun alive => alive.1 rfl) fun alive => alive.2 zombie)
      (fun alive _ => absurd zombie alive.2) (fun _ => nofun) rfl rfl
  rw [eq]
  exact trans_of Idly ⟨empty, rfl, rfl, rfl⟩ (.of_udata uPtab files)

/-- The children of a process get another parent. -/
lemma adopt : Idly s { s with ptab := s.adopt } := by
  refine ⟨fun apart => ⟨.of_entries apart rfl rfl rfl (fun _ => adopt_swap) (fun p some => ?_) (fun p _ => ?_)
    fun p _ dead => ?_, fun alive => ?_⟩, rfl, rfl, rfl⟩
  · show (s.adopt p).pPptr ≠ none
    cases adopt_parent (s := s) (p := p) with
    | inl same => rwa [same]
    | inr adopted => exact adopted ▸ Option.some_ne_none _
  · show (s.adopt p).pStatus.Alive ↔ _
    rw [adopt_status]
  · change (s.adopt p).pStatus = .zombie at dead
    rw [adopt_status] at dead
    exact ⟨dead, .inl adopt_wait⟩
  · show (s.adopt s.udata.uPtab).pStatus.Alive
    rwa [adopt_status]

/-- The times of the children are added, and no file is touched. -/
lemma addTimes : Within Idly E addTimes := by
  refine .bind ?_ fun _ => .bind ?_ fun _ => .bind .get fun u => ?_
  · exact modifyUdata (fun _ => rfl) fun _ => rfl
  · exact modifyUdata (fun _ => rfl) fun _ => rfl
  · exact modifyOwn (fun _ => rfl) (fun _ => rfl) fun _ => rfl

/-- A process that has a parent wakes it up. -/
lemma wakeParent (parent : (s.ptab s.udata.uPtab).pPptr ≠ none) :
    wp wakeParent (fun _ s' => Idly s s') E s := by
  unfold Uzi.wakeParent
  obtain ⟨q, hq⟩ := Option.ne_none_iff_exists'.mp parent
  rw [wp_bind, wp_get, hq, wp_ite]
  split
  · exact wakeup (nofun : Event.ptab q ≠ .none) s
  · exact refl_of Idly s

end Idly

/-! ## Exits -/

/-- A process at work: it has a parent, and the counts of the files are right together with the references
`held` of the other processes. -/
structure Kernel.Working (held : Multiset (Fin OFTSIZE)) (s : Kernel) : Prop where
  apart : s.OthersApart
  parent : (s.ptab s.udata.uPtab).pPptr ≠ none
  counted : Counted s.ofTab s.udata.uFiles held

/-- What a piece of code does after which its process has exited or goes on: it leaves the other processes
alone, the counts are still right, and a process that exits has closed everything. -/
structure Kernel.Ends (held : Multiset (Fin OFTSIZE)) (s : Kernel) (exited : Prop) (s' : Kernel) : Prop where
  beside : Beside s s'
  files : Settled held s s'
  alive : ¬ exited → (s.ptab s.udata.uPtab).pStatus.Alive → (s'.ptab s.udata.uPtab).pStatus.Alive
  gone : exited → ¬ (s'.ptab s'.udata.uPtab).pStatus.Alive ∧ ∀ j, isClosed (s'.udata.uFiles j)

variable {held : Multiset (Fin OFTSIZE)} {exited : Prop}

/-- The counts are right, and nothing has happened. -/
lemma Settled.refl (counted : Counted s.ofTab s.udata.uFiles held) : Settled held s s := ⟨counted, rfl, .refl⟩

/-- Two pieces of code after which the counts are right, one after the other. -/
lemma Settled.trans {s'' : Kernel} (h : Settled held s s') (h' : Settled held s' s'') : Settled held s s'' :=
  ⟨h'.counted, h'.bss.trans h.bss, h.inodes.trans h'.inodes⟩

namespace Kernel.Working

/-- A process at work is at work after code that leaves the others alone and settles its counts. -/
lemma next (w : s.Working held) (beside : Beside s s') (files : Settled held s s') : s'.Working held :=
  ⟨beside.apart, beside.uPtab ▸ beside.parent _ w.parent, files.counted⟩

/-- A process at work is at work after idle code. -/
lemma idly (w : s.Working held) (h : Idly s s') : s'.Working held :=
  w.next (h.1 w.apart).1 ((Settled.refl w.counted).same h.2)

/-- Quiet code after which the process goes on. -/
lemma ends (w : s.Working held) (h : Idly s s') (no : ¬ exited) : s.Ends held exited s' where
  beside := (h.1 w.apart).1
  files := (Settled.refl w.counted).same h.2
  alive _ := (h.1 w.apart).2
  gone yes := absurd yes no

/-- The process is still there. -/
lemma goesOn (w : s.Working held) (h : Idly s s') : s.Ends held False s' := w.ends h id

end Kernel.Working

namespace Kernel.Ends

/-- Whether the process has exited may be said in another way. -/
lemma congr {exited' : Prop} (e : s.Ends held exited s') (same : exited' ↔ exited) : s.Ends held exited' s' :=
  ⟨e.beside, e.files, fun no => e.alive fun yes => no (same.mpr yes), fun yes => e.gone (same.mp yes)⟩

/-- The process goes on with code that ends somehow. -/
lemma trans {s₁ : Kernel} {no : Prop} (e : s.Ends held no s₁) (h : ¬ no) (e' : s₁.Ends held exited s') :
    s.Ends held exited s' where
  beside := e.beside.trans e'.beside
  files := e.files.trans e'.files
  alive still own := e.beside.uPtab ▸ e'.alive still (e.beside.uPtab.symm ▸ e.alive h own)
  gone := e'.gone

/-- The process is still at work. -/
lemma working (w : s.Working held) (e : s.Ends held exited s') : s'.Working held := w.next e.beside e.files

end Kernel.Ends

/-- The number that `doexit` closes with is that of the descriptor. -/
lemma descriptor_fileWord {j : Fin UFTSIZE} : (fileWord j).toNat < UFTSIZE ∧ descriptor (fileWord j) = j := by
  revert j
  decide

/-- After the first loop of `doexit` nothing is open. -/
lemma wp_closeAll (counted : Counted s.ofTab s.udata.uFiles held) :
    wp closeAll (fun _ s' => Settled held s s' ∧ ∀ j, isClosed (s'.udata.uFiles j)) (fun _ => True) s := by
  refine wp_post (wp_each (fun js s' => Settled held s s' ∧ ∀ j, j ∉ js → isClosed (s'.udata.uFiles j)) ?_
    ⟨.refl counted, fun j no => absurd (List.mem_finRange j) no⟩) fun _ s' h => ⟨h.1, fun j => h.2 j List.not_mem_nil⟩
  · intro j js _ s₁ ⟨settled, before⟩
    rw [wp_bind, wp_get, wp_ite]
    have rest : ∀ k, k ≠ j → k ∉ js → isClosed (s₁.udata.uFiles k) := fun k ne no =>
      before k fun mem => (List.mem_cons.mp mem).elim ne no
    split
    · rw [wp_bind]
      refine wp_post (wp_doclose settled.counted) fun _ s₂ done => ?_
      obtain ⟨counted₂, bss, inodes, files⟩ := done
      refine ⟨settled.trans ⟨counted₂, bss, inodes⟩, fun k no => ?_⟩
      obtain ⟨lt, own⟩ := descriptor_fileWord (j := j)
      rw [own] at files
      by_cases same : k = j
      · subst same
        cases files with
        | inl kept => exact kept.1 ▸ kept.2 lt
        | inr closed =>
          rw [closed, Function.update_self]
          exact isClosed_minus_one
      · cases files with
        | inl kept => exact kept.1 ▸ rest k same no
        | inr closed =>
          rw [closed, Function.update_of_ne same]
          exact rest k same no
    · next closed =>
      refine ⟨settled, fun k no => ?_⟩
      by_cases same : k = j
      · exact same ▸ closed_iff.mp (not_not.mp closed)
      · exact rest k same no

/-- `doexit` closes everything and leaves the others alone. -/
lemma wp_doexit_ends {val val2 : Word} (w : s.Working held) :
    wp (doexit val val2) (fun _ s' => s.Ends held True s') (fun _ => True) s := by
  unfold doexit
  rw [wp_bind]
  refine wp_mono ((within_closeAll (R := Besides) (E := fun _ => True) s).and (wp_closeAll w.counted))
    (fun _ s₁ ⟨besides, settled, closed⟩ => ?_) fun _ _ => trivial
  obtain ⟨beside, -⟩ := besides w.apart
  have w₁ := w.next beside settled
  -- from here on the files stay as they are
  rw [wp_bind]
  have status : Within Idly (fun _ => True) (modifyOwn fun x => { x with pExitval := val <<< 8 ||| val2 &&& 0xff }) :=
    .modifyOwn (fun _ => rfl) (fun _ => rfl) fun _ => rfl
  refine wp_post (status s₁) fun _ s₂ idly₂ => ?_
  rw [wp_bind, wp_modify]
  have idly₃ := trans_of Idly idly₂ .adopt
  generalize ({ s₂ with ptab := s₂.adopt } : Kernel) = s₃ at idly₃ ⊢
  rw [wp_bind, wp_get, wp_bind]
  refine wp_post (Quiet.iDeref (R := Idly) s₃) fun _ s₄ idly₄ => ?_
  rw [wp_bind]
  refine wp_post (Idly.addTimes s₄) fun _ s₅ idly₅ => ?_
  have idly₅ := trans_of Idly idly₃ (trans_of Idly idly₄ idly₅)
  have w₅ := w₁.idly idly₅
  rw [wp_bind]
  refine wp_post (Idly.wakeParent w₅.parent) fun _ s₆ idly₆ => ?_
  have idly₆ := trans_of Idly idly₅ idly₆
  have w₆ := w₁.idly idly₆
  rw [wp_modifyOwn]
  have zombie : Beside s₆ (s₆.setProc s₆.udata.uPtab { s₆.ptab s₆.udata.uPtab with pStatus := .zombie }) :=
    .setProc w₆.apart (fun ne => absurd rfl ne) (fun ne => absurd rfl ne) rfl rfl
  refine ⟨(beside.trans (idly₆.1 w₁.apart).1).trans zombie, settled.trans ⟨w₆.counted, ?_, ?_⟩, fun no => absurd trivial no,
    fun _ => ⟨?_, fun j => ?_⟩⟩
  · exact idly₆.2.2.1
  · exact idly₆.2.1 ▸ .refl
  · show ¬ ((s₆.setProc s₆.udata.uPtab _).ptab s₆.udata.uPtab).pStatus.Alive
    rw [Kernel.ptab_setProc]
    exact fun alive => alive.2 rfl
  · show isClosed (s₆.udata.uFiles j)
    rw [idly₆.2.2.2]
    exact closed j

/-! ## Operations -/

/-- A round of `chksigs` ends with the counts right. -/
lemma wp_chksigsLoop_ends {js : List (Fin NSIGS)} (w : s.Working held) :
    wp (chksigsLoop js) (fun exited s' => s.Ends held (exited = true) s') (fun _ => True) s := by
  induction js generalizing s with
  | nil => exact w.ends (refl_of Idly s) Bool.false_ne_true
  | cons j js ih =>
    rw [chksigsLoop, wp_bind, wp_get, wp_ite]
    split
    · exact ih w
    rw [wp_ite]
    split
    · rw [wp_bind]
      exact wp_post (wp_doexit_ends w) fun _ _ e => e.congr (iff_of_true rfl trivial)
    rw [wp_ite]
    split
    · rw [wp_bind, wp_modifyPtab, wp_bind, wp_modifyUdata]
      generalize hs : (s.setProc s.udata.uPtab _).withUdata _ = s₁
      have idly : Idly s s₁ := hs ▸ .own id rfl rfl rfl rfl
      refine wp_post (ih (w.idly idly)) fun exited s' e => ?_
      exact (w.goesOn idly).trans id e
    · exact ih w

/-- `chksigs` ends with the counts right. -/
lemma wp_chksigs_ends (w : s.Working held) :
    wp chksigs (fun exited s' => s.Ends held (exited = true) s') (fun _ => True) s := by
  unfold chksigs
  rw [wp_bind, wp_get, wp_ite]
  split
  · exact w.ends (refl_of Idly s) Bool.false_ne_true
  · exact wp_chksigsLoop_ends w

/-- How a call ends. -/
def Kernel.Calls (held : Multiset (Fin OFTSIZE)) (s : Kernel) (ctl : Ctl) (s' : Kernel) : Prop :=
  s.Ends held (ctl = .getproc true) s'

/-- `swapout` ends with the counts right. -/
lemma wp_swapout_ends {α : Type} (w : s.Working held) :
    wp (swapout (α := α)) (fun r s' => s.Calls held r.ctl s') (fun _ => True) s := by
  unfold swapout
  rw [wp_bind]
  refine wp_post (wp_chksigs_ends w) fun exited s' e => ?_
  cases exited with
  | true => exact e.congr (iff_of_true rfl rfl)
  | false => exact e.congr (iff_of_false nofun nofun)

/-- The end of `psleep` does, too. -/
lemma wp_psleepSwap_ends {α : Type} {event : Event} (w : s.Working held) :
    wp (psleepSwap (α := α) event) (fun r s' => s.Calls held r.ctl s') (fun _ => True) s := by
  unfold psleepSwap
  rw [wp_bind]
  refine wp_post (Idly.psleep s) fun _ s₁ idly => ?_
  exact wp_post (wp_swapout_ends (w.idly idly)) fun _ _ e => (w.goesOn idly).trans id e

/-- A call that fails. -/
lemma wp_fails {e : Errno} (w : s.Working held) :
    wp (do setError e; pure (CallEnd.returned (0xffff : Word))) (fun r s' => s.Calls held r.ctl s') (fun _ => True) s := by
  have quiet : Within Idly (fun _ => True) (setError e) := Quiet.setError
  rw [wp_bind]
  exact wp_post (quiet s) fun _ _ idly => w.ends idly nofun

/-- So does a round of `_wait`, with a status pointer into the memory of the process where there is a child to
collect. -/
lemma wp_waitRound_ends {statloc : Nat} (user : s.Collects → s.layout.TakesStatus statloc) (w : s.Working held) :
    wp (waitRound statloc) (fun r s' => s.Calls held r.ctl s') (fun _ => True) s := by
  unfold waitRound
  rw [wp_bind, wp_get, wp_bind]
  refine wp_post (wp_chksigs_ends w).run fun exited s₁ ⟨e₁, returned⟩ => ?_
  cases exited with
  | true => exact e₁.congr (iff_of_true rfl rfl)
  | false =>
    have w₁ := e₁.working w
    have on : ∀ {ctl : Ctl} {s₂ : Kernel}, s₁.Calls held ctl s₂ → s.Calls held ctl s₂ :=
      e₁.trans Bool.false_ne_true
    rw [if_neg nofun, wp_bind, wp_get, wp_ite]
    split
    · exact wp_post (wp_fails w₁) fun _ _ => on
    · next idle =>
      rw [wp_bind, wp_get]
      cases child : s₁.zombieChild with
      | none =>
        dsimp only
        rw [wp_bind, wp_get]
        exact wp_post (wp_psleepSwap_ends w₁) fun _ _ => on
      | some p =>
        dsimp only
        rw [wp_bind]
        have pointer := Kernel.Collects.user user returned idle child
        exact wp_post (Idly.reap pointer (zombieChild_dead child)) fun _ _ idly => on (w₁.ends idly nofun)

/-- So does `_wait`, with a status pointer that passes its guard and lies in the memory of the process. -/
lemma wp_wait_ends {statloc : Nat} (user : s.Collects → ¬ s.layout.udata < statloc → s.layout.TakesStatus statloc)
    (w : s.Working held) :
    wp (_wait statloc) (fun r s' => s.Calls held r.ctl s') (fun _ => True) s := by
  unfold _wait
  rw [wp_bind, wp_get, wp_ite]
  split
  · exact wp_fails w
  next passed =>
  rw [wp_ite]
  split
  · exact wp_fails w
  · exact wp_waitRound_ends (fun collects => user collects passed) w

/-- So does the end of a system call. -/
lemma wp_unixEnd_ends (w : s.Working held) :
    wp unixEnd (fun r s' => s.Calls held r.ctl s') (fun _ => True) s := by
  unfold unixEnd
  rw [wp_bind]
  refine wp_post (wp_chksigs_ends w) fun exited s₁ e₁ => ?_
  cases exited with
  | true => exact e₁.congr (iff_of_true rfl rfl)
  | false =>
    have w₁ := e₁.working w
    rw [if_neg nofun, wp_bind, wp_get, wp_ite]
    split
    · rw [wp_bind, wp_modifyPtab]
      generalize hs : s₁.setProc s₁.udata.uPtab _ = s₂
      have idly : Idly s₁ s₂ := hs ▸ ⟨.setOwn (fun _ => ⟨nofun, nofun⟩) rfl rfl, rfl, rfl, rfl⟩
      refine wp_post (wp_swapout_ends (w₁.idly idly)) fun _ _ e => ?_
      exact e₁.trans Bool.false_ne_true ((w₁.goesOn idly).trans id e)
    · exact e₁.congr (iff_of_false nofun nofun)

/-- What every operation but a fork does. -/
lemma ProcOp.wp_run_ends (o : ProcOp) {ctl : Ctl} (user : o.InUser s ctl) (w : s.Working held) (ne : o ≠ .fork) :
    wp o.run (fun ctl s' => s.Calls held ctl s') (fun _ => True) s := by
  have quiet : ∀ {c : K PUnit}, Within Idly (fun _ => True) c →
      wp (do c; pure Ctl.running) (fun ctl s' => s.Calls held ctl s') (fun _ => True) s := by
    intro c h
    rw [wp_bind]
    exact wp_post (h s) fun _ _ idly => w.ends idly nofun
  cases o with
  | fork => exact absurd rfl ne
  | exit val val2 =>
    show wp (do doexit val val2; pure (Ctl.getproc true)) _ _ s
    rw [wp_bind]
    exact wp_post (wp_doexit_ends w) fun _ _ e => e.congr (iff_of_true rfl trivial)
  | wait statloc =>
    show wp (do return (← _wait statloc).ctl) _ _ s
    rw [wp_bind]
    exact wp_post (wp_wait_ends user w) fun _ _ => id
  | waitOn statloc =>
    show wp (do return (← waitRound statloc).ctl) _ _ s
    rw [wp_bind]
    exact wp_post (wp_waitRound_ends user w) fun _ _ => id
  | sleep event =>
    show wp (do return (← psleepSwap (α := PUnit) event).ctl) _ _ s
    rw [wp_bind]
    exact wp_post (wp_psleepSwap_ends w) fun _ _ => id
  | wakeup event => exact quiet (Idly.wakeup event.2)
  | signal proc sig => exact quiet Idly.sendsig
  | unixEnd =>
    show wp (do return (← Uzi.unixEnd).ctl) _ _ s
    rw [wp_bind]
    exact wp_post (wp_unixEnd_ends w) fun _ _ => id

/-! ## Calls -/

section Calls

variable {R : Kernel → Kernel → Prop} [Filing R]

/-- `uf_alloc` changes files only. -/
lemma Filing.ufAlloc : Within R (fun _ => True) ufAlloc := by
  refine .bind .get fun s => ?_
  split
  · exact .pure
  · exact Quiet.setError.bind fun _ => .pure

/-- `oft_alloc` changes files only. -/
lemma Filing.oftAlloc : Within R (fun _ => True) oftAlloc := by
  refine .bind .get fun s => ?_
  split
  · exact Describing.modifyOft.bind fun _ => .pure
  · exact Quiet.setError.bind fun _ => .pure

/-- `_open` changes files only. -/
lemma Filing.open {name : CStr} {flag : Word} : Within R (fun _ => True) (_open name flag) := by
  have failed : ∀ u i, Within R (fun _ => True) (openFailed u i) := fun u i =>
    Filing.oftDeref.bind fun _ => Describing.setFile.bind fun _ => .pure
  have failed' : ∀ e u i, Within R (fun _ => True) (do setError e; openFailed u i) := fun e u i =>
    Quiet.setError.bind fun _ => failed u i
  refine .ite (Quiet.setError.bind fun _ => .pure) (ufAlloc.bind fun r => ?_)
  obtain _ | u := r
  · exact .pure
  refine oftAlloc.bind fun r => ?_
  obtain _ | i := r
  · exact Describing.setFile.bind fun _ => .pure
  refine Quiet.nOpen.bind fun r => ?_
  obtain ⟨_ | ino, parent⟩ := r
  · exact failed u i
  refine Describing.modifyOft.bind fun _ => .bind .get fun s => .ite (failed' _ _ _) (.ite (failed' _ _ _) ?_)
  refine .bind (.bind .get fun _ => .ite (Quiet.dOpen.bind fun _ => .pure) .pure) fun b => .ite (failed' _ _ _) ?_
  exact Describing.setFile.bind fun _ => Describing.modifyOft.bind fun _ => .pure

/-- `_dup` changes files only. -/
lemma Filing.dup {d : Word} : Within R (fun _ => True) (_dup d) := by
  refine Quiet.getinode.bind fun r => ?_
  obtain _ | ino := r
  · exact .pure
  refine ufAlloc.bind fun r => ?_
  obtain _ | u := r
  · exact .pure
  exact .bind (.bind .get fun _ => Describing.setFile.bind fun _ => .bind .get fun _ => Describing.oftRef) fun _ => .pure

end Calls

/-! ## All processes -/

/-- The data of a process that is not the current one. -/
def Kernel.image (s : Kernel) (p : Fin PTABSIZE) : UData := s.swap (s.ptab p).pSwap

/-- The processes that are alive. -/
def Kernel.living (s : Kernel) : Finset (Fin PTABSIZE) := Finset.univ.filter fun p => (s.ptab p).pStatus.Alive

/-- The number of descriptors that refer to entry `i`, over all live processes. -/
def Kernel.liveRefs (s : Kernel) (i : Fin OFTSIZE) : Nat := ∑ p ∈ s.living, refs (s.data p).uFiles (oftByte i)

/-- The references of the processes other than the current one. -/
def Kernel.otherRefs (s : Kernel) (i : Fin OFTSIZE) : Nat :=
  ∑ p ∈ s.living.erase s.udata.uPtab, refs (s.image p).uFiles (oftByte i)

/-- The references that the current process has not got: those of the others, and those that are lost. -/
def Kernel.heldElsewhere (s : Kernel) (lost : Fin OFTSIZE → Nat) : Multiset (Fin OFTSIZE) :=
  tally fun i => lost i + s.otherRefs i

/-- Every `o_refs` is the number of descriptors of all live processes and of the references that are lost, and
every open descriptor has an entry with an inode. -/
structure Kernel.Shares (lost : Fin OFTSIZE → Nat) (s : Kernel) : Prop where
  swap : ∀ p, p = s.udata.uPtab ∨ (s.ptab p).pStatus.Alive → (s.ptab p).pSwap = swapBlk p
  parent : ∀ p, p = s.udata.uPtab ∨ (s.ptab p).pStatus.Alive → (s.ptab p).pPptr ≠ none
  counted : Counted s.ofTab s.udata.uFiles (s.heldElsewhere lost)
  opened : ∀ p, p ≠ s.udata.uPtab → (s.ptab p).pStatus.Alive → ∀ j, ¬ isClosed ((s.image p).uFiles j) →
    ∃ i, (s.image p).uFiles j = oftByte i ∧ (s.ofTab i).oInode ≠ none

variable {lost : Fin OFTSIZE → Nat}

/-- The living processes, as a set. -/
lemma Kernel.mem_living : p ∈ s.living ↔ (s.ptab p).pStatus.Alive := by
  unfold Kernel.living
  rw [Finset.mem_filter]
  exact and_iff_right (Finset.mem_univ p)

/-- What is held elsewhere, counted. -/
lemma Kernel.count_heldElsewhere : (s.heldElsewhere lost).count i = lost i + s.otherRefs i := count_tally

/-- There are few references, so that no count overflows. -/
lemma Kernel.otherRefs_le : s.otherRefs i ≤ 190 := by
  have each : ∀ p ∈ s.living.erase s.udata.uPtab, refs (s.image p).uFiles (oftByte i) ≤ 10 := fun _ _ => refs_le
  have card : (s.living.erase s.udata.uPtab).card ≤ (Finset.univ.erase s.udata.uPtab).card :=
    Finset.card_le_card (Finset.erase_subset_erase _ (Finset.subset_univ _))
  have others : (Finset.univ.erase s.udata.uPtab).card = 19 := Finset.card_erase_of_mem (Finset.mem_univ _)
  have sum := Finset.sum_le_card_nsmul _ _ _ each
  have sum : s.otherRefs i ≤ (s.living.erase s.udata.uPtab).card * 10 := sum
  omega

namespace Kernel.Shares

/-- The current process is at work beside the others. -/
lemma working (h : s.Shares lost) (apart : s.OthersApart) : s.Working (s.heldElsewhere lost) :=
  ⟨apart, h.parent _ (.inl rfl), h.counted⟩

/-- With few references lost there are few held elsewhere, so that no count wraps round. -/
lemma few {s : Kernel} (room : ∀ i, lost i ≤ 44) : (s.heldElsewhere lost).count i ≤ 244 := by
  have le := s.otherRefs_le (i := i)
  have room := room i
  rw [Kernel.count_heldElsewhere]
  omega

/-- A piece of code of the current process. -/
lemma next (h : s.Shares lost) (beside : Beside s s') (files : Settled (s.heldElsewhere lost) s s') : s'.Shares lost := by
  have own : ∀ p, p = s'.udata.uPtab ∨ (s'.ptab p).pStatus.Alive → p = s.udata.uPtab ∨ (s.ptab p).pStatus.Alive := by
    intro p alive
    rw [beside.uPtab] at alive
    by_cases own : p = s.udata.uPtab
    · exact .inl own
    · exact .inr ((beside.alive p own).mp (alive.resolve_left own))
  have image : ∀ p, s'.image p = s.image p := by
    intro p
    unfold Kernel.image
    rw [beside.swap, beside.pSwap]
  have living : s'.living.erase s'.udata.uPtab = s.living.erase s.udata.uPtab := by
    ext p
    rw [Finset.mem_erase, Finset.mem_erase, Kernel.mem_living, Kernel.mem_living, beside.uPtab]
    exact and_congr_right (beside.alive p)
  have others : s'.otherRefs = s.otherRefs := by
    funext i
    unfold Kernel.otherRefs
    rw [living]
    exact Finset.sum_congr rfl fun p _ => by rw [image]
  have held : s'.heldElsewhere lost = s.heldElsewhere lost := by
    unfold Kernel.heldElsewhere
    rw [others]
  refine ⟨fun p alive => ?_, fun p alive => ?_, held ▸ files.counted, fun p ne alive j opened => ?_⟩
  · rw [beside.pSwap]
    exact h.swap p (own p alive)
  · exact beside.parent p (h.parent p (own p alive))
  · rw [beside.uPtab] at ne
    have alive := (beside.alive p ne).mp alive
    rw [image] at opened ⊢
    obtain ⟨i, hi, some⟩ := h.opened p ne alive j opened
    -- the entry has a reference of this process, so that it keeps its inode
    have one : 0 < s.otherRefs i :=
      Finset.sum_pos' (fun _ _ => Nat.zero_le _)
        ⟨p, Finset.mem_erase.mpr ⟨ne, Kernel.mem_living.mpr alive⟩, refs_pos hi⟩
    exact ⟨i, hi, files.inodes i (mem_tally.mpr (by omega)) some⟩

end Kernel.Shares

/-! ## Switches -/

/-- The files of all live processes are in their images. -/
structure Kernel.Stored (lost : Fin OFTSIZE → Nat) (s : Kernel) : Prop where
  swap : ∀ p, (s.ptab p).pStatus.Alive → (s.ptab p).pSwap = swapBlk p
  parent : ∀ p, (s.ptab p).pStatus.Alive → (s.ptab p).pPptr ≠ none
  count : ∀ i, (s.ofTab i).oRefs.toNat = lost i + ∑ p ∈ s.living, refs (s.image p).uFiles (oftByte i)
  opened : ∀ p, (s.ptab p).pStatus.Alive → ∀ j, ¬ isClosed ((s.image p).uFiles j) →
    ∃ i, (s.image p).uFiles j = oftByte i ∧ (s.ofTab i).oInode ≠ none

/-- A table of closed descriptors has no references. -/
lemma refs_of_closed {files : Fin UFTSIZE → Byte} (closed : ∀ j, isClosed (files j)) : refs files (oftByte i) = 0 :=
  refs_eq_zero fun j e => not_isClosed_oftByte (e ▸ closed j)

namespace Kernel.Shares

/-- A process that has exited and has closed everything leaves nothing behind. -/
lemma stored_of_gone (h : s.Shares lost) (gone : ¬ (s.ptab s.udata.uPtab).pStatus.Alive)
    (closed : ∀ j, isClosed (s.udata.uFiles j)) : s.Stored lost := by
  have other : ∀ p, (s.ptab p).pStatus.Alive → p ≠ s.udata.uPtab := fun p alive e => gone (e ▸ alive)
  refine ⟨fun p alive => h.swap p (.inr alive), fun p alive => h.parent p (.inr alive), fun i => ?_,
    fun p alive => h.opened p (other p alive) alive⟩
  have living : s.living.erase s.udata.uPtab = s.living :=
    Finset.erase_eq_of_notMem fun mem => gone (Kernel.mem_living.mp mem)
  rw [h.counted.count, refs_of_closed closed, Kernel.count_heldElsewhere, Nat.zero_add, Kernel.otherRefs, living]

/-- The current process is saved. -/
lemma stored_of_saved (h : s.Shares lost) (alive : (s.ptab s.udata.uPtab).pStatus.Alive) : s.saved.Stored lost := by
  have swap := h.swap _ (.inl rfl)
  have own : s.saved.image s.udata.uPtab = s.udata := by
    show Function.update s.swap (s.ptab s.udata.uPtab).pSwap s.udata (s.ptab s.udata.uPtab).pSwap = _
    exact Function.update_self ..
  have other : ∀ p, p ≠ s.udata.uPtab → (s.ptab p).pStatus.Alive → s.saved.image p = s.image p := by
    intro p ne alive
    show Function.update s.swap (s.ptab s.udata.uPtab).pSwap s.udata (s.ptab p).pSwap = _
    rw [Function.update_of_ne]
    · rfl
    · rw [swap, h.swap p (.inr alive)]
      exact fun e => ne (swapBlk_inj e)
  refine ⟨fun p alive => h.swap p (.inr alive), fun p alive => h.parent p (.inr alive), fun i => ?_,
    fun p alive j opened => ?_⟩
  · have mem : s.udata.uPtab ∈ s.saved.living := Kernel.mem_living.mpr alive
    have rest : ∑ p ∈ s.saved.living.erase s.udata.uPtab, refs (s.saved.image p).uFiles (oftByte i) = s.otherRefs i :=
      Finset.sum_congr rfl fun p hp => by
        obtain ⟨ne, hp⟩ := Finset.mem_erase.mp hp
        rw [other p ne (Kernel.mem_living.mp hp)]
    rw [← Finset.add_sum_erase _ _ mem, rest, own]
    show (s.ofTab i).oRefs.toNat = _
    rw [h.counted.count, Kernel.count_heldElsewhere]
    omega
  · by_cases ne : p = s.udata.uPtab
    · subst ne
      rw [own] at opened ⊢
      exact h.counted.opened j opened
    · rw [other p ne alive] at opened ⊢
      exact h.opened p ne alive j opened

/-- What has been counted in all images. -/
lemma oRefs (h : s.Shares lost) (closed : ¬ (s.ptab s.udata.uPtab).pStatus.Alive → ∀ j, isClosed (s.udata.uFiles j)) :
    (s.ofTab i).oRefs.toNat = lost i + s.liveRefs i := by
  have others : ∑ p ∈ s.living.erase s.udata.uPtab, refs (s.data p).uFiles (oftByte i) = s.otherRefs i :=
    Finset.sum_congr rfl fun p hp => by
      rw [Kernel.data, if_neg (Finset.ne_of_mem_erase hp)]
      rfl
  rw [h.counted.count, Kernel.count_heldElsewhere, ← others, Kernel.liveRefs]
  by_cases alive : (s.ptab s.udata.uPtab).pStatus.Alive
  · rw [← Finset.add_sum_erase _ _ (Kernel.mem_living.mpr alive), Kernel.data, if_pos rfl]
    omega
  · rw [refs_of_closed (closed alive), Finset.erase_eq_of_notMem fun mem => alive (Kernel.mem_living.mp mem)]
    omega

end Kernel.Shares

/-- The process that is taken from the swap space has its files again. -/
lemma Kernel.Stored.load (h : s.Stored lost) (alive : (s.ptab p).pStatus.Alive) (own : (s.image p).uPtab = p) :
    ((s.withUdata (s.image p)).started p).Shares lost := by
  have running : PStatus.running.Alive := ⟨nofun, nofun⟩
  generalize hs : (s.withUdata (s.image p)).started p = s'
  have current : s'.udata.uPtab = p := hs ▸ own
  have files : s'.udata = s.image p := hs ▸ rfl
  have tab : s'.ofTab = s.ofTab := hs ▸ rfl
  have entry : ∀ q, s'.ptab q = if q = p then { s.ptab p with pStatus := .running } else s.ptab q :=
    fun q => hs ▸ Function.update_apply ..
  have image : ∀ q, s'.image q = s.image q := by
    intro q
    unfold Kernel.image
    rw [entry, show s'.swap = s.swap from hs ▸ rfl]
    split
    · next same => rw [same]
    · rfl
  have live : ∀ q, (s'.ptab q).pStatus.Alive ↔ (s.ptab q).pStatus.Alive := by
    intro q
    rw [entry]
    split
    · next same => exact iff_of_true running (same.symm ▸ alive)
    · rfl
  have was : ∀ q, q = s'.udata.uPtab ∨ (s'.ptab q).pStatus.Alive → (s.ptab q).pStatus.Alive := fun q or =>
    or.elim (fun same => by rwa [same, current]) (live q).mp
  have living : s'.living = s.living := Finset.ext fun q => by rw [Kernel.mem_living, Kernel.mem_living, live]
  refine ⟨fun q or => ?_, fun q or => ?_, ⟨fun i => ?_, fun j opened => ?_⟩, fun q _ hq j opened => ?_⟩
  · have swap := h.swap q (was q or)
    rw [entry]
    split
    · next same => rw [← same, swap]
    · exact swap
  · have parent := h.parent q (was q or)
    rw [entry]
    split
    · next same => exact same ▸ parent
    · exact parent
  · have others : s'.otherRefs i = ∑ q ∈ s.living.erase p, refs (s.image q).uFiles (oftByte i) := by
      unfold Kernel.otherRefs
      rw [living, current]
      exact Finset.sum_congr rfl fun q _ => by rw [image]
    rw [tab, h.count, Kernel.count_heldElsewhere, files, others,
      ← Finset.add_sum_erase _ _ (Kernel.mem_living.mpr alive)]
    omega
  · rw [files] at opened ⊢
    rw [tab]
    exact h.opened p alive j opened
  · rw [image] at opened ⊢
    rw [tab]
    exact h.opened q ((live q).mp hq) j opened

/-- What holds of the files and of the current process when the processor has come to `ctl`. -/
structure Kernel.Stands (lost : Fin OFTSIZE → Nat) (s : Kernel) (ctl : Ctl) : Prop where
  shares : s.Shares lost
  alive : ctl ≠ .getproc true → (s.ptab s.udata.uPtab).pStatus.Alive
  gone : ctl = .getproc true → ¬ (s.ptab s.udata.uPtab).pStatus.Alive ∧ ∀ j, isClosed (s.udata.uFiles j)

/-- The process that has been started is alive. -/
lemma Kernel.started_alive {s : Kernel} (own : s.udata.uPtab = p) :
    ((s.started p).ptab (s.started p).udata.uPtab).pStatus.Alive := by
  show ((s.setProc p _).ptab s.udata.uPtab).pStatus.Alive
  rw [own, Kernel.ptab_setProc]
  exact ⟨nofun, nofun⟩

/-- The process that has been selected goes on. -/
lemma Kernel.Stands.wp_switchTo {exited : Bool} (h : s.Stands lost (.getproc exited)) (apart : s.OthersApart)
    (ready : (s.ptab p).pStatus = .ready) :
    wp (switchTo exited p) (fun _ s' => s'.Stands lost .running) (fun _ => True) s := by
  have alive : (s.ptab p).pStatus.Alive := ready ▸ ⟨nofun, nofun⟩
  refine wp_switchTo_started trivial (fun gone own => ?_) (fun stays own => ?_) fun stays own => ?_
  · obtain ⟨dead, closed⟩ := h.gone (gone ▸ rfl)
    exact ⟨(h.shares.stored_of_gone dead closed).load alive own, fun _ => Kernel.started_alive own, nofun⟩
  · subst own
    have running : Idly s (s.setProc s.udata.uPtab { s.ptab s.udata.uPtab with pStatus := .running }) :=
      ⟨.setOwn (fun _ => ⟨nofun, nofun⟩) rfl rfl, rfl, rfl, rfl⟩
    have tick : Idly (s.setProc s.udata.uPtab { s.ptab s.udata.uPtab with pStatus := .running })
        (s.started s.udata.uPtab) := ⟨.of_ptab rfl rfl rfl rfl, rfl, rfl, rfl⟩
    have idly := trans_of Idly running tick
    have e := (h.shares.working apart).goesOn idly
    exact ⟨h.shares.next e.beside e.files, fun _ => Kernel.started_alive rfl, nofun⟩
  · have stored := h.shares.stored_of_saved (h.alive (by rw [stays]; exact nofun))
    exact ⟨stored.load alive own, fun _ => Kernel.started_alive own, nofun⟩

/-! ## Forks -/

/-- Either there is no slot, or the current process is another one, with the same descriptors, and every entry
has got a reference for each of them. -/
lemma wp_dofork_files (used : (s.ptab s.udata.uPtab).pStatus ≠ .empty) :
    wp dofork (fun _ s' => SameFiles s s' ∧ s'.udata.uPtab = s.udata.uPtab ∨
      s'.udata.uPtab ≠ s.udata.uPtab ∧ s'.udata.uFiles = s.udata.uFiles ∧
      ∀ i, s'.ofTab i = { s.ofTab i with
        oRefs := (s.ofTab i).oRefs + BitVec.ofNat 8 (refs s.udata.uFiles (oftByte i)) }) (fun _ => True) s := by
  unfold dofork
  rw [wp_bind]
  refine wp_mono wp_ptabAlloc (fun r s₁ h => ?_) fun _ => False.elim
  cases r with
  | none =>
    cases h
    exact .inl ⟨⟨rfl, rfl, rfl⟩, rfl⟩
  | some p =>
    obtain ⟨pid, free, rfl⟩ := h
    have ne : p ≠ s.udata.uPtab := fun e => used (e ▸ free.empty)
    dsimp only
    rw [wp_bind, wp_get, wp_bind, wp_modifyPtab, wp_bind, wp_swrite, wp_bind]
    refine wp_post wp_newproc fun _ s₂ ⟨s₁, tab, bss, files, uPtab, cwd, referred⟩ => ?_
    rw [wp_bind, wp_modify, wp_bind, wp_modifyPtab]
    have udata : s₂.udata = s₁.udata := by rw [referred.rest]
    refine .inr ⟨?_, ?_, fun i => ?_⟩
    · show s₂.udata.uPtab ≠ s.udata.uPtab
      rwa [udata, uPtab]
    · show s₂.udata.uFiles = _
      rw [udata, files]
      rfl
    · show s₂.ofTab i = _
      rw [referred.tab, Kernel.countP_files, tab]
      rfl

instance : Forking Besides where
  time _ _ := .of_ptab rfl rfl rfl rfl
  reset _ := .of_ptab rfl rfl rfl rfl

section Forked

variable {s₁ : Kernel} {pid : Nat}

/-- A fork stores no times, so that none of another process becomes an address. -/
lemma Kernel.OthersApart.forked (apart : s.OthersApart) (forked : s.Forked s₁ p pid) : s₁.OthersApart := by
  intro q ne zombie
  rw [forked.uPtab] at ne
  have other : q ≠ s.udata.uPtab := by
    rintro rfl
    rw [forked.parent] at zombie
    exact absurd zombie nofun
  rw [forked.others q ne other] at zombie ⊢
  rw [forked.layout]
  exact apart q other zombie

/-- The parent is saved with its descriptors, and the child has the same ones. -/
lemma Kernel.Shares.forked (h : s.Shares lost) (room : ∀ i, lost i ≤ 44)
    (alive : (s.ptab s.udata.uPtab).pStatus.Alive) (free : s.Free p pid) (forked : s.Forked s₁ p pid)
    (beside : Beside s₁ s') (files : s'.udata.uFiles = s.udata.uFiles)
    (tab : ∀ i, s'.ofTab i = { s.ofTab i with
      oRefs := (s.ofTab i).oRefs + BitVec.ofNat 8 (refs s.udata.uFiles (oftByte i)) }) : s'.Shares lost := by
  have current : s'.udata.uPtab = p := beside.uPtab.trans forked.uPtab
  have before : ∀ q, q ≠ p → (s₁.ptab q).pSwap = (s.ptab q).pSwap ∧ (s₁.ptab q).pPptr = (s.ptab q).pPptr ∧
      ((s₁.ptab q).pStatus.Alive ↔ (s.ptab q).pStatus.Alive) := by
    intro q ne
    by_cases own : q = s.udata.uPtab
    · rw [own, forked.parent]
      exact ⟨rfl, rfl, iff_of_true ⟨nofun, nofun⟩ alive⟩
    · rw [forked.others q ne own]
      exact ⟨rfl, rfl, .rfl⟩
  have live : ∀ q, q ≠ p → ((s'.ptab q).pStatus.Alive ↔ (s.ptab q).pStatus.Alive) := fun q ne =>
    (beside.alive q (forked.uPtab.symm ▸ ne)).trans (before q ne).2.2
  have slot : s'.living.erase p = s.living := by
    ext q
    rw [Finset.mem_erase, Kernel.mem_living, Kernel.mem_living]
    refine ⟨fun ⟨ne, hq⟩ => (live q ne).mp hq, fun hq => ?_⟩
    have ne : q ≠ p := fun e => hq.1 (e ▸ free.empty)
    exact ⟨ne, (live q ne).mpr hq⟩
  have ne : s.udata.uPtab ≠ p := fun e => alive.1 (e ▸ free.empty)
  have image : ∀ q, q ≠ p → s'.image q = Function.update s.swap (swapBlk s.udata.uPtab) s.udata (s.ptab q).pSwap := by
    intro q hq
    unfold Kernel.image
    rw [beside.swap, beside.pSwap, forked.swap, (before q hq).1]
  have own : s'.image s.udata.uPtab = s.udata := by
    rw [image _ ne, h.swap _ (.inl rfl), Function.update_self]
  have other : ∀ q, q ≠ s.udata.uPtab → (s.ptab q).pStatus.Alive → s'.image q = s.image q := by
    intro q hq alive
    have hp : q ≠ p := fun e => alive.1 (e ▸ free.empty)
    rw [image q hp, h.swap q (.inr alive), Function.update_of_ne fun e => hq (swapBlk_inj e),
      ← h.swap q (.inr alive)]
    rfl
  have others : ∀ i, s'.otherRefs i = refs s.udata.uFiles (oftByte i) + s.otherRefs i := by
    intro i
    unfold Kernel.otherRefs
    rw [current, slot, ← Finset.add_sum_erase _ _ (Kernel.mem_living.mpr alive), own]
    refine congrArg (_ + ·) (Finset.sum_congr rfl fun q hq => ?_)
    obtain ⟨hq, mem⟩ := Finset.mem_erase.mp hq
    rw [other q hq (Kernel.mem_living.mp mem)]
  have inode : ∀ i, (s'.ofTab i).oInode = (s.ofTab i).oInode := fun i => by rw [tab]
  have was : ∀ q, q ≠ p → q = s'.udata.uPtab ∨ (s'.ptab q).pStatus.Alive → (s.ptab q).pStatus.Alive := by
    intro q hq or
    rw [current] at or
    exact (live q hq).mp (or.resolve_left hq)
  refine ⟨fun q or => ?_, fun q or => beside.parent q ?_, ⟨fun i => ?_, fun j opened => ?_⟩,
    fun q hq alive' j opened => ?_⟩
  · rw [beside.pSwap]
    by_cases hq : q = p
    · rw [hq, forked.child.swap]
    · rw [(before q hq).1]
      exact h.swap q (.inr (was q hq or))
  · by_cases hq : q = p
    · rw [hq, forked.child.parent]
      exact Option.some_ne_none _
    · rw [(before q hq).2.1]
      exact h.parent q (.inr (was q hq or))
  · have size : refs s.udata.uFiles (oftByte i) ≤ 10 := refs_le
    have few := s.otherRefs_le (i := i)
    have room := room i
    have count := h.counted.count i
    rw [Kernel.count_heldElsewhere] at count
    rw [tab, Byte.toNat_add_iff.mpr (by omega), count, files, Kernel.count_heldElsewhere, others]
    omega
  · rw [files] at opened ⊢
    obtain ⟨i, hi, some⟩ := h.counted.opened j opened
    exact ⟨i, hi, (inode i).symm ▸ some⟩
  · rw [current] at hq
    by_cases parent : q = s.udata.uPtab
    · subst parent
      rw [own] at opened ⊢
      obtain ⟨i, hi, some⟩ := h.counted.opened j opened
      exact ⟨i, hi, (inode i).symm ▸ some⟩
    · have alive := (live q hq).mp alive'
      rw [other q parent alive] at opened ⊢
      obtain ⟨i, hi, some⟩ := h.opened q parent alive j opened
      exact ⟨i, hi, (inode i).symm ▸ some⟩

/-- A fork shares the files of the parent with the child. -/
lemma Kernel.Stands.wp_dofork (h : s.Stands lost .running) (room : ∀ i, lost i ≤ 44) (apart : s.OthersApart) :
    wp dofork (fun _ s' => s'.Stands lost .running) (fun _ => True) s := by
  have alive := h.alive nofun
  have failed : ∀ {s'}, Besides s s' → SameFiles s s' → s'.Stands lost .running := by
    intro s' besides same
    have e := (h.shares.working apart).goesOn ⟨besides, same⟩
    exact ⟨h.shares.next e.beside e.files, fun _ => e.beside.uPtab.symm ▸ e.alive id alive, nofun⟩
  refine wp_mono ((wp_dofork_forked (R := Besides) (E := fun _ => True) (h.shares.swap _ (.inl rfl)) alive.1).and
    (wp_dofork_files alive.1)) (fun _ s' ⟨shape, files⟩ => ?_) fun _ _ => trivial
  cases shape with
  | inl besides =>
    cases files with
    | inl same => exact failed besides same.1
    | inr moved => exact absurd (besides apart).1.uPtab moved.1
  | inr forked =>
    obtain ⟨p, pid, s₁, s₂, free, forked, -, besides, rfl⟩ := forked
    obtain ⟨beside₂, alive₂⟩ := besides (apart.forked forked)
    have own : s₂.udata.uPtab = p := beside₂.uPtab.trans forked.uPtab
    have start : ∀ t : Kernel, Besides t
        (t.setProc t.udata.uPtab { t.ptab t.udata.uPtab with pStatus := .running }) := fun _ =>
      .setOwn (fun _ => ⟨nofun, nofun⟩) rfl rfl
    have tick : Besides s₂ { s₂ with runticks := 0 } := .of_ptab rfl rfl rfl rfl
    have running := trans_of Besides tick (start _)
    subst own
    obtain ⟨beside, alive'⟩ := running beside₂.apart
    have started : (s₁.ptab s₁.udata.uPtab).pStatus.Alive := by
      rw [forked.uPtab, forked.child.status]
      exact ⟨nofun, nofun⟩
    cases files with
    | inl same => exact absurd same.2 fun e => alive.1 (e ▸ free.empty)
    | inr counted =>
      obtain ⟨-, files, tab⟩ := counted
      refine ⟨h.shares.forked room alive free forked (beside₂.trans beside) files tab, fun _ => ?_, nofun⟩
      exact beside.uPtab.symm ▸ alive' (beside₂.uPtab.symm ▸ alive₂ started)

end Forked

/-! ## Runs -/

/-- A step of the processor in which a process makes an operation on the process table, opens, closes or copies
a descriptor, or does something that touches neither the scheduling nor the files. -/
inductive Machine.FileStep : Machine → Machine → Prop
  | op {k k' : Kernel} {ctl : Ctl} (o : ProcOp) (returned : o.run k = .ok (ctl, k')) (user : o.InUser k ctl) :
    Machine.FileStep ⟨k, .running⟩ ⟨k', ctl⟩
  | open {k k' : Kernel} {name : CStr} {flag r : Word} (returned : _open name flag k = .ok (r, k')) :
    Machine.FileStep ⟨k, .running⟩ ⟨k', .running⟩
  | close {k k' : Kernel} {d r : Word} (returned : _close d k = .ok (r, k')) :
    Machine.FileStep ⟨k, .running⟩ ⟨k', .running⟩
  | dup {k k' : Kernel} {d r : Word} (returned : _dup d k = .ok (r, k')) :
    Machine.FileStep ⟨k, .running⟩ ⟨k', .running⟩
  | other {k k' : Kernel} (elsewhere : Elsewhere k k') (files : SameFiles k k') :
    Machine.FileStep ⟨k, .running⟩ ⟨k', .running⟩
  | interrupt {k k' : Kernel} {exited : Bool} (i : Interrupt) (returned : i.run k = .ok (⟨⟩, k')) :
    Machine.FileStep ⟨k, .getproc exited⟩ ⟨k', .getproc exited⟩
  | look {k k' : Kernel} {exited : Bool} (round : getprocRound k = .ok (none, k')) :
    Machine.FileStep ⟨k, .getproc exited⟩ ⟨k', .getproc exited⟩
  | switch {k k' k'' : Kernel} {exited : Bool} {newp : Fin PTABSIZE}
    (round : getprocRound k = .ok (some newp, k')) (returned : switchTo exited newp k' = .ok (⟨⟩, k'')) :
    Machine.FileStep ⟨k, .getproc exited⟩ ⟨k'', .running⟩

/-- A run from `m` in which no time stored in a zombie is an address that processes sleep on. -/
inductive Machine.FileRun (m : Machine) : Machine → Prop
  | start : Machine.FileRun m m
  | step {m' m'' : Machine} (run : Machine.FileRun m m') (next : Machine.FileStep m' m'')
    (apart : m''.k.TimesApart) : Machine.FileRun m m''

/-- Where the times are not mistaken for an address, neither are those of the others. -/
lemma Kernel.TimesApart.others (apart : s.TimesApart) : s.OthersApart := fun p _ => apart p

/-- What changes elsewhere leaves the others alone. -/
lemma Elsewhere.besides (h : Elsewhere s s') : Besides s s' := by
  refine fun apart => ⟨.of_entries apart h.layout h.swap h.uPtab h.swapBlk (fun p => ?_) (fun p _ => ?_)
    fun p _ dead => ?_, fun alive => ?_⟩
  · rw [h.parent]
    exact id
  · rw [h.status]
  · rw [h.status] at dead
    exact ⟨dead, .inl (h.wait p)⟩
  · rwa [h.status]

/-- A piece of code after which the processor is where it was. -/
lemma Kernel.Stands.idly {ctl : Ctl} (h : s.Stands lost ctl) (apart : s.OthersApart) (idly : Idly s s')
    (still : ctl = .getproc true → (s'.ptab s'.udata.uPtab).pStatus.Alive → (s.ptab s.udata.uPtab).pStatus.Alive) :
    s'.Stands lost ctl := by
  have e := (h.shares.working apart).goesOn idly
  refine ⟨h.shares.next e.beside e.files, fun on => ?_, fun exited => ?_⟩
  · exact e.beside.uPtab.symm ▸ e.alive id (h.alive on)
  · obtain ⟨dead, closed⟩ := h.gone exited
    exact ⟨fun alive => dead (still exited alive), fun j => idly.2.2.2.symm ▸ closed j⟩

/-- A call of the current process. -/
lemma Kernel.Stands.call (h : s.Stands lost .running) (apart : s.OthersApart) (besides : Besides s s')
    (files : Settled (s.heldElsewhere lost) s s') : s'.Stands lost .running := by
  obtain ⟨beside, alive⟩ := besides apart
  exact ⟨h.shares.next beside files, fun _ => beside.uPtab.symm ▸ alive (h.alive nofun), nofun⟩

/-- An operation on the process table. -/
lemma Kernel.Stands.op {o : ProcOp} {ctl : Ctl} (h : s.Stands lost .running) (room : ∀ i, lost i ≤ 44)
    (apart : s.OthersApart) (returned : o.run s = .ok (ctl, s')) (user : o.InUser s ctl) : s'.Stands lost ctl := by
  by_cases fork : o = .fork
  · subst fork
    have run : wp (do let _ ← dofork; pure Ctl.running) (fun ctl s' => s'.Stands lost ctl) (fun _ => True) s := by
      rw [wp_bind]
      exact wp_post (h.wp_dofork room apart) fun _ _ => id
    exact run.ok returned
  · have e : s.Calls _ ctl s' := (o.wp_run_ends user (h.shares.working apart) fork).ok returned
    refine ⟨h.shares.next e.beside e.files, fun on => ?_, e.gone⟩
    exact e.beside.uPtab.symm ▸ e.alive on (h.alive nofun)

/-- An interrupt while the processor is in `getproc`. -/
lemma Kernel.Stands.interrupt {i : Interrupt} {exited : Bool} (h : s.Stands lost (.getproc exited))
    (apart : s.TimesApart) (returned : i.run s = .ok (⟨⟩, s')) : s'.Stands lost (.getproc exited) := by
  have quiet : Within Idly (fun _ => True) i.run := by
    cases i with
    | wakeup event => exact Idly.wakeup event.2
    | signal proc sig => exact Idly.sendsig
  have calmly : Within Calmly (fun _ => True) i.run := i.within_run
  obtain ⟨calm, -⟩ := calmly.ok returned apart
  refine h.idly apart.others (quiet.ok returned) fun _ alive => ?_
  rw [calm.uPtab] at alive
  exact (calm.alike _).alive.mp alive

/-- A step keeps the counts. -/
lemma Machine.FileStep.stands {m m' : Machine} (step : m.FileStep m') (h : m.k.Stands lost m.ctl)
    (room : ∀ i, lost i ≤ 44) (apart : m.k.TimesApart) : m'.k.Stands lost m'.ctl := by
  have few : ∀ i, (m.k.heldElsewhere lost).count i ≤ 244 := fun i => Kernel.Shares.few room
  have settled : Settled (m.k.heldElsewhere lost) m.k m.k := .refl h.shares.counted
  cases step with
  | op o returned user => exact h.op room apart.others returned user
  | «open» returned =>
    exact h.call apart.others (Filing.open.ok returned) ((wp_open settled).ok returned)
  | @close k k' d r returned =>
    have besides : Within Besides (fun _ => True) (_close d) := Filing.doclose
    exact h.call apart.others (besides.ok returned) ((wp_close settled).ok returned)
  | dup returned =>
    exact h.call apart.others (Filing.dup.ok returned) ((wp_dup settled few).ok returned)
  | other elsewhere files => exact h.idly apart.others ⟨elsewhere.besides, files⟩ nofun
  | interrupt i returned => exact h.interrupt apart returned
  | look round =>
    obtain ⟨rfl, -⟩ := (wp_getprocRound_found (E := fun _ => True) trivial).ok round
    exact h.idly apart.others ⟨.of_ptab rfl rfl rfl rfl, rfl, rfl, rfl⟩ fun _ => id
  | @switch k k' k'' exited newp round returned =>
    obtain ⟨rfl, ready⟩ := (wp_getprocRound_found (E := fun _ => True) trivial).ok round
    have h' : ({ k with pp := k.pp + 1 } : Kernel).Stands lost (.getproc exited) :=
      h.idly apart.others ⟨.of_ptab rfl rfl rfl rfl, rfl, rfl, rfl⟩ fun _ => id
    exact (h'.wp_switchTo apart.others (ready _ rfl)).ok returned

/-! ## Booting -/

/-- What `init2` does to the descriptors and to the open file table: `newproc` counts references for a table of
descriptors that has not been set up, and then every descriptor is closed. -/
def init2Files : K PUnit := do
  each (List.finRange UFTSIZE) fun j => do oftRef ((← get).udata.uFiles j)
  each (List.finRange UFTSIZE) fun j => setFile j 0xff

/-- The files after `init2`, before which the variables are zero. -/
def Kernel.FilesBooted (s : Kernel) : Prop :=
  ∃ s₀ s₁, (∀ i, (s₀.ofTab i).oRefs = 0) ∧ (∀ j, s₀.udata.uFiles j = 0) ∧ init2Files s₀ = .ok (⟨⟩, s₁) ∧
    SameFiles s₁ s

/-- The references that `init2` leaves to entry 0. -/
def bootRefs (i : Fin OFTSIZE) : Nat := if i = 0 then 10 else 0

/-- `init2` opens its files in empty tables. -/
lemma wp_init2Files (zero : ∀ j, s.udata.uFiles j = 0) :
    wp init2Files (fun _ s' => (∀ i, s'.ofTab i = { s.ofTab i with
      oRefs := (s.ofTab i).oRefs + BitVec.ofNat 8 (bootRefs i) }) ∧ s'.ofBss = s.ofBss ∧
      ∀ j, s'.udata.uFiles j = 0xff) (fun _ => False) s := by
  unfold init2Files
  rw [wp_bind]
  refine wp_post wp_oftRefs fun _ s₁ referred => ?_
  have tab : ∀ i, s₁.ofTab i = { s.ofTab i with oRefs := (s.ofTab i).oRefs + BitVec.ofNat 8 (bootRefs i) } := by
    intro i
    have count : refs s.udata.uFiles (oftByte i) = bootRefs i := by
      rw [show s.udata.uFiles = fun _ => 0 from funext zero]
      revert i
      decide
    rw [referred.tab, Kernel.countP_files, count]
  have bss : s₁.ofBss = s.ofBss := by
    funext n
    rw [referred.bss, List.countP_eq_zero.mpr, BitVec.add_zero]
    intro x mem e
    obtain ⟨j, -, rfl⟩ := List.mem_map.mp mem
    rw [zero, decide_eq_true_iff] at e
    exact absurd e.1 (by decide)
  refine wp_post (wp_each (fun js s' => s'.ofTab = s₁.ofTab ∧ s'.ofBss = s₁.ofBss ∧
    ∀ j, j ∉ js → s'.udata.uFiles j = 0xff) ?_ ⟨rfl, rfl, fun j no => absurd (List.mem_finRange j) no⟩)
    fun _ s' h => ⟨fun i => by rw [h.1, tab], h.2.1.trans bss, fun j => h.2.2 j List.not_mem_nil⟩
  · intro j js _ s₂ ⟨same, same', before⟩
    refine ⟨same, same', fun k no => ?_⟩
    show Function.update s₂.udata.uFiles j 0xff k = 0xff
    by_cases own : k = j
    · rw [own, Function.update_self]
    · rw [Function.update_of_ne own]
      exact before k fun mem => (List.mem_cons.mp mem).elim own no

/-- The first process shares its files with nobody, and ten references to entry 0 are lost. -/
lemma Booted.stands {m : Machine} (boot : Booted m) (files : m.k.FilesBooted) : m.k.Stands bootRefs m.ctl := by
  obtain ⟨k, ctl⟩ := m
  obtain ⟨s₀, s₁, refs₀, zero, returned, tab, -, same⟩ := files
  obtain ⟨tab₁, -, closed⟩ := (wp_init2Files zero).ok returned
  have current : k.udata.uPtab = k.initproc := boot.current
  have init := boot.init
  have running : (k.ptab k.udata.uPtab).pStatus = .running := by
    rw [current]
    exact congrArg PTab.pStatus init
  have only : ∀ p, p = k.udata.uPtab ∨ (k.ptab p).pStatus.Alive → p = k.initproc := by
    intro p or
    by_contra ne
    exact or.elim (fun e => ne (e.trans current)) fun alive => alive.1 (boot.others p ne)
  have alone : k.living.erase k.udata.uPtab = ∅ := by
    refine Finset.eq_empty_of_forall_notMem fun p mem => ?_
    obtain ⟨ne, alive⟩ := Finset.mem_erase.mp mem
    exact ne ((only p (.inr (Kernel.mem_living.mp alive))).trans current.symm)
  have closed : ∀ j, isClosed (k.udata.uFiles j) := by
    intro j
    rw [same, closed]
    exact isClosed_minus_one
  refine ⟨⟨fun p or => ?_, fun p or => ?_, ⟨fun i => ?_, fun j opened => absurd (closed j) opened⟩,
    fun p ne alive => ?_⟩, fun _ => ?_, fun on => ?_⟩
  · rw [only p or]
    exact congrArg PTab.pSwap init
  · rw [only p or, congrArg PTab.pPptr init]
    exact Option.some_ne_none _
  · have count : (0 + BitVec.ofNat 8 (bootRefs i) : Byte).toNat = bootRefs i := by
      revert i
      decide
    rw [refs_of_closed closed, Kernel.count_heldElsewhere, Kernel.otherRefs, alone, Finset.sum_empty]
    show (k.ofTab i).oRefs.toNat = _
    rw [tab, tab₁, refs₀]
    exact count.trans (by omega)
  · exact absurd ((only p (.inr alive)).trans current.symm) ne
  · exact running ▸ ⟨nofun, nofun⟩
  · exact absurd (boot.ctl.symm.trans on) nofun

/-- `init2` loses few references. -/
lemma bootRefs_le : bootRefs i ≤ 44 := by
  revert i
  decide

/-- A run after booting keeps the counts right. -/
lemma Machine.FileRun.stands {m₀ m : Machine} (boot : Booted m₀) (files : m₀.k.FilesBooted)
    (run : m₀.FileRun m) : m.k.Stands bootRefs m.ctl ∧ m.k.TimesApart := by
  induction run with
  | start => exact ⟨boot.stands files, boot.sound.apart⟩
  | step _ next apart ih => exact ⟨next.stands ih.1 (fun _ => bootRefs_le) ih.2, apart⟩

/-- `newproc` counts the files exactly where every descriptor is open, and no count overflows. In every state
of a run after booting every `o_refs` but the first one is the number of descriptors that refer to the entry,
over all live processes. -/
theorem files_shared {s s' : Kernel} {p : Fin PTABSIZE} {m₀ m : Machine}
    (returned : newproc p s = .ok (⟨⟩, s')) (boot : Booted m₀) (files : m₀.k.FilesBooted) (run : m₀.FileRun m) :
    (s.CountsFiles s' ↔ s.AllOpen) ∧ ∀ i, (m.k.ofTab i).oRefs.toNat = m.k.liveRefs i ↔ i ≠ 0 := by
  refine ⟨countsFiles_iff returned, fun i => ?_⟩
  obtain ⟨stands, -⟩ := run.stands boot files
  have closed : ¬ (m.k.ptab m.k.udata.uPtab).pStatus.Alive → ∀ j, isClosed (m.k.udata.uFiles j) := by
    intro dead
    by_cases exited : m.ctl = .getproc true
    · exact (stands.gone exited).2
    · exact absurd (stands.alive exited) dead
  rw [stands.shares.oRefs closed, bootRefs]
  split
  · next zero => exact iff_of_false (by omega) fun ne => ne zero
  · next ne => exact iff_of_true (by omega) ne

/-- The machine after `init2`. -/
def Machine.filesBooted : Machine :=
  ⟨{ Machine.booted.k with ofTab := fun i => { Machine.booted.k.ofTab i with oRefs := BitVec.ofNat 8 (bootRefs i) } },
    .running⟩

/-- The machine has been booted. -/
lemma filesBooted_booted : Booted Machine.filesBooted where
  ctl := rfl
  current := rfl
  nextpid := rfl
  init := rfl
  others := booted_booted.others

/-- A kernel that has the files of `s₀` and those that `init2` makes of them. -/
lemma Kernel.FilesBooted.of_zero (s₀ : Kernel) (refs₀ : ∀ i, (s₀.ofTab i).oRefs = 0)
    (zero : ∀ j, s₀.udata.uFiles j = 0)
    (tab : ∀ i, s.ofTab i = { s₀.ofTab i with oRefs := (s₀.ofTab i).oRefs + BitVec.ofNat 8 (bootRefs i) })
    (bss : s.ofBss = s₀.ofBss) (closed : ∀ j, s.udata.uFiles j = 0xff) : s.FilesBooted := by
  obtain ⟨_, s₁, returned, tab₁, bss₁, closed₁⟩ := (wp_init2Files zero).returns
  refine ⟨s₀, s₁, refs₀, zero, returned, funext fun i => ?_, bss.trans bss₁.symm, funext fun j => ?_⟩
  · rw [tab, tab₁]
  · rw [closed, closed₁]

/-- `init2` has made its files. -/
lemma filesBooted_files : Machine.filesBooted.k.FilesBooted := by
  refine .of_zero (Machine.booted.k.withUdata { Machine.booted.k.udata with uFiles := fun _ => 0 })
    (fun _ => rfl) (fun _ => rfl) (fun i => ?_) rfl fun _ => rfl
  have count : BitVec.ofNat 8 (bootRefs i) = (0 : Byte) + BitVec.ofNat 8 (bootRefs i) := (BitVec.zero_add _).symm
  exact congrArg (fun x => ({ Machine.booted.k.ofTab i with oRefs := x } : Oft)) count

/-- A process that has ten descriptors of entry 1. -/
def Kernel.tenFiles : Kernel :=
  let s := Machine.filesBooted.k
  { s with udata := { s.udata with uFiles := fun _ => 1 } }

/-- The first process forks. -/
lemma filesBooted_fork : wp ProcOp.fork.run (fun ctl k => ctl = .running ∧ k.udata.uPtab = 1 ∧
    ∀ p, (k.ptab p).pStatus ≠ .zombie) (fun _ => False) Machine.filesBooted.k := by decide +kernel

/-- So does the process with ten descriptors. -/
lemma tenFiles_newproc : wp (newproc 1) (fun _ _ => True) (fun _ => False) Kernel.tenFiles := by decide +kernel

/-- The ten closed descriptors are counted where an entry 255 would have its `o_refs`. -/
lemma filesBooted_newproc : wp (newproc 1) (fun _ s' => s'.ofBss 255 = 10) (fun _ => False)
    Machine.filesBooted.k := by decide +kernel

/-- The first process forks after booting, and so does a process that has ten descriptors of entry 1. -/
theorem files_shared_fork : ∃ s' k : Kernel, (Kernel.tenFiles.CountsFiles s' ↔ Kernel.tenFiles.AllOpen) ∧
    k.udata.uPtab = 1 ∧ ∀ i, (k.ofTab i).oRefs.toNat = k.liveRefs i ↔ i ≠ 0 := by
  obtain ⟨_, k, returned, rfl, current, live⟩ := filesBooted_fork.returns
  obtain ⟨_, s', returned', -⟩ := tenFiles_newproc.returns
  have run : Machine.filesBooted.FileRun ⟨k, .running⟩ :=
    .step .start (.op .fork returned trivial) fun p dead => absurd dead (live p)
  obtain ⟨counts, shared⟩ := files_shared returned' filesBooted_booted filesBooted_files run
  exact ⟨s', k, counts, current, shared⟩

/-- After booting entry 0 has ten references and no descriptor, and a fork of the first process, which has no
open descriptors, counts references outside the open file table. -/
theorem not_files_shared :
    (Booted Machine.filesBooted ∧ Machine.filesBooted.k.FilesBooted ∧
      (Machine.filesBooted.k.ofTab 0).oRefs.toNat ≠ Machine.filesBooted.k.liveRefs 0) ∧
    ∃ s', newproc 1 Machine.filesBooted.k = .ok (⟨⟩, s') ∧ s'.ofBss ≠ Machine.filesBooted.k.ofBss := by
  refine ⟨⟨filesBooted_booted, filesBooted_files, by decide +kernel⟩, ?_⟩
  obtain ⟨_, s', returned, ten⟩ := filesBooted_newproc.returns
  refine ⟨s', returned, fun same => ?_⟩
  rw [same] at ten
  exact absurd ten (by decide)

end Uzi
