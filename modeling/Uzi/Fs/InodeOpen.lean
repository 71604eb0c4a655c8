import Uzi.Fs.InodeTable

/-!
# Opening an inode

`i_open` searches the whole table, from a position that moves, for an entry of the inode and for one
without references. What it returns is the one entry of the inode (`Kernel.Opened`); an entry that it
takes over has nothing to be written, so that no inode changes.
-/

namespace Uzi
open Exec WriteBack

/-! ## The search -/

/-- The entry that the search looks at after `k` others, from `j` on. -/
def nextEntry (j : Inoptr) (k : Nat) : Inoptr := Fin.ofNat ITABSIZE (j + 1 + k)

/-- The next entry. -/
lemma nextEntry_zero {j : Inoptr} : nextEntry j 0 = j + 1 := by
  apply Fin.ext
  simp [nextEntry, Fin.val_add]

/-- The entry behind the next one. -/
lemma nextEntry_succ {j : Inoptr} {k : Nat} : nextEntry (j + 1) k = nextEntry j (k + 1) := by
  apply Fin.ext
  have e : (j + 1).val = (j.val + 1) % 20 := Fin.val_add j 1
  show ((j + 1).val + 1 + k) % 20 = (j.val + 1 + (k + 1)) % 20
  omega

/-- The search gets to every entry. -/
lemma exists_nextEntry (j i : Inoptr) : ∃ k < ITABSIZE, nextEntry j k = i := by
  refine ⟨(i + 19 - j) % 20, Nat.mod_lt _ (by decide), Fin.ext ?_⟩
  have hi : i.val < 20 := i.isLt
  have hj : j.val < 20 := j.isLt
  show (j.val + 1 + (i.val + 19 - j.val) % 20) % 20 = i.val
  omega

/-- What a search through `n` entries after `j` finds, `nindex` having been found before. -/
def Searched (s : Kernel) (m : Nat × Word) (j : Inoptr) (n : Nat) (nindex : Option Inoptr) :
    Bool × Option Inoptr → Prop
  | (true, r) => ∃ i, r = some i ∧ (s.iTab i).Names m
  | (false, r) =>
    (∀ k < n, ¬ (s.iTab (nextEntry j k)).Names m) ∧
      (∀ i, r = some i → (s.iTab i).cRefs = 0 ∨ nindex = some i) ∧
      (r = none → nindex = none ∧ ∀ k < n, (s.iTab (nextEntry j k)).cRefs ≠ 0)

variable {s : Kernel} {dev : Nat} {num : Word}

/-- The search in the table of inodes. -/
lemma wp_iSearch (ne : num ≠ 0) {n : Nat} {j : Inoptr} {nindex : Option Inoptr} :
    wp (iSearch dev num n j nindex)
      (fun r s' => (∃ k, s' = { s with nexti := k }) ∧ Searched s (dev, num) j n nindex r) (fun _ => False) s := by
  induction n generalizing s j nindex with
  | zero =>
    refine ⟨⟨s.nexti, rfl⟩, nofun, ?_, ?_⟩
    · exact fun i e => .inr e
    · exact fun none => ⟨none, nofun⟩
  | succ n ih =>
    rw [iSearch, wp_bind, wp_modify, wp_bind, wp_get]
    show wp (if _ then _ else _) _ _ _
    rw [wp_ite]
    split
    · next names =>
      exact ⟨⟨j, rfl⟩, j + 1, rfl, names.1, names.2, ne⟩
    · next names =>
      refine wp_post ih fun r s' ⟨⟨k, e⟩, found⟩ => ⟨⟨k, e⟩, ?_⟩
      obtain ⟨b, r⟩ := r
      cases b with
      | true => exact found
      | false =>
        obtain ⟨none, slot, full⟩ := found
        refine ⟨fun k hk => ?_, fun i e => ?_, fun e => ?_⟩
        · cases k with
          | zero =>
            rw [nextEntry_zero]
            exact fun h => names ⟨h.1, h.2.1⟩
          | succ k =>
            rw [← nextEntry_succ]
            exact none k (Nat.lt_of_succ_lt_succ hk)
        · obtain refs | later := slot i e
          · exact .inl refs
          · split at later
            · next refs =>
              obtain rfl := Option.some.inj later
              exact .inl refs
            · exact .inr later
        · obtain ⟨later, refs⟩ := full e
          split at later
          · cases later
          · next used =>
            refine ⟨later, fun k hk => ?_⟩
            cases k with
            | zero =>
              rw [nextEntry_zero]
              exact used
            | succ k =>
              rw [← nextEntry_succ]
              exact refs k (Nat.lt_of_succ_lt_succ hk)

/-- A search through the whole table. -/
lemma Searched.whole {m : Nat × Word} {j : Inoptr} {r : Option Inoptr}
    (h : Searched s m j ITABSIZE none (false, r)) :
    (∀ i, ¬ (s.iTab i).Names m) ∧ (∀ i, r = some i → (s.iTab i).cRefs = 0) ∧
      (r = none → ∀ i, (s.iTab i).cRefs ≠ 0) := by
  obtain ⟨none, slot, full⟩ := h
  refine ⟨fun i => ?_, fun i e => (slot i e).resolve_right nofun, fun e i => ?_⟩
  · obtain ⟨k, hk, rfl⟩ := exists_nextEntry j i
    exact none k hk
  · obtain ⟨k, hk, rfl⟩ := exists_nextEntry j i
    exact (full e).2 k hk

/-! ## What is opened -/

/-- The numbers that `i_open` lets pass are those of inodes, on a device that has inode blocks. -/
lemma Filesys.inodeBlk_lt {t : Target} {fs : Filesys} (two : 2 ≤ fs.sIsize) (lt : num.toNat < fs.inodeEnd t) :
    inodeBlk num < fs.sIsize := by
  have two : 2 ≤ fs.sIsize.toNat := two
  have high := fs.sIsize.isLt
  rw [BitVec.lt_def, inodeBlk_toNat]
  cases t with
  | nes =>
    have sub : (fs.sIsize - 2).toNat = fs.sIsize.toNat - 2 := BitVec.toNat_sub_of_le two
    have lt : num.toNat < ((fs.sIsize - 2) * 8).toNat := lt
    rw [BitVec.toNat_mul, sub] at lt
    have small : (fs.sIsize.toNat - 2) * (8 : Word).toNat % 2 ^ 16 ≤ (fs.sIsize.toNat - 2) * 8 := Nat.mod_le _ _
    omega
  | fsutil =>
    have lt : num.toNat < (((fs.sIsize.toNat : Int) - 2) * 8 % 2 ^ 32).toNat := lt
    omega

open Classical in
/-- `i_open` has returned entry `i` for inode `m`: the entry is one of the inode and has one reference more
than it had, if it was one before, and the others are as before. An entry that has been taken over had no
references, and there was no entry of the inode. -/
structure Kernel.Opened (s s' : Kernel) (m : Nat × Word) (i : Inoptr) : Prop where
  names : (s'.iTab i).Names m
  refs : (s'.iTab i).cRefs = (if (s.iTab i).Names m then (s.iTab i).cRefs else 0) + 1
  others : ∀ j ≠ i, s'.iTab j = s.iTab j
  slot : (s.iTab i).Names m ∨ (s.iTab i).cRefs = 0 ∧ ∀ j, ¬ (s.iTab j).Names m
  keeps : s.Keeps s'

/-- What `i_open` may do for inode `m`: nothing is changed but an entry, which is returned. -/
def Kernel.OpenOutcome (s : Kernel) (m : Nat × Word) (r : Option Inoptr) (s' : Kernel) : Prop :=
  match r with
  | some i => s.Opened s' m i
  | none => s.Keeps s' ∧ s'.Unused

namespace Kernel

variable {s s' : Kernel} {m : Nat × Word} {i ino : Inoptr} {c : Cinode} {b : Bufs} {new : Bool}

/-- Entry `i` gets inode `m` from the disk, the buffers being `b`. -/
def load (s : Kernel) (i : Inoptr) (d : Dinode) (m : Nat × Word) (b : Bufs) : Kernel :=
  { s.setInode i { s.iTab i with cNode := d, cDev := m.1, cNum := m.2, cMagic := CMAGIC } with bufs := b }

/-- An entry without references is taken over. -/
lemma Cached.load (h : s.Cached) (u : s.Unused) (has : s.HasInode m) (ne : m.2 ≠ 0) (refs : (s.iTab i).cRefs = 0)
    (none : ∀ j, ¬ (s.iTab j).Names m) (g : b.Good) (v : b.view = s.bufs.view) :
    s.Keeps (s.load i (s.diskInode m) m b) := by
  have own : (s.load i (s.diskInode m) m b).iTab i =
    { s.iTab i with cNode := s.diskInode m, cDev := m.1, cNum := m.2, cMagic := CMAGIC } := iTab_setInode
  have others : ∀ j ≠ i, (s.load i (s.diskInode m) m b).iTab j = s.iTab j := fun j => iTab_setInode_of_ne
  have same : s.SameInodes { s with bufs := b } := .of_view g v
  have back : (s.load i (s.diskInode m) m b).icache.back = s.icache.back := by
    have e := congrArg Cache.back same.icache
    exact e
  have named : (s.load i (s.diskInode m) m b).icache.name i = some m := by
    rw [icache_name, own]
    exact ⟨rfl, rfl, ne⟩
  have renamed : s.icache.Renamed (s.load i (s.diskInode m) m b).icache i (some m) := by
    refine ⟨named, fun j ne => ?_, fun j ne => ?_, back, fun j ne => ?_, fun j m' e => ?_, ?_⟩
    · simp only [icache, others j ne]
    · simp only [icache, others j ne]
    · simp only [icache, others j ne]
    · cases e
      exact mt icache_name.mp (none j)
    · show ¬ (s.iTab i).cDirty = true
      rw [u i refs]
      exact Bool.false_ne_true
  have data : (s.load i (s.diskInode m) m b).icache.data i = s.icache.back m := by
    rw [icache_back has]
    exact congrArg Cinode.cNode own
  refine ⟨⟨g, fun bp => ?_, ?_, fun j hj => ?_, fun j hj => ?_⟩, fun _ => rfl, fun m' => ?_⟩
  · show b.view.held bp = Option.none
    rw [v]
    exact h.released bp
  · refine renamed.coherent h.coherent fun _ m' e => ?_
    cases e
    exact data
  · by_cases e : j = i
    · rw [e, own]
      exact has
    · rw [others j e] at hj ⊢
      exact h.inode j hj
  · by_cases e : j = i
    · rw [e, own]
      exact ne
    · rw [others j e] at hj ⊢
      exact h.magic j hj
  · by_cases e : m' = m
    · rw [e, Cache.content_of_name (renamed.unique h.coherent.unique) named, data]
      exact (Cache.content_of_forall_ne fun j => mt icache_name.mp (none j)).symm
    · exact renamed.content h.coherent (Set.notMem_empty i) fun e' => e (Option.some.inj e').symm

/-- The end of `i_open`: entry `i` of the inode gets a reference, or is left alone. -/
lemma Cached.wp_iOpenFound (h : s.Cached) :
    wp (iOpenFound i new)
      (fun r s' => r = none ∧ s' = s ∨
        r = some i ∧ s' = s.setInode i { s.iTab i with cRefs := (s.iTab i).cRefs + 1 } ∧ s.Keeps s')
      (fun _ => False) s := by
  have counted : s.Keeps (s.setInode i { s.iTab i with cRefs := (s.iTab i).cRefs + 1 }) :=
    h.mark ⟨rfl, rfl, rfl⟩ rfl id
  unfold iOpenFound
  simp only [wp_bind, wp_get, wp_ite, wp_pure, wp_modifyInode]
  split
  · split
    · exact .inl ⟨trivial, trivial⟩
    · exact .inr ⟨trivial, trivial, counted⟩
  · split
    · exact .inl ⟨trivial, trivial⟩
    · exact .inr ⟨trivial, trivial, counted⟩

/-- Entry `i`, which is one of the inode, is opened. -/
lemma Cached.opened (h : s.Cached) (names : (s.iTab i).Names m) :
    s.Opened (s.setInode i { s.iTab i with cRefs := (s.iTab i).cRefs + 1 }) m i where
  names := by
    rw [iTab_setInode]
    exact names
  refs := by
    rw [iTab_setInode, if_pos names]
  others _ := iTab_setInode_of_ne
  slot := .inl names
  keeps := h.mark ⟨rfl, rfl, rfl⟩ rfl id

/-- Entry `i`, which has been taken over, is opened. -/
lemma Keeps.opened {s₁ : Kernel} (k : s.Keeps s₁) (names : (s₁.iTab i).Names m) (refs : (s.iTab i).cRefs = 0)
    (same : (s₁.iTab i).cRefs = (s.iTab i).cRefs) (others : ∀ j ≠ i, s₁.iTab j = s.iTab j)
    (none : ∀ j, ¬ (s.iTab j).Names m) :
    s.Opened (s₁.setInode i { s₁.iTab i with cRefs := (s₁.iTab i).cRefs + 1 }) m i where
  names := by
    rw [iTab_setInode]
    exact names
  refs := by
    rw [iTab_setInode, if_neg (none i), same, refs]
  others j ne := (iTab_setInode_of_ne ne).trans (others j ne)
  slot := .inr ⟨refs, none⟩
  keeps := k.trans (k.cached.mark ⟨rfl, rfl, rfl⟩ rfl id)

/-- The same counts and dirty marks. -/
lemma Unused.congr (u : s.Unused) (refs : ∀ i, (s'.iTab i).cRefs = (s.iTab i).cRefs)
    (dirty : ∀ i, (s'.iTab i).cDirty = (s.iTab i).cDirty) : s'.Unused := by
  intro i zero
  rw [dirty]
  exact u i (refs i ▸ zero)

/-- The search and the change of `u_error` show nothing new. -/
lemma sameInodes_of_eq (g : s.bufs.Good) (bufs : s'.bufs = s.bufs) (iTab : s'.iTab = s.iTab)
    (fsTab : s'.fsTab = s.fsTab) (target : s'.target = s.target) : s.SameInodes s' := by
  refine ⟨iTab, fun dev => by rw [fsTab], target, bufs ▸ g, by rw [bufs], fun dev blk _ _ => by rw [bufs]⟩

/-- The cache shows the same inodes. -/
lemma Cached.same (h : s.Cached) (same : s.SameInodes s') : s'.Cached := (same.keeps h).cached

/-- The same inodes are unused. -/
lemma Unused.same (u : s.Unused) (same : s.SameInodes s') : s'.Unused := fun i => same.iTab ▸ u i

/-- It does not matter from which of two kernels with the same inodes the opening starts. -/
lemma OpenOutcome.of_same {s₁ : Kernel} {r : Option Inoptr} (same : s.SameInodes s₁) (h : s.Cached)
    (o : s₁.OpenOutcome m r s') : s.OpenOutcome m r s' := by
  have keeps := same.keeps h
  cases r with
  | none => exact ⟨keeps.trans o.1, o.2⟩
  | some i =>
    obtain ⟨names, refs, others, slot, keeps'⟩ := o
    rw [same.iTab] at refs others slot
    exact ⟨names, refs, others, slot, keeps.trans keeps'⟩

/-- The end of `i_open` on an entry that has been found. -/
lemma Cached.wp_found (h : s.Cached) (u : s.Unused) (names : (s.iTab i).Names m) :
    wp (iOpenFound i new) (s.OpenOutcome m) (fun _ => False) s := by
  refine wp_post h.wp_iOpenFound fun r s' h' => ?_
  obtain ⟨rfl, rfl⟩ | ⟨rfl, rfl, -⟩ := h'
  · exact ⟨⟨h, fun _ => rfl, fun _ => rfl⟩, u⟩
  · exact h.opened names

/-- The end of `i_open` on an entry that is taken over. -/
lemma Cached.wp_taken (h : s.Cached) (u : s.Unused) (has : s.HasInode m) (ne : m.2 ≠ 0)
    (refs : (s.iTab i).cRefs = 0) (none : ∀ j, ¬ (s.iTab j).Names m) :
    wp (do
        let buf ← breadPtr m.1 (inodeBlk m.2) 0
        let s ← get
        modifyInode i fun c => { c with cNode := Dinode.ofBlock (s.buf buf).bfData (inodeIdx m.2) }
        brelse buf
        modifyInode i fun c => { c with cDev := m.1, cNum := m.2, cMagic := CMAGIC }
        iOpenFound i new)
      (s.OpenOutcome m) (fun _ => False) s := by
  rw [wp_bind]
  refine wp_mono (wp_breadPtr h.good has.1) ?_ fun _ stop => View.not_stops_of_idle h.released (by decide) stop
  intro bp s₁ got
  obtain ⟨b₁, e, g₁, idle, hold⟩ := got
  subst e
  have held : b₁.view.held bp = some (m.1, inodeBlk m.2) := by rw [hold, View.held_hold]
  have data : Dinode.ofBlock (b₁.bufpool bp).bfData (inodeIdx m.2) = s.diskInode m := by
    rw [g₁.data held, hold, View.content_hold]
    rfl
  rw [wp_bind, wp_get, wp_bind, wp_modifyInode, wp_bind]
  refine wp_post (wp_brelse_hold g₁ idle hold) fun _ s₂ ⟨b₂, e, g₂, v⟩ => ?_
  subst e
  rw [wp_bind, wp_modifyInode]
  have load := h.load u has ne refs none g₂ v
  have own : (s.load i (s.diskInode m) m b₂).iTab i =
    { s.iTab i with cNode := s.diskInode m, cDev := m.1, cNum := m.2, cMagic := CMAGIC } := iTab_setInode
  have others : ∀ j ≠ i, (s.load i (s.diskInode m) m b₂).iTab j = s.iTab j := fun j => iTab_setInode_of_ne
  generalize eq : Kernel.setInode _ _ _ = s₃
  have eq : s₃ = s.load i (s.diskInode m) m b₂ := by
    rw [← eq, ← data]
    simp only [Kernel.load, Kernel.setInode, Function.update_self, Function.update_idem, Kernel.buf]
  rw [eq]
  have names : ((s.load i (s.diskInode m) m b₂).iTab i).Names m := by
    rw [own]
    exact ⟨rfl, rfl, ne⟩
  have same : ((s.load i (s.diskInode m) m b₂).iTab i).cRefs = (s.iTab i).cRefs := by rw [own]
  refine wp_post load.cached.wp_iOpenFound fun r s' h' => ?_
  obtain ⟨rfl, rfl⟩ | ⟨rfl, rfl, -⟩ := h'
  · refine ⟨load, u.congr (fun j => ?_) fun j => ?_⟩
    · by_cases e : j = i
      · rw [e, same]
      · rw [others j e]
    · by_cases e : j = i
      · rw [e, own]
      · rw [others j e]
  · exact load.opened names refs same others none

/-- `i_open` of an inode number. -/
lemma Cached.wp_iOpenAt (h : s.Cached) (u : s.Unused) (hdev : dev < NDEVS) (ne : num ≠ 0)
    (two : 2 ≤ (s.fsTab dev).sIsize) :
    wp (iOpenAt dev num new) (s.OpenOutcome (dev, num)) (fun _ => False) s := by
  unfold iOpenAt
  rw [wp_bind, wp_get, wp_ite]
  split
  · exact ⟨⟨h, fun _ => rfl, fun _ => rfl⟩, u⟩
  · next inode =>
    have has : s.HasInode (dev, num) :=
      ⟨hdev, Filesys.inodeBlk_lt two (Nat.lt_of_not_le (not_or.mp inode).2)⟩
    rw [wp_bind]
    refine wp_post (wp_iSearch ne) fun r s₁ ⟨⟨k, e⟩, found⟩ => ?_
    have same : s.SameInodes s₁ := sameInodes_of_eq h.good (e ▸ rfl) (e ▸ rfl) (e ▸ rfl) (e ▸ rfl)
    have h₁ := h.same same
    have u₁ := u.same same
    obtain ⟨b, r⟩ := r
    cases b with
    | true =>
      obtain ⟨i, rfl, names⟩ := found
      refine wp_post (h₁.wp_found u₁ ?_) fun _ _ => .of_same same h
      rw [same.iTab]
      exact names
    | false =>
      obtain ⟨none, slot, -⟩ := found.whole
      rw [← same.iTab] at none slot
      cases r with
      | none =>
        have error : s₁.SameInodes { s₁ with udata := { s₁.udata with uError := .enfile } } :=
          sameInodes_of_eq h₁.good rfl rfl rfl rfl
        exact ⟨(same.trans error).keeps h, u₁.same error⟩
      | some i =>
        refine wp_post (h₁.wp_taken u₁ (m := (dev, num)) (same.hasInode.mpr has) ne (slot i rfl) none) ?_
        exact fun _ _ => .of_same same h

/-- `i_open` of an inode number, on a device that has inode blocks. -/
lemma Cached.wp_iOpen (h : s.Cached) (u : s.Unused) (ne : num ≠ 0) (two : 2 ≤ (s.fsTab dev).sIsize) :
    wp (iOpen dev num) (s.OpenOutcome (dev, num)) (fun _ => ¬ dev < NDEVS) s := by
  unfold iOpen
  rw [wp_ite]
  split
  · next bad => exact bad
  · next ok =>
    exact wp_mono (h.wp_iOpenAt u (not_not.mp ok) ne two) (fun _ _ => id) fun _ => False.elim

/-- With every entry in use, an inode without an entry is not opened. -/
lemma wp_iOpen_full (hdev : dev < NDEVS) (ne : num ≠ 0) (inode : num.toNat < (s.fsTab dev).inodeEnd s.target)
    (used : ∀ i, (s.iTab i).cRefs ≠ 0) (none : ∀ i, ¬ (s.iTab i).Names (dev, num)) :
    wp (iOpen dev num) (fun r s' => r = .none ∧ s'.udata.uError = .enfile ∧ s'.iTab = s.iTab)
      (fun _ => False) s := by
  have pos : ¬ (num < ROOTINODE ∨ (s.fsTab dev).inodeEnd s.target ≤ num.toNat) := by
    intro h
    rcases h with h | h
    · have one : num.toNat < 1 := h
      exact ne (BitVec.eq_of_toNat_eq (Nat.lt_one_iff.mp one))
    · exact absurd inode (Nat.not_lt.mpr h)
  unfold iOpen iOpenAt
  rw [wp_ite, if_neg (not_not.mpr hdev), wp_ite, if_neg ne, wp_bind, wp_get, wp_ite, if_neg pos, wp_bind]
  refine wp_post (wp_iSearch ne) fun r s₁ ⟨⟨k, e⟩, found⟩ => ?_
  subst e
  obtain ⟨b, r⟩ := r
  cases b with
  | true =>
    obtain ⟨i, -, names⟩ := found
    exact absurd names (none i)
  | false =>
    obtain ⟨-, slot, -⟩ := found.whole
    cases r with
    | none => exact ⟨rfl, rfl, rfl⟩
    | some i => exact absurd (slot i rfl) (used i)

end Kernel

end Uzi
