import Uzi.Utils.FsckBlocks

/-!
# Whether `fsck` ends

The counters of `fsck` have 16 bits. A loop over the logical blocks of a file with 0xffff in `o_blkno` goes round
for ever, and so do the loops over the inodes when there are 65536 of them or more. In every other run each loop
ends after 65536 rounds at most, and `ckdir` goes down 20 levels at most.
-/

namespace Uzi
open Exec

namespace Fsck

/-- A loop has been begun of which the counter does not come to the end. -/
def Unending (s : State) : Prop := 8193 < s.filsys.sIsize.toNat ∨ .blocks 0xffff ∈ s.events

/-- What a part of `fsck` leaves: the sizes of the file system and the depth, and nothing has been begun that does not
end. -/
structure Onward (s s' : State) : Prop where
  isize : s'.filsys.sIsize = s.filsys.sIsize
  depth : s'.depth = s.depth
  events : ∀ e ∈ s.events, e ∈ s'.events
  back : Unending s' → Unending s

/-- A run that has stopped has not been stopped in a loop, unless the loop does not end. -/
def NotHung (e : Stop × State) : Prop := e.1 = .hang → Unending e.2

/-- The part of `fsck` goes onward from every state with `isize` blocks of inodes and this `depth`, and returns with
`P`. -/
def Steady (isize : Word) (depth : Nat) {α : Type} (P : α → Prop) (c : F α) : Prop :=
  ∀ s : State, s.filsys.sIsize = isize → s.depth = depth → wp c (fun a s' => Onward s s' ∧ P a) NotHung s

namespace Onward

variable {s s' s'' : State}

/-- Nothing has to be changed. -/
lemma refl : Onward s s := ⟨rfl, rfl, fun _ => id, id⟩

/-- What does not end still does not. -/
lemma forth (h : Onward s s') (u : Unending s) : Unending s' := by
  cases u with
  | inl many => exact .inl (h.isize ▸ many)
  | inr begun => exact .inr (h.events _ begun)

/-- One change after the other. -/
lemma trans (h : Onward s s') (h' : Onward s' s'') : Onward s s'' where
  isize := h'.isize.trans h.isize
  depth := h'.depth.trans h.depth
  events e he := h'.events e (h.events e he)
  back u := h.back (h'.back u)

/-- Something else is done, in the same file system. -/
lemma of_event {e : Event} (isize : s'.filsys.sIsize = s.filsys.sIsize) (depth : s'.depth = s.depth)
    (events : s'.events = e :: s.events) (ne : e ≠ .blocks 0xffff) : Onward s s' where
  isize := isize
  depth := depth
  events e' he := by
    rw [events]
    exact List.mem_cons_of_mem _ he
  back u := by
    cases u with
    | inl many => exact .inl (isize ▸ many)
    | inr begun =>
      rw [events] at begun
      exact .inr ((List.mem_cons.mp begun).resolve_left fun e => ne e.symm)

/-- What is done one level deeper. -/
lemma nested (h : Onward { s with depth := s.depth + 1 } s') : Onward s { s' with depth := s'.depth - 1 } where
  isize := h.isize
  depth := by
    show s'.depth - 1 = s.depth
    rw [h.depth]
    rfl
  events := h.events
  back := h.back

/-- What is not printed or counted may change. -/
lemma of_eq (isize : s'.filsys.sIsize = s.filsys.sIsize) (depth : s'.depth = s.depth) (events : s'.events = s.events) :
    Onward s s' where
  isize := isize
  depth := depth
  events e' he := events ▸ he
  back u := by
    cases u with
    | inl many => exact .inl (isize ▸ many)
    | inr begun => exact .inr (events ▸ begun)

end Onward

namespace Steady

variable {w : Word} {l : Nat} {α β : Type} {P : α → Prop} {Q : β → Prop} {c d : F α} {f : α → F β} {a : α}

/-- A value is returned. -/
lemma pure (h : P a) : Steady w l P (pure a : F α) := fun _ _ _ => ⟨.refl, h⟩

/-- One part after the other. -/
lemma bind (hc : Steady w l P c) (hf : ∀ a, P a → Steady w l Q (f a)) : Steady w l Q (c >>= f) := by
  intro s isize depth
  rw [wp_bind]
  refine wp_post (hc s isize depth) fun a s' got => ?_
  refine wp_post (hf a got.2 s' (got.1.isize.trans isize) (got.1.depth.trans depth)) fun _ _ got' => ?_
  exact ⟨got.1.trans got'.1, got'.2⟩

/-- Both branches are steady. -/
lemma ite {p : Prop} [Decidable p] (hc : p → Steady w l P c) (hd : ¬ p → Steady w l P d) :
    Steady w l P (if p then c else d) := by
  split
  · next h => exact hc h
  · next h => exact hd h

/-- Less may be said of the value. -/
lemma mono {P' : α → Prop} (h : Steady w l P c) (imp : ∀ a, P a → P' a) : Steady w l P' c :=
  fun s isize depth => wp_post (h s isize depth) fun _ _ got => ⟨got.1, imp _ got.2⟩

/-- The state is read. -/
lemma get : Steady w l (fun s => s.filsys.sIsize = w ∧ s.depth = l) (get : F State) :=
  fun _ isize depth => ⟨.refl, isize, depth⟩

/-- A stop that is not for want of rounds. -/
lemma halt {e : Stop} (ne : e ≠ .hang) : Steady w l P (halt e : F α) := fun _ _ _ hung => absurd hung ne

/-- An event with which no loop is begun that does not end. -/
lemma emit {e : Event} (ne : e ≠ .blocks 0xffff) : Steady w l (fun _ => True) (emit e) :=
  fun _ _ _ => ⟨.of_event rfl rfl rfl ne, trivial⟩

/-- A question is asked. -/
lemma yes {q : Question} : Steady w l (fun _ => True) (yes q) :=
  fun _ _ _ => ⟨.of_event rfl rfl rfl nofun, trivial⟩

/-- A block is read. -/
lemma daread {blk : Word} : Steady w l (fun _ => True) (daread blk) :=
  fun _ _ _ => ⟨.of_eq rfl rfl rfl, trivial⟩

/-- The buffer is changed. -/
lemma modifyReadbuf {f : Block → Block} : Steady w l (fun _ => True) (modifyReadbuf f) :=
  fun _ _ _ => ⟨.of_eq rfl rfl rfl, trivial⟩

/-- A block is written. -/
lemma dwrite {blk : Word} {data : Block} : Steady w l (fun _ => True) (dwrite blk data) :=
  fun _ _ _ => ⟨.of_event rfl rfl rfl nofun, trivial⟩

/-- The superblock in memory is changed, but not the size of the inode area. -/
lemma modifyFilsys {f : Filesys → Filesys} (isize : ∀ fs, (f fs).sIsize = fs.sIsize) :
    Steady w l (fun _ => True) (modifyFilsys f) :=
  fun _ _ _ => ⟨.of_eq (isize _) rfl rfl, trivial⟩

/-- A change of the two maps alone. -/
lemma modifyMaps {b : Word → Byte} {k : Word → Word} :
    Steady w l (fun _ => True) (modify fun s => { s with bitmap := b, linkmap := k } : F PUnit) :=
  fun _ _ _ => ⟨.of_eq rfl rfl rfl, trivial⟩

/-- A part for each element of a list. -/
lemma each {ι : Type} {body : ι → F PUnit} (h : ∀ i, Steady w l (fun _ => True) (body i)) {is : List ι} :
    Steady w l (fun _ => True) (each is body) := by
  induction is with
  | nil => exact .pure trivial
  | cons i is ih => exact .bind (h i) fun _ _ => ih

section Loops

variable {I : β → Prop} {more : β → Bool} {body : β → F β} {fuel : Nat} {b : β}

/-- A loop with a measure that goes down in every round. -/
lemma loop (m : β → Nat) (pos : ∀ b, I b → more b = true → 0 < m b)
    (step : ∀ b, I b → more b = true → Steady w l (fun b' => I b' ∧ m b' < m b) (body b))
    (enough : m b ≤ fuel) (start : I b) : Steady w l I (loop more body (Fsck.halt .hang) fuel b) := by
  intro s isize depth
  refine wp_post (wp_loop_measure (fun b s' => Onward s s' ∧ I b) m (fun b _ h => pos b h.2) ?_ enough ⟨.refl, start⟩)
    fun _ _ got => got.1
  intro b s' h goes
  refine wp_post (step b h.2 goes s' (h.1.isize.trans isize) (h.1.depth.trans depth)) fun b' s'' got => ?_
  exact ⟨⟨h.1.trans got.1, got.2.1⟩, got.2.2⟩

/-- A loop that goes round for ever does not return. -/
lemma wp_loop_unending {s : State} (unending : Unending s) (isize : s.filsys.sIsize = w) (depth : s.depth = l)
    (goes : ∀ b, I b → more b = true) (step : ∀ b, I b → Steady w l I (body b)) (start : I b) :
    wp (Exec.loop more body (Fsck.halt .hang) fuel b) (fun _ _ => False) NotHung s := by
  refine wp_post (wp_loop (fun b s' => Onward s s' ∧ I b) ?_ ?_ ⟨.refl, start⟩) fun b s' got => ?_
  · intro b s' h _
    refine wp_post (step b h.2 s' (h.1.isize.trans isize) (h.1.depth.trans depth)) fun b' s'' got => ?_
    exact ⟨h.1.trans got.1, got.2⟩
  · intro b s' h _ _
    exact h.1.forth unending
  · rw [goes b got.1.2] at got
    exact Bool.noConfusion got.2

end Loops

end Steady

section Parts

variable {w : Word} {l : Nat} {n i v : Word} {x : Byte} {ino : Dinode}

/-- The superblock is written. -/
lemma steady_writeSuper : Steady w l (fun _ => True) writeSuper := .bind .get fun _ _ => .dwrite

/-- An inode is read. -/
lemma steady_iread : Steady w l (fun _ => True) (iread n) :=
  .bind .daread fun _ _ => .bind .get fun _ _ => .bind (.emit nofun) fun _ _ => .pure trivial

/-- An inode is written. -/
lemma steady_iwrite : Steady w l (fun _ => True) (iwrite n ino) :=
  .bind .daread fun _ _ => .bind .modifyReadbuf fun _ _ => .bind .get fun _ _ => .dwrite

/-- The number of a block is looked up. -/
lemma steady_getblkno {num : Word} : Steady w l (fun _ => True) (getblkno ino num) := by
  unfold getblkno
  refine .ite (fun _ => .pure trivial) fun _ => .ite (fun _ => ?_) fun _ => ?_
  · exact .ite (fun _ => .pure trivial) fun _ => .bind .daread fun _ _ => .bind .get fun _ _ => .pure trivial
  · refine .ite (fun _ => .pure trivial) fun _ => .bind .daread fun _ _ => .bind .get fun _ _ => ?_
    exact .bind .daread fun _ _ => .bind .get fun _ _ => .pure trivial

/-- The number of a block is set, and the size of the file is what it was. -/
lemma steady_setblkno {num dnum : Word} : Steady w l (fun ino' => ino'.iSize = ino.iSize) (setblkno ino num dnum) := by
  unfold setblkno
  refine .ite (fun _ => .pure rfl) fun _ => .ite (fun _ => ?_) fun _ => ?_
  · refine .ite (fun _ => .halt nofun) fun _ => ?_
    exact .bind .daread fun _ _ => .bind .modifyReadbuf fun _ _ => .bind .get fun _ _ =>
      .bind .dwrite fun _ _ => .pure rfl
  · refine .ite (fun _ => .halt nofun) fun _ => ?_
    refine .bind .daread fun _ _ => .bind .get fun _ _ => .ite (fun _ => .halt nofun) fun _ => ?_
    exact .bind .daread fun _ _ => .bind .modifyReadbuf fun _ _ => .bind .get fun _ _ =>
      .bind .dwrite fun _ _ => .pure rfl

/-- A bit of the bitmap is read. -/
lemma steady_bitmapAt : Steady w l (fun _ => True) (bitmapAt i) :=
  .bind (.emit nofun) fun _ _ => .bind .get fun _ _ => .ite (fun _ => .pure trivial) fun _ => .halt nofun

/-- A bit of the bitmap is set. -/
lemma steady_setBitmap : Steady w l (fun _ => True) (setBitmap i x) :=
  .bind (.emit nofun) fun _ _ => .bind .get fun _ _ =>
    .ite (fun _ => fun _ _ _ => ⟨.of_eq rfl rfl rfl, trivial⟩) fun _ => .halt nofun

/-- A count of links is read. -/
lemma steady_linkmapAt : Steady w l (fun _ => True) (linkmapAt i) :=
  .bind (.emit nofun) fun _ _ => .bind .get fun _ _ => .ite (fun _ => .pure trivial) fun _ => .halt nofun

/-- A count of links is set. -/
lemma steady_setLinkmap : Steady w l (fun _ => True) (setLinkmap i v) :=
  .bind (.emit nofun) fun _ _ => .bind .get fun _ _ =>
    .ite (fun _ => fun _ _ _ => ⟨.of_eq rfl rfl rfl, trivial⟩) fun _ => .halt nofun

end Parts

/-! ## The loops over the blocks of a file and over the inodes -/

section Counting

variable {w : Word} {l : Nat} {β : Type} {I : β → Prop} {body : β → F β} {fuel : Nat}

/-- A counter that is not at its end. -/
lemma toNat_next {a : Word} (h : a.toNat < 65535) : (a + 1).toNat = a.toNat + 1 :=
  (BitVec.toNat_add _ _).trans (Nat.mod_eq_of_lt (Nat.succ_lt_succ h))

/-- The loop over the logical blocks of an inode. The body keeps the size of the inode and counts the block. -/
lemma steady_blocks {body : Word × Dinode → F (Word × Dinode)} {ino : Dinode}
    (step : ∀ p, Steady w l (fun p' => p'.2.iSize = p.2.iSize ∧ p'.1 = p.1 + 1) (body p)) (enough : 65536 ≤ fuel) :
    Steady w l (fun _ => True) (do
      emit (.blocks ino.iSize.oBlkno)
      let _ ← loop (fun p : Word × Dinode => p.1 ≤ p.2.iSize.oBlkno) body (halt .hang) fuel (0, ino)) := by
  cases hlast : decide (ino.iSize.oBlkno = 0xffff) with
  | true =>
    intro s isize depth
    have last := of_decide_eq_true hlast
    rw [last]
    refine wp_bind.mpr (wp_bind.mpr (wp_post (Steady.wp_loop_unending (I := fun p => p.2.iSize.oBlkno = 0xffff)
      (.inr List.mem_cons_self) isize depth ?_ ?_ last) fun _ _ => False.elim))
    · intro p hp
      refine decide_eq_true ?_
      rw [hp]
      exact BitVec.le_def.mpr (Nat.le_of_lt_succ p.1.isLt)
    · intro p hp
      exact (step p).mono fun p' got => got.1 ▸ hp
  | false =>
    have last := of_decide_eq_false hlast
    have small : ino.iSize.oBlkno.toNat < 65535 := by
      have := ino.iSize.oBlkno.isLt
      have : ino.iSize.oBlkno.toNat ≠ 65535 := fun h => last (BitVec.eq_of_toNat_eq h)
      omega
    refine .bind (.emit fun h => last (Event.blocks.inj h)) fun _ _ =>
      .bind (P := fun p => p.2.iSize = ino.iSize) ?_ fun _ _ => .pure trivial
    refine (Steady.loop (β := Word × Dinode) (I := fun p => p.2.iSize = ino.iSize) (fun p => 65536 - p.1.toNat)
      (fun p _ _ => Nat.sub_pos_of_lt p.1.isLt) ?_ (Nat.le_trans (Nat.sub_le _ _) enough) rfl)
    intro p hp goes
    refine (step p).mono fun p' got => ⟨got.1.trans hp, ?_⟩
    have le := BitVec.le_def.mp (of_decide_eq_true goes)
    rw [hp] at le
    have next : p'.1.toNat = p.1.toNat + 1 := by
      rw [got.2]
      exact toNat_next (by omega)
    omega

/-- A loop over the inodes, with its count under `key`. It returns where the count has room for them. -/
lemma steady_inodes (key : β → Word) {fs : Filesys} (isize : fs.sIsize = w) {b : β}
    (step : ∀ b, Steady w l (fun b' => key b' = key b + 1) (body b)) (enough : 65536 ≤ fuel) :
    Steady w l (fun _ => w.toNat ≤ 8193) (loop (fun b => inodesLeft fs (key b)) body (halt .hang) fuel b) := by
  cases hmany : decide (8193 < w.toNat) with
  | true =>
    have many := of_decide_eq_true hmany
    intro s isize' depth
    refine wp_post (Steady.wp_loop_unending (I := fun _ => True) (.inl (isize' ▸ many)) isize' depth ?_ ?_ trivial)
      fun _ _ => False.elim
    · intro b _
      refine decide_eq_true ?_
      have := (key b).isLt
      rw [inodesEnd, isize]
      omega
    · exact fun b _ => (step b).mono fun _ _ => trivial
  | false =>
    have few := of_decide_eq_false hmany
    refine Steady.loop (fun b => 65536 - (key b).toNat) (fun b _ _ => Nat.sub_pos_of_lt (key b).isLt) ?_
      (Nat.le_trans (Nat.sub_le _ _) enough) (Nat.le_of_not_lt few)
    intro b _ goes
    refine (step b).mono fun b' got => ⟨Nat.le_of_not_lt few, ?_⟩
    have lt := of_decide_eq_true goes
    rw [inodesEnd, isize] at lt
    show 65536 - (key b').toNat < 65536 - (key b).toNat
    have next : (key b').toNat = (key b).toNat + 1 := by
      rw [got]
      exact toNat_next (by omega)
    omega

end Counting

/-! ## The passes -/

section Passes

variable {w : Word} {l : Nat} {n bno j : Word} {ino : Dinode} {b : Nat} {q : Question} {asks : Bool} {fuel : Nat}

/-- A part that asks first, and does nothing where the answer is no. -/
lemma Steady.ask {α : Type} {P : α → Prop} {c : F α} {a : α} {p : Prop} [Decidable p] (hc : Steady w l P c) (ha : P a) :
    Steady w l P (if p then (do if ← Fsck.yes q then c else Pure.pure a) else Pure.pure a) :=
  .ite (fun _ => .bind .yes fun _ _ => .ite (fun _ => hc) fun _ => .pure ha) fun _ => .pure ha

/-- An inode is cleared. -/
lemma steady_zapInode : Steady w l (fun _ => True) (zapInode n ino) := by
  unfold zapInode
  exact .ask (.bind steady_iwrite fun _ _ => .pure trivial) trivial

/-- An offset that is too big is corrected. -/
lemma steady_fixBigOffset : Steady w l (fun _ => True) (fixBigOffset n ino) := by
  unfold fixBigOffset
  exact .ask (.bind steady_iwrite fun _ _ => .pure trivial) trivial

/-- An offset below 0 is corrected. -/
lemma steady_fixNegativeOffset : Steady w l (fun _ => True) (fixNegativeOffset n ino) := by
  unfold fixNegativeOffset
  exact .ask (.bind steady_iwrite fun _ _ => .pure trivial) trivial

/-- A number in the inode is cleared. -/
lemma steady_zapAddr : Steady w l (fun _ => True) (zapAddr n ino b asks q) := by
  unfold zapAddr
  exact .ask (.bind steady_iwrite fun _ _ => .pure trivial) trivial

/-- An indirect block is checked. -/
lemma steady_checkIndirect : Steady w l (fun _ => True) (checkIndirect n ino b) := by
  refine .bind .get fun _ _ => .bind steady_zapAddr fun _ _ => .bind steady_zapAddr fun _ _ => ?_
  exact .ite (fun _ => .bind steady_setBitmap fun _ _ => .pure trivial) fun _ => .pure trivial

/-- A number in the doubly indirect block is cleared. -/
lemma steady_zapDoubly : Steady w l (fun _ => True) (zapDoubly n b) := by
  refine .bind .get fun _ _ => .ask ?_ trivial
  exact .bind .modifyReadbuf fun _ _ => .bind .get fun _ _ => .dwrite

/-- A number in the doubly indirect block is checked. -/
lemma steady_checkDoubly : Steady w l (fun _ => True) (checkDoubly n b) :=
  .bind steady_zapDoubly fun _ _ => .bind .get fun _ _ => .ite (fun _ => steady_setBitmap) fun _ => .pure trivial

/-- A block of a file is checked, and the size of the file is what it was. -/
lemma steady_checkBlock : Steady w l (fun ino' => ino'.iSize = ino.iSize) (checkBlock n ino bno) := by
  refine .bind steady_getblkno fun value _ => .bind (P := fun ino' => ino'.iSize = ino.iSize) ?_ fun ino' same => ?_
  · exact .bind .get fun _ _ => .ask (.bind steady_setblkno fun _ same => .bind steady_iwrite fun _ _ => .pure same) rfl
  · exact .ite (fun _ => .bind steady_setBitmap fun _ _ => .pure same) fun _ => .pure same

/-- The blocks of a file are checked, at most 65536 of them. -/
lemma steady_checkBlocks (enough : 65536 ≤ fuel) : Steady w l (fun _ => True) (checkBlocks fuel n ino) := by
  refine .bind steady_checkIndirect fun _ _ => .bind steady_checkIndirect fun ino _ => ?_
  have rest : Steady w l (fun _ => True) (do
      emit (.blocks ino.iSize.oBlkno)
      let _ ← loop (fun p : Word × Dinode => p.1 ≤ p.2.iSize.oBlkno)
        (fun p => do
          let ino ← checkBlock n p.2 p.1
          pure (p.1 + 1, ino)) (halt .hang) fuel (0, ino)) :=
    steady_blocks (fun p => .bind steady_checkBlock fun _ same => .pure ⟨same, rfl⟩) enough
  exact .ite (fun _ => .bind .daread fun _ _ => .bind (.each fun _ => steady_checkDoubly) fun _ _ => rest) fun _ => rest

/-- An inode is checked. -/
lemma steady_checkInode {icount : Word} (enough : 65536 ≤ fuel) :
    Steady w l (fun _ => True) (checkInode fuel n icount) := by
  refine .bind steady_iread fun ino _ => .bind steady_setLinkmap fun _ _ => .ite (fun _ => .pure trivial) fun _ => ?_
  refine .bind steady_zapInode fun _ _ => .ite (fun _ => .pure trivial) fun _ => .bind steady_setLinkmap fun _ _ => ?_
  refine .bind steady_fixBigOffset fun _ _ => .bind steady_fixNegativeOffset fun _ _ => ?_
  exact .ite (fun _ => .bind (steady_checkBlocks enough) fun _ _ => .pure trivial) fun _ => .pure trivial

/-- Pass 1 ends, and for no more inode blocks than 8193. -/
lemma steady_pass1 (enough : 65536 ≤ fuel) : Steady w l (fun _ => w.toNat ≤ 8193) (pass1 fuel) := by
  refine .bind .get fun s got => .bind ?_ fun p few => Steady.mono (P := fun _ => True) ?_ fun _ _ => few
  · exact steady_inodes (fun p : Word × Word => p.1) got.1
      (fun p => .bind (steady_checkInode enough) fun _ _ => .pure rfl) enough
  · refine .bind .get fun _ _ => .ask (.bind (.modifyFilsys fun _ => rfl) fun _ _ => steady_writeSuper) trivial

/-- A block is put into the free list. -/
lemma steady_freeBlock : Steady w l (fun _ => True) (freeBlock j) := by
  refine .bind steady_bitmapAt fun _ _ => .ite (fun _ => .bind .get fun _ _ => ?_) fun _ => .pure trivial
  have count : Steady w l (fun _ => True) (modifyFilsys fun fs =>
      { fs.setFree fs.sNfree.toNat j with sTfree := fs.sTfree + 1, sNfree := fs.sNfree + 1 }) :=
    .modifyFilsys fun _ => rfl
  refine .ite (fun _ => .bind (.bind .get fun _ _ => .bind .dwrite fun _ _ => .modifyFilsys fun _ => rfl) fun _ _ => ?_)
    fun _ => ?_
  · exact count
  · exact count

/-- Pass 2 ends. -/
lemma steady_pass2 (pos : 1 ≤ w.toNat) (enough : 65536 ≤ fuel) : Steady w l (fun _ => True) (pass2 fuel) := by
  refine .bind .yes fun _ _ => .ite (fun _ => ?_) fun _ => .pure trivial
  refine .bind (.modifyFilsys fun _ => rfl) fun _ _ => .bind .get fun s got => .bind (P := fun _ => True) ?_
    fun _ _ => steady_writeSuper
  have down : ∀ j : Word, decide (s.filsys.sIsize ≤ j) = true → 0 < j.toNat := fun j goes =>
    Nat.lt_of_lt_of_le (got.1 ▸ pos) (BitVec.le_def.mp (of_decide_eq_true goes))
  refine .loop (fun j : Word => j.toNat) (fun j _ => down j) (fun j _ goes => ?_)
    (Nat.le_trans (Nat.le_of_lt (BitVec.isLt _)) enough) trivial
  refine .bind steady_freeBlock fun _ _ => .pure ⟨trivial, ?_⟩
  have pos := down j goes
  have one : (1 : Word) ≤ j := BitVec.le_def.mpr pos
  rw [BitVec.toNat_sub_of_le one]
  exact Nat.sub_lt pos Nat.one_pos

/-- A block is taken off the free list. -/
lemma steady_blkAlloc : Steady w l (fun _ => True) blkAlloc := by
  refine .bind (.modifyFilsys fun _ => rfl) fun _ _ => .bind .get fun _ _ => .ite (fun _ => .halt nofun) fun _ => ?_
  refine .ite (fun _ => .bind (.modifyFilsys fun _ => rfl) fun _ _ => .pure trivial) fun _ => ?_
  have rest : ∀ newno : Word, Steady w l (fun _ => True) (do
      modifyFilsys fun fs => { fs with sTfree := fs.sTfree - 1 }
      let fs := (← get).filsys
      if newno < fs.sIsize ∨ fs.sFsize ≤ newno then pure 0
      else do
        writeSuper
        pure newno) := fun newno =>
    .bind (.modifyFilsys fun _ => rfl) fun _ _ => .bind .get fun _ _ =>
      .ite (fun _ => .pure trivial) fun _ => .bind steady_writeSuper fun _ _ => .pure trivial
  refine .ite (fun _ => .bind (.bind .daread fun _ _ => .bind .get fun _ _ => .modifyFilsys fun _ => rfl)
    fun _ _ => ?_) fun _ => ?_
  · exact rest _
  · exact rest _

/-- A block is copied. -/
lemma steady_copyBlock {value : Word} : Steady w l (fun _ => True) (copyBlock value) :=
  .bind steady_blkAlloc fun _ _ => .ite (fun _ => .pure trivial) fun _ => .bind .daread fun _ _ =>
    .bind .get fun _ _ => .bind .dwrite fun _ _ => .pure trivial

/-- An indirect block that is in use twice is copied. -/
lemma steady_uniqueIndirect : Steady w l (fun _ => True) (uniqueIndirect n ino b) := by
  refine .ite (fun _ => .pure trivial) fun _ => .bind steady_bitmapAt fun _ _ => .ite (fun _ => ?_) fun _ => ?_
  · exact .bind steady_setBitmap fun _ _ => .pure trivial
  · refine .bind .yes fun _ _ => .ite (fun _ => .bind steady_copyBlock fun _ _ => ?_) fun _ => .pure trivial
    exact .ite (fun _ => .pure trivial) fun _ => .bind steady_iwrite fun _ _ => .pure trivial

/-- A block that is in use twice is copied, and the size of the file is what it was. -/
lemma steady_uniqueBlock : Steady w l (fun ino' => ino'.iSize = ino.iSize) (uniqueBlock n ino bno) := by
  refine .bind steady_getblkno fun value _ => .ite (fun _ => .pure rfl) fun _ => ?_
  refine .bind steady_bitmapAt fun _ _ => .ite (fun _ => .bind steady_setBitmap fun _ _ => .pure rfl) fun _ => ?_
  refine .bind .yes fun _ _ => .ite (fun _ => .bind steady_copyBlock fun _ _ => ?_) fun _ => .pure rfl
  refine .ite (fun _ => .pure rfl) fun _ => .bind steady_setblkno fun ino' same => ?_
  exact .bind steady_iwrite fun _ _ => .pure same

/-- The blocks of an inode become its own. -/
lemma steady_uniqueInode (enough : 65536 ≤ fuel) : Steady w l (fun _ => True) (uniqueInode fuel n) := by
  refine .bind steady_iread fun _ _ => .ite (fun _ => .pure trivial) fun _ => ?_
  refine .bind steady_uniqueIndirect fun _ _ => .bind steady_uniqueIndirect fun _ _ => ?_
  exact steady_blocks (fun p => .bind steady_uniqueBlock fun _ same => .pure ⟨same, rfl⟩) enough

/-- Pass 3 ends. -/
lemma steady_pass3 (enough : 65536 ≤ fuel) : Steady w l (fun _ => True) (pass3 fuel) := by
  refine .bind .get fun s got => .bind (P := fun _ => True) ?_ fun _ _ =>
    .bind (P := fun _ => w.toNat ≤ 8193) ?_ fun _ _ => .pure trivial
  · refine .loop (fun b : Word => 65536 - b.toNat) (fun b _ _ => Nat.sub_pos_of_lt b.isLt) (fun b _ goes => ?_)
      (Nat.le_trans (Nat.sub_le _ _) enough) trivial
    refine .bind steady_setBitmap fun _ _ => .pure ⟨trivial, ?_⟩
    have lt := BitVec.lt_def.mp (of_decide_eq_true goes)
    have := s.filsys.sFsize.isLt
    rw [toNat_next (by omega)]
    omega
  · exact steady_inodes (fun n : Word => n) got.1 (fun n => .bind (steady_uniqueInode enough) fun _ _ => .pure rfl)
      enough

/-- A directory is read up to its 32nd entry. -/
lemma steady_dirread : Steady w l (fun _ => j.toNat < 32) (dirread ino j) := by
  refine .bind steady_getblkno fun _ _ => .ite (fun _ => .halt nofun) fun _ => .bind .daread fun _ _ => ?_
  exact .ite (fun _ => .halt nofun) fun inside => .bind .get fun _ _ => .pure (by omega)

/-- An entry of a directory is written. -/
lemma steady_dirwrite {dentry : Direct} : Steady w l (fun _ => True) (dirwrite ino j dentry) := by
  refine .bind steady_getblkno fun _ _ => .ite (fun _ => .halt nofun) fun _ => .bind .daread fun _ _ => ?_
  exact .ite (fun _ => .halt nofun) fun _ => .bind .modifyReadbuf fun _ _ => .bind .get fun _ _ => .dwrite

variable {name : List Byte} {dentry : Direct} {inum pnum : Word}

/-- The length of a directory is corrected. -/
lemma steady_fixLength : Steady w l (fun _ => True) (fixLength inum ino) := by
  unfold fixLength
  exact .ask (.bind steady_iwrite fun _ _ => .pure trivial) trivial

/-- An entry of a directory is cleared. -/
lemma steady_zapEntry : Steady w l (fun _ => True) (zapEntry ino j dentry asks q) := by
  unfold zapEntry
  exact .ask (.bind steady_dirwrite fun _ _ => .pure trivial) trivial

/-- The slashes in a name are replaced. -/
lemma steady_fixSlashes {count c : Nat} : Steady w l (fun _ => True) (fixSlashes ino j name count c dentry) := by
  induction count generalizing c dentry with
  | zero => exact .pure trivial
  | succ count ih =>
    refine .ite (fun _ => .pure trivial) fun _ => .bind (P := fun _ => True) ?_ fun _ _ => ih
    unfold fixSlash
    exact .ask (.bind steady_dirwrite fun _ _ => .pure trivial) trivial

/-- An entry `.` or `..` is corrected. -/
lemma steady_fixDot : Steady w l (fun _ => True) (fixDot ino j dentry inum asks q) := by
  unfold fixDot
  exact .ask (.bind steady_dirwrite fun _ _ => .pure trivial) trivial

/-- The path of an entry is made. -/
lemma steady_makePath : Steady w l (fun _ => True) (makePath name dentry) :=
  .bind .get fun _ _ => .bind (.emit nofun) fun _ _ => .ite (fun _ => .pure trivial) fun _ => .halt nofun

/-- A number of an entry is tested. -/
lemma steady_bogus : Steady w l (fun _ => True) (bogus n) :=
  .ite (fun _ => .pure trivial) fun _ => .bind steady_linkmapAt fun _ _ => .pure trivial

/-- A link is counted. -/
lemma steady_countLink : Steady w l (fun _ => True) (countLink n) :=
  .bind steady_linkmapAt fun _ _ => steady_setLinkmap

/-- An entry is checked, where a directory on the level below can be. -/
lemma steady_ckentry {rec : Word → Word → List Byte → F PUnit}
    (deeper : l < MAXDEPTH → ∀ n p name, Steady w l (fun _ => True) (rec n p name)) :
    Steady w l (fun _ => j.toNat < 32) (ckentry rec inum pnum name ino j) := by
  refine .bind steady_dirread fun dentry inside => .ite (fun _ => .pure inside) fun _ => .bind .get fun _ _ =>
    .bind (.emit nofun) fun _ _ => ?_
  refine .bind steady_zapEntry fun _ _ => .ite (fun _ => .pure inside) fun _ => .bind steady_bogus fun _ _ => ?_
  refine .bind steady_zapEntry fun _ _ => .ite (fun _ => .pure inside) fun _ => .bind steady_countLink fun _ _ => ?_
  refine .bind steady_fixSlashes fun _ _ => .bind steady_fixDot fun _ _ => .bind steady_fixDot fun _ _ => ?_
  refine .bind .get fun s got => .ite (fun goes => .bind steady_makePath fun _ _ => ?_) fun _ => .pure inside
  exact (deeper (got.2 ▸ goes.2.2) _ _ _).mono fun _ _ => inside

/-- `ckdir` is called with a depth below `MAXDEPTH`, and `levels` are left for the rest. -/
lemma steady_ckdir {levels : Nat} (enough : 65536 ≤ fuel) (deep : l < MAXDEPTH) (left : MAXDEPTH ≤ l + levels) :
    Steady w l (fun _ => True) (ckdir fuel levels inum pnum name) := by
  induction levels generalizing l inum pnum name with
  | zero => exact absurd deep (Nat.not_lt.mpr left)
  | succ levels ih =>
    refine .bind steady_iread fun ino _ => .ite (fun _ => .pure trivial) fun _ => ?_
    have entries : ∀ ino : Dinode, Steady w (l + 1) (fun _ => True)
        (loop (fun j : Word => (j.toNat : Int) <
            8 * (ino.iSize.oBlkno.toNat : Int) + Int.tdiv ino.iSize.oOffset.toInt 16)
          (fun j => do
            ckentry (ckdir fuel levels) inum pnum name ino j
            pure (j + 1)) (halt .hang) fuel 0) := by
      intro ino
      refine .loop (fun j : Word => 65536 - j.toNat) (fun j _ _ => Nat.sub_pos_of_lt j.isLt) (fun j _ _ => ?_)
        (Nat.le_trans (Nat.sub_le _ _) enough) trivial
      refine .bind (steady_ckentry fun deep n p name => ih deep (by omega)) fun _ inside => .pure ⟨trivial, ?_⟩
      rw [toNat_next (by omega)]
      omega
    intro s isize depth
    rw [wp_bind, wp_modify, wp_bind]
    refine wp_post (steady_fixLength _ isize (congrArg (· + 1) depth)) fun ino s₁ got => ?_
    rw [wp_bind]
    refine wp_post (entries ino s₁ (got.1.isize.trans isize) (got.1.depth.trans (congrArg (· + 1) depth)))
      fun _ s₂ got' => ?_
    exact ⟨(got.1.trans got'.1).nested, trivial⟩

/-- The search for a slot in `lost+found` ends. -/
lemma steady_mkentryFrom {more : Word → Bool} (upto : j.toNat ≤ 32) (enough : 33 ≤ j.toNat + fuel) :
    Steady w l (fun _ => True) (mkentryFrom n ino more fuel j) := by
  induction fuel generalizing j with
  | zero => omega
  | succ fuel ih =>
    refine .ite (fun _ => .bind steady_dirread fun _ inside => .ite (fun _ => steady_dirwrite) fun _ => ?_)
      fun _ => .pure trivial
    have next : (j + 1).toNat = j.toNat + 1 := toNat_next (by omega)
    exact ih (by omega) (by omega)

/-- `mkentry` ends. -/
lemma steady_mkentry (enough : 65536 ≤ fuel) : Steady w l (fun _ => True) (mkentry fuel n) :=
  have enough : 33 ≤ fuel := Nat.le_trans (by decide) enough
  .bind steady_iread fun _ _ => steady_mkentryFrom (Nat.zero_le 32) (Nat.le_trans enough (Nat.le_add_left ..))

/-- An inode without a name is attached, or not. -/
lemma steady_attach (enough : 65536 ≤ fuel) : Steady w l (fun _ => True) (attach fuel n ino) := by
  refine .ite (fun _ => .bind .yes fun _ _ => .ite (fun _ => ?_) fun _ => .pure trivial) fun _ =>
    .bind .yes fun _ _ => .ite (fun _ => ?_) fun _ => .pure trivial
  · exact .bind steady_iwrite fun _ _ => .bind (.modifyFilsys fun _ => rfl) fun _ _ => steady_writeSuper
  · exact .bind steady_iwrite fun _ _ => steady_mkentry enough

/-- The links of an inode are compared with its count. -/
lemma steady_checkLinks (enough : 65536 ≤ fuel) : Steady w l (fun _ => True) (checkLinks fuel n) := by
  refine .bind steady_iread fun ino _ => .bind steady_linkmapAt fun links _ => .ite (fun _ => ?_) fun _ => ?_
  · exact .ite (fun _ => .halt nofun) fun _ => .pure trivial
  · refine .ite (fun _ => .halt nofun) fun _ => .bind (P := fun _ => True) ?_ fun ino _ => ?_
    · unfold fixLinkCount
      exact .ask (.bind steady_iwrite fun _ _ => .pure trivial) trivial
    · exact .ite (fun _ => steady_attach enough) fun _ => .pure trivial

/-- Pass 5 ends. -/
lemma steady_pass5 (enough : 65536 ≤ fuel) : Steady w l (fun _ => True) (pass5 fuel) := by
  refine .bind .get fun s got => .bind (P := fun _ => w.toNat ≤ 8193) ?_ fun _ _ => .pure trivial
  exact steady_inodes (fun n : Word => n) got.1 (fun n => .bind (steady_checkLinks enough) fun _ _ => .pure rfl) enough

/-- The magic number is corrected. -/
lemma steady_fixMagic : Steady w l (fun _ => True) fixMagic := by
  refine .bind .get fun _ _ => .ite (fun _ => .bind .yes fun _ _ => .ite (fun _ => ?_) fun _ => .halt nofun)
    fun _ => .pure trivial
  exact .bind (.modifyFilsys fun _ => rfl) fun _ _ => steady_writeSuper

/-- `pass4`, which begins at depth 0. -/
lemma steady_pass4 (enough : 65536 ≤ fuel) : Steady w 0 (fun _ => True) (pass4 fuel) := by
  intro s isize depth
  rw [pass4, wp_bind, wp_modify]
  have same : { s with depth := 0 } = s := by rw [← depth]
  rw [same]
  refine Steady.bind steady_setLinkmap (fun _ _ => ?_) s isize depth
  refine .bind (steady_ckdir enough (by decide) (by decide)) fun _ _ => .bind .get fun _ _ => ?_
  exact .ite (fun _ => .halt nofun) fun _ => .pure trivial

end Passes

variable {image : Image} {answers : Nat → Bool} {stack : List Byte} {fuel : Nat}

/-- A run that returns has begun no loop that does not end, and only such a loop hangs. -/
structure Ends (fuel : Nat) (s : State) : Prop where
  run : wp (main fuel) (fun _ s' => ¬ Unending s') NotHung s

/-- Every loop with an end has ended after 65536 rounds, in every run and on every image. -/
theorem main_ends (pos : 1 ≤ (Filesys.ofBlock (image 1)).sIsize.toNat) (enough : 65536 ≤ fuel) :
    Ends fuel { State.start image answers with stack := stack } := by
  refine ⟨?_⟩
  rw [main, readSuper, wp_bind, wp_bind, wp_daread, wp_modify]
  have parts : Steady (Filesys.ofBlock (image 1)).sIsize 0
      (fun _ => (Filesys.ofBlock (image 1)).sIsize.toNat ≤ 8193) (do
        fixMagic
        let fs := (← get).filsys
        if ← yes (.sizes fs.sFsize fs.sIsize) then do
          modify fun s => { s with bitmap := fun _ => 0, linkmap := fun _ => 0 }
          pass1 fuel
          pass2 fuel
          pass3 fuel
          pass4 fuel
          pass5 fuel
        else halt .exit) := by
    refine .bind steady_fixMagic fun _ _ => .bind .get fun s _ => .bind .yes fun _ _ =>
      .ite (fun _ => ?_) fun _ => .halt nofun
    refine .bind .modifyMaps fun _ _ => .bind (steady_pass1 enough) fun _ few => ?_
    refine .bind (steady_pass2 pos enough) fun _ _ => .bind (steady_pass3 enough) fun _ _ => ?_
    exact .bind (steady_pass4 enough) fun _ _ => (steady_pass5 enough).mono fun _ _ => few
  refine wp_post (parts _ rfl rfl) fun _ s' got unending => ?_
  cases got.1.back unending with
  | inl many => exact absurd got.2 (Nat.not_le.mpr many)
  | inr begun => exact absurd begun List.not_mem_nil

/-- In directory `d` the entry `..` leads to the file, and `g` to an inode that is free. -/
def wornImage : Image :=
  let sub := (treeImage 5).setDirect 1 { dIno := 2, dName := fun i => if i.val < 2 then 0x2e else 0 }
  Function.update treeImage 5 (sub.setDirect 2 (oneChar 5 0x67))

/-- `fsck` repairs the directory. -/
theorem main_ends_worn : Ends 65536 { State.start wornImage (fun _ => true) with stack := [] } ∧
    wp (main 65536) (fun _ s' => ((s'.image 5).direct 1).dIno = ROOTINODE ∧ ((s'.image 5).direct 2).dIno = 0)
      (fun _ => False) { State.start wornImage (fun _ => true) with stack := [] } :=
  ⟨main_ends (by decide +kernel) (by decide), by decide +kernel⟩

/-! ## A run that does not end -/

/-- Inode 1 is a file without blocks, of the largest size. -/
structure Endless (image : Image) : Prop where
  magic : (Filesys.ofBlock (image 1)).sMounted = SMOUNTED
  isize : 3 ≤ (Filesys.ofBlock (image 1)).sIsize.toNat
  mode : (Dinode.ofBlock (image 2) 1).iMode = F_REG
  size : (Dinode.ofBlock (image 2) 1).iSize = ⟨0xffff, 0⟩
  noBlocks : ∀ i, (Dinode.ofBlock (image 2) 1).addr i = 0

/-- A file without blocks has none at any place. -/
lemma blkno_noBlocks {ino : Dinode} {num : Word} (noBlocks : ∀ i, ino.addr i = 0) : blkno image ino num = 0 := by
  unfold blkno
  rw [noBlocks, noBlocks, noBlocks, entry_nil, if_pos rfl, ite_self, ite_self]

/-- The loop over the logical blocks goes round for ever. -/
lemma wp_checkBlocks_endless {n : Word} {ino : Dinode} {s : State} (noBlocks : ∀ i, ino.addr i = 0)
    (last : ino.iSize.oBlkno = 0xffff) :
    wp (checkBlocks fuel n ino) (fun _ _ => False) (fun e => e.1 = .hang) s := by
  have indirect : ∀ b, wp (checkIndirect n ino b) (fun ino' s' => ino' = ino ∧ s' = s) (fun _ => False) s := by
    intro b
    simp [checkIndirect, zapAddr, outOfRange, noBlocks]
  unfold checkBlocks
  rw [wp_bind]
  refine wp_mono (indirect 18) (fun ino' s' => ?_) fun _ => False.elim
  rintro ⟨rfl, rfl⟩
  rw [wp_bind]
  refine wp_mono (indirect 19) (fun ino' s' => ?_) fun _ => False.elim
  rintro ⟨rfl, rfl⟩
  rw [wp_ite, if_neg (not_not_intro (noBlocks 19)), wp_bind, wp_emit, wp_bind]
  refine wp_post (wp_loop (fun p _ => p.2 = ino') ?_ ?_ rfl) fun p s got => ?_
  · rintro ⟨bno, _⟩ s rfl _
    unfold checkBlock
    rw [wp_bind, wp_bind]
    refine wp_mono wp_getblkno (fun b s' got => ?_) fun _ => False.elim
    rw [blkno_noBlocks noBlocks] at got
    rw [got.1]
    exact rfl
  · intro _ _ _ _
    exact rfl
  · obtain ⟨same, ends⟩ := got
    have goes : p.1 ≤ p.2.iSize.oBlkno := by
      rw [same, last]
      exact BitVec.le_def.mpr (Nat.le_of_lt_succ p.1.isLt)
    exact of_decide_eq_false ends goes

/-- The loop over the blocks of that inode does not end. -/
lemma wp_checkInode_endless {icount : Word} {s : State} (h : Endless s.image) (inside : 1 ≤ s.filsys.sIsize.toNat) :
    wp (checkInode fuel ROOTINODE icount) (fun _ _ => False) (fun e => e.1 = .hang) s := by
  have root : inodeBlk ROOTINODE = 2 := by decide
  have second : inodeIdx ROOTINODE = 1 := by decide
  have index : ROOTINODE.toNat < 8 * s.filsys.sIsize.toNat := by
    show 1 < _
    omega
  unfold checkInode
  rw [wp_bind, wp_iread, root, second, wp_bind, wp_setLinkmap, if_pos index, wp_ite, if_neg (by rw [h.mode]; decide)]
  have known : zapInode ROOTINODE (Dinode.ofBlock (s.image 2) 1) = pure false := by
    unfold zapInode
    rw [h.mode]
    rfl
  have notBig : fixBigOffset ROOTINODE (Dinode.ofBlock (s.image 2) 1) = pure (Dinode.ofBlock (s.image 2) 1) := by
    unfold fixBigOffset
    rw [h.size]
    rfl
  have notNegative : fixNegativeOffset ROOTINODE (Dinode.ofBlock (s.image 2) 1) =
      pure (Dinode.ofBlock (s.image 2) 1) := by
    unfold fixNegativeOffset
    rw [h.size]
    rfl
  rw [known, wp_bind, wp_pure, wp_ite, if_neg Bool.false_ne_true, wp_bind, wp_setLinkmap, if_pos index, notBig,
    wp_bind, wp_pure, notNegative, wp_bind, wp_pure, wp_ite, if_pos (.inl (by rw [h.mode]; decide)), wp_bind]
  have last : (Dinode.ofBlock (s.image 2) 1).iSize.oBlkno = 0xffff := by rw [h.size]
  exact wp_post (wp_checkBlocks_endless h.noBlocks last) fun _ _ => False.elim

/-- Pass 1 does not come past that inode. -/
lemma wp_pass1_endless {s : State} (h : Endless s.image) (isize : 3 ≤ s.filsys.sIsize.toNat) :
    wp (pass1 fuel) (fun _ _ => False) (fun e => e.1 = .hang) s := by
  rw [pass1, wp_bind, wp_get, wp_bind]
  refine wp_post (wp_loop (fun p s => p = (ROOTINODE, 0) ∧ Endless s.image ∧ 1 ≤ s.filsys.sIsize.toNat) ?_ ?_
    ⟨rfl, h, Nat.le_trans (by decide) isize⟩) fun p s' got => ?_
  · rintro p s ⟨rfl, endless, pos⟩ _
    rw [wp_bind]
    exact wp_post (wp_checkInode_endless endless pos) fun _ _ => False.elim
  · intro _ _ _ _
    exact rfl
  · obtain ⟨⟨rfl, -⟩, ends⟩ := got
    refine absurd ?_ (of_decide_eq_false ends)
    show ((1 : Nat) : Int) < 8 * ((s.filsys.sIsize.toNat : Int) - 2)
    omega

/-- The run goes round for ever in the first inode of `pass1`. -/
theorem main_endless (h : Endless image) :
    wp (main fuel) (fun _ _ => False) (fun e => e.1 = .hang) (State.start image fun _ => true) := by
  rw [main, readSuper, wp_bind, wp_bind, wp_daread, wp_modify, fixMagic, wp_bind, wp_bind, wp_get, wp_ite]
  split
  · next wrong => exact absurd h.magic wrong
  · rw [wp_pure, wp_bind, wp_get, wp_bind, wp_yes, wp_ite]
    refine (if_pos rfl).mpr ?_
    rw [wp_bind, wp_modify, wp_bind]
    exact wp_post (wp_pass1_endless h h.isize) fun _ _ => False.elim

/-- A file without blocks, of the largest size, in a file system of four blocks. -/
def endlessImage : Image :=
  Function.update (Function.update (fun _ => Block.zero) 1 (Mkfs.sbBlock (Mkfs.super 4 3) 0)) 2
    (Block.zero.setDinode 1 { Dinode.ofBlock Block.zero 0 with iMode := F_REG, iSize := ⟨0xffff, 0⟩ })

/-- Its first inode has the largest size and no blocks. -/
lemma endless_endlessImage : Endless endlessImage where
  magic := by decide +kernel
  isize := by decide +kernel
  mode := by decide +kernel
  size := by decide +kernel
  noBlocks i := by
    have small : ∀ i < 20, (Dinode.ofBlock (endlessImage 2) 1).addr i = 0 := by decide +kernel
    by_cases lt : i < 20
    · exact small i lt
    · exact dif_neg lt

/-- With every question answered yes, the run does not end, however many rounds it is given. -/
theorem not_main_ends : 3 ≤ (Filesys.ofBlock (endlessImage 1)).sIsize ∧
    (Filesys.ofBlock (endlessImage 1)).sIsize < (Filesys.ofBlock (endlessImage 1)).sFsize ∧
    ¬ ∃ fuel, wp (main fuel) (fun _ _ => True) (fun e => e.1 ≠ .hang) (State.start endlessImage fun _ => true) := by
  refine ⟨by decide +kernel, by decide +kernel, ?_⟩
  rintro ⟨fuel, ends⟩
  have both := ends.and (main_endless endless_endlessImage)
  have returns := (wp_mono both (fun _ _ => And.right) fun _ got => got.1 got.2).returns
  obtain ⟨_, _, _, never⟩ := returns
  exact never

end Fsck
end Uzi
