import Uzi.Fs.FlatWrites

/-!
# Reads of flat files

A `_read` copies bytes of one flat file to the memory, zeros where the file has no block. How many it copies is
the limit of `readi`, which is computed with 16-bit differences and a shortcut for files that go on for 64 blocks.
-/

namespace Uzi
open Exec FlatFile

variable {s s' : Kernel} {dev : Nat} {I : Finset Inoptr} {rest : List Dinode} {L : List Word} {ino : Inoptr}
  {n m : Word}

/-! ## The loop of a read -/

/-- `zerobuf` gives a blank buffer that nobody holds. -/
lemma wp_zerobuf_shown (g : s.bufs.Good) (idle : ∀ bp, s.bufs.view.held bp = none) :
    wp zerobuf (fun bp s' => s.Shown s' ∧ (s'.buf bp).bfData = Block.zero) (fun _ => False) s := by
  refine wp_mono (wp_zerobuf g.pool) ?_ fun e stops => ?_
  · rintro bp _ ⟨b', rfl, z⟩
    have name : ∀ i ∈ s.bufs.busy, b'.cache.name i = s.bufs.cache.name i :=
      fun i hi => z.name_ne i fun e => z.idle (e ▸ hi)
    have good : b'.Good := ⟨z.pool, z.dirtyDev g.dirtyDev, fun i hi => by
      rw [z.busy] at hi
      rw [name i hi]
      exact g.named i hi⟩
    have view : b'.view = s.bufs.view := by
      ext1
      · exact funext z.content
      · funext i
        by_cases hi : i ∈ s.bufs.busy
        · rw [Bufs.held_of_busy (z.busy ▸ hi), Bufs.held_of_busy hi, name i hi]
        · rw [Bufs.held_of_idle (z.busy ▸ hi), Bufs.held_of_idle hi]
    exact ⟨⟨b', rfl, good, view⟩, z.data⟩
  · have none : ¬ s.bufs.view.Stops 0 ∅ e := View.not_stops_of_idle idle (by decide)
    cases stops with
    | inl all => exact none (.inr ⟨all.1, g.nheld all.2⟩)
    | inr undefined => exact undefined.2 g.dirtyDev

/-- A round of `readi` reads what it takes, zeros from a logical block without a block. -/
lemma wp_readRound_bytes (hdev : dev < NDEVS) (h : s.FileAt dev ino L)
    (fits : s.udata.uOffset.oOffset.toNat + (chunk s.target n s.udata.uOffset.oOffset).toNat ≤ 512) :
    wp (readRound ino dev false n)
      (fun r s' => r = some (n - chunk s.target n s.udata.uOffset.oOffset) ∧
        s.ReadBytes s' dev ino s.udata.uOffset.oBlkno (chunk s.target n s.udata.uOffset.oOffset))
      (fun _ => False) s := by
  by_cases hole : s.fileBlock dev ino s.udata.uOffset.oBlkno = 0
  swap
  · exact wp_readRound_file hdev h fits hole
  have own := h.own
  unfold readRound
  rw [wp_bind, wp_get, wp_bind]
  refine wp_post (wp_bmap_read h.good h.idle (own ▸ hdev) h.not_bdev) fun r s₁ got => ?_
  obtain ⟨⟨b, e, g, v⟩, r_eq⟩ := got
  have null : r = NULLBLK := by
    rw [r_eq, own]
    exact if_pos hole
  subst e
  have idle : ∀ bp, b.view.held bp = none := fun bp => by rw [v]; exact h.idle bp
  rw [wp_bind, readBlock, if_neg (not_not.mpr null)]
  refine wp_post (wp_zerobuf_shown (s := { s with bufs := b }) g idle) fun bp s₂ got => ?_
  obtain ⟨⟨b₁, e, g₁, v₁⟩, blank⟩ := got
  subst e
  have data : (b₁.bufpool bp).bfData = s.fileData dev ino s.udata.uOffset.oBlkno := by
    rw [Kernel.fileData_eq, if_pos hole]
    exact blank
  rw [wp_bind, wp_get, wp_bind, wp_copyOut (by exact fits), wp_bind]
  refine wp_post (wp_brelse g₁) fun _ s₃ got => ?_
  obtain ⟨b₂, e, g₂, v₂⟩ := got
  subst e
  have unheld : b₁.view.release bp = b₁.view := by
    ext1
    · rfl
    · have none : b₁.view.held bp = Option.none := by rw [v₁]; exact idle bp
      rw [View.release, ← none, Function.update_eq_self]
  rw [roundEnd, wp_bind, wp_bind, wp_advance, wp_ite, if_neg Bool.false_ne_true]
  refine ⟨rfl, rfl, g₂, v₂.trans (unheld.trans (v₁.trans v)), ?_⟩
  rw [← data]
  rfl

/-- The bytes of one logical block come to the memory. -/
lemma Kernel.bytes_block {o : Off} {mem : Nat → Byte} {base a : Nat} (fits : o.oOffset.toNat + a ≤ 512) :
    (putBytes mem base a fun i => (s.fileData dev ino o.oBlkno).byte (o.oOffset.toNat + i)) =
      overwrite mem base (slice (s.byteAt dev ino) o.val a) := by
  have start : o.val = 512 * o.oBlkno.toNat + o.oOffset.toNat := rfl
  have blk := o.oBlkno.isLt
  rw [overwrite_slice]
  funext q
  rw [putBytes]
  by_cases inside : base ≤ q ∧ q < base + a
  · rw [if_pos inside, if_pos inside, Kernel.byteAt, if_pos (by omega)]
    have block : BitVec.ofNat 16 ((o.val + (q - base)) / 512) = o.oBlkno := by
      rw [← BitVec.toNat_inj, BitVec.toNat_ofNat]
      omega
    rw [block]
    exact congrArg _ (by omega)
  · rw [if_neg inside, if_neg inside]

/-- After `k` rounds of a read of `n` bytes, of which `m` are left: those that are not are in the memory. -/
structure Kernel.FillsMemory (s s' : Kernel) (dev : Nat) (ino : Inoptr) (n m : Word) (k : Nat) : Prop where
  underway : s.Underway s' false n m k
  eq : s' = { s with bufs := s'.bufs, udata := s'.udata }
  good : s'.bufs.Good
  view : s'.bufs.view = s.bufs.view
  udata : s'.udata = { s.udata with mem := s'.udata.mem, uBase := s'.udata.uBase, uOffset := s'.udata.uOffset }
  mem : s'.udata.mem =
    overwrite s.udata.mem s.udata.uBase (slice (s.byteAt dev ino) s.udata.uOffset.val (n.toNat - m.toNat))

/-- The data of the file are as before. -/
lemma Kernel.FillsMemory.data {k : Nat} (h : s.FillsMemory s' dev ino n m k) (file : s.FileAt dev ino L) :
    s.SameBlocks s' dev ino L (s.fileData dev ino) := by
  have eq := h.eq
  exact file.keep h.good h.view (eq ▸ rfl) (eq ▸ ⟨rfl, rfl, rfl, rfl, rfl⟩)

/-- One round more. -/
lemma Kernel.FillsMemory.next {k : Nat} (hdev : dev < NDEVS) (file : s.FileAt dev ino L)
    (nes : s.target = .nes → n.toNat < 2 ^ 15) (room : s.udata.uOffset.val + n.toNat < 2 ^ 25)
    (h : s.FillsMemory s' dev ino n m k) (ne : left m = true) :
    wp (readRound ino dev false m)
      (fun r s'' => (∀ m', r = some m' → s.FillsMemory s'' dev ino n m' (k + 1)) ∧ r ≠ none) (fun _ => False) s' := by
  have same := h.data file
  have norm := h.underway.norm
  have fewer := h.underway.least
  have offset : s'.udata.uOffset.oOffset.toNat < 512 := norm
  obtain ⟨⟨pos, inside⟩, le⟩ := chunk_bounds norm (fun t => by have := nes (h.underway.target ▸ t); omega) ne
  rw [toInt_of_lt (by omega)] at inside
  have fits : s'.udata.uOffset.oOffset.toNat + (chunk s'.target m s'.udata.uOffset.oOffset).toNat ≤ 512 := by
    omega
  have round := (wp_readRound_bytes (n := m) hdev same.file fits).and (h.underway.next readRound_moves nes ne)
  refine wp_mono round (fun r s'' got => ?_) fun _ bad => bad.1
  obtain ⟨⟨e, read⟩, moved⟩ := got
  subst e
  refine ⟨fun m' e' => ?_, nofun⟩
  cases e'
  have eq := h.eq
  have udata := h.udata
  refine ⟨moved _ rfl, ?_, read.good, read.view.trans h.view, ?_, ?_⟩
  · refine read.eq.trans ?_
    rw [eq]
  · rw [read.udata, udata]
    rfl
  · have base := h.underway.base
    have done : n.toNat - (m - chunk s'.target m s'.udata.uOffset.oOffset).toNat =
        n.toNat - m.toNat + (chunk s'.target m s'.udata.uOffset.oOffset).toNat := by
      rw [BitVec.toNat_sub_of_le le]
      have lt := BitVec.le_def.mp le
      omega
    have at_base : s'.udata.uBase = s.udata.uBase + (n.toNat - m.toNat) := by omega
    have bytes : s'.byteAt dev ino = s.byteAt dev ino := Kernel.byteAt_congr same.data
    have length : (slice (s.byteAt dev ino) s.udata.uOffset.val (n.toNat - m.toNat)).length = n.toNat - m.toNat :=
      length_slice
    calc s''.udata.mem = _ := congrArg UData.mem read.udata
      _ = overwrite s'.udata.mem s'.udata.uBase (slice (s'.byteAt dev ino) s'.udata.uOffset.val
          (chunk s'.target m s'.udata.uOffset.oOffset).toNat) := Kernel.bytes_block fits
      _ = _ := by
        rw [h.mem, bytes, h.underway.pos room, done, slice_add, ← overwrite_append, length, at_base]

/-- The loop of `readi` reads all of the bytes. -/
lemma wp_readRounds_flat (hdev : dev < NDEVS) (file : s.FileAt dev ino L)
    (nes : s.target = .nes → n.toNat < 2 ^ 15) (norm : s.udata.uOffset.Norm)
    (room : s.udata.uOffset.val + n.toNat < 2 ^ 25) :
    wp (rounds left .hang (readRound ino dev false) n.toNat n)
      (fun _ s' => ∃ k, s.FillsMemory s' dev ino n 0 k) (fun _ => False) s := by
  have filling : ∀ {k s' m}, Reaches left (readRound ino dev false) s n k s' m → s.FillsMemory s' dev ino n m k := by
    intro k s' m reached
    refine reached.invariant (I := fun k s' m => s.FillsMemory s' dev ino n m k) ?_ fun k s' m before goes => ?_
    · have first : Reaches left (readRound ino dev false) s n 0 s n := .start
      refine ⟨reaches_underway readRound_moves nes norm first, rfl, file.good, rfl, rfl, ?_⟩
      rw [Nat.sub_self, slice_zero, overwrite_nil]
    · exact wp_mono (before.next hdev file nes room goes) (fun _ _ got => got.1) fun _ => False.elim
  refine wp_mono wp_rounds (fun _ s' => ?_) fun e => ?_
  · intro ⟨k, s'', m, reached, ended⟩
    have here := filling reached
    cases ended with
    | inl done =>
      obtain ⟨none, same⟩ := done
      have zero : m = 0 := not_not.mp (of_decide_eq_false none)
      subst same zero
      exact ⟨k, here⟩
    | inr broken => exact absurd rfl ((here.next hdev file nes room broken.1).ok broken.2).2
  · intro ⟨k, s'', m, reached, goes, stopped⟩
    have here := filling reached
    cases stopped with
    | inl error => exact (here.next hdev file nes room goes).error error
    | inr out =>
      have least := here.underway.least
      have pos : m.toNat ≠ 0 := fun zero => of_decide_eq_true goes (BitVec.eq_of_toNat_eq zero)
      omega

/-! ## The end of a file -/

/-- A read of `count` bytes at `off` is cut at the end of a file of `size`, and not anywhere else. -/
def readsExactly (t : Target) (count : Word) (size off : Off) : Prop :=
  if off.val ≤ size.val then
    (t = .nes → count.toNat < 2 ^ 15) ∧
      (64 ≤ size.oBlkno.toNat - off.oBlkno.toNat → count.toNat ≤ size.val - off.val)
  else if t = .nes then size.oBlkno ≠ off.oBlkno ∧ count = 0
  else (off.val - size.val) % 2 ^ 16 = 0

instance {t : Target} {count : Word} {size off : Off} : Decidable (readsExactly t count size off) := by
  unfold readsExactly
  infer_instance

section Limit

variable {t : Target} {count : Word} {size off : Off}

/-- The smaller of two numbers of 16 bits with a sign, of which none is negative. -/
lemma toNat_ofInt_min {x : Word} {y : Nat} (hx : x.toNat < 2 ^ 15) (hy : y < 2 ^ 15) :
    (BitVec.ofInt 16 (min x.toInt y)).toNat = min x.toNat y := by
  have cast : min (x.toNat : Int) y = (min x.toNat y : Nat) := by omega
  rw [toInt_of_lt hx, cast, toNat_ofInt_natCast (by omega)]

/-- On the NES the limit is right where the count and the distance are small. -/
lemma readLimit_nes (hs : size.Norm) (ho : off.Norm) :
    ((readLimit .nes count size off).toNat = min count.toNat (size.val - off.val) ∧
      (readLimit .nes count size off).toNat < 2 ^ 15) ↔ readsExactly .nes count size off := by
  have ls : size.oOffset.toNat < 512 := hs
  have lo : off.oOffset.toNat < 512 := ho
  have sv : size.val = 512 * size.oBlkno.toNat + size.oOffset.toNat := rfl
  have ov : off.val = 512 * off.oBlkno.toNat + off.oOffset.toNat := rfl
  have sb := size.oBlkno.isLt
  have ob := off.oBlkno.isLt
  have blocks : (size.oBlkno - off.oBlkno).toNat = (2 ^ 16 - off.oBlkno.toNat + size.oBlkno.toNat) % 2 ^ 16 :=
    BitVec.toNat_sub ..
  have zero : count = 0 ↔ count.toNat = 0 := BitVec.toNat_inj.symm
  have blkno : size.oBlkno ≠ off.oBlkno ↔ size.oBlkno.toNat ≠ off.oBlkno.toNat := not_congr BitVec.toNat_inj.symm
  unfold readLimit readsExactly
  dsimp only
  rw [forall_prop_of_true rfl, if_pos (rfl : Target.nes = .nes), zero, blkno]
  split
  · next far => split <;> omega
  · next near =>
    have value : (512 * (size.oBlkno - off.oBlkno) + (size.oOffset - off.oOffset)).toNat =
        (512 * (size.oBlkno - off.oBlkno).toNat + (2 ^ 16 - off.oOffset.toNat + size.oOffset.toNat)) % 2 ^ 16 := by
      rw [BitVec.toNat_add, BitVec.toNat_mul, BitVec.toNat_sub size.oOffset, show (512 : Word).toNat = 512 from rfl]
      omega
    obtain ⟨low, high⟩ := toInt_bounds (512 * (size.oBlkno - off.oBlkno) + (size.oOffset - off.oOffset))
    have signs := toNat_min_lt (x := count) low high
    by_cases neg : 2 ^ 15 ≤ (512 * (size.oBlkno - off.oBlkno) + (size.oOffset - off.oOffset)).toNat
    · have below := toInt_neg_iff.mpr neg
      split <;> omega
    · have signed := toInt_of_lt (Nat.lt_of_not_le neg)
      rw [signed] at signs ⊢
      by_cases big : count.toNat < 2 ^ 15
      · rw [toNat_ofInt_min big (by omega), value]
        split <;> omega
      · split <;> omega

/-- In fsutil the limit is right exactly under the condition. -/
lemma readLimit_fsutil (hs : size.Norm) (ho : off.Norm) :
    (readLimit .fsutil count size off).toNat = min count.toNat (size.val - off.val) ↔
      readsExactly .fsutil count size off := by
  have ls : size.oOffset.toNat < 512 := hs
  have lo : off.oOffset.toNat < 512 := ho
  have sv : size.val = 512 * size.oBlkno.toNat + size.oOffset.toNat := rfl
  have ov : off.val = 512 * off.oBlkno.toNat + off.oOffset.toNat := rfl
  have lt := count.isLt
  have signed : size.oOffset.toInt = _ := toInt_of_lt (by omega)
  have signed' : off.oOffset.toInt = _ := toInt_of_lt (by omega)
  unfold readLimit readsExactly
  dsimp only
  rw [signed, signed', forall_prop_of_false nofun, true_and, if_neg (nofun : Target.fsutil ≠ .nes)]
  split
  · split <;> omega
  · rw [BitVec.toNat_ofInt]
    split <;> omega

/-- The limit of a read is what the file has left, and on the NES a number that is not negative. -/
lemma readLimit_exact (hs : size.Norm) (ho : off.Norm) :
    ((readLimit t count size off).toNat = min count.toNat (size.val - off.val) ∧
      (t = .nes → (readLimit t count size off).toNat < 2 ^ 15)) ↔ readsExactly t count size off := by
  cases t with
  | nes => rw [forall_prop_of_true rfl, readLimit_nes hs ho]
  | fsutil => rw [forall_prop_of_false nofun, and_true, readLimit_fsutil hs ho]

end Limit

/-! ## The call -/

section Calls

variable {i : I} {d : Word} {buf : Nat}

/-- The bytes that are left to a read of `n` bytes. -/
def Kernel.readable (s : Kernel) (ino : Inoptr) (d n : Word) : Nat :=
  min n.toNat ((s.iTab ino).cNode.iSize.val - (s.position d).val)

/-- The state in which a read has filled the memory. -/
structure Kernel.HasRead (s s' : Kernel) (dev : Nat) (I : Finset Inoptr) (rest : List Dinode) (d : Word) (i : I)
    (buf k : Nat) : Prop where
  ordered : ∃ L, s'.InOrder dev I rest L
  others : s.LeavesOthers s' dev I i
  keeps : s.KeepsFile s' dev i
  flat : s'.flat dev I =
    (s.flat dev I).moved (s.udata.ofIndex d) ((s.flat dev I).pos (s.udata.ofIndex d) + k)
  mem : s'.udata.mem =
    overwrite s.udata.mem buf (slice ((s.flat dev I).bytes i) ((s.flat dev I).pos (s.udata.ofIndex d)) k)

/-- `_read` reads what the file has left. -/
lemma wp_read_flat (hdev : dev < NDEVS) (h : s.InOrder dev I rest L) (opened : s.Describes d i)
    (access : (s.ofTab (s.udata.ofIndex d)).oAccess ≠ .wronly)
    (exact : readsExactly s.target n (s.iTab i).cNode.iSize (s.position d)) :
    wp (_read d buf n)
      (fun r s' => (∃ v, r = some v ∧ v.toNat = s.readable i d n) ∧
        s.HasRead s' dev I rest d i buf (s.readable i d n)) (fun _ => False) s := by
  have hip : (i : Inoptr) ∈ I := i.2
  have hs := h.size i hip
  have ho : (s.position d).Norm := h.pos _
  obtain ⟨limit, small⟩ := (readLimit_exact hs ho).mpr exact
  have room : (s.position d).val + (readLimit s.target n (s.iTab i).cNode.iSize (s.position d)).toNat < 2 ^ 25 := by
    have ls := Off.val_lt hs
    have lo := Off.val_lt ho
    omega
  unfold _read
  rw [wp_bind]
  refine wp_rwsetup_open opened access fun c same size => ?_
  obtain ⟨h₁, others, data⟩ := h.setUp hip same size d buf n
  have inode : (s.setUp d i buf n c).iTab i = c := Kernel.iTab_setInode
  simp only
  unfold readFrom
  rw [wp_bind, wp_readi_entry (h₁.fileAt hip).readEntry, inode, size]
  set m := readLimit s.target n (s.iTab i).cNode.iSize (s.position d) with hm
  show wp (rounds left .hang (readRound i dev false) m.toNat m) _ _ ((s.setUp d i buf n c).withCount m)
  have kept : (s.setUp d i buf n c).SameBlocks ((s.setUp d i buf n c).withCount m) dev i L _ :=
    (h₁.fileAt hip).keep h₁.owned.good rfl rfl ⟨rfl, rfl, rfl, rfl, rfl⟩
  refine wp_post (wp_readRounds_flat hdev kept.file small ho room) fun _ s₁ got => ?_
  obtain ⟨k, filled⟩ := got
  have eq := filled.eq
  have udata := filled.udata
  have index : s₁.udata.ofIndex d = s.udata.ofIndex d := by
    rw [udata]
    rfl
  have inode₁ : s₁.iTab i = c := by
    rw [eq]
    exact inode
  have ofTab : s₁.ofTab = s.ofTab := by
    rw [eq]
    rfl
  obtain ⟨h₂, others₂, data₂⟩ := h₁.keep hip filled.good filled.view (eq ▸ rfl) (fun _ _ => eq ▸ rfl)
    (eq ▸ ⟨rfl, rfl, rfl, rfl, rfl⟩) (by rw [inode₁, size]; exact hs) fun j => ofTab ▸ h.pos j
  obtain ⟨h₃, others₃, data₃⟩ := h₂.updoff hip (j := s.udata.ofIndex d) filled.underway.norm
  have pos := filled.underway.pos room
  have zero : m.toNat - (0 : Word).toNat = s.readable i d n := limit
  have bytes : ((s.setUp d i buf n c).withCount m).byteAt dev i = s.byteAt dev i :=
    (Kernel.byteAt_congr kept.data).trans (Kernel.byteAt_congr data)
  unfold updoff
  simp only
  rw [wp_bind, wp_bind, wp_get, wp_modifyOft, index, wp_bind, wp_get, wp_pure]
  refine ⟨⟨m, ?_, limit⟩, ⟨L, h₃⟩, (others.trans others₂).trans others₃, ?_, ?_, ?_⟩
  · refine congrArg some ?_
    show s₁.udata.uCount = m
    rw [udata]
    rfl
  · have addr : c.cNode.addr = (s.iTab i).cNode.addr := same.addr_eq
    exact Kernel.keepsFile_of_view filled.view ((congrArg (fun c => c.cNode.addr) inode₁).trans addr)
      ((congrArg (fun c => c.cNode.iSize) inode₁).trans size)
  · refine Kernel.flat_eq ((others.trans others₂).trans others₃) (fun j' ne => ?_) ?_ ?_ ?_ (fun i' ne => ⟨rfl, rfl⟩)
      (j := s.udata.ofIndex d) fun j' ne => ?_
    · refine (Function.update_of_ne ne _ _).trans ?_
      rw [ofTab]
    · rw [Kernel.byteAt_congr data₃, Kernel.byteAt_congr data₂, Kernel.byteAt_congr data]
      rfl
    · refine congrArg Off.val (Eq.symm ?_)
      exact (congrArg (fun c => c.cNode.iSize) inode₁).trans size
    · refine (Function.update_self ..).trans ?_
      rw [Kernel.ofTab_setOft, pos, zero]
      rfl
    · exact Function.update_of_ne ne _ _
  · refine filled.mem.trans ?_
    rw [zero, bytes]
    rfl

/-! ## Reads that are cut at the end of the file -/

/-- `u_count` is the same. -/
def SameCount (s s' : Kernel) : Prop := s'.udata.uCount = s.udata.uCount

instance : Quiet SameCount where
  refl _ := rfl
  trans _ _ _ h h' := Eq.trans h' h
  bufs _ _ := rfl
  fsTab _ _ _ _ := rfl
  error _ _ := rfl
  iTab _ _ := rfl
  nexti _ _ := rfl
  woken _ _ := rfl

/-- A round leaves the count. -/
lemma SameCount.readRound : Within SameCount (fun _ => True) (readRound ino dev false n) := by
  refine .bind .get fun _ => .bind Quiet.bmap fun pblk => .bind (.ite Quiet.breadPtr Quiet.zerobuf) fun bp => ?_
  refine .bind .get fun _ => .bind (.bind .get fun _ => .ite (.throw trivial) (.modify fun _ => rfl)) fun _ => ?_
  refine .bind Quiet.brelse fun _ => .bind (.bind ?_ fun _ => .pure) fun _ => .pure
  exact .bind .get fun _ => .modify fun _ => rfl

/-- On the NES the first round of a read of `2^15` bytes or more leaves the buffer. -/
lemma wp_readRound_big (nes : s.target = .nes) (big : 2 ^ 15 ≤ n.toNat) (norm : s.udata.uOffset.Norm) :
    wp (readRound ino dev false n) (fun _ _ => False) (fun _ => True) s := by
  have block : Within SamePlace (fun _ => True) (bmap ino s.udata.uOffset.oBlkno true) := Quiet.bmap
  have reads : ∀ b, Within SamePlace (fun _ => True) (readBlock dev b) := fun _ => .ite Quiet.breadPtr Quiet.zerobuf
  have offset : s.udata.uOffset.oOffset.toNat < 512 := norm
  have out : outside s.udata.uOffset.oOffset n := by
    refine ⟨fun zero => ?_, .inr ?_⟩
    · rw [zero] at big
      exact absurd big (by decide)
    · rw [toInt_of_lt (by omega)]
      omega
  unfold readRound
  rw [wp_bind, wp_get, wp_bind]
  refine wp_post (block s) fun pblk s₁ same₁ => ?_
  rw [wp_bind]
  refine wp_post (reads pblk s₁) fun bp s₂ same₂ => ?_
  have same := trans_of SamePlace same₁ same₂
  rw [wp_bind, wp_get, same.target, same.uOffset, nes, chunk_of_le norm big, wp_bind]
  unfold copyOut
  rw [wp_bind, wp_get, wp_ite, same.uOffset, if_pos out]
  trivial

/-- A loop of `readi` that ends has begun with a number that is not negative. -/
lemma wp_readRounds_limit (norm : s.udata.uOffset.Norm) :
    wp (rounds left .hang (readRound ino dev false) n.toNat n)
      (fun _ s' => SameCount s s' ∧ (s.target = .nes → n.toNat < 2 ^ 15)) (fun _ => True) s := by
  have count : ∀ {k s' m}, Reaches left (readRound ino dev false) s n k s' m → SameCount s s' := by
    intro k s' m reached
    refine reached.invariant (I := fun _ s' _ => SameCount s s') rfl fun k s' m before _ => ?_
    exact wp_post (SameCount.readRound s') fun _ _ same _ _ => trans_of SameCount before same
  have first : s.target = .nes → 2 ^ 15 ≤ n.toNat → ∀ {k s' m},
      Reaches left (readRound ino dev false) s n k s' m → s' = s ∧ m = n := by
    intro nes big k s' m reached
    refine reached.invariant (I := fun _ s' m => s' = s ∧ m = n) ⟨rfl, rfl⟩ fun k s' m before _ => ?_
    obtain ⟨rfl, rfl⟩ := before
    exact wp_post (wp_readRound_big nes big norm) fun _ _ => False.elim
  refine wp_mono wp_rounds (fun _ s' => ?_) fun _ _ => trivial
  intro ⟨k, s'', m, reached, ended⟩
  have goes : 2 ^ 15 ≤ n.toNat → left n = true := fun big => decide_eq_true fun zero => by
    rw [zero] at big
    exact absurd big (by decide)
  cases ended with
  | inl done =>
    obtain ⟨none, same⟩ := done
    subst same
    refine ⟨count reached, fun nes => Nat.lt_of_not_le fun big => ?_⟩
    obtain ⟨rfl, rfl⟩ := first nes big reached
    exact absurd (none.symm.trans (goes big)) nofun
  | inr broken =>
    have counted := trans_of SameCount (count reached) (SameCount.readRound.ok broken.2)
    refine ⟨counted, fun nes => Nat.lt_of_not_le fun big => ?_⟩
    obtain ⟨rfl, rfl⟩ := first nes big reached
    exact (wp_readRound_big nes big norm).ok broken.2

/-- A `_read` that returns has read as much as its limit says. -/
lemma wp_read_limit (h : s.InOrder dev I rest L) (opened : s.Describes d i)
    (access : (s.ofTab (s.udata.ofIndex d)).oAccess ≠ .wronly) :
    wp (_read d buf n)
      (fun r _ => r = some (readLimit s.target n (s.iTab i).cNode.iSize (s.position d)) ∧
        (s.target = .nes → (readLimit s.target n (s.iTab i).cNode.iSize (s.position d)).toNat < 2 ^ 15))
      (fun _ => True) s := by
  unfold _read
  rw [wp_bind]
  refine wp_rwsetup_open opened access fun c same size => ?_
  have h₁ := (h.setUp i.2 same size d buf n).1
  have inode : (s.setUp d i buf n c).iTab i = c := Kernel.iTab_setInode
  simp only
  unfold readFrom
  rw [wp_bind, wp_readi_entry (h₁.fileAt i.2).readEntry, inode, size]
  refine wp_post (wp_readRounds_limit (h.pos _)) fun _ s₁ got => ?_
  obtain ⟨count, small⟩ := got
  unfold updoff
  simp only
  rw [wp_bind, wp_bind, wp_get, wp_modifyOft, wp_bind, wp_get, wp_pure]
  exact ⟨congrArg some count, small⟩

/-- `_read` copies what the file has left, and at most what it is asked for. -/
def Kernel.ReadsRight (s : Kernel) (dev : Nat) (ino : Inoptr) (d : Word) (buf : Nat) (n : Word) : Prop :=
  wp (_read d buf n)
    (fun r s' => (∃ v, r = some v ∧ v.toNat = s.readable ino d n) ∧
      s'.udata.mem = overwrite s.udata.mem buf
        (slice (s.byteAt dev ino) (s.position d).val (s.readable ino d n))) (fun _ => False) s

/-- `_read` stops at the end of the file and at its count if and only if the distance of the end is one that its limit
is right for. -/
theorem read_exact (hdev : dev < NDEVS) (h : s.InOrder dev I rest L) (opened : s.Describes d i)
    (access : (s.ofTab (s.udata.ofIndex d)).oAccess ≠ .wronly) :
    s.ReadsRight dev i d buf n ↔ readsExactly s.target n (s.iTab i).cNode.iSize (s.position d) := by
  constructor
  · intro right
    have ho : (s.position d).Norm := h.pos _
    rw [← readLimit_exact (h.size i i.2) ho]
    obtain ⟨r, s', ran, ⟨v, e, count⟩, -⟩ := wp.returns right
    obtain ⟨limit, small⟩ := (wp_read_limit h opened access).ok ran
    cases e.symm.trans limit
    exact ⟨count, small⟩
  · intro exact
    exact wp_post (wp_read_flat hdev h opened access exact) fun r s' got => ⟨got.1, got.2.mem⟩

end Calls

/-- A file of three bytes, in none of its own blocks, open behind the first one. -/
def shortFile : Kernel :=
  { twoFree with
    iTab := fun _ => ⟨CMAGIC, 0, 2, ⟨F_REG, 1, 0, 0, ⟨0, 3⟩, ⟨0, 0⟩, ⟨0, 0⟩, ⟨0, 0⟩, fun _ => 0⟩, 1, false⟩
    ofTab := fun _ => ⟨⟨0, 1⟩, some 0, .rdwr, 1⟩ }

/-- The root directory of the small file system. -/
def rootDir : Dinode := (rootFs.iTab 0).cNode

/-- The short file is in order. -/
lemma inOrder_shortFile : shortFile.InOrder 0 {0} [rootDir] [4, 5] := by
  have good : shortFile.bufs.Good := Bufs.good_inited.1
  have empty : (shortFile.iTab 0).cNode.blocks (shortFile.cell 0) = 0 := by
    refine Finset.sum_eq_zero fun j _ => ?_
    have none : (shortFile.iTab 0).cNode.addr j = 0 := by
      rw [Dinode.addr]
      split <;> rfl
    rw [none, blockTree_zero]
  have owned : ownedBlocks 0 {0} [rootDir] shortFile = ownedBlocks 0 {0} [] rootFs := by
    rw [ownedBlocks, ownedBlocks, Finset.sum_singleton, Finset.sum_singleton, empty, zero_add]
    exact (add_zero _).trans (add_zero _).symm
  have mode : ∀ i, (shortFile.iTab i).getmode = F_REG := fun _ => (by decide : F_REG &&& F_MASK = F_REG)
  refine ⟨⟨good, fun i _ => ⟨rfl, .inl (mode i)⟩, partition_rootFs.list, fun b => ?_⟩, ?_, fun i _ => .inl (mode i),
    ?_, ?_⟩
  · rw [owned]
    exact partition_rootFs.once b
  · exact congrFun (congrArg View.held Bufs.good_inited.2)
  · exact fun i _ => (by decide : (3 : Nat) < 512)
  · exact fun j => (by decide : (1 : Nat) < 512)

/-- The descriptor of the short file. -/
lemma describes_shortFile : shortFile.Describes 0 0 := by
  constructor <;> decide

/-- Of five bytes that are asked for two are there. -/
theorem read_exact_shortFile : shortFile.ReadsRight 0 0 0 100 5 ∧ shortFile.readable 0 0 5 = 2 := by
  have ordered := inOrder_shortFile
  refine ⟨(read_exact (i := ⟨0, Finset.mem_singleton_self 0⟩) (by decide) ordered describes_shortFile ?_).mpr ?_, ?_⟩
  · decide
  · decide
  · decide

end Uzi
