import Uzi.Fs.ChLink
import Uzi.Utils.Fsck

/-!
# How `fsck` finds a block

`getblkno`, `setblkno`, `dirread` and `dirwrite` of `fsck`. `blkno` is the number that `getblkno` reads from an
image. It is the number that `bmap` reads, as long as the block on the second level is there.
-/

namespace Uzi
open Exec

namespace Fsck

/-- Only `readbuf` has changed. -/
def State.Quiet (s s' : State) : Prop := s' = { s with readbuf := s'.readbuf }

/-- The number in an image behind the double indirect block of an inode, on its two levels. -/
def doubly (image : Image) (ino : Dinode) (hi lo : Nat) : Word := (image ((image (ino.addr 19)).word hi)).word lo

/-- The number that `getblkno` reads. -/
def blkno (image : Image) (ino : Dinode) (num : Word) : Word :=
  if num.toNat < 18 then ino.addr num.toNat
  else if num.toNat < 274 then entry image (ino.addr 18) (num.toNat - 18)
  else if ino.addr 19 = 0 then 0
  else doubly image ino ((num.toNat - 274) / 256) ((num.toNat - 274) % 256)

/-- There is a double indirect block, but no block on the second level for `num`. -/
def Missing (image : Image) (ino : Dinode) (num : Word) : Prop :=
  274 ≤ num.toNat ∧ ino.addr 19 ≠ 0 ∧ (image (ino.addr 19)).word ((num.toNat - 274) / 256) = 0

namespace State.Quiet

variable {s s' s'' : State}

/-- Nothing has been written. -/
lemma refl : s.Quiet s := rfl

/-- The image is the same. -/
lemma image (h : s.Quiet s') : s'.image = s.image := by
  rw [h]

/-- The events are the same. -/
lemma events (h : s.Quiet s') : s'.events = s.events := by
  rw [h]

/-- Nothing is written, twice. -/
lemma trans (h : s.Quiet s') (h' : s'.Quiet s'') : s.Quiet s'' := by
  calc s'' = { s' with readbuf := s''.readbuf } := h'
    _ = { s with readbuf := s''.readbuf } := by rw [h]

end State.Quiet

/-- No block has no entries. -/
lemma entry_nil {cell : Word → Block} {j : Nat} : entry cell 0 j = 0 := if_pos rfl

/-- The state after a question has been answered. -/
def State.answered (s : State) (q : Question) : State :=
  { s with
    answers := fun i => s.answers (i + 1)
    events := .asked s.image q (s.answers 0) :: s.events }

section Getblkno

variable {s : State} {image : Image} {ino : Dinode} {num : Word}

/-- What `daread` does. -/
@[simp] lemma wp_daread {blk : Word} {Q : PUnit → State → Prop} {E : Stop × State → Prop} :
    wp (daread blk) Q E s ↔ Q ⟨⟩ { s with readbuf := s.image blk } := Iff.rfl

/-- What an event does. -/
@[simp] lemma wp_emit {e : Event} {Q : PUnit → State → Prop} {E : Stop × State → Prop} :
    wp (emit e) Q E s ↔ Q ⟨⟩ { s with events := e :: s.events } := Iff.rfl

/-- What a question does. -/
@[simp] lemma wp_yes {q : Question} {Q : Bool → State → Prop} {E : Stop × State → Prop} :
    wp (yes q) Q E s ↔ Q (s.answers 0) (s.answered q) := Iff.rfl

/-- What a change of the superblock in memory does. -/
@[simp] lemma wp_modifyFilsys {f : Filesys → Filesys} {Q : PUnit → State → Prop} {E : Stop × State → Prop} :
    wp (modifyFilsys f) Q E s ↔ Q ⟨⟩ { s with filsys := f s.filsys } := Iff.rfl

/-- What a change of the buffer does. -/
@[simp] lemma wp_modifyReadbuf {f : Block → Block} {Q : PUnit → State → Prop} {E : Stop × State → Prop} :
    wp (modifyReadbuf f) Q E s ↔ Q ⟨⟩ { s with readbuf := f s.readbuf } := Iff.rfl

/-- What `dwrite` does. -/
@[simp] lemma wp_dwrite {blk : Word} {data : Block} {Q : PUnit → State → Prop} {E : Stop × State → Prop} :
    wp (dwrite blk data) Q E s ↔
      Q ⟨⟩ { s with
        image := Function.update s.image blk data
        events := .wrote s.image blk data :: s.events } := Iff.rfl

/-- What `iread` does. -/
lemma wp_iread {n : Word} {Q : Dinode → State → Prop} {E : Stop × State → Prop} :
    wp (iread n) Q E s ↔
      Q (Dinode.ofBlock (s.image (inodeBlk n)) (inodeIdx n)) { s with
        readbuf := s.image (inodeBlk n)
        events := .inode n (Dinode.ofBlock (s.image (inodeBlk n)) (inodeIdx n)) :: s.events } := Iff.rfl

/-- What `iwrite` does. -/
lemma wp_iwrite {n : Word} {Q : PUnit → State → Prop} {E : Stop × State → Prop} :
    wp (iwrite n ino) Q E s ↔
      Q ⟨⟩ { s with
        readbuf := (s.image (inodeBlk n)).setDinode (inodeIdx n) ino
        image := Function.update s.image (inodeBlk n) ((s.image (inodeBlk n)).setDinode (inodeIdx n) ino)
        events := .wrote s.image (inodeBlk n) ((s.image (inodeBlk n)).setDinode (inodeIdx n) ino) :: s.events } :=
  Iff.rfl

/-- A bit is read inside the bitmap, or the run stops. -/
lemma wp_bitmapAt {i : Word} {Q : Byte → State → Prop} {E : Stop × State → Prop} :
    wp (bitmapAt i) Q E s ↔
      if i < s.filsys.sFsize then Q (s.bitmap i) { s with events := .bitmap i :: s.events }
      else E (.undefined, { s with events := .bitmap i :: s.events }) := by
  unfold bitmapAt emit
  rw [wp_bind, wp_modify, wp_bind, wp_get, wp_ite]
  exact Iff.rfl

/-- A bit is set inside the bitmap, or the run stops. -/
lemma wp_setBitmap {i : Word} {v : Byte} {Q : PUnit → State → Prop} {E : Stop × State → Prop} :
    wp (setBitmap i v) Q E s ↔
      if i < s.filsys.sFsize then
        Q ⟨⟩ { s with bitmap := Function.update s.bitmap i v, events := .bitmap i :: s.events }
      else E (.undefined, { s with events := .bitmap i :: s.events }) := by
  unfold setBitmap emit
  rw [wp_bind, wp_modify, wp_bind, wp_get, wp_ite]
  exact Iff.rfl

/-- A count is read inside the map, or the run stops. -/
lemma wp_linkmapAt {i : Word} {Q : Word → State → Prop} {E : Stop × State → Prop} :
    wp (linkmapAt i) Q E s ↔
      if i.toNat < 8 * s.filsys.sIsize.toNat then Q (s.linkmap i) { s with events := .linkmap i :: s.events }
      else E (.undefined, { s with events := .linkmap i :: s.events }) := by
  unfold linkmapAt emit
  rw [wp_bind, wp_modify, wp_bind, wp_get, wp_ite]
  exact Iff.rfl

/-- A count is set inside the map, or the run stops. -/
lemma wp_setLinkmap {i v : Word} {Q : PUnit → State → Prop} {E : Stop × State → Prop} :
    wp (setLinkmap i v) Q E s ↔
      if i.toNat < 8 * s.filsys.sIsize.toNat then
        Q ⟨⟩ { s with linkmap := Function.update s.linkmap i v, events := .linkmap i :: s.events }
      else E (.undefined, { s with events := .linkmap i :: s.events }) := by
  unfold setLinkmap emit
  rw [wp_bind, wp_modify, wp_bind, wp_get, wp_ite]
  exact Iff.rfl

/-- A stop. -/
@[simp] lemma wp_halt {α : Type} {e : Stop} {Q : α → State → Prop} {E : Stop × State → Prop} :
    wp (halt e) Q E s ↔ E (e, s) := Iff.rfl

/-- `getblkno` reads the number, whatever the image holds. -/
lemma wp_getblkno : wp (getblkno ino num) (fun b s' => b = blkno s.image ino num ∧ s.Quiet s') (fun _ => False) s := by
  unfold getblkno blkno
  rw [wp_ite]
  split
  · next direct => exact ⟨(if_pos direct).symm, .refl⟩
  · next ge =>
    have ge : ¬ num.toNat < 18 := ge
    rw [wp_ite, if_neg ge]
    split
    · next single =>
      have single : num.toNat < 274 := single
      rw [if_pos single, wp_ite]
      split
      · next nil => exact ⟨(if_pos nil).symm, .refl⟩
      · next ne => exact ⟨(if_neg ne).symm, rfl⟩
    · next double =>
      have double : ¬ num.toNat < 274 := double
      rw [if_neg double, wp_ite]
      split
      · exact ⟨rfl, .refl⟩
      · exact ⟨rfl, rfl⟩

/-- What holds of the number that `getblkno` reads holds of what it returns. -/
lemma wp_getblkno_iff {P : Word → Prop} :
    wp (getblkno ino num) (fun b _ => P b) (fun _ => False) s ↔ P (blkno s.image ino num) := by
  have reads : wp (getblkno ino num) (fun b s' => b = blkno s.image ino num ∧ s.Quiet s') (fun _ => False) s :=
    wp_getblkno
  obtain ⟨b, s', run, rfl, -⟩ := reads.returns
  unfold wp
  rw [run]

/-- Where the block on the second level is there, `getblkno` reads the number that is stored. -/
lemma blkno_eq_stored (there : ¬ Missing image ino num) : blkno image ino num = ino.stored image num := by
  unfold blkno Dinode.stored
  by_cases direct : num.toNat < 18
  · rw [if_pos direct, if_pos direct]
  · by_cases single : num.toNat < 274
    · rw [if_neg direct, if_neg direct, if_pos single, if_pos single]
    · rw [if_neg direct, if_neg direct, if_neg single, if_neg single]
      by_cases nil : ino.addr 19 = 0
      · rw [if_pos nil, nil]
        rfl
      · have ne : entry image (ino.addr 19) ((num.toNat - 274) / 256) ≠ 0 := by
          rw [entry, if_neg nil]
          exact fun hole => there ⟨Nat.le_of_not_lt single, nil, hole⟩
        rw [if_neg nil, doubly]
        conv_rhs => rw [entry, if_neg ne]
        rw [entry, if_neg nil]

/-- A number that is stored is the one that `getblkno` reads. -/
lemma blkno_of_stored (ne : ino.stored image num ≠ 0) : blkno image ino num = ino.stored image num := by
  refine blkno_eq_stored fun ⟨double, there, hole⟩ => ne ?_
  rw [Dinode.stored, if_neg (by omega), if_neg (by omega)]
  have none : entry image (ino.addr 19) ((num.toNat - 274) / 256) = 0 := by
    rw [entry, if_neg there, hole]
  rw [none]
  rfl

end Getblkno

/-! ## `getblkno` and `bmap` -/

/-- `fsck` and the kernel agree on the logical block `num` of the file at `ip`: `getblkno` gives 0 where `bmap` gives
`NULLBLK`, and the same block elsewhere. -/
def AgreesWithBmap (s : Kernel) (t : State) (ip : Inoptr) (num : Word) : Prop :=
  wp (getblkno (s.iTab ip).cNode num)
    (fun b _ => wp (bmap ip num true) (fun r _ => (b = 0 ↔ r = NULLBLK) ∧ (b ≠ 0 → b = r)) (fun _ => False) s)
    (fun _ => False) t

/-- `getblkno` reads the block map that `bmap` reads, but for a block that is missing on the second level. -/
theorem getblkno_bmap {s : Kernel} {t : State} {ip : Inoptr} {num : Word} (good : s.bufs.Good)
    (idle : ∀ bp, s.bufs.view.held bp = none) (hdev : (s.iTab ip).cDev < NDEVS)
    (image : t.image = s.cell (s.iTab ip).cDev) (mode : (s.iTab ip).getmode ≠ F_BDEV)
    (ne : (s.iTab ip).cNode.stored t.image num ≠ NULLBLK) (there : ¬ Missing t.image (s.iTab ip).cNode num) :
    AgreesWithBmap s t ip num := by
  refine wp_post wp_getblkno fun b t' got => ?_
  obtain ⟨rfl, -⟩ := got
  refine wp_post (wp_bmap_read good idle hdev mode) fun r s' read => ?_
  obtain ⟨-, rfl⟩ := read
  rw [← image, blkno_eq_stored there, orNull]
  split
  · next hole => exact ⟨⟨fun _ => rfl, fun _ => hole⟩, fun ne => absurd hole ne⟩
  · next some => exact ⟨⟨fun hole => absurd hole some, fun null => absurd null ne⟩, fun _ => rfl⟩

/-- The kernel with a small file system mounted, and a device at an inode of which the slots are empty. -/
def deviceInode : Kernel :=
  { freshFs 6 3 with
    iTab := fun _ => ⟨CMAGIC, 0, 2, { Dinode.ofBlock Block.zero 0 with iMode := F_BDEV }, 1, false⟩ }

/-- The blocks of the small file system. -/
lemma cell_freshFs {n : Word} : (freshFs 6 3).cell 0 n = mkfs 6 3 n := formatted_freshFs.cells n

/-- The image with entry `j` of block `b` replaced. -/
def withEntry (image : Image) (b : Word) (j : Nat) (w : Word) : Image :=
  Function.update image b ((image b).setWord j w)

/-- An image with one indirect block, block 100, which leads to block 101. -/
def chainImage : Image := withEntry (fun _ => Block.zero) 100 0 101

/-- An inode without blocks, but for an indirect block at slot `i`. -/
def inodeWith (i : Nat) (b : Word) : Dinode := (Dinode.ofBlock Block.zero 0).setAddr i b

/-- A kernel with an image mounted, and the inode whose double indirect block is block 100. -/
def chainFs (image : Image) : Kernel :=
  { Kernel.inited fun _ => image with iTab := fun _ => ⟨CMAGIC, 0, 2, inodeWith 19 100, 1, false⟩ }

/-- A block behind two indirect ones is found. -/
theorem getblkno_bmap_chain : (inodeWith 19 100).stored (withEntry chainImage 101 5 103) 279 = 103 ∧
    AgreesWithBmap (chainFs (withEntry chainImage 101 5 103))
      (State.start (withEntry chainImage 101 5 103) fun _ => true) 0 279 := by
  have cells : ∀ n, (chainFs (withEntry chainImage 101 5 103)).cell 0 n = withEntry chainImage 101 5 103 n :=
    fun n => congrFun (congrArg View.content Bufs.good_inited.2) (0, n)
  refine ⟨by decide +kernel, getblkno_bmap Bufs.good_inited.1 (fun bp => ?_) (by decide)
    (funext fun n => (cells n).symm) (by decide +kernel) (by decide +kernel) fun missing => ?_⟩
  · exact congrFun (congrArg View.held Bufs.good_inited.2) bp
  · exact absurd missing.2.2 (by decide +kernel)

instance {s : Kernel} {t : State} {ip : Inoptr} {num : Word} : Decidable (AgreesWithBmap s t ip num) :=
  inferInstanceAs (Decidable (wp _ _ _ _))

/-- Of a device `bmap` gives the logical block itself. -/
theorem not_getblkno_bmap : (State.start (mkfs 6 3) fun _ => true).image = deviceInode.cell 0 ∧
    ¬ AgreesWithBmap deviceInode (State.start (mkfs 6 3) fun _ => true) 0 5 :=
  ⟨funext fun _ => cell_freshFs.symm, by decide +kernel⟩

/-! ## `setblkno` -/

/-- The block of the disk that holds the number of the logical block `num`. -/
def holder (image : Image) (ino : Dinode) (num : Word) : Word :=
  if num.toNat < 274 then ino.addr 18 else (image (ino.addr 19)).word ((num.toNat - 274) / 256)

/-- The indirect blocks on the way to `num` are there, and none of them twice. -/
def OnPath (image : Image) (ino : Dinode) (num : Word) : Prop :=
  num.toNat < 18 ∨ num.toNat < 274 ∧ ino.addr 18 ≠ 0 ∨
    274 ≤ num.toNat ∧ ino.addr 19 ≠ 0 ∧ holder image ino num ≠ 0 ∧ holder image ino num ≠ ino.addr 19

/-- The blocks that a run has written, the last one first. -/
def written (events : List Event) : List Word :=
  events.filterMap fun
    | .wrote _ blk _ => some blk
    | _ => none

section Written

variable {events events' : List Event}

/-- Nothing has been written before the first event. -/
@[simp] lemma written_nil : written [] = [] := rfl

/-- A block that has been written. -/
@[simp] lemma written_wrote {image : Image} {blk : Word} {data : Block} :
    written (.wrote image blk data :: events) = blk :: written events := rfl

/-- A question writes nothing. -/
@[simp] lemma written_asked {image : Image} {q : Question} {answer : Bool} :
    written (.asked image q answer :: events) = written events := rfl

/-- What has been written in two parts of a run. -/
lemma written_append : written (events ++ events') = written events ++ written events' := List.filterMap_append ..

end Written

/-- What is said of `setblkno`: it sets the number of `num` and no other one, and writes the block that holds it. -/
def SetsBlkno (s : State) (ino : Dinode) (num dnum : Word) : Prop :=
  wp (setblkno ino num dnum)
    (fun ino' s' =>
      wp (getblkno ino' num) (fun b _ => b = dnum) (fun _ => False) s' ∧
      (∀ m, m ≠ num → wp (getblkno ino m)
        (fun b _ => wp (getblkno ino' m) (fun b' _ => b' = b) (fun _ => False) s') (fun _ => False) s) ∧
      ∃ events, s'.events = events ++ s.events ∧
        written events = if num.toNat < 18 then [] else [holder s.image ino num])
    (fun _ => False) s

/-- No number behind the double indirect block changes with entry `j` of the single indirect block. -/
def Apart (image : Image) (ino : Dinode) (j : Nat) (w : Word) : Prop :=
  ino.addr 19 = 0 ∨ ∀ hi lo, lo < 256 → 256 * hi + lo < 65262 →
    doubly (withEntry image (ino.addr 18) j w) ino hi lo = doubly image ino hi lo

section Setblkno

variable {s : State} {image : Image} {ino : Dinode} {num m dnum : Word}

/-- The number that has been set. -/
lemma addr_setAddr {i j : Nat} (h : i < 20) : (ino.setAddr j dnum).addr i = if i = j then dnum else ino.addr i := by
  unfold Dinode.addr Dinode.setAddr
  rw [dif_pos h, dif_pos h]

/-- A direct number is one of the inode. -/
lemma blkno_setAddr (direct : num.toNat < 18) :
    blkno image (ino.setAddr num.toNat dnum) m = if m = num then dnum else blkno image ino m := by
  have single : (ino.setAddr num.toNat dnum).addr 18 = ino.addr 18 := by
    rw [addr_setAddr (by decide), if_neg (by omega)]
  have double : (ino.setAddr num.toNat dnum).addr 19 = ino.addr 19 := by
    rw [addr_setAddr (by decide), if_neg (by omega)]
  unfold blkno doubly
  rw [single, double]
  by_cases lt : m.toNat < 18
  · rw [if_pos lt, if_pos lt, addr_setAddr (by omega)]
    exact if_congr ⟨fun e => BitVec.eq_of_toNat_eq e, congrArg _⟩ rfl rfl
  · have ne : m ≠ num := fun e => lt (e ▸ direct)
    rw [if_neg ne, if_neg lt, if_neg lt]

/-- The entry that has been written. -/
lemma word_withEntry {b : Word} {j k : Nat} {w : Word} (hk : k < 256) :
    (withEntry image b j w b).word k = if k = j then w else (image b).word k := by
  rw [withEntry, Function.update_self, Block.word_setWord hk]

/-- The numbers in front of those behind the double indirect block, with an entry of the single one replaced. -/
lemma blkno_withEntry (single : ¬ num.toNat < 18) (lt : num.toNat < 274) (there : ino.addr 18 ≠ 0)
    (low : m.toNat < 274) :
    blkno (withEntry image (ino.addr 18) (num.toNat - 18) dnum) ino m =
      if m = num then dnum else blkno image ino m := by
  unfold blkno
  by_cases direct : m.toNat < 18
  · have ne : m ≠ num := fun e => single (e ▸ direct)
    rw [if_pos direct, if_pos direct, if_neg ne]
  · rw [if_neg direct, if_neg direct, if_pos low, if_pos low, entry, entry, if_neg there, if_neg there,
      word_withEntry (by omega)]
    refine if_congr ⟨fun e => BitVec.eq_of_toNat_eq (by omega), fun e => ?_⟩ rfl rfl
    rw [e]

/-- The numbers behind the double indirect block are those that are behind it on its two levels. -/
lemma blkno_double_iff {image' : Image} :
    (∀ m : Word, 274 ≤ m.toNat → blkno image' ino m = blkno image ino m) ↔
      ino.addr 19 = 0 ∨ ∀ hi lo, lo < 256 → 256 * hi + lo < 65262 →
        doubly image' ino hi lo = doubly image ino hi lo := by
  have double : ∀ (i : Image) (m : Word), 274 ≤ m.toNat → blkno i ino m =
      if ino.addr 19 = 0 then 0 else doubly i ino ((m.toNat - 274) / 256) ((m.toNat - 274) % 256) := by
    intro i m ge
    rw [blkno, if_neg (by omega), if_neg (by omega)]
  constructor
  · intro same
    by_cases nil : ino.addr 19 = 0
    · exact .inl nil
    · refine .inr fun hi lo lt bound => ?_
      have at_m : (BitVec.ofNat 16 (274 + (256 * hi + lo))).toNat = 274 + (256 * hi + lo) := by
        rw [BitVec.toNat_ofNat]
        omega
      have eq := same (BitVec.ofNat 16 (274 + (256 * hi + lo))) (by omega)
      rw [double _ _ (by omega), double _ _ (by omega), if_neg nil, if_neg nil, at_m, Nat.add_sub_cancel_left,
        Nat.mul_add_div (by decide), Nat.mul_add_mod, Nat.div_eq_of_lt lt, Nat.mod_eq_of_lt lt] at eq
      exact eq
  · intro same m ge
    rw [double _ _ ge, double _ _ ge]
    cases same with
    | inl nil => rw [if_pos nil, if_pos nil]
    | inr same =>
      have lt := m.isLt
      rw [same _ _ (Nat.mod_lt _ (by decide)) (by omega)]

/-- What `setblkno` does for a direct block. -/
lemma wp_setblkno_direct {Q : Dinode → State → Prop} {E : Stop × State → Prop} (direct : num.toNat < 18) :
    wp (setblkno ino num dnum) Q E s ↔ Q (ino.setAddr num.toNat dnum) s := by
  have direct : num < 18 := direct
  unfold setblkno
  rw [wp_ite, if_pos direct]
  exact Iff.rfl

/-- What `setblkno` does behind the first indirect block. -/
lemma wp_setblkno_single {Q : Dinode → State → Prop} {E : Stop × State → Prop} (ge : ¬ num.toNat < 18)
    (single : num.toNat < 274) :
    wp (setblkno ino num dnum) Q E s ↔
      if ino.addr 18 = 0 then E (.missingIndirectBlock, s)
      else
        Q ino { s with
          readbuf := (s.image (ino.addr 18)).setWord (num.toNat - 18) dnum
          image := withEntry s.image (ino.addr 18) (num.toNat - 18) dnum
          events := .wrote s.image (ino.addr 18) ((s.image (ino.addr 18)).setWord (num.toNat - 18) dnum)
            :: s.events } := by
  have ge : ¬ num < 18 := ge
  have single : num < 256 + 18 := single
  unfold setblkno
  rw [wp_ite, if_neg ge, wp_ite, if_pos single, wp_ite]
  exact Iff.rfl

/-- Behind the double indirect block, `setblkno` writes the block on the second level in the place of the one on the
first. -/
lemma wp_setblkno_double {Q : Dinode → State → Prop} {E : Stop × State → Prop} (double : 274 ≤ num.toNat) :
    wp (setblkno ino num dnum) Q E s ↔
      if ino.addr 19 = 0 then E (.missingIndirectBlock, s)
      else if holder s.image ino num = 0 then
        E (.missingIndirectBlock, { s with readbuf := s.image (ino.addr 19) })
      else
        Q ino { s with
          readbuf := (s.image (holder s.image ino num)).setWord ((num.toNat - 274) % 256) num
          image := Function.update s.image (ino.addr 19)
            ((s.image (holder s.image ino num)).setWord ((num.toNat - 274) % 256) num)
          events := .wrote s.image (ino.addr 19)
            ((s.image (holder s.image ino num)).setWord ((num.toNat - 274) % 256) num) :: s.events } := by
  have ge : ¬ num < 18 := fun lt => absurd (BitVec.lt_def.mp lt) (by show ¬ num.toNat < 18; omega)
  have single : ¬ num < 256 + 18 := fun lt => absurd (BitVec.lt_def.mp lt) (by show ¬ num.toNat < 274; omega)
  have eq : holder s.image ino num = (s.image (ino.addr 19)).word ((num.toNat - (18 + 256)) / 256) := by
    rw [holder, if_neg (by omega)]
  rw [eq]
  unfold setblkno
  rw [wp_ite, if_neg ge, wp_ite, if_neg single, wp_ite, wp_bind, wp_daread, wp_bind, wp_get, wp_ite]
  exact Iff.rfl

/-- What would have to hold where a number behind the double indirect block was set. -/
lemma SetsBlkno.double (sets : SetsBlkno s ino num dnum) (double : 274 ≤ num.toNat) (there : ino.addr 19 ≠ 0)
    (second : holder s.image ino num ≠ 0) :
    blkno (Function.update s.image (ino.addr 19)
      ((s.image (holder s.image ino num)).setWord ((num.toNat - 274) % 256) num)) ino num = dnum := by
  unfold SetsBlkno at sets
  rw [wp_setblkno_double double, if_neg there, if_neg second] at sets
  exact wp_getblkno_iff.mp sets.1

end Setblkno

/-- `setblkno` sets a direct number, and a number behind the single indirect block where that is not a part of the
double indirect blocks; behind the double indirect block it never does. -/
theorem setblkno_sets_iff {s : State} {ino : Dinode} {num dnum : Word} (path : OnPath s.image ino num) :
    SetsBlkno s ino num dnum ↔
      num.toNat < 18 ∨ num.toNat < 274 ∧ Apart s.image ino (num.toNat - 18) dnum := by
  unfold SetsBlkno
  simp only [wp_getblkno_iff]
  by_cases direct : num.toNat < 18
  · rw [wp_setblkno_direct direct]
    refine ⟨fun _ => .inl direct, fun _ => ⟨?_, fun m ne => ?_, [], rfl, (if_pos direct).symm⟩⟩
    · rw [blkno_setAddr direct, if_pos rfl]
    · rw [blkno_setAddr direct, if_neg ne]
  · by_cases single : num.toNat < 274
    · have there : ino.addr 18 ≠ 0 := by
        cases path with
        | inl lt => exact absurd lt direct
        | inr rest =>
          cases rest with
          | inl single => exact single.2
          | inr double => exact absurd single (Nat.not_lt.mpr double.1)
      have holder_eq : holder s.image ino num = ino.addr 18 := if_pos single
      rw [wp_setblkno_single direct single, if_neg there]
      constructor
      · intro ⟨_, others, _⟩
        refine .inr ⟨single, blkno_double_iff.mp fun m ge => others m fun e => ?_⟩
        rw [e] at ge
        omega
      · intro cond
        have apart : Apart s.image ino (num.toNat - 18) dnum := by
          cases cond with
          | inl lt => exact absurd lt direct
          | inr cond => exact cond.2
        refine ⟨?_, fun m ne => ?_, [_], rfl, ?_⟩
        · rw [blkno_withEntry direct single there single, if_pos rfl]
        · by_cases low : m.toNat < 274
          · rw [blkno_withEntry direct single there low, if_neg ne]
          · exact blkno_double_iff.mpr apart m (Nat.le_of_not_lt low)
        · rw [if_neg direct, holder_eq]
          rfl
    · obtain ⟨double, there, second, ne⟩ : 274 ≤ num.toNat ∧ ino.addr 19 ≠ 0 ∧ holder s.image ino num ≠ 0 ∧
          holder s.image ino num ≠ ino.addr 19 := by
        cases path with
        | inl lt => exact absurd lt direct
        | inr rest =>
          cases rest with
          | inl lt => exact absurd lt.1 single
          | inr double => exact double
      rw [wp_setblkno_double double, if_neg there, if_neg second]
      constructor
      · intro ⟨_, _, events, eq, blocks⟩
        -- the block that is written is the one on the first level
        have one : events = [_] := List.append_cancel_right eq.symm
        rw [one, if_neg direct] at blocks
        exact absurd (List.singleton_inj.mp blocks).symm ne
      · intro cond
        cases cond with
        | inl lt => exact absurd lt direct
        | inr lt => exact absurd lt.1 single

/-- An entry with a name of one character. -/
def oneChar (n : Word) (c : Byte) : Direct := { dIno := n, dName := fun i => if i.val = 0 then c else 0 }

/-- A file system of eight blocks. The root directory has a file `f`, and a directory `d` in which the file is called
`g`. -/
def treeImage : Image :=
  let table := Mkfs.inodes 3
  let table := table.setDinode 1 { (inodeWith 0 3) with iMode := F_DIR, iNlink := 4, iSize := ⟨0, 64⟩ }
  let table := table.setDinode 2 { (inodeWith 0 4) with iMode := F_REG, iNlink := 2, iSize := ⟨0, 100⟩ }
  let table := table.setDinode 3 { (inodeWith 0 5) with iMode := F_DIR, iNlink := 2, iSize := ⟨0, 48⟩ }
  let root := (Mkfs.dirbuf.setDirect 2 (oneChar 2 0x66)).setDirect 3 (oneChar 3 0x64)
  let sub := (Mkfs.dirbuf.setDirect 0 (oneChar 3 0x2e)).setDirect 2 (oneChar 2 0x67)
  Function.update (Function.update (Function.update (mkfs 8 3) 2 table) 3 root) 5 sub

/-- The first number behind the single indirect block is set. -/
theorem setblkno_sets_single : SetsBlkno (State.start chainImage fun _ => true) (inodeWith 18 100) 18 7 := by
  have path : OnPath (State.start chainImage fun _ => true).image (inodeWith 18 100) 18 :=
    .inr (.inl ⟨by decide, by decide +kernel⟩)
  exact (setblkno_sets_iff path).mpr (.inr ⟨by decide, .inl (by decide +kernel)⟩)

/-- The first number behind the double indirect block is not set. -/
theorem not_setblkno_sets : OnPath chainImage (inodeWith 19 100) 274 ∧
    ¬ SetsBlkno (State.start chainImage fun _ => true) (inodeWith 19 100) 274 7 := by
  have there : (inodeWith 19 100).addr 19 ≠ 0 := by decide +kernel
  have second : holder chainImage (inodeWith 19 100) 274 ≠ 0 := by decide +kernel
  refine ⟨.inr (.inr ⟨by decide, there, second, by decide +kernel⟩), fun sets => ?_⟩
  have set := sets.double (by decide) there second
  revert set
  decide +kernel

/-! ## Directory entries -/

/-- Entry `j` of a directory: the 16 bytes at the offset `16 * j` of the file. -/
def fileEntry (image : Image) (ino : Dinode) (j : Nat) : Direct :=
  .ofBytes fun i => (image (ino.stored image (BitVec.ofNat 16 ((16 * j + i) / 512)))).byte ((16 * j + i) % 512)

/-- `j < 32*o_blkno + o_offset/16`. -/
def InDirectory (ino : Dinode) (j : Nat) : Prop :=
  (j : Int) < 32 * (ino.iSize.oBlkno.toNat : Int) + Int.tdiv ino.iSize.oOffset.toInt 16

/-- A block that leads to data blocks of an inode. -/
def Indirect (image : Image) (ino : Dinode) (b : Word) : Prop :=
  b = ino.addr 18 ∨ b = ino.addr 19 ∨ ∃ k < 256, b = (image (ino.addr 19)).word k

/-- What is said of `dirread` and `dirwrite`: they read and write entry `j`. -/
def AccessesEntry (s : State) (ino : Dinode) (j : Word) : Prop :=
  wp (dirread ino j) (fun d _ => d = fileEntry s.image ino j.toNat) (fun _ => False) s ∧
  ∀ d, wp (dirwrite ino j d)
    (fun _ s' =>
      wp (dirread ino j) (fun d' _ => d' = d) (fun _ => False) s' ∧
      (∀ c, c ≠ ino.stored s.image (j / 32) → s'.image c = s.image c) ∧
      (∀ e < 32, e ≠ j.toNat % 32 →
        (s'.image (ino.stored s.image (j / 32))).direct e = (s.image (ino.stored s.image (j / 32))).direct e) ∧
      -- an entry in a block that is in the directory twice is also another one
      ∀ j', InDirectory ino j' → j' ≠ j.toNat → ¬ Indirect s.image ino (ino.stored s.image (j / 32)) →
        (ino.stored s.image (BitVec.ofNat 16 (j' / 32)) = ino.stored s.image (j / 32) → j' / 32 = j.toNat / 32) →
        fileEntry s'.image ino j' = fileEntry s.image ino j')
    (fun _ => False) s

section Entries

variable {s : State} {image : Image} {ino : Dinode} {j : Word} {b : Block} {d : Direct}

/-- Entry `e` of a block is replaced, and no other one. -/
lemma direct_setDirect {e e' : Nat} (he' : e' < 32) :
    (b.setDirect e d).direct e' = if e' = e then d else b.direct e' := by
  unfold Block.setDirect
  split
  · next same =>
    subst same
    refine Eq.trans (Direct.ofBytes_congr fun i hi => ?_) Direct.ofBytes_byte
    rw [Block.byte_ofBytes (by omega), if_pos (by omega), Nat.add_sub_cancel_left]
  · next ne =>
    refine Direct.ofBytes_congr fun i hi => ?_
    rw [Block.byte_ofBytes (by omega), if_neg (by omega)]

/-- An entry of a directory lies in one block. -/
lemma fileEntry_eq {k : Nat} :
    fileEntry image ino k = (image (ino.stored image (BitVec.ofNat 16 (k / 32)))).direct (k % 32) := by
  refine Direct.ofBytes_congr fun i hi => ?_
  have blk : (16 * k + i) / 512 = k / 32 := by omega
  have offset : (16 * k + i) % 512 = 16 * (k % 32) + i := by omega
  rw [blk, offset]

/-- The logical block of an entry. -/
lemma ofNat_div : BitVec.ofNat 16 (j.toNat / 32) = j / 32 := by
  have lt := j.isLt
  refine BitVec.eq_of_toNat_eq ?_
  rw [BitVec.toNat_ofNat, BitVec.toNat_udiv, show (32 : Word).toNat = 32 from rfl]
  omega

/-- The numbers of an inode do not depend on a block that leads to none of them. -/
lemma stored_update {c num : Word} {x : Block} (leaf : ¬ Indirect image ino c) :
    ino.stored (Function.update image c x) num = ino.stored image num := by
  have single : Function.update image c x (ino.addr 18) = image (ino.addr 18) :=
    Function.update_of_ne (fun e => leaf (.inl e.symm)) _ _
  have double : Function.update image c x (ino.addr 19) = image (ino.addr 19) :=
    Function.update_of_ne (fun e => leaf (.inr (.inl e.symm))) _ _
  have second : ∀ k < 256, Function.update image c x ((image (ino.addr 19)).word k) =
      image ((image (ino.addr 19)).word k) := fun k hk =>
    Function.update_of_ne (fun e => leaf (.inr (.inr ⟨k, hk, e.symm⟩))) _ _
  have lt := num.isLt
  have first : entry (Function.update image c x) (ino.addr 19) ((num.toNat - 274) / 256) =
      entry image (ino.addr 19) ((num.toNat - 274) / 256) := by
    rw [entry, entry, double]
  unfold Dinode.stored
  rw [first]
  split
  · rfl
  · split
    · rw [entry, entry, single]
    · by_cases nil : ino.addr 19 = 0
      · rw [nil, entry_nil, entry_nil, entry_nil]
      · have e : entry image (ino.addr 19) ((num.toNat - 274) / 256) =
            (image (ino.addr 19)).word ((num.toNat - 274) / 256) := if_neg nil
        rw [e, entry, entry, second _ (by omega)]

/-- An entry in the first block is read. -/
lemma wp_dirread (there : blkno s.image ino (j / 32) ≠ 0) (lt : j.toNat < 32) :
    wp (dirread ino j) (fun d s' => d = (s.image (blkno s.image ino (j / 32))).direct j.toNat ∧ s.Quiet s')
      (fun _ => False) s := by
  unfold dirread
  rw [wp_bind]
  refine wp_post wp_getblkno fun b s' got => ?_
  obtain ⟨rfl, quiet⟩ := got
  have short : ¬ 512 < 16 * j.toNat + 16 := by omega
  rw [wp_ite, if_neg there, wp_bind, wp_daread, wp_ite, if_neg short]
  rw [quiet]
  exact ⟨rfl, rfl⟩

/-- An entry in another block is not: the code goes on behind the buffer. -/
lemma not_wp_dirread {Q : Direct → State → Prop} (there : blkno s.image ino (j / 32) ≠ 0) (ge : 32 ≤ j.toNat) :
    ¬ wp (dirread ino j) Q (fun _ => False) s := by
  intro h
  unfold dirread at h
  rw [wp_bind] at h
  have reads : wp (getblkno ino (j / 32)) (fun b s' => b = blkno s.image ino (j / 32) ∧ s.Quiet s')
      (fun _ => False) s := wp_getblkno
  have out := h.and reads
  obtain ⟨b, s', -, read, rfl, -⟩ := (wp_mono out (fun _ _ => id) fun _ => And.left).returns
  rw [wp_ite, if_neg there, wp_bind, wp_daread, wp_ite, if_pos (by omega)] at read
  exact read

/-- An entry in the first block is written. -/
lemma wp_dirwrite (there : blkno s.image ino (j / 32) ≠ 0) (lt : j.toNat < 32) :
    wp (dirwrite ino j d)
      (fun _ s' => s'.image = Function.update s.image (blkno s.image ino (j / 32))
        ((s.image (blkno s.image ino (j / 32))).setDirect j.toNat d)) (fun _ => False) s := by
  unfold dirwrite
  rw [wp_bind]
  refine wp_post wp_getblkno fun b s' got => ?_
  obtain ⟨rfl, quiet⟩ := got
  have short : ¬ 512 < 16 * j.toNat + 16 := by omega
  rw [wp_ite, if_neg there, wp_bind, wp_daread, wp_ite, if_neg short, wp_bind, wp_modifyReadbuf, wp_bind, wp_get,
    wp_dwrite]
  show Function.update s'.image _ ((s'.image _).setDirect _ _) = _
  rw [quiet.image]

end Entries

/-- `dirread` and `dirwrite` access the entries in the first block of a directory, and no others. -/
theorem accessesEntry_iff {s : State} {ino : Dinode} {j : Word}
    (full : ∀ k, InDirectory ino k → ino.stored s.image (BitVec.ofNat 16 (k / 32)) ≠ 0)
    (inside : InDirectory ino j.toNat) : AccessesEntry s ino j ↔ j.toNat < 32 := by
  have there : ino.stored s.image (j / 32) ≠ 0 := ofNat_div ▸ full _ inside
  have found : blkno s.image ino (j / 32) = ino.stored s.image (j / 32) := blkno_of_stored there
  have blk : blkno s.image ino (j / 32) ≠ 0 := found ▸ there
  constructor
  · intro access
    by_contra ge
    exact not_wp_dirread blk (Nat.le_of_not_lt ge) access.1
  · intro lt
    have mod : j.toNat % 32 = j.toNat := Nat.mod_eq_of_lt lt
    refine ⟨wp_post (wp_dirread blk lt) fun d s' got => ?_, fun d => wp_post (wp_dirwrite blk lt) fun _ s' got => ?_⟩
    · rw [got.1, found, fileEntry_eq, ofNat_div, mod]
    · rw [found] at got
      -- the block is a direct one, which is found again
      have zero : (j / 32).toNat < 18 := by
        rw [BitVec.toNat_udiv, show (32 : Word).toNat = 32 from rfl]
        omega
      have again : blkno s'.image ino (j / 32) = ino.stored s.image (j / 32) := by
        rw [← found, blkno, if_pos zero, blkno, if_pos zero]
      have block : s'.image (ino.stored s.image (j / 32)) =
          (s.image (ino.stored s.image (j / 32))).setDirect j.toNat d := by
        rw [got, Function.update_self]
      refine ⟨wp_post (wp_dirread (again ▸ there) lt) fun d' _ got' => ?_, fun c ne => ?_, fun e he ne => ?_,
        fun k within ne leaf once => ?_⟩
      · rw [got'.1, again, block, direct_setDirect lt, if_pos rfl]
      · rw [got, Function.update_of_ne ne]
      · rw [block, direct_setDirect he, if_neg (mod ▸ ne)]
      · rw [fileEntry_eq, fileEntry_eq, got, stored_update leaf]
        by_cases same : ino.stored s.image (BitVec.ofNat 16 (k / 32)) = ino.stored s.image (j / 32)
        · have near := once same
          rw [same, Function.update_self, direct_setDirect (Nat.mod_lt _ (by decide)), if_neg (by omega)]
        · rw [Function.update_of_ne same]

/-- A directory of two blocks. -/
def twoBlocks : Dinode := { (inodeWith 0 100).setAddr 1 101 with iMode := F_DIR, iSize := ⟨2, 0⟩ }

/-- Both blocks of the directory are there. -/
lemma full_twoBlocks {image : Image} {k : Nat} (inside : InDirectory twoBlocks k) :
    twoBlocks.stored image (BitVec.ofNat 16 (k / 32)) ≠ 0 := by
  have lt : k < 64 := by
    unfold InDirectory at inside
    have size : 32 * (twoBlocks.iSize.oBlkno.toNat : Int) + Int.tdiv twoBlocks.iSize.oOffset.toInt 16 = 64 := by
      decide +kernel
    omega
  have blk : k / 32 = 0 ∨ k / 32 = 1 := by omega
  cases blk with
  | inl e =>
    rw [e, Dinode.stored, if_pos (by decide)]
    decide +kernel
  | inr e =>
    rw [e, Dinode.stored, if_pos (by decide)]
    decide +kernel

/-- The second entry of a directory is accessed. -/
theorem accessesEntry_twoBlocks : AccessesEntry (State.start chainImage fun _ => true) twoBlocks 1 := by
  have inside : InDirectory twoBlocks (1 : Word).toNat := by
    unfold InDirectory
    decide +kernel
  exact (accessesEntry_iff (fun _ => full_twoBlocks) inside).mpr (by decide)

/-- The first entry of the second block is not. -/
theorem not_accessesEntry : (∀ k, InDirectory twoBlocks k →
      twoBlocks.stored (State.start chainImage fun _ => true).image (BitVec.ofNat 16 (k / 32)) ≠ 0) ∧
    InDirectory twoBlocks (32 : Word).toNat ∧
    ¬ AccessesEntry (State.start chainImage fun _ => true) twoBlocks 32 := by
  refine ⟨fun _ => full_twoBlocks, ?_, fun access => ?_⟩
  · unfold InDirectory
    decide +kernel
  · exact not_wp_dirread (by decide +kernel) (by decide) access.1

end Fsck
end Uzi
