import Uzi.Fs.FileData
import Uzi.Fs.Transfers

/-!
# Rounds of a file

What a round of `readi` or `writei` does to the data of a regular file or directory: a read copies bytes of one
logical block to the memory, and a write puts them there, with blocks of the free list where the file has none yet.
-/

namespace Uzi
open Exec

variable {s s' : Kernel} {ino : Inoptr} {dev : Nat} {L L' : List Word} {n m : Word}

/-- The loop of a transfer of a regular file or directory. -/
lemma Kernel.FileAt.readEntry (h : s.FileAt dev ino L) : s.readEntry ino =
    some (dev, false, readLimit s.target s.udata.uCount (s.iTab ino).cNode.iSize s.udata.uOffset) := by
  rw [Kernel.readEntry, if_pos h.mode.symm, h.own]

/-- What `writei` comes to. -/
lemma Kernel.FileAt.writeEntry (h : s.FileAt dev ino L) : s.writeEntry ino = some (dev, false, s.udata.uCount) := by
  rw [Kernel.writeEntry, if_neg h.not_bdev, if_pos h.mode.symm, h.own]

/-! ## Reading -/

/-- A round of `readi` has copied `a` bytes of the logical block `bn` of a file. -/
structure Kernel.ReadBytes (s s' : Kernel) (dev : Nat) (ino : Inoptr) (bn a : Word) : Prop where
  eq : s' = { s with bufs := s'.bufs, udata := s'.udata }
  good : s'.bufs.Good
  view : s'.bufs.view = s.bufs.view
  udata : s'.udata = { s.udata.moved a.toNat (addoff s.target s.udata.uOffset (cint s.target a)) with
    mem := putBytes s.udata.mem s.udata.uBase a.toNat fun i =>
      (s.fileData dev ino bn).byte (s.udata.uOffset.oOffset.toNat + i) }

/-- A round of `readi` reads what it takes, from a logical block that has a block. -/
lemma wp_readRound_file (hdev : dev < NDEVS) (h : s.FileAt dev ino L)
    (fits : s.udata.uOffset.oOffset.toNat + (chunk s.target n s.udata.uOffset.oOffset).toNat ≤ 512)
    (there : s.fileBlock dev ino s.udata.uOffset.oBlkno ≠ 0) :
    wp (readRound ino dev false n)
      (fun r s' => r = some (n - chunk s.target n s.udata.uOffset.oOffset) ∧
        s.ReadBytes s' dev ino s.udata.uOffset.oBlkno (chunk s.target n s.udata.uOffset.oOffset)) (fun _ => False) s := by
  have own := h.own
  have valid : s.fileBlock dev ino s.udata.uOffset.oBlkno ≠ NULLBLK :=
    h.valid _ (Multiset.mem_add.mpr (.inr (fileBlock_mem_blocks there)))
  unfold readRound
  rw [wp_bind, wp_get, wp_bind]
  refine wp_post (wp_bmap_read h.good h.idle (own ▸ hdev) h.not_bdev) fun r s₁ got => ?_
  obtain ⟨⟨b, e, g, v⟩, r_eq⟩ := got
  have stored : r = s.fileBlock dev ino s.udata.uOffset.oBlkno := by
    rw [r_eq, own]
    exact if_neg there
  subst e
  rw [wp_bind, readBlock, stored, if_pos valid]
  have idle : ∀ bp, b.view.held bp = none := fun bp => by rw [v]; exact h.idle bp
  refine wp_mono (wp_breadPtr (s := { s with bufs := b }) g hdev) ?_ fun e =>
    View.not_stops_of_idle idle (by decide)
  intro bp s₂ got
  obtain ⟨b₁, e, g₁, free, hold⟩ := got
  subst e
  have data : (b₁.bufpool bp).bfData = s.fileData dev ino s.udata.uOffset.oBlkno := by
    have held : b₁.view.held bp = some (dev, s.fileBlock dev ino s.udata.uOffset.oBlkno) := by
      rw [hold, View.held_hold]
    rw [g₁.data held, hold, Kernel.fileData_eq, if_neg there]
    exact congrFun (congrArg View.content v) _
  rw [wp_bind, wp_get, wp_bind, wp_copyOut (by exact fits), wp_bind]
  refine wp_mono (wp_brelse_hold (v := b.view) g₁ free hold) ?_ fun _ => False.elim
  intro _ s₃ got
  obtain ⟨b₂, e, g₂, v₂⟩ := got
  subst e
  rw [roundEnd, wp_bind, wp_bind, wp_advance, wp_ite, if_neg Bool.false_ne_true]
  refine ⟨rfl, rfl, g₂, v₂.trans v, ?_⟩
  rw [← data]
  rfl

/-! ## Writing -/

/-- The bytes from `u_base` on. -/
def UData.source (u : UData) (i : Nat) : Byte := u.mem (u.uBase + i)

/-- A round of `writei` has put `a` bytes into the logical block `bn` of a file. -/
structure Kernel.Wrote (s s' : Kernel) (dev : Nat) (ino : Inoptr) (L L' : List Word) (bn a : Word) : Prop where
  eq : s' = { (s.withFs s'.bufs dev (s'.fsTab dev)).setInode ino (s'.iTab ino) with udata := s'.udata }
  udata : s'.udata = s.udata.moved a.toNat (addoff s.target s.udata.uOffset (cint s.target a))
  file : s'.FileAt dev ino L'
  mapped : (s.iTab ino).Mapped (s'.iTab ino)
  there : s'.fileBlock dev ino bn ≠ 0
  others : ∀ m, m ≠ bn → s'.fileBlock dev ino m = s.fileBlock dev ino m
  data : ∀ m, s'.fileData dev ino m = Function.update (s.fileData dev ino) bn
    ((s.fileData dev ino bn).setBytes s.udata.uOffset.oOffset.toNat a.toNat s.udata.source) m
  paid : L'.length + (s.iTab ino).cNode.lacking (s.cell dev) bn = L.length
  gaps : ∀ bns, (s'.iTab ino).cNode.gaps (s'.cell dev) bns = (s.iTab ino).cNode.gaps (s.cell dev) bns \ places bn

/-- A round of `writei` writes what it takes, or there is no space. -/
lemma wp_writeRound_file (hdev : dev < NDEVS) (h : s.FileAt dev ino L)
    (fits : s.udata.uOffset.oOffset.toNat + (chunk s.target n s.udata.uOffset.oOffset).toNat ≤ 512) :
    wp (writeRound ino dev false n)
      (fun r s' => ∃ L', r = none ∧ s.Extended s' dev ino L L' s.udata.uOffset.oBlkno NULLBLK ∨
        r = some (n - chunk s.target n s.udata.uOffset.oOffset) ∧
          s.Wrote s' dev ino L L' s.udata.uOffset.oBlkno (chunk s.target n s.udata.uOffset.oOffset))
      (fun _ => False) s := by
  unfold writeRound
  rw [wp_bind, wp_get, wp_bind]
  refine wp_post (wp_bmap_file hdev h) fun r s₁ got => ?_
  obtain ⟨L', ext⟩ := got
  rw [wp_ite]
  split
  · next full => exact ⟨L', .inl ⟨rfl, full ▸ ext⟩⟩
  · next some =>
    obtain ⟨ne, block, error, paid, gaps⟩ := ext.given some
    have target : s₁.target = s.target := by
      rw [ext.eq]
      rfl
    have udata : s₁.udata = s.udata := by
      rw [ext.eq, error]
      rfl
    refine wp_writeBlock ext.file.good ext.file.idle hdev (by rw [udata]) fits (by rw [udata]) fun b' g' v' => ?_
    rw [roundEnd, wp_bind, wp_bind, wp_advance, wp_ite, if_neg Bool.false_ne_true]
    have there : s₁.fileBlock dev ino s.udata.uOffset.oBlkno ≠ 0 := block ▸ ne
    generalize hs : Kernel.withUdata _ _ = s₂
    have same : (s₁.iTab ino).SameFile (s₂.iTab ino) := hs ▸ ⟨rfl, rfl, rfl, rfl, rfl⟩
    have view : s₂.bufs.view = s₁.bufs.view.put (dev, s₁.fileBlock dev ino s.udata.uOffset.oBlkno)
        ((s.fileData dev ino s.udata.uOffset.oBlkno).setBytes s.udata.uOffset.oOffset.toNat
          (chunk s.target n s.udata.uOffset.oOffset).toNat s.udata.source) := by
      rw [← ext.data, Kernel.fileData_eq, if_neg there, block, ← hs]
      exact v'
    have put := ext.file.put there (hs ▸ g') view (hs ▸ rfl) same
    refine ⟨L', .inr ⟨rfl, ?_, ?_, put.file, ?_, ?_, ?_, ?_, paid, ?_⟩⟩
    · rw [← hs]
      exact congrArg (fun t : Kernel => ({ t with bufs := b' } : Kernel).withUdata _) ext.eq
    · rw [← hs, ← udata, ← target]
      rfl
    · rw [← hs]
      exact ext.mapped
    · rw [put.block]
      exact there
    · intro m off
      rw [put.block, ext.others m off]
    · intro m
      rw [put.data, funext ext.data]
    · intro bns
      rw [put.gaps, gaps]

/-! ## The size -/

/-- Nothing has changed but the times, the size and the dirty flag of an inode. -/
structure Kernel.Resized (s s' : Kernel) (ino : Inoptr) : Prop where
  eq : s' = s.setInode ino (s'.iTab ino)
  same : (s.iTab ino).SameFile (s'.iTab ino)

/-- A size that has been set. -/
lemma Kernel.resized_setInode {c : Cinode} (same : (s.iTab ino).SameFile c) : s.Resized (s.setInode ino c) ino := by
  have inode : (s.setInode ino c).iTab ino = c := iTab_setInode
  exact ⟨by rw [inode], by rwa [inode]⟩

/-- The same size. -/
lemma Kernel.Resized.refl : s.Resized s ino := ⟨setInode_self.symm, rfl, rfl, rfl, rfl, rfl⟩

/-- New sizes, twice. -/
lemma Kernel.Resized.trans {s'' : Kernel} (h : s.Resized s' ino) (h' : s'.Resized s'' ino) : s.Resized s'' ino where
  eq := by
    calc s'' = s'.setInode ino (s''.iTab ino) := h'.eq
      _ = (s.setInode ino (s'.iTab ino)).setInode ino (s''.iTab ino) := by rw [← h.eq]
      _ = s.setInode ino (s''.iTab ino) := setInode_setInode
  same := ⟨h'.same.magic.trans h.same.magic, h'.same.dev.trans h.same.dev, h'.same.refs.trans h.same.refs,
    h'.same.mode.trans h.same.mode, h'.same.addr.trans h.same.addr⟩

/-- The process is as before. -/
lemma Kernel.Resized.udata (h : s.Resized s' ino) : s'.udata = s.udata := by
  rw [h.eq]
  rfl

/-- The data of the file are as before. -/
lemma Kernel.Resized.sameBlocks (h : s.Resized s' ino) (file : s.FileAt dev ino L) :
    s.SameBlocks s' dev ino L (s.fileData dev ino) := by
  have eq := h.eq
  refine file.keep ?_ ?_ ?_ h.same
  · rw [eq]
    exact file.good
  · rw [eq]
    rfl
  · rw [eq]
    rfl

/-- The offset is behind the end of the file. -/
lemma grows_iff {size off : Off} (hs : size.Norm) (ho : off.Norm) :
    (size.oBlkno < off.oBlkno ∨ (off.oBlkno = size.oBlkno ∧ size.oOffset.toInt < off.oOffset.toInt)) ↔
      size.val < off.val := by
  have ls : size.oOffset.toNat < 512 := hs
  have lo : off.oOffset.toNat < 512 := ho
  have signed : size.oOffset.toInt = _ := toInt_of_lt (by omega)
  have signed' : off.oOffset.toInt = _ := toInt_of_lt (by omega)
  rw [signed, signed', BitVec.lt_def, ← BitVec.toNat_inj]
  unfold Off.val
  omega

/-- The end of `writei`. -/
lemma wp_growSize : wp (growSize ino)
    (fun _ s' => s.Resized s' ino ∧ ((s.iTab ino).cNode.iSize.Norm → s.udata.uOffset.Norm →
      (s'.iTab ino).cNode.iSize = if (s.iTab ino).cNode.iSize.val < s.udata.uOffset.val then s.udata.uOffset
        else (s.iTab ino).cNode.iSize)) (fun _ => False) s := by
  unfold growSize
  rw [wp_bind, wp_get]
  dsimp only
  rw [wp_ite]
  split
  · next grows =>
    rw [wp_modifyInode]
    refine ⟨Kernel.resized_setInode ⟨rfl, rfl, rfl, rfl, rfl⟩, fun hs ho => ?_⟩
    rw [Kernel.iTab_setInode, if_pos ((grows_iff hs ho).mp grows)]
  · next stays => exact ⟨.refl, fun hs ho => by rw [if_neg (mt (grows_iff hs ho).mpr stays)]⟩

end Uzi
