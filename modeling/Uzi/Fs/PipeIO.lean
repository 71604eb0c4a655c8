import Uzi.Fs.Offset
import Uzi.Fs.Ownership
import Uzi.Lib.Ring

/-!
# Transfers of a pipe

The data of a pipe lie in the ring of its 18 direct blocks, of which at most 16 blocks are in use
(`PipeAt`). A transfer of `readi` takes bytes off the front of the list in the ring, and one of `writei`
enters bytes at its end, as long as `u_offset` is where the list begins or ends.
-/

namespace Uzi
open Exec

/-- The number of bytes in the ring of a pipe. -/
def RING : Nat := 18 * 512

/-- The byte at position `p` of the ring of a pipe, if its block is there. -/
noncomputable def Kernel.ringByte (s : Kernel) (dev : Nat) (ino : Inoptr) (p : Nat) : Option Byte :=
  if (s.iTab ino).cNode.addr (p / 512) = 0 then none
  else some ((s.cell dev ((s.iTab ino).cNode.addr (p / 512))).byte (p % 512))

/-- The pipe `ino` on a device holds the bytes `c` from position `q` of its ring on, and `L` is the free
list of the device. No buffer is held, and both ends of the pipe are open. -/
structure PipeAt (dev : Nat) (ino : Inoptr) (L : List Word) (q : Nat) (c : List Byte)
    (s : Kernel) : Prop where
  good : s.bufs.Good
  idle : ∀ i, s.bufs.view.held i = none
  list : FreeList (s.fsTab dev) (s.cell dev) L
  magic : (s.iTab ino).cMagic = CMAGIC
  own : (s.iTab ino).cDev = dev
  mode : (s.iTab ino).getmode = F_PIPE
  ends : (s.iTab ino).cRefs ≠ 1
  used : ∀ j < 18, (s.iTab ino).cNode.addr j ∉ L
  valid : ∀ j < 18, (s.iTab ino).cNode.addr j ≠ NULLBLK
  apart : ∀ i < 18, ∀ j < 18, (s.iTab ino).cNode.addr i ≠ 0 →
    (s.iTab ino).cNode.addr i = (s.iTab ino).cNode.addr j → i = j
  norm : (s.iTab ino).cNode.iSize.Norm
  size : (s.iTab ino).cNode.iSize.val = c.length
  room : c.length ≤ 16 * 512
  pos : q < RING
  ring : RingList RING (s.ringByte dev ino) q c

/-- Inodes that agree but for the times, the size and the dirty flag. -/
structure Cinode.SameFile (c c' : Cinode) : Prop where
  magic : c'.cMagic = c.cMagic
  dev : c'.cDev = c.cDev
  refs : c'.cRefs = c.cRefs
  mode : c'.cNode.iMode = c.cNode.iMode
  addr : c'.cNode.iAddr = c.cNode.iAddr

section Transfers

variable {dev : Nat} {ino : Inoptr} {L : List Word} {q q' : Nat} {c c' : List Byte} {s s' : Kernel}

/-- Nothing changes but the times, the size and the list. -/
lemma PipeAt.of_same (h : PipeAt dev ino L q c s) (good : s'.bufs.Good)
    (view : s'.bufs.view = s.bufs.view) (fs : s'.fsTab = s.fsTab)
    (file : (s.iTab ino).SameFile (s'.iTab ino)) (norm : (s'.iTab ino).cNode.iSize.Norm)
    (size : (s'.iTab ino).cNode.iSize.val = c'.length) (room : c'.length ≤ 16 * 512) (pos : q' < RING)
    (ring : RingList RING (s.ringByte dev ino) q' c') : PipeAt dev ino L q' c' s' := by
  have cells : s'.cell dev = s.cell dev := by
    funext n
    rw [Kernel.cell, view]
    rfl
  have addr : (s'.iTab ino).cNode.addr = (s.iTab ino).cNode.addr := by
    funext j
    simp only [Dinode.addr, file.addr]
  have bytes : s'.ringByte dev ino = s.ringByte dev ino := by
    funext p
    simp only [Kernel.ringByte, addr, cells]
  refine ⟨good, ?_, ?_, ?_, ?_, ?_, ?_, ?_, ?_, ?_, norm, size, room, pos, bytes ▸ ring⟩
  · rw [view]
    exact h.idle
  · rw [fs, cells]
    exact h.list
  · rw [file.magic, h.magic]
  · rw [file.dev, h.own]
  · rw [Cinode.getmode, file.mode]
    exact h.mode
  · rw [file.refs]
    exact h.ends
  · rw [addr]
    exact h.used
  · rw [addr]
    exact h.valid
  · rw [addr]
    exact h.apart

/-- `bmap` of a direct block that is there. -/
lemma wp_bmap_there {ip : Inoptr} {bn : Word} {rwflg : Bool} {Q : Word → Kernel → Prop} {E : Panic → Prop}
    (mode : (s.iTab ip).getmode ≠ F_BDEV) (direct : bn.toNat < 18)
    (there : (s.iTab ip).cNode.addr bn.toNat ≠ 0) :
    wp (bmap ip bn rwflg) Q E s ↔ Q ((s.iTab ip).cNode.addr bn.toNat) s := by
  have lt : bn < 18 := direct
  unfold bmap bmapAddr
  simp only [wp_bind, wp_get, wp_ite, mode, if_false, lt, if_true, ne_eq, there, not_false_eq_true,
    wp_pure]

/-- The process data after some bytes have been moved. -/
def UData.moved (u : UData) (amount : Nat) (off : Off) : UData :=
  { u with uBase := u.uBase + amount, uOffset := off }

/-- The in-core inode with another size. -/
def Cinode.withSize (c : Cinode) (size : Off) : Cinode :=
  { c with cNode := { c.cNode with iSize := size } }

/-- The offset after `wrapOffset`. -/
def Off.wrap (o : Off) : Off := if 18 ≤ o.oBlkno then { o with oBlkno := 0 } else o

/-- `advance` moves the place. -/
@[simp] lemma wp_advance {amount : Word} {Q : PUnit → Kernel → Prop} {E : Panic → Prop} :
    wp (advance amount) Q E s ↔ Q ⟨⟩ (s.withUdata (s.udata.moved amount.toNat
      (addoff s.target s.udata.uOffset (cint s.target amount)))) := Iff.rfl

/-- The position in a pipe goes round. -/
@[simp] lemma wp_wrapOffset {Q : PUnit → Kernel → Prop} {E : Panic → Prop} :
    wp wrapOffset Q E s ↔ Q ⟨⟩ (s.withUdata (s.udata.moved 0 s.udata.uOffset.wrap)) := by
  have e : ∀ u : UData, (if 18 ≤ u.uOffset.oBlkno then { u with uOffset := { u.uOffset with oBlkno := 0 } }
      else u) = u.moved 0 u.uOffset.wrap := by
    intro u
    unfold UData.moved Off.wrap
    split <;> rfl
  exact iff_of_eq (congrArg (fun u => Q ⟨⟩ (s.withUdata u)) (e s.udata))

/-- The size changes. -/
@[simp] lemma wp_addSize {amount : Int} {Q : PUnit → Kernel → Prop} {E : Panic → Prop} :
    wp (addSize ino amount) Q E s ↔ Q ⟨⟩ (s.setInode ino ((s.iTab ino).withSize
      (addoff s.target (s.iTab ino).cNode.iSize amount))) := Iff.rfl

/-- `wakeup` changes the process table. -/
@[simp] lemma wp_wakeup {event : Event} {Q : PUnit → Kernel → Prop} {E : Panic → Prop} :
    wp (wakeup event) Q E s ↔ Q ⟨⟩ { s with ptab := s.woken event } := Iff.rfl

/-- Going on within a block stays in the ring, or goes round. -/
lemma Off.wrap_val {o : Off} (h : o.Norm) (le : o.val ≤ RING) : o.wrap.Norm ∧ o.wrap.val = o.val % RING := by
  have norm : o.oOffset.toNat < 512 := h
  have val : o.val = 512 * o.oBlkno.toNat + o.oOffset.toNat := rfl
  have bound : 18 ≤ o.oBlkno ↔ 18 ≤ o.oBlkno.toNat := Iff.rfl
  unfold RING at *
  unfold wrap
  split
  · next last =>
    rw [bound] at last
    refine ⟨h, ?_⟩
    show 512 * (0 : Word).toNat + o.oOffset.toNat = _
    rw [show (0 : Word).toNat = 0 from rfl]
    omega
  · next inside =>
    rw [bound] at inside
    refine ⟨h, ?_⟩
    rw [Nat.mod_eq_of_lt (by omega)]

/-- What `readi` leaves alone outside the pipe. -/
structure KeepsTable (s s' : Kernel) : Prop where
  target : s'.target = s.target
  ofTab : s'.ofTab = s.ofTab

/-- Bytes that are put behind others. -/
lemma putBytes_putBytes {mem : Nat → Byte} {base k n : Nat} {f g : Nat → Byte} (le : k ≤ n) :
    putBytes (putBytes mem base k f) (base + k) (n - k) g =
      putBytes mem base n fun i => if i < k then f i else g (i - k) := by
  funext a
  unfold putBytes
  by_cases lo : base ≤ a
  · by_cases mid : a < base + k
    · rw [if_neg (by omega), if_pos ⟨lo, mid⟩, if_pos ⟨lo, by omega⟩]
      exact (if_pos (by omega)).symm
    · by_cases hi : a < base + n
      · rw [if_pos (by omega), if_pos ⟨lo, hi⟩, ← Nat.sub_sub]
        exact (if_neg (by omega)).symm
      · rw [if_neg (by omega), if_neg (by omega), if_neg (by omega)]
  · rw [if_neg (by omega), if_neg (by omega), if_neg (by omega)]

/-- Only the bytes that are put matter. -/
lemma putBytes_congr {mem : Nat → Byte} {base n : Nat} {f g : Nat → Byte} (h : ∀ i < n, f i = g i) :
    putBytes mem base n f = putBytes mem base n g := by
  funext a
  unfold putBytes
  split
  · next inside => exact h _ (by omega)
  · rfl

/-- Bytes that are in the block are in bounds. -/
lemma not_outside {offset amount : Word} (fits : offset.toNat + amount.toNat ≤ 512) :
    ¬ outside offset amount := by
  rintro ⟨-, neg | exceeds⟩
  · rw [toInt_neg_iff] at neg
    omega
  · rw [toInt_of_lt (by omega)] at exceeds
    omega

/-- Bytes are copied out. -/
lemma wp_copyOut {bp : Bufptr} {amount : Word} {Q : PUnit → Kernel → Prop} {E : Panic → Prop}
    (fits : s.udata.uOffset.oOffset.toNat + amount.toNat ≤ 512) :
    wp (copyOut bp amount) Q E s ↔ Q ⟨⟩ (s.withUdata { s.udata with
      mem := putBytes s.udata.mem s.udata.uBase amount.toNat fun i =>
        (s.bufs.bufpool bp).bfData.byte (s.udata.uOffset.oOffset.toNat + i) }) := by
  unfold copyOut
  rw [wp_bind, wp_get, wp_ite, if_neg (not_outside fits)]
  rfl

/-- The data of a buffer after `copyIn`. -/
def Kernel.copied (s : Kernel) (bp : Bufptr) (amount : Word) : Block :=
  (s.bufs.bufpool bp).bfData.setBytes s.udata.uOffset.oOffset.toNat amount.toNat
    fun i => s.udata.mem (s.udata.uBase + i)

/-- Bytes are copied in. -/
lemma wp_copyIn {bp : Bufptr} {amount : Word} {Q : PUnit → Kernel → Prop} {E : Panic → Prop}
    (fits : s.udata.uOffset.oOffset.toNat + amount.toNat ≤ 512) :
    wp (copyIn bp amount) Q E s ↔ Q ⟨⟩ { s with bufs := s.bufs.fill bp (s.copied bp amount) } := by
  unfold copyIn
  rw [wp_bind, wp_get, wp_ite, if_neg (not_outside fits)]
  rfl

/-- Data that are overwritten do not matter. -/
lemma setBytes_all {x y : Block} {f : Nat → Byte} : x.setBytes 0 512 f = y.setBytes 0 512 f :=
  Block.ofBytes_congr fun i hi => by rw [if_pos (by omega), if_pos (by omega)]

/-- A round of `writei` overwrites a part of a block, which it does not read when it overwrites all. -/
lemma wp_writeBlock {α : Type} {blk amount : Word} {off : Nat} {f : Nat → Byte} {rest : K α}
    {Q : α → Kernel → Prop} (g : s.bufs.Good) (idle : ∀ i, s.bufs.view.held i = none) (hdev : dev < NDEVS)
    (hoff : s.udata.uOffset.oOffset.toNat = off) (fits : off + amount.toNat ≤ 512)
    (mem : (fun i => s.udata.mem (s.udata.uBase + i)) = f)
    (post : ∀ b' : Bufs, b'.Good →
      b'.view = s.bufs.view.put (dev, blk) ((s.cell dev blk).setBytes off amount.toNat f) →
      wp rest Q (fun _ => False) { s with bufs := b' }) :
    wp (do
      let bp ← breadPtr dev blk (if amount = 512 then 1 else 0)
      copyIn bp amount
      bawrite bp
      rest) Q (fun _ => False) s := by
  subst hoff mem
  have stop : ∀ e, ¬ s.bufs.view.Stops 0 {(dev, blk)} e := fun e =>
    View.not_stops_of_idle idle (by decide)
  rw [wp_bind]
  by_cases all : amount = 512
  · rw [if_pos all]
    refine wp_mono (wp_breadPtr_rewrite g hdev) ?_ stop
    rintro bp _ ⟨b₁, rfl, p⟩
    rw [wp_bind, wp_copyIn (by exact fits), wp_bind]
    refine wp_mono (wp_bawrite_fill p) ?_ fun _ => False.elim
    rintro _ _ ⟨b₂, rfl, g₂, v₂⟩
    refine post b₂ g₂ ?_
    have start : s.udata.uOffset.oOffset.toNat = 0 := by
      rw [all, show (512 : Word).toNat = 512 from rfl] at fits
      omega
    rw [v₂]
    simp only [Kernel.copied, start, all, show (512 : Word).toNat = 512 from rfl]
    rw [setBytes_all]
  · rw [if_neg all]
    refine wp_mono (wp_breadPtr g hdev) ?_ stop
    rintro bp _ ⟨b₁, rfl, g₁, free, v₁⟩
    have held : b₁.view.held bp = some (dev, blk) := by rw [v₁, View.held_hold]
    rw [wp_bind, wp_copyIn (by exact fits), wp_bind]
    have p := g₁.pending held hdev
    rw [v₁, View.release_hold free] at p
    refine wp_mono (wp_bawrite_fill p) ?_ fun _ => False.elim
    rintro _ _ ⟨b₂, rfl, g₂, v₂⟩
    refine post b₂ g₂ ?_
    have data : (b₁.bufpool bp).bfData = s.cell dev blk := by
      rw [g₁.data held, v₁]
      rfl
    rw [v₂]
    simp only [Kernel.copied, data]

/-- The bytes of a pipe that are in the block at hand. -/
lemma PipeAt.byte (h : PipeAt dev ino L q c s) {i : Nat} (hi : i < c.length) (same : q % 512 + i < 512) :
    (s.iTab ino).cNode.addr (q / 512) ≠ 0 ∧
      (s.cell dev ((s.iTab ino).cNode.addr (q / 512))).byte (q % 512 + i) = (c)[i] := by
  have hq := h.pos
  have r := h.ring i hi
  unfold RING at hq r
  rw [Nat.mod_eq_of_lt (by omega), Kernel.ringByte, show (q + i) / 512 = q / 512 by omega,
    show (q + i) % 512 = q % 512 + i by omega] at r
  split at r
  · cases r
  · next there => exact ⟨there, Option.some.inj r⟩

/-- The loop of `readi` takes the first `n` bytes of a pipe. -/
lemma wp_readLoop {rounds : Nat} {n : Word} (hdev : dev < NDEVS) (h : PipeAt dev ino L q c s)
    (off : s.udata.uOffset.Norm) (at_q : s.udata.uOffset.val = q) (le : n.toNat ≤ c.length)
    (enough : n.toNat ≤ rounds) :
    wp (readLoop ino dev true rounds n)
      (fun _ s' => PipeAt dev ino L ((q + n.toNat) % RING) (c.drop n.toNat) s' ∧ KeepsTable s s' ∧
        s'.udata.uOffset.Norm ∧ s'.udata.uOffset.val = (q + n.toNat) % RING ∧
        s'.udata = { s.udata with
          uBase := s'.udata.uBase
          uOffset := s'.udata.uOffset
          mem := putBytes s.udata.mem s.udata.uBase n.toNat fun i => c.getD i 0 })
      (fun _ => False) s := by
  have done : ∀ {q c s} {n : Word}, PipeAt dev ino L q c s → s.udata.uOffset.Norm →
      s.udata.uOffset.val = q → n = 0 →
      PipeAt dev ino L ((q + n.toNat) % RING) (c.drop n.toNat) s ∧ KeepsTable s s ∧
        s.udata.uOffset.Norm ∧ s.udata.uOffset.val = (q + n.toNat) % RING ∧
        s.udata = { s.udata with
          mem := putBytes s.udata.mem s.udata.uBase n.toNat fun i => c.getD i 0 } := by
    rintro q c s _ h off rfl rfl
    have stay : (s.udata.uOffset.val + (0 : Word).toNat) % RING = s.udata.uOffset.val :=
      Nat.mod_eq_of_lt h.pos
    rw [stay]
    refine ⟨h, ⟨rfl, rfl⟩, off, rfl, ?_⟩
    have same : ∀ f, putBytes s.udata.mem s.udata.uBase (0 : Word).toNat f = s.udata.mem := by
      intro f
      funext a
      exact if_neg (by rw [show (0 : Word).toNat = 0 from rfl]; omega)
    rw [same]
  induction rounds generalizing n q c s with
  | zero =>
    have nil : n = 0 := BitVec.eq_of_toNat_eq (Nat.le_zero.mp enough)
    rw [readLoop, if_pos nil]
    exact done h off at_q nil
  | succ rounds ih =>
    rw [readLoop, wp_ite]
    split
    · next nil => exact done h off at_q nil
    · next ne =>
      have pos : 0 < n.toNat := Nat.pos_of_ne_zero fun e => ne (BitVec.eq_of_toNat_eq e)
      have room := h.room
      have hq := h.pos
      subst at_q
      generalize ho : s.udata.uOffset = o at *
      have blk : o.oBlkno.toNat < 18 := by
        unfold RING at hq
        rw [off.blkno]
        omega
      have there : (s.iTab ino).cNode.addr o.oBlkno.toNat ≠ 0 := by
        rw [off.blkno]
        exact (h.byte (i := 0) (by omega) (by omega)).1
      have mode : (s.iTab ino).getmode ≠ F_BDEV := by
        rw [h.mode]
        decide
      have lt := off.offset
      have inside : o.oOffset.toNat < 512 := off
      have ha : (chunk s.target n o.oOffset).toNat = min n.toNat (512 - o.oOffset.toNat) :=
        chunk_toNat (fun _ => by omega) off
      rw [wp_bind, wp_get, wp_bind, ho, wp_bmap_there mode blk there, if_pos (h.valid _ blk), wp_bind]
      refine wp_mono (wp_breadPtr h.good hdev) ?_ fun e =>
        View.not_stops_of_idle h.idle (by decide)
      rintro bp _ ⟨b₁, rfl, g₁, idle, v₁⟩
      · rw [wp_bind, wp_get]
        simp only [ho]
        generalize hk : chunk s.target n o.oOffset = a at ha
        have fits : o.oOffset.toNat + a.toNat ≤ 512 := by omega
        rw [wp_bind, wp_copyOut (by rw [ho]; exact fits), wp_bind]
        refine wp_mono (wp_brelse_hold (v := s.bufs.view) g₁ idle v₁) ?_ fun _ => False.elim
        rintro _ _ ⟨b₂, rfl, g₂, v₂⟩
        simp only [wp_bind, wp_advance, wp_wrapOffset, wp_addSize, wp_wakeup, if_true]
        -- the state after the round
        have next : ∀ s₃ : Kernel, s₃.bufs = b₂ → s₃.fsTab = s.fsTab → s₃.target = s.target →
            s₃.ofTab = s.ofTab →
            s₃.iTab ino = (s.iTab ino).withSize
              (addoff s.target (s.iTab ino).cNode.iSize (cneg s.target a)) →
            s₃.udata = { s.udata with
              uBase := s.udata.uBase + a.toNat
              uOffset := (addoff s.target o (cint s.target a)).wrap
              mem := putBytes s.udata.mem s.udata.uBase a.toNat fun i =>
                (b₁.bufpool bp).bfData.byte (o.oOffset.toNat + i) } →
            wp (readLoop ino dev true rounds (n - a))
              (fun _ s' => PipeAt dev ino L ((o.val + n.toNat) % RING) (c.drop n.toNat) s' ∧
                KeepsTable s s' ∧ s'.udata.uOffset.Norm ∧
                s'.udata.uOffset.val = (o.val + n.toNat) % RING ∧
                s'.udata = { s.udata with
                  uBase := s'.udata.uBase
                  uOffset := s'.udata.uOffset
                  mem := putBytes s.udata.mem s.udata.uBase n.toNat fun i => c.getD i 0 })
              (fun _ => False) s₃ := by
          intro s₃ bufs fs target ofTab inode udata
          have a_pos : 0 < a.toNat := by omega
          have small : a.toNat < 2 ^ 15 := by omega
          have val : o.val = 512 * o.oBlkno.toNat + o.oOffset.toNat := rfl
          obtain ⟨off₁, val₁⟩ := addoff_natCast (t := s.target) off (n := a.toNat) (by omega)
          rw [← cint_of_lt (t := s.target) small] at off₁ val₁
          rw [Nat.mod_eq_of_lt (by omega)] at val₁
          obtain ⟨off₂, val₂⟩ := Off.wrap_val off₁ (by unfold RING; omega)
          rw [val₁] at val₂
          obtain ⟨norm, size⟩ := addoff_neg (t := s.target) h.norm a_pos small (by rw [h.size]; omega)
          rw [← cneg_of_lt (t := s.target) small] at norm size
          have file : (s.iTab ino).SameFile (s₃.iTab ino) := by
            rw [inode]
            exact ⟨rfl, rfl, rfl, rfl, rfl⟩
          have h₃ : PipeAt dev ino L ((o.val + a.toNat) % RING) (c.drop a.toNat) s₃ := by
            refine h.of_same (bufs ▸ g₂) (bufs ▸ v₂) fs file ?_ ?_ ?_ ?_ (h.ring.drop _)
            · rw [inode]
              exact norm
            · rw [inode, List.length_drop, ← h.size]
              exact size
            · rw [List.length_drop]
              omega
            · exact Nat.mod_lt _ (by decide)
          have data : (b₁.bufpool bp).bfData = s.cell dev ((s.iTab ino).cNode.addr o.oBlkno.toNat) := by
            rw [g₁.data (by rw [v₁, View.held_hold]), v₁]
            rfl
          have bytes : ∀ i < a.toNat, (b₁.bufpool bp).bfData.byte (o.oOffset.toNat + i) = c.getD i 0 := by
            intro i hi
            have b := (h.byte (i := i) (by omega) (by omega)).2
            rw [data, off.blkno, off.offset, b, List.getD_eq_getElem?_getD, List.getElem?_eq_getElem]
            rfl
          have left : (n - a).toNat = n.toNat - a.toNat := by
            rw [BitVec.toNat_sub]
            omega
          have rest := ih (n := n - a) h₃ (by rw [udata]; exact off₂) (by rw [udata]; exact val₂)
            (by rw [left, List.length_drop]; omega) (by omega)
          refine wp_post rest ?_
          rintro _ s' ⟨h', keeps, off', val', udata'⟩
          have on : (o.val + a.toNat) % RING + (n - a).toNat = (o.val + a.toNat) % RING +
              (n.toNat - a.toNat) := by rw [left]
          have round : ((o.val + a.toNat) % RING + (n - a).toNat) % RING = (o.val + n.toNat) % RING := by
            rw [on, Nat.mod_add_mod]
            congr 1
            omega
          rw [round] at h' val'
          rw [List.drop_drop, left, Nat.add_sub_cancel' (by omega)] at h'
          refine ⟨h', ⟨keeps.target.trans target, keeps.ofTab.trans ofTab⟩, off', val', ?_⟩
          rw [udata, left] at udata'
          rw [udata']
          simp only
          rw [putBytes_putBytes (by omega)]
          congr 1
          refine putBytes_congr fun i hi => ?_
          split
          · next first => exact bytes i first
          · next second =>
            rw [List.getD_eq_getElem?_getD, List.getElem?_drop, Nat.add_sub_cancel' (by omega),
              ← List.getD_eq_getElem?_getD]
        refine next _ rfl rfl rfl rfl ?_ ?_
        · exact Function.update_self ..
        · rw [← ho]
          rfl

/-- The first free block gets a place in the pipe. -/
lemma PipeAt.newBlock {slot : Nat} {b : Word} (h : PipeAt dev ino (b :: L) q c s)
    (missing : (s.iTab ino).cNode.addr slot = 0) (good : s'.bufs.Good)
    (view : s'.bufs.view = s.bufs.view.put (dev, b) Block.zero)
    (list : FreeList (s'.fsTab dev) (s'.cell dev) L)
    (inode : s'.iTab ino = { s.iTab ino with
      cNode := (s.iTab ino).cNode.setAddr slot b, cDirty := true }) : PipeAt dev ino L q c s' := by
  have range := h.list.range b (List.mem_cons_self ..)
  have fresh : b ∉ L := (List.nodup_cons.mp h.list.nodup).1
  have others : ∀ j < 18, (s.iTab ino).cNode.addr j ≠ b ∧ (s.iTab ino).cNode.addr j ∉ L :=
    fun j hj => not_or.mp (mt List.mem_cons.mpr (h.used j hj))
  have addr : ∀ j < 18, (s'.iTab ino).cNode.addr j =
      if j = slot then b else (s.iTab ino).cNode.addr j := fun j hj => by
    rw [inode, Dinode.addr_setAddr (Nat.lt_trans hj (by decide))]
  refine ⟨good, ?_, list, ?_, ?_, ?_, ?_, fun j hj => ?_, fun j hj => ?_, fun i hi j hj => ?_, ?_, ?_,
    h.room, h.pos, ?_⟩
  · rw [view]
    exact h.idle
  · rw [inode, h.magic]
  · rw [inode, h.own]
  · rw [inode]
    exact h.mode
  · rw [inode]
    exact h.ends
  · rw [addr j hj]
    split
    · exact fresh
    · exact (others j hj).2
  · rw [addr j hj]
    split
    · rintro rfl
      have hi := BitVec.lt_def.mp range.2
      have bound := (s.fsTab dev).sFsize.isLt
      rw [show (NULLBLK).toNat = 2 ^ 16 - 1 from rfl] at hi
      omega
    · exact h.valid j hj
  · rw [addr i hi, addr j hj]
    by_cases ei : i = slot
    · by_cases ej : j = slot
      · exact fun _ _ => ei.trans ej.symm
      · rw [if_pos ei, if_neg ej]
        exact fun _ e => absurd e.symm (others j hj).1
    · by_cases ej : j = slot
      · rw [if_neg ei, if_pos ej]
        exact fun _ e => absurd e (others i hi).1
      · rw [if_neg ei, if_neg ej]
        exact h.apart i hi j hj
  · rw [inode]
    exact h.norm
  · rw [inode]
    exact h.size
  · refine h.ring.mono fun i _ x => ?_
    have below : (q + i) % RING / 512 < 18 := by
      have lt := Nat.mod_lt (q + i) (show 0 < RING by decide)
      unfold RING at lt ⊢
      omega
    generalize (q + i) % RING = p at below
    simp only [Kernel.ringByte, addr _ below]
    by_cases e : p / 512 = slot
    · rw [e, missing, if_pos rfl]
      intro none
      cases none
    · rw [if_neg e]
      have cell : s'.cell dev ((s.iTab ino).cNode.addr (p / 512)) =
          s.cell dev ((s.iTab ino).cNode.addr (p / 512)) := by
        rw [Kernel.cell, view]
        exact View.content_put_of_ne fun e => (others _ below).1 (Prod.ext_iff.mp e).2
      rw [cell]
      exact id

/-- `bmap` of a direct block that is missing takes the first free block. -/
lemma wp_bmap_missing {bn b : Word} (hdev : dev < NDEVS) (h : PipeAt dev ino (b :: L) q c s)
    (direct : bn.toNat < 18) (missing : (s.iTab ino).cNode.addr bn.toNat = 0) :
    wp (bmap ino bn false)
      (fun r s' => r = b ∧ r ≠ 0 ∧ PipeAt dev ino L q c s' ∧ KeepsTable s s' ∧ s'.udata = s.udata ∧
        s'.iTab ino = { s.iTab ino with
          cNode := (s.iTab ino).cNode.setAddr bn.toNat b, cDirty := true })
      (fun _ => False) s := by
  have lt : bn < 18 := direct
  have mode : (s.iTab ino).getmode ≠ F_BDEV := by
    rw [h.mode]
    decide
  have own := h.own
  subst own
  unfold bmap bmapAddr
  simp only [wp_bind, wp_get, wp_ite, mode, if_false, lt, if_true, ne_eq, missing, not_true_eq_false,
    Bool.false_eq_true]
  refine wp_mono (wp_blkAlloc_cons h.good hdev h.list) ?_ fun e =>
    View.not_stops_of_idle h.idle (by decide)
  rintro r _ ⟨rfl, b', fs', rfl, g', -, v, list⟩
  have ne : r ≠ 0 := h.list.top_cons.2
  rw [if_neg ne, wp_modifyInode]
  refine ⟨rfl, ne, h.newBlock missing g' v ?_ Kernel.iTab_setInode, ⟨rfl, rfl⟩, rfl,
    Kernel.iTab_setInode⟩
  have fsTab : (s.withFs b' (s.iTab ino).cDev fs').fsTab (s.iTab ino).cDev = fs' := Kernel.fsTab_withFs
  rwa [← fsTab] at list

/-- Bytes are entered behind the others, in one block of the pipe. -/
lemma PipeAt.enter {p k : Nat} {f : Nat → Byte} (h : PipeAt dev ino L q c s)
    (behind : p = (q + c.length) % RING) (there : (s.iTab ino).cNode.addr (p / 512) ≠ 0)
    (fits : p % 512 + k ≤ 512) (room : c.length + k ≤ 16 * 512) (good : s'.bufs.Good)
    (view : s'.bufs.view = s.bufs.view.put (dev, (s.iTab ino).cNode.addr (p / 512))
      ((s.cell dev ((s.iTab ino).cNode.addr (p / 512))).setBytes (p % 512) k f))
    (fs : s'.fsTab = s.fsTab) (file : (s.iTab ino).SameFile (s'.iTab ino))
    (norm : (s'.iTab ino).cNode.iSize.Norm) (size : (s'.iTab ino).cNode.iSize.val = c.length + k) :
    PipeAt dev ino L q (c ++ (List.range k).map f) s' := by
  have hp : p < RING := behind ▸ Nat.mod_lt _ (by decide)
  have slot : p / 512 < 18 := by
    unfold RING at hp
    omega
  have addr : (s'.iTab ino).cNode.addr = (s.iTab ino).cNode.addr := by
    funext j
    simp only [Dinode.addr, file.addr]
  have cell : ∀ b, s'.cell dev b = if b = (s.iTab ino).cNode.addr (p / 512) then
      (s.cell dev b).setBytes (p % 512) k f else s.cell dev b := by
    intro b
    rw [Kernel.cell, view, View.put]
    by_cases e : b = (s.iTab ino).cNode.addr (p / 512)
    · rw [if_pos e, ← e]
      exact Function.update_self ..
    · rw [if_neg e]
      exact Function.update_of_ne (fun e' => e (Prod.ext_iff.mp e').2) _ _
  have length : (c ++ (List.range k).map f).length = c.length + k := by
    rw [List.length_append, List.length_map, List.length_range]
  refine ⟨good, ?_, ?_, ?_, ?_, ?_, ?_, ?_, ?_, ?_, norm, size.trans length.symm, length ▸ room, h.pos, ?_⟩
  · rw [view]
    exact h.idle
  · rw [fs]
    refine h.list.congr rfl rfl rfl rfl rfl rfl fun b hb => ?_
    rw [cell, if_neg]
    rintro rfl
    exact h.used _ slot hb
  · rw [file.magic, h.magic]
  · rw [file.dev, h.own]
  · rw [Cinode.getmode, file.mode]
    exact h.mode
  · rw [file.refs]
    exact h.ends
  · rw [addr]
    exact h.used
  · rw [addr]
    exact h.valid
  · rw [addr]
    exact h.apart
  · have pos : ∀ j < k, (q + (c.length + j)) % RING = p + j := by
      intro j hj
      rw [← Nat.add_assoc, ← Nat.mod_add_mod, ← behind, Nat.mod_eq_of_lt]
      unfold RING at hp ⊢
      omega
    refine h.ring.write ?_ (fun j hj => ?_) fun p' hp' x off get => ?_
    · rw [List.length_map, List.length_range]
      unfold RING
      omega
    · rw [List.length_map, List.length_range] at hj
      rw [pos j hj, Kernel.ringByte, addr, show (p + j) / 512 = p / 512 by omega, if_neg there, cell,
        if_pos rfl, byte_setBytes (by omega), if_pos (by omega), List.getElem_map, List.getElem_range,
        show (p + j) % 512 - p % 512 = j by omega]
    · rw [Kernel.ringByte] at get ⊢
      rw [addr, cell]
      split at get
      · cases get
      · next there' =>
        rw [if_neg there']
        rw [← get]
        split
        · next same =>
          have slot' : p' / 512 < 18 := by
            unfold RING at hp'
            omega
          have e := h.apart _ slot' _ slot there' same
          rw [byte_setBytes (by omega), if_neg]
          rintro ⟨lo, hi⟩
          refine off (p' % 512 - p % 512) (by rw [List.length_map, List.length_range]; omega) ?_
          rw [pos _ (by omega)]
          omega
        · rfl

/-- The blocks that `n` bytes from position `p` on touch. -/
def touched (p n : Nat) : Nat := if n = 0 then 0 else (p % 512 + n - 1) / 512 + 1

/-- How many of the blocks that `n` bytes from position `p` on touch are missing. -/
def Dinode.holes (d : Dinode) (p n : Nat) : Nat :=
  (List.range (touched p n)).countP fun i => d.addr ((p / 512 + i) % 18) = 0

/-- The missing blocks after one round. -/
lemma Dinode.holes_round {d d' : Dinode} {p n k : Nat} (hp : p < RING) (pos : 0 < n)
    (le : n ≤ 16 * 512) (hk : k = min n (512 - p % 512))
    (same : ∀ j < 18, j ≠ p / 512 → d'.addr j = d.addr j) :
    d.holes p n = (if d.addr (p / 512) = 0 then 1 else 0) + d'.holes ((p + k) % RING) (n - k) := by
  have slot : (p / 512 + 0) % 18 = p / 512 := by
    unfold RING at hp
    omega
  have first : touched p n = touched ((p + k) % RING) (n - k) + 1 := by
    unfold touched RING at *
    split <;> split <;> omega
  have few : touched ((p + k) % RING) (n - k) < 17 := by
    have all : touched p n < 18 := by
      unfold touched
      split <;> omega
    omega
  have next : ∀ i < touched ((p + k) % RING) (n - k),
      ((p + k) % RING / 512 + i) % 18 = (p / 512 + (i + 1)) % 18 := by
    intro i hi
    have more : 512 - p % 512 < n := by
      unfold touched at hi
      split at hi <;> omega
    unfold RING at *
    omega
  rw [holes, holes, first, List.range_succ_eq_map, List.countP_cons, List.countP_map, slot, Nat.add_comm]
  congr 1
  · simp only [decide_eq_true_eq]
  · refine List.countP_congr fun i hi => ?_
    have lt := List.mem_range.mp hi
    have ne : (p / 512 + (i + 1)) % 18 ≠ p / 512 := by
      unfold RING at hp
      omega
    simp only [Function.comp_apply, next i lt, Nat.succ_eq_add_one,
      same _ (Nat.mod_lt _ (by decide)) ne]

/-- `bmap` finds a block of a pipe, or takes one when there is one. -/
lemma wp_bmap_pipe {bn : Word} (hdev : dev < NDEVS) (h : PipeAt dev ino L q c s) (direct : bn.toNat < 18)
    (free : (s.iTab ino).cNode.addr bn.toNat = 0 → 0 < L.length) :
    wp (bmap ino bn false)
      (fun r s' => ∃ L', PipeAt dev ino L' q c s' ∧ r = (s'.iTab ino).cNode.addr bn.toNat ∧ r ≠ 0 ∧
        KeepsTable s s' ∧ s'.udata = s.udata ∧
        (∀ j < 18, j ≠ bn.toNat → (s'.iTab ino).cNode.addr j = (s.iTab ino).cNode.addr j) ∧
        L.length = (if (s.iTab ino).cNode.addr bn.toNat = 0 then 1 else 0) + L'.length)
      (fun _ => False) s := by
  by_cases missing : (s.iTab ino).cNode.addr bn.toNat = 0
  · cases L with
    | nil => exact absurd (free missing) (Nat.lt_irrefl 0)
    | cons b L =>
      refine wp_post (wp_bmap_missing hdev h direct missing) ?_
      rintro b s' ⟨rfl, ne, h', keeps, udata, inode⟩
      have addr : ∀ j < 18, (s'.iTab ino).cNode.addr j =
          if j = bn.toNat then b else (s.iTab ino).cNode.addr j := fun j hj => by
        rw [inode, Dinode.addr_setAddr (Nat.lt_trans hj (by decide))]
      refine ⟨L, h', ?_, ne, keeps, udata, fun j hj hne => ?_, ?_⟩
      · rw [addr _ direct, if_pos rfl]
      · rw [addr j hj, if_neg hne]
      · rw [if_pos missing, List.length_cons, Nat.add_comm]
  · have mode : (s.iTab ino).getmode ≠ F_BDEV := by
      rw [h.mode]
      decide
    rw [wp_bmap_there mode direct missing]
    refine ⟨L, h, rfl, missing, ⟨rfl, rfl⟩, rfl, fun _ _ _ => rfl, ?_⟩
    rw [if_neg missing, Nat.zero_add]

/-- The bytes in the memory of a process. -/
def UData.bytes (u : UData) (base n : Nat) : List Byte := (List.range n).map fun i => u.mem (base + i)

/-- The bytes of two parts. -/
lemma UData.bytes_add {u : UData} {base m n : Nat} :
    u.bytes base (m + n) = u.bytes base m ++ u.bytes (base + m) n := by
  simp only [bytes, List.range_add, List.map_append, List.map_map, Nat.add_assoc]
  rfl

/-- The loop of `writei` enters `n` bytes in a pipe when the free list has the blocks that are missing. -/
lemma wp_writeLoop {rounds : Nat} {n : Word} (hdev : dev < NDEVS) (h : PipeAt dev ino L q c s)
    (off : s.udata.uOffset.Norm) (at_end : s.udata.uOffset.val = (q + c.length) % RING)
    (room : c.length + n.toNat ≤ 16 * 512) (enough : n.toNat ≤ rounds)
    (free : (s.iTab ino).cNode.holes s.udata.uOffset.val n.toNat ≤ L.length) :
    wp (writeLoop ino dev true rounds n)
      (fun _ s' => ∃ L', PipeAt dev ino L' q (c ++ s.udata.bytes s.udata.uBase n.toNat) s' ∧
        KeepsTable s s' ∧ s'.udata.uOffset.Norm ∧
        s'.udata.uOffset.val = (q + c.length + n.toNat) % RING ∧
        s'.udata = { s.udata with uBase := s'.udata.uBase, uOffset := s'.udata.uOffset })
      (fun _ => False) s := by
  have done : ∀ {L c s} {n : Word}, PipeAt dev ino L q c s → s.udata.uOffset.Norm →
      s.udata.uOffset.val = (q + c.length) % RING → n = 0 →
      ∃ L', PipeAt dev ino L' q (c ++ s.udata.bytes s.udata.uBase n.toNat) s ∧ KeepsTable s s ∧
        s.udata.uOffset.Norm ∧ s.udata.uOffset.val = (q + c.length + n.toNat) % RING ∧
        s.udata = { s.udata with uBase := s.udata.uBase, uOffset := s.udata.uOffset } := by
    rintro L c s _ h off at_end rfl
    refine ⟨L, ?_, ⟨rfl, rfl⟩, off, at_end, rfl⟩
    rw [show s.udata.bytes s.udata.uBase (0 : Word).toNat = [] from rfl, List.append_nil]
    exact h
  induction rounds generalizing n c s L with
  | zero =>
    have nil : n = 0 := BitVec.eq_of_toNat_eq (Nat.le_zero.mp enough)
    rw [writeLoop, if_pos nil]
    exact done h off at_end nil
  | succ rounds ih =>
    rw [writeLoop, wp_ite]
    split
    · next nil => exact done h off at_end nil
    · next ne =>
      have pos : 0 < n.toNat := Nat.pos_of_ne_zero fun e => ne (BitVec.eq_of_toNat_eq e)
      have hp : s.udata.uOffset.val < RING := at_end ▸ Nat.mod_lt _ (by decide)
      generalize ho : s.udata.uOffset = o at *
      have blk : o.oBlkno.toNat < 18 := by
        unfold RING at hp
        rw [off.blkno]
        omega
      have lt := off.offset
      have inside : o.oOffset.toNat < 512 := off
      have ha : (chunk s.target n o.oOffset).toNat = min n.toNat (512 - o.oOffset.toNat) :=
        chunk_toNat (fun _ => by omega) off
      rw [wp_bind, wp_get]
      simp only [ho]
      generalize hk : chunk s.target n o.oOffset = a at ha
      have fits : o.oOffset.toNat + a.toNat ≤ 512 := by omega
      have holes : ∀ d' : Dinode,
          (∀ j < 18, j ≠ o.val / 512 → d'.addr j = (s.iTab ino).cNode.addr j) → _ :=
        fun d' same => Dinode.holes_round hp pos (by omega) (ha.trans (by rw [lt])) same
      rw [← off.blkno] at holes
      rw [wp_bind]
      refine wp_post (wp_bmap_pipe hdev h blk fun missing => ?_) ?_
      · rw [holes _ fun _ _ _ => rfl, if_pos missing] at free
        omega
      rintro r s₁ ⟨L₁, h₁, rfl, there, keeps₁, udata₁, same, len⟩
      rw [if_neg (h₁.valid _ blk)]
      rw [off.blkno] at there
      have offset₁ : s₁.udata.uOffset.oOffset.toNat = o.oOffset.toNat := by rw [udata₁, ho]
      have mem₁ : (fun i => s₁.udata.mem (s₁.udata.uBase + i)) =
          fun i => s.udata.mem (s.udata.uBase + i) := by rw [udata₁]
      refine wp_writeBlock h₁.good h₁.idle hdev offset₁ fits mem₁ fun b' g' v' => ?_
      simp only [wp_bind, wp_advance, wp_wrapOffset, wp_addSize, wp_wakeup, if_true]
      -- the state after the round
      have next : ∀ s₃ : Kernel, s₃.bufs = b' → s₃.fsTab = s₁.fsTab → s₃.target = s₁.target →
          s₃.ofTab = s₁.ofTab →
          s₃.iTab ino = (s₁.iTab ino).withSize
            (addoff s.target (s₁.iTab ino).cNode.iSize (cint s.target a)) →
          s₃.udata = s.udata.moved a.toNat (addoff s.target o (cint s.target a)).wrap →
          wp (writeLoop ino dev true rounds (n - a))
            (fun _ s' => ∃ L', PipeAt dev ino L' q (c ++ s.udata.bytes s.udata.uBase n.toNat) s' ∧
              KeepsTable s s' ∧ s'.udata.uOffset.Norm ∧
              s'.udata.uOffset.val = (q + c.length + n.toNat) % RING ∧
              s'.udata = { s.udata with uBase := s'.udata.uBase, uOffset := s'.udata.uOffset })
            (fun _ => False) s₃ := by
        intro s₃ bufs fs target ofTab inode udata
        have a_pos : 0 < a.toNat := by omega
        have small : a.toNat < 2 ^ 15 := by omega
        have val : o.val = 512 * o.oBlkno.toNat + o.oOffset.toNat := rfl
        obtain ⟨off₁, val₁⟩ := addoff_natCast (t := s.target) off (n := a.toNat) (by omega)
        obtain ⟨norm, size⟩ := addoff_natCast (t := s.target) h₁.norm (n := a.toNat) (by omega)
        rw [← cint_of_lt (t := s.target) small] at off₁ val₁ norm size
        rw [Nat.mod_eq_of_lt (by omega)] at val₁
        rw [h₁.size, Nat.mod_eq_of_lt (by omega)] at size
        obtain ⟨off₂, val₂⟩ := Off.wrap_val off₁ (by unfold RING; omega)
        rw [val₁] at val₂
        have file : (s₁.iTab ino).SameFile (s₃.iTab ino) := by
          rw [inode]
          exact ⟨rfl, rfl, rfl, rfl, rfl⟩
        have h₃ : PipeAt dev ino L₁ q (c ++ s.udata.bytes s.udata.uBase a.toNat) s₃ := by
          rw [off.blkno, off.offset] at v'
          refine h₁.enter at_end there (by omega) (by omega) (bufs ▸ g') (bufs ▸ v') fs file ?_ ?_
          · rw [inode]
            exact norm
          · rw [inode]
            exact size
        have length : (c ++ s.udata.bytes s.udata.uBase a.toNat).length = c.length + a.toNat := by
          rw [List.length_append, UData.bytes, List.length_map, List.length_range]
        have left : (n - a).toNat = n.toNat - a.toNat := by
          rw [BitVec.toNat_sub]
          omega
        have here : (o.val + a.toNat) % RING = (q + (c.length + a.toNat)) % RING := by
          rw [at_end, Nat.mod_add_mod, Nat.add_assoc]
        have fewer := holes _ same
        have off₃ : s₃.udata.uOffset = (addoff s.target o (cint s.target a)).wrap := by
          rw [udata]
          rfl
        have holes₃ : (s₃.iTab ino).cNode.holes = (s₁.iTab ino).cNode.holes := by
          rw [inode]
          rfl
        have rest := ih (n := n - a) h₃ (by rw [off₃]; exact off₂) (by rw [off₃, val₂, length, here])
          (by rw [length, left]; omega) (by omega) (by rw [off₃, val₂, left, holes₃]; omega)
        refine wp_post rest ?_
        rintro _ s' ⟨L', h', keeps, off', val', udata'⟩
        have base : s₃.udata.bytes s₃.udata.uBase (n - a).toNat =
            s.udata.bytes (s.udata.uBase + a.toNat) (n.toNat - a.toNat) := by
          rw [udata, left]
          rfl
        rw [base, List.append_assoc, ← UData.bytes_add, Nat.add_sub_cancel' (by omega)] at h'
        refine ⟨L', h', ⟨?_, ?_⟩, off', ?_, ?_⟩
        · exact keeps.target.trans (target.trans keeps₁.target)
        · exact keeps.ofTab.trans (ofTab.trans keeps₁.ofTab)
        · rw [val', length, left]
          congr 1
          omega
        · rw [udata'] 
          rw [udata]
          rfl
      refine next _ rfl rfl rfl rfl ?_ ?_
      · rw [Kernel.iTab_setInode, ← keeps₁.target]
        rfl
      · rw [← ho, ← udata₁, ← keeps₁.target]
        rfl

/-! ## The system calls -/

/-- The running process goes to sleep. -/
lemma wp_psleep {event : Event} {Q : PUnit → Kernel → Prop} {E : Panic → Prop}
    (running : (s.ptab s.udata.uPtab).pStatus = .running) (post : ∀ t, Q ⟨⟩ { s with ptab := t }) :
    wp (psleep event) Q E s := by
  unfold psleep
  rw [wp_bind, wp_get, wp_ite, if_neg (not_not.mpr running)]
  exact post _

/-- Only the inodes and blocks matter. -/
lemma PipeAt.congr (h : PipeAt dev ino L q c s) (bufs : s'.bufs = s.bufs) (fs : s'.fsTab = s.fsTab)
    (iTab : s'.iTab = s.iTab) : PipeAt dev ino L q c s' := by
  refine h.of_same (bufs ▸ h.good) (bufs ▸ rfl) fs ?_ ?_ ?_ h.room h.pos h.ring
  · rw [iTab]
    exact ⟨rfl, rfl, rfl, rfl, rfl⟩
  · rw [iTab]
    exact h.norm
  · rw [iTab]
    exact h.size

/-- A reader of an empty pipe goes to sleep. -/
lemma wp_readi_empty (h : PipeAt dev ino L q [] s)
    (running : (s.ptab s.udata.uPtab).pStatus = .running) :
    wp (readi ino) (fun r s' => r = .asleep ∧ PipeAt dev ino L q [] s' ∧ KeepsTable s s' ∧
      s'.udata = s.udata) (fun _ => False) s := by
  have mode := h.mode
  have size := psize_val (t := s.target) h.norm (by rw [h.size]; decide)
  rw [h.size, List.length_nil] at size
  unfold readi
  rw [wp_bind, wp_get]
  simp only [mode]
  rw [if_neg (by decide), if_pos trivial, size, if_pos ⟨rfl, h.ends⟩, wp_bind]
  refine wp_psleep running fun t => ?_
  exact ⟨rfl, h.congr rfl rfl rfl, ⟨rfl, rfl⟩, rfl⟩

/-- A reader takes bytes off the front of a pipe. -/
lemma wp_readi {n : Nat} (hdev : dev < NDEVS) (h : PipeAt dev ino L q c s) (ne : c ≠ [])
    (off : s.udata.uOffset.Norm) (at_q : s.udata.uOffset.val = q)
    (signed : s.target = .nes → s.udata.uCount.toNat < 2 ^ 15)
    (hn : n = min s.udata.uCount.toNat c.length) :
    wp (readi ino)
      (fun r s' => r = .returned ∧ PipeAt dev ino L ((q + n) % RING) (c.drop n) s' ∧
        KeepsTable s s' ∧ s'.udata.uOffset.Norm ∧ s'.udata.uOffset.val = (q + n) % RING ∧
        s'.udata = { s.udata with
          uBase := s'.udata.uBase
          uCount := BitVec.ofNat 16 n
          uOffset := s'.udata.uOffset
          mem := putBytes s.udata.mem s.udata.uBase n fun i => c.getD i 0 })
      (fun _ => False) s := by
  have mode := h.mode
  have room := h.room
  have size := psize_val (t := s.target) h.norm (by rw [h.size]; omega)
  rw [h.size] at size
  have pos : c.length ≠ 0 := fun e => ne (List.length_eq_zero_iff.mp e)
  have count : BitVec.ofInt 16 (min (cint s.target s.udata.uCount) c.length) = BitVec.ofNat 16 n := by
    have e : cint s.target s.udata.uCount = s.udata.uCount.toNat := by
      cases ht : s.target with
      | nes => exact cint_of_lt (signed ht)
      | fsutil => rfl
    rw [e, show min (s.udata.uCount.toNat : Int) c.length = n by omega]
    rfl
  have small : (BitVec.ofNat 16 n).toNat = n := by
    rw [BitVec.toNat_ofNat]
    omega
  unfold readi
  rw [wp_bind, wp_get]
  simp only [mode]
  rw [if_neg (by decide), if_pos trivial, size, if_neg (fun e => pos (by exact_mod_cast e.1)), count,
    wp_bind, wp_modifyUdata, wp_bind, h.own, small]
  refine wp_post (wp_readLoop hdev (h.congr rfl rfl rfl) off at_q (by rw [small]; omega)
    (Nat.le_of_eq small)) ?_
  rw [small]
  rintro _ s' ⟨h', keeps, off', val', udata'⟩
  exact ⟨rfl, h', ⟨keeps.target, keeps.ofTab⟩, off', val', udata'⟩

/-- A writer for whose bytes a pipe has no room goes to sleep. -/
lemma wp_writei_full (h : PipeAt dev ino L q c s)
    (running : (s.ptab s.udata.uPtab).pStatus = .running)
    (full : 16 * 512 < c.length + s.udata.uCount.toNat) :
    wp (writei ino) (fun r s' => r = .asleep ∧ PipeAt dev ino L q c s' ∧ KeepsTable s s' ∧
      s'.udata = s.udata) (fun _ => False) s := by
  have mode := h.mode
  have room := h.room
  have size := psize_val (t := s.target) h.norm (by rw [h.size]; omega)
  rw [h.size] at size
  unfold writei
  rw [wp_bind, wp_get]
  simp only [mode]
  rw [if_neg (by decide), if_neg (by decide), if_pos trivial, size, if_pos ((pipeFull_iff room).mpr full),
    if_neg h.ends, wp_bind]
  refine wp_psleep running fun t => ?_
  exact ⟨rfl, h.congr rfl rfl rfl, ⟨rfl, rfl⟩, rfl⟩

/-- A writer enters its bytes at the end of a pipe. -/
lemma wp_writei (hdev : dev < NDEVS) (h : PipeAt dev ino L q c s) (off : s.udata.uOffset.Norm)
    (at_end : s.udata.uOffset.val = (q + c.length) % RING)
    (fits : c.length + s.udata.uCount.toNat ≤ 16 * 512)
    (free : (s.iTab ino).cNode.holes s.udata.uOffset.val s.udata.uCount.toNat ≤ L.length) :
    wp (writei ino)
      (fun r s' => r = .returned ∧ ∃ L',
        PipeAt dev ino L' q (c ++ s.udata.bytes s.udata.uBase s.udata.uCount.toNat) s' ∧
        KeepsTable s s' ∧ s'.udata.uOffset.Norm ∧
        s'.udata.uOffset.val = (q + c.length + s.udata.uCount.toNat) % RING ∧
        s'.udata = { s.udata with uBase := s'.udata.uBase, uOffset := s'.udata.uOffset })
      (fun _ => False) s := by
  have mode := h.mode
  have room := h.room
  have size := psize_val (t := s.target) h.norm (by rw [h.size]; omega)
  rw [h.size] at size
  have not_full : ¬ pipeFull s.target s.udata.uCount c.length = true := by
    rw [pipeFull_iff room]
    omega
  unfold writei
  rw [wp_bind, wp_get]
  simp only [mode]
  rw [if_neg (by decide), if_neg (by decide), if_pos trivial, size, if_neg not_full, wp_bind, h.own]
  refine wp_post (wp_writeLoop hdev h off at_end fits (Nat.le_refl _) free) ?_
  rintro _ s' post
  exact ⟨rfl, post⟩

end Transfers

end Uzi
