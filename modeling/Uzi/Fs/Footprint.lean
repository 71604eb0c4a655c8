import Uzi.Fs.Files

/-!
# What the code of the file system changes

A relation on kernels that allows every single change which a layer of the file system makes allows
what its functions do: `Quiet` is for the buffers, blocks and inodes, `Transferring` for the code that
also moves data for the process and may put it to sleep.
-/

set_option linter.unusedSectionVars false

namespace Uzi
open Exec

/-- An entry of the mount table that is changed, but is for the same mount. -/
structure Filesys.SameMount (fs fs' : Filesys) : Prop where
  mounted : fs'.sMounted = 0 ↔ fs.sMounted = 0
  mntpt : fs'.sMntpt = fs.sMntpt

/-- The relation allows changes of the buffers, of the mount table but for what is mounted, and of `u_error`. -/
class Buffering (R : Kernel → Kernel → Prop) : Prop extends IsPreorder Kernel R where
  bufs (s : Kernel) (b : Bufs) : R s { s with bufs := b }
  fsTab (s : Kernel) (dev : Nat) (fs : Filesys) (h : (s.fsTab dev).SameMount fs) :
    R s { s with fsTab := Function.update s.fsTab dev fs }
  error (s : Kernel) (e : Errno) : R s { s with udata := { s.udata with uError := e } }

/-- In-core inodes that agree but for the times, the blocks and the dirty flag. -/
structure Cinode.SameUse (c c' : Cinode) : Prop where
  refs : c'.cRefs = c.cRefs
  mode : c'.cNode.iMode = c.cNode.iMode
  size : c'.cNode.iSize = c.cNode.iSize

/-- The relation also allows that an inode gets blocks and times. -/
class Mapping (R : Kernel → Kernel → Prop) : Prop extends Buffering R where
  file (s : Kernel) (ino : Inoptr) (c : Cinode) (h : (s.iTab ino).SameUse c) : R s (s.setInode ino c)

/-- The relation also allows any change of inode `ino` but for its references. -/
class Writing (ino : Inoptr) (R : Kernel → Kernel → Prop) : Prop extends Mapping R where
  node (s : Kernel) (c : Cinode) (h : c.cRefs = (s.iTab ino).cRefs) : R s (s.setInode ino c)

/-- The relation also allows any change of inode `ino`, and wakeups of the processes that sleep on it. -/
class Holding (ino : Inoptr) (R : Kernel → Kernel → Prop) : Prop extends Mapping R where
  inode (s : Kernel) (c : Cinode) : R s (s.setInode ino c)
  woken (s : Kernel) : R s { s with ptab := s.woken (.inode ino) }

/-- The relation also allows changes of all in-core inodes but for their references, and wakeups of the
processes that sleep on one. -/
class Counting (R : Kernel → Kernel → Prop) : Prop extends Mapping R where
  nodes (s : Kernel) (ino : Inoptr) (c : Cinode) (h : c.cRefs = (s.iTab ino).cRefs) : R s (s.setInode ino c)
  next (s : Kernel) (j : Inoptr) : R s { s with nexti := j }
  wakes (s : Kernel) (ino : Inoptr) : R s { s with ptab := s.woken (.inode ino) }

/-- The relation also allows changes of all in-core inodes, and wakeups of the processes that sleep on
one. -/
class Quiet (R : Kernel → Kernel → Prop) : Prop extends Buffering R where
  iTab (s : Kernel) (f : Inoptr → Cinode) : R s { s with iTab := f }
  nexti (s : Kernel) (j : Inoptr) : R s { s with nexti := j }
  woken (s : Kernel) (ino : Inoptr) : R s { s with ptab := s.woken (.inode ino) }

instance {R : Kernel → Kernel → Prop} [Quiet R] {ino : Inoptr} : Holding ino R where
  file s _ _ _ := Quiet.iTab s _
  inode s _ := Quiet.iTab s _
  woken s := Quiet.woken s ino

instance {R : Kernel → Kernel → Prop} [Quiet R] : Mapping R where
  file s _ _ _ := Quiet.iTab s _

instance {R : Kernel → Kernel → Prop} {ino : Inoptr} [Holding ino R] : Writing ino R where
  node s c _ := Holding.inode s c

instance {R : Kernel → Kernel → Prop} {ino : Inoptr} [Counting R] : Writing ino R where
  node s c := Counting.nodes s ino c

instance {R : Kernel → Kernel → Prop} [Quiet R] : Counting R where
  nodes s _ _ _ := Quiet.iTab s _
  next := Quiet.nexti
  wakes := Quiet.woken

/-- The relation, for kernels in which device `dev` is mounted, and stays so. -/
def Mounted (dev : Nat) (R : Kernel → Kernel → Prop) (s s' : Kernel) : Prop :=
  (s.fsTab dev).sMounted ≠ 0 → R s s' ∧ (s'.fsTab dev).sMounted ≠ 0

instance {dev : Nat} {R : Kernel → Kernel → Prop} [Buffering R] : Buffering (Mounted dev R) where
  refl s m := ⟨refl_of R s, m⟩
  trans s s' s'' h h' m := ⟨trans_of R (h m).1 (h' (h m).2).1, (h' (h m).2).2⟩
  bufs s b m := ⟨Buffering.bufs s b, m⟩
  error s e m := ⟨Buffering.error s e, m⟩
  fsTab s d fs same m := by
    refine ⟨Buffering.fsTab s d fs same, ?_⟩
    by_cases h : dev = d
    · subst h
      show (Function.update s.fsTab dev fs dev).sMounted ≠ 0
      rw [Function.update_self]
      exact fun zero => m (same.mounted.mp zero)
    · show (Function.update s.fsTab d fs dev).sMounted ≠ 0
      rwa [Function.update_of_ne h]

instance {dev : Nat} {R : Kernel → Kernel → Prop} [Counting R] : Counting (Mounted dev R) where
  file s ino c h m := ⟨Mapping.file s ino c h, m⟩
  nodes s ino c h m := ⟨Counting.nodes s ino c h, m⟩
  next s j m := ⟨Counting.next s j, m⟩
  wakes s ino m := ⟨Counting.wakes s ino, m⟩

/-- Whether a panic is not one of the scheduler's. -/
def Panic.isQuiet : Panic → Bool
  | .psleepVoodoo | .getprocExtraRunning | .mangledSwapin => false
  | _ => true

/-- Every panic may happen that is not one of the scheduler's, nor that of a reference too few. -/
class Halting (E : Panic → Prop) : Prop where
  halt {e : Panic} (h : (e.isQuiet && e != .inodeFreed) = true) : E e

/-- Every panic but that of a reference too few may happen. -/
class Erring (E : Panic → Prop) : Prop where
  err {e : Panic} (h : e ≠ .inodeFreed) : E e

/-- Every panic that is not one of the scheduler's may happen. -/
class Stopping (E : Panic → Prop) : Prop where
  stop {e : Panic} (h : e.isQuiet = true) : E e

open Stopping (stop)
open Halting (halt)
open Erring (err)

instance : Stopping fun _ => True := ⟨fun _ => trivial⟩

instance : Erring fun _ => True := ⟨fun _ => trivial⟩

instance : Erring fun e => e ≠ .inodeFreed := ⟨id⟩

instance {E : Panic → Prop} [Erring E] : Halting E :=
  ⟨fun h => err (bne_iff_ne.mp (Bool.and_eq_true_iff.mp h).2)⟩

instance : Stopping fun e => e.isQuiet = true := ⟨id⟩

instance {E : Panic → Prop} [Stopping E] : Halting E := ⟨fun h => stop (Bool.and_eq_true_iff.mp h).1⟩

namespace Quiet

variable {R : Kernel → Kernel → Prop} {E : Panic → Prop} [Halting E] {dev : Nat} {blk : Word} {bp : Bufptr}
  {ino : Inoptr}

section Buffering

variable [Buffering R]

/-! ## Buffers -/

/-- A change of a buffer stays within the relation. -/
lemma modifyBuf {f : Blkbuf → Blkbuf} : Within R E (modifyBuf bp f) := .modify fun s => Buffering.bufs s _

/-- The setting of `u_error` stays within the relation. -/
lemma setError {e : Errno} : Within R E (setError e) := .modify fun s => Buffering.error s e

/-- The filling of a buffer stays within the relation. -/
lemma fill {x : Block} : Within R E (fill bp x) := modifyBuf

/-- `bdread` stays within the relation. -/
lemma bdread : Within R E (bdread bp) := by
  unfold Uzi.bdread
  refine .bind .get fun s => .ite (.throw (halt rfl)) (.ite (.throw (halt rfl)) (.ite .pure ?_))
  exact .bind modifyBuf fun _ => .pure

/-- `bdwrite` stays within the relation. -/
lemma bdwrite : Within R E (bdwrite bp) := by
  unfold Uzi.bdwrite
  refine .bind .get fun s => .ite (.throw (halt rfl)) (.ite (.throw (halt rfl)) (.ite .pure ?_))
  exact .bind (.modify fun s => Buffering.bufs s _) fun _ => .pure

/-- `freebuf` stays within the relation. -/
lemma freebuf : Within R E freebuf := by
  unfold Uzi.freebuf
  refine .bind .get fun s => ?_
  split
  · exact .throw (halt rfl)
  · refine .bind .get fun s => .ite (.bind bdwrite fun r => ?_) .pure
    exact .when setError fun _ => .bind modifyBuf fun _ => .pure

/-- The end of `bread` stays within the relation. -/
lemma breadDone : Within R E (breadDone bp) :=
  .bind (.modify fun s => Buffering.bufs s _) fun _ => .bind .get fun _ => .bind modifyBuf fun _ => .pure

/-- `bread` stays within the relation. -/
lemma bread {rewrite : Nat} : Within R E (bread dev blk rewrite) := by
  unfold Uzi.bread
  refine .bind .get fun s => ?_
  split
  · exact .bind .get fun s => .ite (.throw (halt rfl)) breadDone
  · refine .bind freebuf fun bp => .bind modifyBuf fun _ => ?_
    refine .ite ?_ (.ite (.bind modifyBuf fun _ => breadDone) breadDone)
    exact .bind bdread fun r => .ite (.bind setError fun _ => .pure) breadDone

/-- `bread` of a block that is there stays within the relation. -/
lemma breadPtr {rewrite : Nat} : Within R E (breadPtr dev blk rewrite) := by
  refine .bind bread fun r => ?_
  cases r with
  | some bp => exact .pure
  | none => exact .throw (halt rfl)

/-- `bfree` stays within the relation. -/
lemma bfree {dirty : Byte} : Within R E (bfree bp dirty) := by
  refine .bind modifyBuf fun _ => .ite (.bind bdwrite fun r => ?_) .pure
  exact .when setError fun _ => .bind modifyBuf fun _ => .pure

/-- `brelse` stays within the relation. -/
lemma brelse : Within R E (brelse bp) := .bind bfree fun _ => .pure

/-- `bawrite` stays within the relation. -/
lemma bawrite : Within R E (bawrite bp) := .bind bfree fun _ => .pure

/-- `zerobuf` stays within the relation. -/
lemma zerobuf : Within R E zerobuf := .bind freebuf fun _ => .bind modifyBuf fun _ => .pure

/-- `d_open` stays within the relation. -/
lemma dOpen : Within R E (dOpen dev) := .ite .pure (.ite .pure (.throw (halt rfl)))

/-- `d_close` stays within the relation. -/
lemma dClose : Within R E (dClose dev) :=
  .ite (.throw (halt rfl)) (.ite .pure (.throw (halt rfl)))

/-- `bufsync` stays within the relation. -/
lemma bufsync : Within R E bufsync :=
  .each (fun _ => .bind .get fun _ => .ite (.bind bdwrite fun _ => .pure) .pure) _

/-! ## Blocks -/

/-- A change of a mount table entry that keeps its mount stays within the relation. -/
lemma modifyFs {f : Filesys → Filesys} (h : ∀ fs : Filesys, fs.SameMount (f fs)) : Within R E (modifyFs dev f) :=
  .modify fun s => Buffering.fsTab s dev _ (h _)

/-- `getdev` stays within the relation. -/
lemma getdev : Within R E (getdev dev) :=
  .bind .get fun _ => .ite (.throw (halt rfl)) (modifyFs fun _ => ⟨Iff.rfl, rfl⟩)

/-- Behind `getdev` the device is mounted. -/
lemma afterGetdev {α : Type} {c : K α} (h : Within (Mounted dev R) E c) :
    Within R E (Uzi.getdev dev >>= fun _ => c) := by
  intro s
  have found : wp (Uzi.getdev dev) (fun _ s' => R s s' ∧ (s'.fsTab dev).sMounted ≠ 0) E s := by
    unfold Uzi.getdev
    rw [wp_bind, wp_get, wp_ite]
    split
    · exact halt rfl
    · next checked =>
      refine ⟨Buffering.fsTab s dev _ ⟨Iff.rfl, rfl⟩, ?_⟩
      show (Function.update s.fsTab dev _ dev).sMounted ≠ 0
      rw [Function.update_self]
      exact fun zero => checked (.inr zero)
  rw [wp_bind]
  refine wp_post found fun _ s' ⟨moved, mounted⟩ => wp_post (h s') fun _ s'' rest => ?_
  exact trans_of R moved (rest mounted).1

/-- `validblk` stays within the relation. -/
lemma validblk : Within R E (validblk dev blk) :=
  .bind .get fun _ => .ite (.throw (halt rfl)) (.ite (.throw (halt rfl)) .pure)

/-- The second exit of `blk_alloc` for a free list that is not in order stays within the relation. -/
lemma blkAllocCorrupt2 : Within R E blkAllocCorrupt2 := .bind setError fun _ => .pure

/-- The device is marked as one that is not to be used. -/
lemma markCorrupt : Within (Mounted dev R) E (Uzi.modifyFs dev fun fs => { fs with sMounted := 1 }) := by
  have one : (1 : Word) ≠ 0 := by decide
  refine .modify fun s mounted => ⟨Buffering.fsTab s dev _ ⟨⟨fun zero => absurd zero one, fun zero => ?_⟩, rfl⟩, ?_⟩
  · exact absurd zero mounted
  · show (Function.update s.fsTab dev _ dev).sMounted ≠ 0
    rw [Function.update_self]
    exact one

/-- The first exit of `blk_alloc` for a free list that is not in order stays within the relation. -/
lemma blkAllocCorrupt : Within (Mounted dev R) E (blkAllocCorrupt dev) := .bind markCorrupt fun _ => blkAllocCorrupt2

/-- The refill of the free list stays within the relation. -/
lemma blkAllocRefill : Within R E (blkAllocRefill dev blk) :=
  .bind breadPtr fun _ => .bind .get fun _ => .bind (modifyFs fun _ => ⟨Iff.rfl, rfl⟩) fun _ => brelse

/-- The taking of a block off the free list stays within the relation. -/
lemma blkAllocTake : Within (Mounted dev R) E (blkAllocTake dev blk) := by
  refine .bind validblk fun _ => .bind .get fun _ => .ite blkAllocCorrupt ?_
  refine .bind (modifyFs fun _ => ⟨Iff.rfl, rfl⟩) fun _ => .bind breadPtr fun _ => ?_
  exact .bind fill fun _ => .bind bawrite fun _ => .pure

/-- `blk_alloc` stays within the relation. -/
lemma blkAlloc : Within R E (blkAlloc dev) := by
  refine afterGetdev (.bind .get fun _ => .ite blkAllocCorrupt2 (.ite blkAllocCorrupt ?_))
  refine .bind (modifyFs fun _ => ⟨Iff.rfl, rfl⟩) fun _ => .ite ?_ ?_
  · exact .ite blkAllocCorrupt (.bind setError fun _ => .bind (modifyFs fun _ => ⟨Iff.rfl, rfl⟩) fun _ => .pure)
  · exact .bind .get fun _ => .when blkAllocRefill fun _ => blkAllocTake

/-- The spill of a full free list stays within the relation. -/
lemma blkFreeSpill : Within R E (blkFreeSpill dev blk) :=
  .bind breadPtr fun _ => .bind .get fun _ => .bind fill fun _ => .bind bawrite fun _ =>
    modifyFs fun _ => ⟨Iff.rfl, rfl⟩

/-- The push of a block on the free list stays within the relation. -/
lemma blkFreePush : Within R E (blkFreePush dev blk) :=
  .bind (modifyFs fun _ => ⟨Iff.rfl, rfl⟩) fun _ => .bind .get fun _ =>
    .ite (.throw (halt rfl)) (modifyFs fun _ => ⟨Iff.rfl, rfl⟩)

/-- `blk_free` stays within the relation. -/
lemma blkFree : Within R E (blkFree dev blk) := by
  refine .ite .pure (.bind getdev fun _ => .bind .get fun _ => .ite .pure ?_)
  refine .bind validblk fun _ => .bind .get fun _ => ?_
  exact .when blkFreeSpill fun _ => blkFreePush

/-- `freeblk` stays within the relation. -/
lemma freeblk {level : Nat} : Within R E (freeblk dev blk level) := by
  induction level generalizing blk with
  | zero => exact .ite .pure blkFree
  | succ level ih =>
    refine .ite .pure (.bind breadPtr fun bp => ?_)
    refine .bind (.forDown (fun j => .bind .get fun _ => ih) 256) fun _ => ?_
    exact .bind brelse fun _ => blkFree

/-- The descent of `bmap` through the indirect blocks stays within the relation. -/
lemma bmapRounds {rwflg : Bool} {bn nb : Word} {rounds sh : Nat} :
    Within R E (bmapRounds dev rwflg bn rounds sh nb) := by
  induction rounds generalizing sh nb with
  | zero => exact .pure
  | succ rounds ih =>
    refine .bind breadPtr fun bp => .bind .get fun s => .ite (.bind brelse fun _ => ih) ?_
    refine .ite (.bind brelse fun _ => .pure) (.bind blkAlloc fun b => ?_)
    refine .ite (.bind brelse fun _ => .pure) (.bind .get fun _ => .bind fill fun _ => ?_)
    exact .bind bawrite fun _ => ih

/-- `magic` stays within the relation. -/
lemma magic : Within R E (magic ino) := .bind .get fun _ => .ite (.throw (halt rfl)) .pure

/-- `getinode` stays within the relation. -/
lemma getinode {uindex : Word} : Within R E (getinode uindex) := by
  refine .bind .get fun _ => .ite (.bind setError fun _ => .pure) (.ite (.throw (halt rfl)) ?_)
  split
  · exact .throw (halt rfl)
  · exact .bind magic fun _ => .pure

/-- `uf_alloc` stays within the relation. -/
lemma ufAlloc : Within R E ufAlloc := by
  refine .bind .get fun _ => ?_
  split
  · exact .pure
  · exact .bind setError fun _ => .pure

/-- The opening of a device stays within the relation. -/
lemma openDevice {ino : Inoptr} : Within R E (openDevice ino) :=
  .bind .get fun _ => .ite (.bind dOpen fun _ => .pure) .pure

/-- `i_free` stays within the relation. -/
lemma iFree {num : Word} : Within R E (iFree dev num) := by
  refine .bind getdev fun _ => .bind .get fun _ => .ite .pure (.ite (.throw (halt rfl)) ?_)
  refine .bind (modifyFs fun _ => ⟨Iff.rfl, rfl⟩) fun _ => .ite (.throw (halt rfl)) (.ite ?_ .pure)
  exact modifyFs fun _ => ⟨Iff.rfl, rfl⟩

end Buffering

section Mapping

variable [Mapping R]

/-- A change of an inode but for its use stays within the relation. -/
lemma modifyFile {f : Cinode → Cinode} (h : ∀ c : Cinode, c.SameUse (f c)) : Within R E (modifyInode ino f) :=
  .modify fun s => Mapping.file s ino _ (h _)

/-- The number in the inode from which `bmap` starts stays within the relation. -/
lemma bmapAddr {slot : Nat} {rwflg : Bool} {k : Word → K Word} (hk : ∀ b, Within R E (k b)) :
    Within R E (bmapAddr ino slot rwflg k) := by
  refine .bind .get fun s => .ite (hk _) (.ite .pure ?_)
  refine .bind blkAlloc fun b => .ite .pure (.bind ?_ fun _ => hk _)
  exact modifyFile fun _ => ⟨rfl, rfl, rfl⟩

/-- `bmap` stays within the relation. -/
lemma bmap {bn : Word} {rwflg : Bool} : Within R E (bmap ino bn rwflg) := by
  refine .bind .get fun s => .ite .pure (.ite (bmapAddr fun _ => .pure) ?_)
  exact .ite (bmapAddr fun _ => bmapRounds) (bmapAddr fun _ => bmapRounds)

/-! ## Inodes -/

/-- `setftime` stays within the relation. -/
lemma setftime {flag : Word} : Within R E (setftime ino flag) :=
  .bind .get fun _ => modifyFile fun _ => ⟨rfl, rfl, rfl⟩

end Mapping

section Writing

variable [Writing ino R]

/-- A change of an inode but for its references stays within the relation. -/
lemma modifyNode {f : Cinode → Cinode} (h : ∀ c, (f c).cRefs = c.cRefs) : Within R E (modifyInode ino f) :=
  .modify fun s => Writing.node s _ (h _)

/-- `f_trunc` stays within the relation. -/
lemma fTrunc : Within R E (fTrunc ino) := by
  refine .bind .get fun _ => .bind .get fun _ => .bind freeblk fun _ => ?_
  refine .bind .get fun _ => .bind freeblk fun _ => ?_
  exact .bind (.forDown (fun j => .bind .get fun _ => freeblk) 18) fun _ => modifyNode fun _ => rfl

/-- `wr_inode` stays within the relation. -/
lemma wrInode : Within R E (wrInode ino) := by
  refine .bind magic fun _ => .bind .get fun _ => .bind breadPtr fun _ => .bind .get fun _ => ?_
  exact .bind fill fun _ => .bind bfree fun _ => modifyNode fun _ => rfl

/-- A round of `_sync` over the inodes stays within the relation. -/
lemma syncInode : Within R E (syncInode ino) :=
  .bind .get fun _ => .ite (.bind wrInode fun _ => modifyNode fun _ => rfl) .pure

end Writing

section Holding

variable [Holding ino R]

/-- A change of an inode in the table stays within the relation. -/
lemma modifyInode {f : Cinode → Cinode} : Within R E (modifyInode ino f) := .modify fun s => Holding.inode s _

/-- `i_ref` stays within the relation. -/
lemma iRef : Within R E (iRef ino) := .bind modifyInode fun _ => .bind .get fun _ => .ite (.throw (halt rfl)) .pure

/-- The wakeup of those that wait for an inode stays within the relation. -/
lemma wakeup : Within R E (wakeup (.inode ino)) := .modify fun s => Holding.woken s

omit [Halting E] in
/-- `i_deref` stays within the relation. -/
lemma iDeref [Stopping E] : Within R E (iDeref ino) := by
  refine .bind magic fun _ => .bind .get fun _ => .ite (.throw (stop rfl)) (.bind .get fun _ => ?_)
  refine .when wakeup fun _ => .bind modifyInode fun _ => .bind .get fun _ => ?_
  refine .when fTrunc fun _ => .bind .get fun _ => .ite ?_ .pure
  exact .ite (.bind modifyInode fun _ => .bind iFree fun _ => wrInode) wrInode

end Holding

section Counting

variable [Counting R]

/-- The rounds of `_sync` over the devices stays within the relation. -/
lemma syncFs {j : Nat} : Within R E (syncFs j) := by
  refine .bind .get fun _ => .ite (.bind (modifyFs fun _ => ⟨Iff.rfl, rfl⟩) fun _ => .bind breadPtr fun _ => ?_) .pure
  exact .bind .get fun _ => .bind fill fun _ => .bind bfree fun _ => .pure

/-- `_sync` stays within the relation. -/
lemma sync : Within R E _sync :=
  .bind (.each (fun _ => syncInode) _) fun _ => .bind (.each (fun _ => syncFs) _) fun _ => bufsync

/-- The exit of `i_alloc` for inodes that are not in order stays within the relation. -/
lemma iAllocCorrupt : Within (Mounted dev R) E (iAllocCorrupt dev) :=
  .bind markCorrupt fun _ => .bind setError fun _ => .pure

/-- The taking of a number off the list of free inodes stays within the relation. -/
lemma iAllocTake : Within (Mounted dev R) E (iAllocTake dev) := by
  refine .bind .get fun _ => .ite iAllocCorrupt (.ite (.throw (halt rfl)) ?_)
  refine .bind (modifyFs fun _ => ⟨Iff.rfl, rfl⟩) fun _ => .ite iAllocCorrupt ?_
  exact .bind (modifyFs fun _ => ⟨Iff.rfl, rfl⟩) fun _ => .pure

/-- The scan of `i_alloc` through the inode blocks stays within the relation. -/
lemma iAllocScan {k n : Nat} : Within R E (iAllocScan dev blk k n) := by
  induction n generalizing blk k with
  | zero => exact .pure
  | succ n ih =>
    refine .bind breadPtr fun _ => .bind .get fun _ => .bind (modifyFs fun _ => ⟨Iff.rfl, rfl⟩) fun _ => ?_
    exact .bind brelse fun _ => .ite .pure ih

/-- `i_alloc` stays within the relation. -/
lemma iAlloc : Within R E (iAlloc dev) := by
  refine afterGetdev (.bind .get fun _ => .ite iAllocCorrupt (.ite iAllocTake ?_))
  refine .bind sync fun _ => .bind .get fun _ => .bind iAllocScan fun k => .ite ?_ ?_
  · exact .bind .get fun _ => .ite iAllocCorrupt (.bind setError fun _ => .pure)
  · exact .bind (modifyFs fun _ => ⟨Iff.rfl, rfl⟩) fun _ => iAllocTake

/-- The search of `i_open` in the table stays within the relation. -/
lemma iSearch {num : Word} {n : Nat} {j : Inoptr} {nindex : Option Inoptr} :
    Within R E (iSearch dev num n j nindex) := by
  induction n generalizing j nindex with
  | zero => exact .pure
  | succ n ih =>
    exact .bind (.modify fun s => Counting.next s j) fun _ => .bind .get fun _ => .ite .pure ih

end Counting

section Inodes

variable [Quiet R]

/-- The reference that `i_open` takes stays within the relation. -/
lemma iOpenFound {new : Bool} : Within R E (iOpenFound ino new) := by
  refine .bind .get fun _ => .ite (.ite .pure ?_) (.ite .pure ?_)
  · exact .bind modifyInode fun _ => .pure
  · exact .bind modifyInode fun _ => .pure

/-- `i_open` of a number stays within the relation. -/
lemma iOpenAt {num : Word} {new : Bool} : Within R E (iOpenAt dev num new) := by
  refine .bind .get fun _ => .ite .pure (.bind iSearch fun r => ?_)
  split
  · exact iOpenFound
  · exact .bind setError fun _ => .pure
  · refine .bind breadPtr fun _ => .bind .get fun _ => .bind modifyInode fun _ => .bind brelse fun _ => ?_
    exact .bind modifyInode fun _ => iOpenFound

/-- `i_open` stays within the relation. -/
lemma iOpen {num : Word} : Within R E (iOpen dev num) := by
  refine .ite (.throw (halt rfl)) (.ite (.bind iAlloc fun _ => .ite ?_ iOpenAt) iOpenAt)
  exact .bind setError fun _ => .pure

/-! ## Names -/

/-- The search through the blocks of a directory stays within the relation. -/
lemma srchBlocks {name : Nat → Byte} {wraps : Bool} {n : Nat} {cur : Word} :
    Within R E (srchBlocks ino name wraps n cur) := by
  induction n generalizing cur with
  | zero => exact .ite (.throw (halt rfl)) .pure
  | succ n ih =>
    refine .bind bmap fun _ => .bind .get fun _ => .bind breadPtr fun _ => .bind .get fun _ => ?_
    split
    · exact .bind brelse fun _ => .bind .get fun _ => iOpen
    · exact .bind brelse fun _ => ih

/-- `srch_dir` stays within the relation. -/
lemma srchDir {name : Nat → Byte} : Within R E (srchDir ino name) := by
  refine .bind .get fun _ => ?_
  split
  · exact srchBlocks
  · exact srchBlocks

omit [Halting E]

variable [Stopping E]

/-- `srch_mt` stays within the relation. -/
lemma srchMt : Within R E (srchMt ino) := by
  refine .bind .get fun _ => ?_
  split
  · exact .bind iDeref fun _ => iOpen
  · exact .pure

/-- The way down through a mount point stays within the relation. -/
lemma throughMount {ninode : Option Inoptr} : Within R E (throughMount ninode) := by
  cases ninode with
  | none => exact .pure
  | some ninode => exact .bind magic fun _ => srchMt

/-- The way up out of a mounted device stays within the relation. -/
lemma upMount {name : Nat → Byte} : Within R E (upMount name ino) := by
  refine .bind .get fun _ => .ite ?_ .pure
  split
  · exact .throw (stop rfl)
  · exact .bind modifyInode fun _ => .bind iDeref fun _ => .pure

/-- The exit `nodir` of `n_open` stays within the relation. -/
lemma nOpenNodir : Within R E (nOpenNodir ino) := .bind iDeref fun _ => .pure

/-- The end of `n_open` stays within the relation. -/
lemma nOpenEnd {parent : Bool} {ninode : Option Inoptr} : Within R E (nOpenEnd parent ino ninode) :=
  .ite .pure (.bind iDeref fun _ => .when setError fun _ => .pure)

/-- The loop of `n_open` stays within the relation. -/
lemma nOpenLoop {name : CStr} {parent : Bool} {rounds i : Nat} {ninode : Option Inoptr} :
    Within R E (nOpenLoop name parent rounds ino ninode i) := by
  induction rounds generalizing ino ninode i with
  | zero => exact .throw (stop rfl)
  | succ rounds ih =>
    refine .bind throughMount fun ninode => .ite nOpenEnd ?_
    cases ninode with
    | none => exact .bind setError fun _ => nOpenNodir
    | some ninode =>
      refine .bind iDeref fun _ => .bind .get fun _ => .ite (.bind setError fun _ => nOpenNodir) ?_
      refine .ite (.bind setError fun _ => nOpenNodir) (.bind upMount fun _ => ?_)
      exact .bind srchDir fun _ => ih

/-- `n_open` stays within the relation. -/
lemma nOpen {name : CStr} {parent : Bool} : Within R E (nOpen name parent) :=
  .bind .get fun _ => .bind iRef fun _ => .bind iRef fun _ => nOpenLoop

end Inodes

end Quiet

/-! ## Descriptors -/

/-- The relation also allows changes of the open file table, of what lies behind it, and of the
descriptors. -/
class Describing (R : Kernel → Kernel → Prop) : Prop extends Buffering R where
  ofTab (s : Kernel) (f : Fin OFTSIZE → Oft) : R s { s with ofTab := f }
  ofBss (s : Kernel) (f : Nat → Byte) : R s { s with ofBss := f }
  files (s : Kernel) (f : Fin UFTSIZE → Byte) : R s { s with udata := { s.udata with uFiles := f } }

namespace Describing

variable {R : Kernel → Kernel → Prop} [Describing R] {E : Panic → Prop} [Stopping E] {of : Fin OFTSIZE}

/-- A change of an open file stays within the relation. -/
lemma modifyOft {f : Oft → Oft} : Within R E (modifyOft of f) := .modify fun s => ofTab s _

/-- The setting of a descriptor stays within the relation. -/
lemma setFile {j : Fin UFTSIZE} {x : Byte} : Within R E (setFile j x) := .modify fun s => files s _

/-- A reference to an open file stays within the relation. -/
lemma oftRef {j : Byte} : Within R E (oftRef j) := .ite modifyOft (.modify fun s => ofBss s _)

/-- `updoff` stays within the relation. -/
lemma updoff {d : Word} : Within R E (updoff d) := .bind .get fun _ => modifyOft

/-- `oft_deref` stays within the relation. -/
lemma oftDeref (h : ∀ ino, Within R E (iDeref ino)) : Within R E (oftDeref of) := by
  refine .bind modifyOft fun _ => .bind .get fun _ => .ite ?_ .pure
  split
  · exact .pure
  · exact (h _).bind fun _ => modifyOft

/-- `doclose` stays within the relation. -/
lemma doclose {uindex : Word} (h : ∀ ino, Within R E (iDeref ino)) : Within R E (doclose uindex) := by
  refine .bind Quiet.getinode fun r => ?_
  cases r with
  | none => exact .pure
  | some ino =>
    refine .bind .get fun _ => .when Quiet.dClose fun _ => .bind setFile fun _ => ?_
    exact (oftDeref h).bind fun _ => .pure

end Describing

/-- The relation allows what these two allow. -/
class Filing (R : Kernel → Kernel → Prop) : Prop extends Quiet R, Describing R

namespace Filing

variable {R : Kernel → Kernel → Prop} [Filing R] {E : Panic → Prop} [Stopping E] {of : Fin OFTSIZE}

/-- `oft_deref` stays within the relation. -/
lemma oftDeref : Within R E (oftDeref of) := Describing.oftDeref fun _ => Quiet.iDeref

/-- `doclose` stays within the relation. -/
lemma doclose {uindex : Word} : Within R E (doclose uindex) := Describing.doclose fun _ => Quiet.iDeref

end Filing

/-! ## Transfers -/

/-- The relation also allows changes of `u_base`, `u_count`, `u_offset`, `u_error` and the memory of the
process, and a new size of a pipe with a wakeup of the processes that sleep on it. -/
class Moving (R : Kernel → Kernel → Prop) : Prop extends Mapping R where
  transfer (s : Kernel) (base : Nat) (count : Word) (off : Off) (mem : Nat → Byte) (e : Errno) :
    R s { s with udata :=
      { s.udata with uBase := base, uCount := count, uOffset := off, mem := mem, uError := e } }
  resize (s : Kernel) (ino : Inoptr) (c : Cinode) (h : c.cRefs = (s.iTab ino).cRefs) :
    R s { s.setInode ino c with ptab := s.woken (.inode ino) }

namespace Moving

variable {R : Kernel → Kernel → Prop} [Moving R] {E : Panic → Prop} [Erring E] {bp : Bufptr} {ino : Inoptr}

/-- The copy out of a buffer stays within the relation. -/
lemma copyOut {amount : Word} : Within R E (copyOut bp amount) :=
  .bind .get fun _ => .ite (.throw (err nofun)) (.modify fun s => transfer s _ _ _ _ _)

/-- The copy into a buffer stays within the relation. -/
lemma copyIn {amount : Word} : Within R E (copyIn bp amount) :=
  .bind .get fun _ => .ite (.throw (err nofun)) Quiet.fill

/-- The advance of the position stays within the relation. -/
lemma advance {amount : Word} : Within R E (advance amount) :=
  .bind .get fun _ => .modify fun s => transfer s _ _ _ _ _

/-- The wrap of the position in a pipe stays within the relation. -/
lemma wrapOffset : Within R E wrapOffset := by
  refine .modify fun s => ?_
  by_cases round : 18 ≤ s.udata.uOffset.oBlkno
  · simp only [round, if_true]
    exact transfer s _ _ _ _ _
  · simp only [round, if_false]
    exact refl_of R s

/-- What a character driver does stays within the relation. -/
lemma cdTransfer {dev : Word} {write : Bool} : Within R E (cdTransfer dev write) := by
  refine .ite (.throw (err nofun)) (.ite (.throw (err nofun)) (.bind .get fun s => ?_))
  exact .bind (.modify fun s => transfer s _ _ _ _ _) fun _ => .pure

/-- A transfer with a character device stays within the relation. -/
lemma cdevTransfer {write : Bool} : Within R E (cdevTransfer ino write) := by
  refine .bind .get fun _ => .bind cdTransfer fun _ => .bind (.modify fun s => transfer s _ _ _ _ _) fun _ => ?_
  exact .bind .get fun _ => .ite (.modify fun s => transfer s _ _ _ _ _) .pure

/-- The end of a round of a transfer of a pipe. -/
lemma roundEnd {amount : Int} {α : Type} {c : PUnit → K α} (h : ∀ r, Within R E (c r)) :
    Within R E (addSize ino amount >>= fun _ => wakeup (.inode ino) >>= c) := by
  intro s
  unfold addSize
  rw [wp_bind, wp_bind, wp_get, modifyInode, wp_modify, wp_bind, Uzi.wakeup, wp_modify]
  refine wp_post (h ⟨⟩ _) fun _ _ h' => trans_of R (Moving.resize s ino _ ?_) h'
  rfl

/-- The loop of `readi` stays within the relation. -/
lemma readLoop {dev rounds : Nat} {ispipe : Bool} {toread : Word} :
    Within R E (readLoop ino dev ispipe rounds toread) := by
  induction rounds generalizing toread with
  | zero => exact .ite .pure (.throw (err nofun))
  | succ rounds ih =>
    refine .ite .pure (.bind .get fun _ => .bind Quiet.bmap fun _ => ?_)
    refine .either Quiet.breadPtr Quiet.zerobuf fun _ => .bind .get fun _ => .bind copyOut fun _ => ?_
    refine .bind Quiet.brelse fun _ => .bind advance fun _ => .ite ?_ ih
    exact .bind wrapOffset fun _ => roundEnd fun _ => ih

/-- The loop of `writei` stays within the relation. -/
lemma writeLoop {dev rounds : Nat} {ispipe : Bool} {towrite : Word} :
    Within R E (writeLoop ino dev ispipe rounds towrite) := by
  induction rounds generalizing towrite with
  | zero => exact .ite .pure (.throw (err nofun))
  | succ rounds ih =>
    refine .ite .pure (.bind .get fun _ => .bind Quiet.bmap fun _ => .ite .pure (.bind Quiet.breadPtr fun _ => ?_))
    refine .bind copyIn fun _ => .bind Quiet.bawrite fun _ => .bind advance fun _ => .ite ?_ ih
    exact .bind wrapOffset fun _ => roundEnd fun _ => ih

end Moving

/-- The growth of the size of a file stays within the relation. -/
lemma Writing.growSize {R : Kernel → Kernel → Prop} {E : Panic → Prop} {ino : Inoptr} [Writing ino R] [Halting E] :
    Within R E (growSize ino) := .bind .get fun _ => .ite (Quiet.modifyNode fun _ => rfl) .pure

/-- The relation also allows any change of the process table. -/
class Filling (R : Kernel → Kernel → Prop) : Prop extends Counting R where
  transfer (s : Kernel) (base : Nat) (count : Word) (off : Off) (mem : Nat → Byte) (e : Errno) :
    R s { s with udata :=
      { s.udata with uBase := base, uCount := count, uOffset := off, mem := mem, uError := e } }
  ptab (s : Kernel) (t : Fin PTABSIZE → PTab) : R s { s with ptab := t }

instance {R : Kernel → Kernel → Prop} [Filling R] : Moving R where
  transfer := Filling.transfer
  resize s ino c h := trans_of R (Counting.nodes s ino c h) (Filling.ptab (s.setInode ino c) _)

namespace Filling

variable {R : Kernel → Kernel → Prop} [Filling R] {E : Panic → Prop} [Erring E] {ino : Inoptr}

/-- `psleep` stays within the relation. -/
lemma psleep {event : Event} : Within R E (psleep event) :=
  .bind .get fun _ => .ite (.throw (err nofun)) (.modify fun s => ptab s _)

/-- `ssig` stays within the relation. -/
lemma ssig {proc : Fin PTABSIZE} {sig : Nat} : Within R E (ssig proc sig) :=
  .bind .get fun _ => .ite .pure (.ite .pure (.modify fun s => ptab s _))

/-- `readi` stays within the relation. -/
lemma readi : Within R E (readi ino) := by
  refine .bind .get fun s => .ite ?_ (.ite (.ite ?_ ?_) (.ite ?_ (.ite ?_ ?_)))
  · exact .bind (.modify fun s => transfer s _ _ _ _ _) fun _ => .bind Moving.readLoop fun _ => .pure
  · exact .bind psleep fun _ => .pure
  · exact .bind (.modify fun s => transfer s _ _ _ _ _) fun _ => .bind Moving.readLoop fun _ => .pure
  · exact .bind Moving.readLoop fun _ => .pure
  · exact .bind Moving.cdevTransfer fun _ => .pure
  · exact .bind Quiet.setError fun _ => .pure

/-- `writei` stays within the relation. -/
lemma writei : Within R E (writei ino) := by
  refine .bind .get fun s => .ite ?_ (.ite ?_ (.ite (.ite (.ite ?_ ?_) ?_) (.ite ?_ ?_)))
  · exact .bind Moving.writeLoop fun _ => .bind Writing.growSize fun _ => .pure
  · exact .bind Moving.writeLoop fun _ => .bind Writing.growSize fun _ => .pure
  · exact .bind (.modify fun s => transfer s _ _ _ _ _) fun _ => .bind ssig fun _ => .pure
  · exact .bind psleep fun _ => .pure
  · exact .bind Moving.writeLoop fun _ => .pure
  · exact .bind Moving.cdevTransfer fun _ => .pure
  · exact .bind Quiet.setError fun _ => .pure

/-- A transfer of an entry of a directory stays within the relation. -/
lemma entryTransfer {transfer : Inoptr → K Progress} (h : Within R E (transfer ino)) :
    Within R E (entryTransfer transfer ino) := by
  refine .bind (.modify fun s => Filling.transfer s _ _ _ _ _) fun _ => h.bind fun r => ?_
  cases r with
  | returned => exact .pure
  | asleep => exact .throw (err nofun)

/-- The search of `ch_link` stays within the relation. -/
lemma chLinkSearch {name : Nat → Byte} {rounds : Nat} : Within R E (chLinkSearch ino name rounds) := by
  induction rounds with
  | zero => exact .throw (err nofun)
  | succ rounds ih => exact (entryTransfer readi).bind fun _ => .bind .get fun _ => .ite .pure ih

/-- `chLink` stays within the relation. -/
lemma chLink {oldname newname : Nat → Byte} {nindex : Option Inoptr} :
    Within R E (chLink ino oldname newname nindex) := by
  refine .bind .get fun _ => .ite (.bind Quiet.setError fun _ => .pure) ?_
  refine .bind (.modify fun s => transfer s _ _ _ _ _) fun _ => .bind chLinkSearch fun _ => ?_
  refine .bind .get fun _ => .ite .pure (.bind .get fun _ => ?_)
  refine .bind (.modify fun s => transfer s _ _ _ _ _) fun _ => .bind .get fun _ => ?_
  refine .when (.modify fun s => transfer s _ _ _ _ _) fun _ => (entryTransfer writei).bind fun _ => ?_
  refine .bind .get fun _ => .ite .pure (.bind Quiet.setftime fun _ => .bind .get fun _ => ?_)
  exact .when (Quiet.modifyNode fun _ => rfl) fun _ => .pure

end Filling

/-- The relation also allows any change of the in-core inodes and of the process table. -/
class Transferring (R : Kernel → Kernel → Prop) : Prop extends Quiet R where
  transfer (s : Kernel) (base : Nat) (count : Word) (off : Off) (mem : Nat → Byte) (e : Errno) :
    R s { s with udata :=
      { s.udata with uBase := base, uCount := count, uOffset := off, mem := mem, uError := e } }
  ptab (s : Kernel) (t : Fin PTABSIZE → PTab) : R s { s with ptab := t }

instance {R : Kernel → Kernel → Prop} [Transferring R] : Filling R where
  transfer := Transferring.transfer
  ptab := Transferring.ptab

/-- `newfile` stays within the relation. -/
lemma Transferring.newfile {R : Kernel → Kernel → Prop} [Transferring R] {ino : Inoptr} {name : CStr} :
    Within R (fun _ => True) (newfile ino name) := by
  refine .bind .get fun _ => .bind Quiet.iOpen fun r => ?_
  cases r with
  | none => exact .bind Quiet.iDeref fun _ => .pure
  | some nindex =>
    refine .bind Quiet.modifyInode fun _ => .bind Quiet.wrInode fun _ => .bind .get fun _ => ?_
    refine .bind Filling.chLink fun b => .ite (.bind Quiet.iDeref fun _ => .pure) ?_
    exact .bind Quiet.iDeref fun _ => .bind Quiet.iDeref fun _ => .pure

end Uzi
