import Uzi.Fs.Footprint
import Uzi.Fs.Links
import Uzi.Fs.Ownership
import Uzi.Lib.Relational

/-!
# An error left in `u_error`

The code of the file system sets `u_error` in many places. Two kernels that are equal but for an error that is left in
the second one go on alike, as long as `ch_link` does not ask for it.
-/

namespace Uzi
open Exec

/-- The drivers set `u_error` or leave it as it is, and do not look at it. -/
def Drivers (chardev : Nat → Bool → UData → UData × Word) : Prop :=
  ∀ dev write u, ∃ set : Option Errno, ∀ e,
    chardev dev write { u with uError := e } =
      ({ (chardev dev write u).1 with uError := set.getD e }, (chardev dev write u).2)

/-- What the driver that ends with the data `v` leaves of the data of the process. -/
def UData.driven (u v : UData) : UData :=
  { u with uBase := v.uBase, uCount := v.uCount, mem := v.mem, uError := v.uError }

/-- The kernels are equal, but for an error that may be left in the second one. -/
structure LeftError (s t : Kernel) : Prop where
  eq : t = s.withError t.udata.uError
  error : s.udata.uError = t.udata.uError ∨ t.udata.uError ≠ .ok
  drivers : Drivers s.chardev

namespace LeftError

variable {α : Type} {dev : Nat} {blk : Word} {bp : Bufptr} {ino : Inoptr} {of : Fin OFTSIZE}

/-! ## Single steps -/

/-- A step that does not look at `u_error` and does not change it. -/
lemma change {f : Kernel → Kernel} (same : ∀ s e, f (s.withError e) = (f s).withError e)
    (chardev : ∀ s, (f s).chardev = s.chardev) : Blind LeftError (modify f : K PUnit) := by
  have kept : ∀ s, (f s).udata.uError = s.udata.uError := by
    intro s
    exact congrArg (·.udata.uError) (same s s.udata.uError)
  refine .modify fun s t h => ⟨?_, ?_, ?_⟩
  · rw [kept t, ← same, ← h.eq]
  · rw [kept s, kept t]
    exact h.error
  · rw [chardev s]
    exact h.drivers

/-- A step that sets `u_error`. -/
lemma settle {f : Kernel → Kernel} (same : ∀ s e, f (s.withError e) = f s)
    (chardev : ∀ s, (f s).chardev = s.chardev) : Blind LeftError (modify f : K PUnit) := by
  refine .modify fun s t h => ?_
  have e : f t = f s := by
    rw [h.eq]
    exact same s _
  rw [e]
  exact ⟨rfl, .inl rfl, (chardev s).symm ▸ h.drivers⟩

/-- The state is looked at, but not its `u_error`. -/
lemma see {f : Kernel → K α} (same : ∀ s e, f (s.withError e) = f s) (h : ∀ s, Blind LeftError (f s)) :
    Blind LeftError (get >>= f) :=
  .look (fun s t left => by rw [left.eq, same]) h

/-! ## Buffers -/

/-- A change of a buffer goes on alike with an error left. -/
lemma modifyBuf {f : Blkbuf → Blkbuf} : Blind LeftError (modifyBuf bp f) := change (fun _ _ => rfl) fun _ => rfl

/-- The setting of `u_error` goes on alike with an error left. -/
lemma setError {e : Errno} : Blind LeftError (setError e) := settle (fun _ _ => rfl) fun _ => rfl

/-- The filling of a buffer goes on alike with an error left. -/
lemma fill {x : Block} : Blind LeftError (fill bp x) := modifyBuf

/-- `bdread` goes on alike with an error left. -/
lemma bdread : Blind LeftError (bdread bp) := by
  unfold Uzi.bdread
  refine see (fun _ _ => rfl) fun s => .ite .throw (.ite .throw (.ite .pure ?_))
  exact .bind modifyBuf fun _ => .pure

/-- `bdwrite` goes on alike with an error left. -/
lemma bdwrite : Blind LeftError (bdwrite bp) := by
  unfold Uzi.bdwrite
  refine see (fun _ _ => rfl) fun s => .ite .throw (.ite .throw (.ite .pure ?_))
  exact .bind (change (fun _ _ => rfl) fun _ => rfl) fun _ => .pure

/-- `freebuf` goes on alike with an error left. -/
lemma freebuf : Blind LeftError freebuf := by
  unfold Uzi.freebuf
  refine see (fun _ _ => rfl) fun s => ?_
  split
  · exact .throw
  · refine see (fun _ _ => rfl) fun s => .ite (.bind bdwrite fun r => ?_) .pure
    exact .when setError fun _ => .bind modifyBuf fun _ => .pure

/-- The end of `bread` goes on alike with an error left. -/
lemma breadDone : Blind LeftError (breadDone bp) :=
  .bind (change (fun _ _ => rfl) fun _ => rfl) fun _ => see (fun _ _ => rfl) fun _ => .bind modifyBuf fun _ => .pure

/-- `bread` goes on alike with an error left. -/
lemma bread {rewrite : Nat} : Blind LeftError (bread dev blk rewrite) := by
  unfold Uzi.bread
  refine see (fun _ _ => rfl) fun s => ?_
  split
  · exact see (fun _ _ => rfl) fun s => .ite .throw breadDone
  · refine .bind freebuf fun bp => .bind modifyBuf fun _ => ?_
    refine .ite ?_ (.ite (.bind modifyBuf fun _ => breadDone) breadDone)
    exact .bind bdread fun r => .ite (.bind setError fun _ => .pure) breadDone

/-- `bread` of a block that is there goes on alike with an error left. -/
lemma breadPtr {rewrite : Nat} : Blind LeftError (breadPtr dev blk rewrite) := by
  refine .bind bread fun r => ?_
  cases r with
  | some bp => exact .pure
  | none => exact .throw

/-- `bfree` goes on alike with an error left. -/
lemma bfree {dirty : Byte} : Blind LeftError (bfree bp dirty) := by
  refine .bind modifyBuf fun _ => .ite (.bind bdwrite fun r => ?_) .pure
  exact .when setError fun _ => .bind modifyBuf fun _ => .pure

/-- `brelse` goes on alike with an error left. -/
lemma brelse : Blind LeftError (brelse bp) := .bind bfree fun _ => .pure

/-- `bawrite` goes on alike with an error left. -/
lemma bawrite : Blind LeftError (bawrite bp) := .bind bfree fun _ => .pure

/-- `zerobuf` goes on alike with an error left. -/
lemma zerobuf : Blind LeftError zerobuf := .bind freebuf fun _ => .bind modifyBuf fun _ => .pure

/-- `d_open` goes on alike with an error left. -/
lemma dOpen : Blind LeftError (dOpen dev) := .ite .pure (.ite .pure .throw)

/-- `d_close` goes on alike with an error left. -/
lemma dClose : Blind LeftError (dClose dev) :=
  .ite .throw (.ite .pure .throw)

/-- `bufsync` goes on alike with an error left. -/
lemma bufsync : Blind LeftError bufsync :=
  .each (fun _ => see (fun _ _ => rfl) fun _ => .ite (.bind bdwrite fun _ => .pure) .pure) _

/-! ## Blocks -/

/-- A change of a superblock goes on alike with an error left. -/
lemma modifyFs {f : Filesys → Filesys} : Blind LeftError (modifyFs dev f) := change (fun _ _ => rfl) fun _ => rfl

/-- `getdev` goes on alike with an error left. -/
lemma getdev : Blind LeftError (getdev dev) := see (fun _ _ => rfl) fun _ => .ite .throw modifyFs

/-- `validblk` goes on alike with an error left. -/
lemma validblk : Blind LeftError (validblk dev blk) := see (fun _ _ => rfl) fun _ => .ite .throw (.ite .throw .pure)

/-- The second exit of `blk_alloc` for a free list that is not in order goes on alike with an error left. -/
lemma blkAllocCorrupt2 : Blind LeftError blkAllocCorrupt2 := .bind setError fun _ => .pure

/-- The first exit of `blk_alloc` for a free list that is not in order goes on alike with an error left. -/
lemma blkAllocCorrupt : Blind LeftError (blkAllocCorrupt dev) := .bind modifyFs fun _ => blkAllocCorrupt2

/-- The refill of the free list goes on alike with an error left. -/
lemma blkAllocRefill : Blind LeftError (blkAllocRefill dev blk) :=
  .bind breadPtr fun _ => see (fun _ _ => rfl) fun _ => .bind modifyFs fun _ => brelse

/-- The taking of a block off the free list goes on alike with an error left. -/
lemma blkAllocTake : Blind LeftError (blkAllocTake dev blk) := by
  refine .bind validblk fun _ => see (fun _ _ => rfl) fun _ => .ite blkAllocCorrupt ?_
  exact .bind modifyFs fun _ => .bind breadPtr fun _ => .bind fill fun _ => .bind bawrite fun _ => .pure

/-- `blk_alloc` goes on alike with an error left. -/
lemma blkAlloc : Blind LeftError (blkAlloc dev) := by
  refine .bind getdev fun _ => see (fun _ _ => rfl) fun _ => .ite blkAllocCorrupt2 (.ite blkAllocCorrupt ?_)
  refine .bind modifyFs fun _ => .ite ?_ ?_
  · exact .ite blkAllocCorrupt (.bind setError fun _ => .bind modifyFs fun _ => .pure)
  · exact see (fun _ _ => rfl) fun _ => .when blkAllocRefill fun _ => blkAllocTake

/-- The spill of a full free list goes on alike with an error left. -/
lemma blkFreeSpill : Blind LeftError (blkFreeSpill dev blk) :=
  .bind breadPtr fun _ => see (fun _ _ => rfl) fun _ => .bind fill fun _ => .bind bawrite fun _ => modifyFs

/-- The push of a block on the free list goes on alike with an error left. -/
lemma blkFreePush : Blind LeftError (blkFreePush dev blk) :=
  .bind modifyFs fun _ => see (fun _ _ => rfl) fun _ => .ite .throw modifyFs

/-- `blk_free` goes on alike with an error left. -/
lemma blkFree : Blind LeftError (blkFree dev blk) := by
  refine .ite .pure (.bind getdev fun _ => see (fun _ _ => rfl) fun _ => .ite .pure ?_)
  refine .bind validblk fun _ => see (fun _ _ => rfl) fun _ => ?_
  exact .when blkFreeSpill fun _ => blkFreePush

/-- `freeblk` goes on alike with an error left. -/
lemma freeblk {level : Nat} : Blind LeftError (freeblk dev blk level) := by
  induction level generalizing blk with
  | zero => exact .ite .pure blkFree
  | succ level ih =>
    refine .ite .pure (.bind breadPtr fun bp => ?_)
    refine .bind (.forDown (fun j => see (fun _ _ => rfl) fun _ => ih) 256) fun _ => ?_
    exact .bind brelse fun _ => blkFree

/-- The descent of `bmap` through the indirect blocks goes on alike with an error left. -/
lemma bmapRounds {rwflg : Bool} {bn nb : Word} {rounds sh : Nat} :
    Blind LeftError (bmapRounds dev rwflg bn rounds sh nb) := by
  induction rounds generalizing sh nb with
  | zero => exact .pure
  | succ rounds ih =>
    refine .bind breadPtr fun bp => see (fun _ _ => rfl) fun s => .ite (.bind brelse fun _ => ih) ?_
    refine .ite (.bind brelse fun _ => .pure) (.bind blkAlloc fun b => ?_)
    refine .ite (.bind brelse fun _ => .pure) (see (fun _ _ => rfl) fun _ => .bind fill fun _ => ?_)
    exact .bind bawrite fun _ => ih

/-- A change of an inode in the table goes on alike with an error left. -/
lemma modifyInode {f : Cinode → Cinode} : Blind LeftError (modifyInode ino f) := change (fun _ _ => rfl) fun _ => rfl

/-- `magic` goes on alike with an error left. -/
lemma magic : Blind LeftError (magic ino) := see (fun _ _ => rfl) fun _ => .ite .throw .pure

/-- `i_free` goes on alike with an error left. -/
lemma iFree {num : Word} : Blind LeftError (iFree dev num) := by
  refine .bind getdev fun _ => see (fun _ _ => rfl) fun _ => .ite .pure (.ite .throw (.bind modifyFs fun _ => ?_))
  exact .ite .throw (.ite modifyFs .pure)

/-- The number in the inode from which `bmap` starts goes on alike with an error left. -/
lemma bmapAddr {slot : Nat} {rwflg : Bool} {k : Word → K Word} (hk : ∀ b, Blind LeftError (k b)) :
    Blind LeftError (bmapAddr ino slot rwflg k) := by
  refine see (fun _ _ => rfl) fun s => .ite (hk _) (.ite .pure ?_)
  refine .bind blkAlloc fun b => .ite .pure (.bind ?_ fun _ => hk _)
  exact modifyInode

/-- `bmap` goes on alike with an error left. -/
lemma bmap {bn : Word} {rwflg : Bool} : Blind LeftError (bmap ino bn rwflg) := by
  refine see (fun _ _ => rfl) fun s => .ite .pure (.ite (bmapAddr fun _ => .pure) ?_)
  exact .ite (bmapAddr fun _ => bmapRounds) (bmapAddr fun _ => bmapRounds)

/-! ## Inodes -/

/-- `setftime` goes on alike with an error left. -/
lemma setftime {flag : Word} : Blind LeftError (setftime ino flag) :=
  see (fun _ _ => rfl) fun _ => modifyInode

/-- `f_trunc` goes on alike with an error left. -/
lemma fTrunc : Blind LeftError (fTrunc ino) := by
  refine see (fun _ _ => rfl) fun _ => see (fun _ _ => rfl) fun _ => .bind freeblk fun _ => ?_
  refine see (fun _ _ => rfl) fun _ => .bind freeblk fun _ => ?_
  exact .bind (.forDown (fun j => see (fun _ _ => rfl) fun _ => freeblk) 18) fun _ => modifyInode

/-- `wr_inode` goes on alike with an error left. -/
lemma wrInode : Blind LeftError (wrInode ino) := by
  refine .bind magic fun _ => see (fun _ _ => rfl) fun _ => .bind breadPtr fun _ => see (fun _ _ => rfl) fun _ => ?_
  exact .bind fill fun _ => .bind bfree fun _ => modifyInode

/-- A round of `_sync` over the inodes goes on alike with an error left. -/
lemma syncInode : Blind LeftError (syncInode ino) :=
  see (fun _ _ => rfl) fun _ => .ite (.bind wrInode fun _ => modifyInode) .pure

/-- `i_ref` goes on alike with an error left. -/
lemma iRef : Blind LeftError (iRef ino) := .bind modifyInode fun _ => see (fun _ _ => rfl) fun _ => .ite .throw .pure

/-- The wakeup of those that wait for an inode goes on alike with an error left. -/
lemma wakeup : Blind LeftError (wakeup (.inode ino)) := change (fun _ _ => rfl) fun _ => rfl

/-- `i_deref` goes on alike with an error left. -/
lemma iDeref : Blind LeftError (iDeref ino) := by
  refine .bind magic fun _ => see (fun _ _ => rfl) fun _ => .ite .throw (see (fun _ _ => rfl) fun _ => ?_)
  refine .when wakeup fun _ => .bind modifyInode fun _ => see (fun _ _ => rfl) fun _ => ?_
  refine .when fTrunc fun _ => see (fun _ _ => rfl) fun _ => .ite ?_ .pure
  exact .ite (.bind modifyInode fun _ => .bind iFree fun _ => wrInode) wrInode

/-- The rounds of `_sync` over the devices goes on alike with an error left. -/
lemma syncFs {j : Nat} : Blind LeftError (syncFs j) := by
  refine see (fun _ _ => rfl) fun _ => .ite (.bind modifyFs fun _ => .bind breadPtr fun _ => ?_) .pure
  exact see (fun _ _ => rfl) fun _ => .bind fill fun _ => .bind bfree fun _ => .pure

/-- `_sync` goes on alike with an error left. -/
lemma sync : Blind LeftError _sync :=
  .bind (.each (fun _ => syncInode) _) fun _ => .bind (.each (fun _ => syncFs) _) fun _ => bufsync

/-- The exit of `i_alloc` for inodes that are not in order goes on alike with an error left. -/
lemma iAllocCorrupt : Blind LeftError (iAllocCorrupt dev) :=
  .bind modifyFs fun _ => .bind setError fun _ => .pure

/-- The taking of a number off the list of free inodes goes on alike with an error left. -/
lemma iAllocTake : Blind LeftError (iAllocTake dev) := by
  refine see (fun _ _ => rfl) fun _ => .ite iAllocCorrupt (.ite .throw (.bind modifyFs fun _ => ?_))
  exact .ite iAllocCorrupt (.bind modifyFs fun _ => .pure)

/-- The scan of `i_alloc` through the inode blocks goes on alike with an error left. -/
lemma iAllocScan {k n : Nat} : Blind LeftError (iAllocScan dev blk k n) := by
  induction n generalizing blk k with
  | zero => exact .pure
  | succ n ih =>
    refine .bind breadPtr fun _ => see (fun _ _ => rfl) fun _ => .bind modifyFs fun _ => .bind brelse fun _ => ?_
    exact .ite .pure ih

/-- `i_alloc` goes on alike with an error left. -/
lemma iAlloc : Blind LeftError (iAlloc dev) := by
  refine .bind getdev fun _ => see (fun _ _ => rfl) fun _ => .ite iAllocCorrupt (.ite iAllocTake ?_)
  refine .bind sync fun _ => see (fun _ _ => rfl) fun _ => .bind iAllocScan fun k => .ite ?_ ?_
  · exact see (fun _ _ => rfl) fun _ => .ite iAllocCorrupt (.bind setError fun _ => .pure)
  · exact .bind modifyFs fun _ => iAllocTake

/-- The search of `i_open` in the table goes on alike with an error left. -/
lemma iSearch {num : Word} {n : Nat} {j : Inoptr} {nindex : Option Inoptr} :
    Blind LeftError (iSearch dev num n j nindex) := by
  induction n generalizing j nindex with
  | zero => exact .pure
  | succ n ih =>
    exact .bind (change (fun _ _ => rfl) fun _ => rfl) fun _ => see (fun _ _ => rfl) fun _ => .ite .pure ih

/-- The reference that `i_open` takes goes on alike with an error left. -/
lemma iOpenFound {new : Bool} : Blind LeftError (iOpenFound ino new) := by
  refine see (fun _ _ => rfl) fun _ => .ite (.ite .pure ?_) (.ite .pure ?_)
  · exact .bind modifyInode fun _ => .pure
  · exact .bind modifyInode fun _ => .pure

/-- `i_open` of a number goes on alike with an error left. -/
lemma iOpenAt {num : Word} {new : Bool} : Blind LeftError (iOpenAt dev num new) := by
  refine see (fun _ _ => rfl) fun _ => .ite .pure (.bind iSearch fun r => ?_)
  split
  · exact iOpenFound
  · exact .bind setError fun _ => .pure
  · refine .bind breadPtr fun _ => see (fun _ _ => rfl) fun _ => .bind modifyInode fun _ => .bind brelse fun _ => ?_
    exact .bind modifyInode fun _ => iOpenFound

/-- `i_open` goes on alike with an error left. -/
lemma iOpen {num : Word} : Blind LeftError (iOpen dev num) := by
  refine .ite .throw (.ite (.bind iAlloc fun _ => .ite ?_ iOpenAt) iOpenAt)
  exact .bind setError fun _ => .pure

/-! ## Names -/

/-- The search through the blocks of a directory goes on alike with an error left. -/
lemma srchBlocks {name : Nat → Byte} {wraps : Bool} {n : Nat} {cur : Word} :
    Blind LeftError (srchBlocks ino name wraps n cur) := by
  induction n generalizing cur with
  | zero => exact .ite .throw .pure
  | succ n ih =>
    refine .bind bmap fun _ => see (fun _ _ => rfl) fun _ => .bind breadPtr fun _ => see (fun _ _ => rfl) fun _ => ?_
    split
    · exact .bind brelse fun _ => see (fun _ _ => rfl) fun _ => iOpen
    · exact .bind brelse fun _ => ih

/-- `srch_dir` goes on alike with an error left. -/
lemma srchDir {name : Nat → Byte} : Blind LeftError (srchDir ino name) := by
  refine see (fun _ _ => rfl) fun _ => ?_
  split
  · exact srchBlocks
  · exact srchBlocks

/-- `srch_mt` goes on alike with an error left. -/
lemma srchMt : Blind LeftError (srchMt ino) := by
  refine see (fun _ _ => rfl) fun _ => ?_
  split
  · exact .bind iDeref fun _ => iOpen
  · exact .pure

/-- The way down through a mount point goes on alike with an error left. -/
lemma throughMount {ninode : Option Inoptr} : Blind LeftError (throughMount ninode) := by
  cases ninode with
  | none => exact .pure
  | some ninode => exact .bind magic fun _ => srchMt

/-- The way up out of a mounted device goes on alike with an error left. -/
lemma upMount {name : Nat → Byte} : Blind LeftError (upMount name ino) := by
  refine see (fun _ _ => rfl) fun _ => .ite ?_ .pure
  split
  · exact .throw
  · exact .bind modifyInode fun _ => .bind iDeref fun _ => .pure

/-- The exit `nodir` of `n_open` goes on alike with an error left. -/
lemma nOpenNodir : Blind LeftError (nOpenNodir ino) := .bind iDeref fun _ => .pure

/-- The end of `n_open` goes on alike with an error left. -/
lemma nOpenEnd {parent : Bool} {ninode : Option Inoptr} : Blind LeftError (nOpenEnd parent ino ninode) :=
  .ite .pure (.bind iDeref fun _ => .when setError fun _ => .pure)

/-- The loop of `n_open` goes on alike with an error left. -/
lemma nOpenLoop {name : CStr} {parent : Bool} {rounds i : Nat} {ninode : Option Inoptr} :
    Blind LeftError (nOpenLoop name parent rounds ino ninode i) := by
  induction rounds generalizing ino ninode i with
  | zero => exact .throw
  | succ rounds ih =>
    refine .bind throughMount fun ninode => .ite nOpenEnd ?_
    cases ninode with
    | none => exact .bind setError fun _ => nOpenNodir
    | some ninode =>
      refine .bind iDeref fun _ => see (fun _ _ => rfl) fun _ => .ite (.bind setError fun _ => nOpenNodir) ?_
      refine .ite (.bind setError fun _ => nOpenNodir) (.bind upMount fun _ => ?_)
      exact .bind srchDir fun _ => ih

/-- `n_open` goes on alike with an error left. -/
lemma nOpen {name : CStr} {parent : Bool} : Blind LeftError (nOpen name parent) :=
  see (fun _ _ => rfl) fun _ => .bind iRef fun _ => .bind iRef fun _ => nOpenLoop

/-! ## Descriptors -/

/-- A change of an open file goes on alike with an error left. -/
lemma modifyOft {f : Oft → Oft} : Blind LeftError (modifyOft of f) := change (fun _ _ => rfl) fun _ => rfl

/-- The setting of a descriptor goes on alike with an error left. -/
lemma setFile {j : Fin UFTSIZE} {x : Byte} : Blind LeftError (setFile j x) := change (fun _ _ => rfl) fun _ => rfl

/-- A reference to an open file goes on alike with an error left. -/
lemma oftRef {j : Byte} : Blind LeftError (oftRef j) := .ite modifyOft (change (fun _ _ => rfl) fun _ => rfl)

/-- `getinode` goes on alike with an error left. -/
lemma getinode {uindex : Word} : Blind LeftError (getinode uindex) := by
  refine see (fun _ _ => rfl) fun _ => .ite (.bind setError fun _ => .pure) (.ite .throw ?_)
  split
  · exact .throw
  · exact .bind magic fun _ => .pure

/-- `updoff` goes on alike with an error left. -/
lemma updoff {d : Word} : Blind LeftError (updoff d) := see (fun _ _ => rfl) fun _ => modifyOft

/-- `oft_deref` goes on alike with an error left. -/
lemma oftDeref : Blind LeftError (oftDeref of) := by
  refine .bind modifyOft fun _ => see (fun _ _ => rfl) fun _ => .ite ?_ .pure
  split
  · exact .pure
  · exact .bind iDeref fun _ => modifyOft

/-- `doclose` goes on alike with an error left. -/
lemma doclose {uindex : Word} : Blind LeftError (doclose uindex) := by
  refine .bind getinode fun r => ?_
  cases r with
  | none => exact .pure
  | some ino =>
    refine see (fun _ _ => rfl) fun _ => .when dClose fun _ => .bind setFile fun _ => ?_
    exact .bind oftDeref fun _ => .pure

/-! ## Transfers -/

/-- The copy out of a buffer goes on alike with an error left. -/
lemma copyOut {amount : Word} : Blind LeftError (copyOut bp amount) :=
  see (fun _ _ => rfl) fun _ => .ite .throw (change (fun _ _ => rfl) fun _ => rfl)

/-- The copy into a buffer goes on alike with an error left. -/
lemma copyIn {amount : Word} : Blind LeftError (copyIn bp amount) :=
  see (fun _ _ => rfl) fun _ => .ite .throw fill

/-- The advance of the position goes on alike with an error left. -/
lemma advance {amount : Word} : Blind LeftError (advance amount) :=
  see (fun _ _ => rfl) fun _ => change (fun _ _ => rfl) fun _ => rfl

/-- The wrap of the position in a pipe goes on alike with an error left. -/
lemma wrapOffset : Blind LeftError wrapOffset := by
  refine change (fun s e => ?_) fun s => rfl
  by_cases round : 18 ≤ s.udata.uOffset.oBlkno
  · simp only [Kernel.withError, round, if_true]
  · simp only [Kernel.withError, round, if_false]

/-- A driver may set `u_error`. -/
lemma cdTransfer {dev : Word} {write : Bool} : Blind LeftError (cdTransfer dev write) := by
  refine .ite .throw (.ite .throw fun s t h => ?_)
  obtain ⟨e, rfl⟩ : ∃ e, t = s.withError e := ⟨_, h.eq⟩
  obtain ⟨set, eq⟩ := h.drivers dev.toNat write s.udata
  have first : s.chardev dev.toNat write s.udata = _ := eq s.udata.uError
  have second : s.chardev dev.toNat write (s.withError e).udata = _ := eq e
  have error : set.getD s.udata.uError = set.getD e ∨ set.getD e ≠ .ok := by
    cases set with
    | none => exact h.error
    | some set => exact .inl rfl
  show Agree LeftError
    (.ok ((s.chardev dev.toNat write s.udata).2, s.withUdata (s.udata.driven (s.chardev dev.toNat write s.udata).1)))
    (.ok ((s.chardev dev.toNat write (s.withError e).udata).2, (s.withError e).withUdata
      ((s.withError e).udata.driven (s.chardev dev.toNat write (s.withError e).udata).1)))
  rw [second, first]
  exact .ok ⟨rfl, error, h.drivers⟩

/-- A transfer with a character device goes on alike with an error left. -/
lemma cdevTransfer {write : Bool} : Blind LeftError (cdevTransfer ino write) := by
  refine see (fun _ _ => rfl) fun _ => .bind cdTransfer fun _ => ?_
  refine .bind (change (fun _ _ => rfl) fun _ => rfl) fun _ => see (fun _ _ => rfl) fun _ => ?_
  exact .ite (change (fun _ _ => rfl) fun _ => rfl) .pure

/-- A change of the size of a file goes on alike with an error left. -/
lemma addSize {amount : Int} : Blind LeftError (addSize ino amount) := see (fun _ _ => rfl) fun _ => modifyInode

/-- The loop of `readi` goes on alike with an error left. -/
lemma readLoop {dev rounds : Nat} {ispipe : Bool} {toread : Word} :
    Blind LeftError (readLoop ino dev ispipe rounds toread) := by
  induction rounds generalizing toread with
  | zero => exact .ite .pure .throw
  | succ rounds ih =>
    refine .ite .pure (see (fun _ _ => rfl) fun _ => .bind bmap fun _ => ?_)
    refine .either breadPtr zerobuf fun _ => see (fun _ _ => rfl) fun _ => .bind copyOut fun _ => ?_
    refine .bind brelse fun _ => .bind advance fun _ => .ite ?_ ih
    exact .bind wrapOffset fun _ => .bind addSize fun _ => .bind wakeup fun _ => ih

/-- The loop of `writei` goes on alike with an error left. -/
lemma writeLoop {dev rounds : Nat} {ispipe : Bool} {towrite : Word} :
    Blind LeftError (writeLoop ino dev ispipe rounds towrite) := by
  induction rounds generalizing towrite with
  | zero => exact .ite .pure .throw
  | succ rounds ih =>
    refine .ite .pure (see (fun _ _ => rfl) fun _ => .bind bmap fun _ => .ite .pure (.bind breadPtr fun _ => ?_))
    refine .bind copyIn fun _ => .bind bawrite fun _ => .bind advance fun _ => .ite ?_ ih
    exact .bind wrapOffset fun _ => .bind addSize fun _ => .bind wakeup fun _ => ih

/-- The growth of the size of a file goes on alike with an error left. -/
lemma growSize : Blind LeftError (growSize ino) := see (fun _ _ => rfl) fun _ => .ite modifyInode .pure

/-- `psleep` goes on alike with an error left. -/
lemma psleep {event : Event} : Blind LeftError (psleep event) :=
  see (fun _ _ => rfl) fun _ => .ite .throw (change (fun _ _ => rfl) fun _ => rfl)

/-- `ssig` goes on alike with an error left. -/
lemma ssig {proc : Fin PTABSIZE} {sig : Nat} : Blind LeftError (ssig proc sig) :=
  see (fun _ _ => rfl) fun _ => .ite .pure (.ite .pure (change (fun _ _ => rfl) fun _ => rfl))

/-- `readi` goes on alike with an error left. -/
lemma readi : Blind LeftError (readi ino) := by
  refine see (fun _ _ => rfl) fun s => .ite ?_ (.ite (.ite ?_ ?_) (.ite ?_ (.ite ?_ ?_)))
  · exact .bind (change (fun _ _ => rfl) fun _ => rfl) fun _ => .bind readLoop fun _ => .pure
  · exact .bind psleep fun _ => .pure
  · exact .bind (change (fun _ _ => rfl) fun _ => rfl) fun _ => .bind readLoop fun _ => .pure
  · exact .bind readLoop fun _ => .pure
  · exact .bind cdevTransfer fun _ => .pure
  · exact .bind setError fun _ => .pure

/-- `writei` goes on alike with an error left. -/
lemma writei : Blind LeftError (writei ino) := by
  refine see (fun _ _ => rfl) fun s => .ite ?_ (.ite ?_ (.ite (.ite (.ite ?_ ?_) ?_) (.ite ?_ ?_)))
  · exact .bind writeLoop fun _ => .bind growSize fun _ => .pure
  · exact .bind writeLoop fun _ => .bind growSize fun _ => .pure
  · exact .bind (settle (fun _ _ => rfl) fun _ => rfl) fun _ => .bind ssig fun _ => .pure
  · exact .bind psleep fun _ => .pure
  · exact .bind writeLoop fun _ => .pure
  · exact .bind cdevTransfer fun _ => .pure
  · exact .bind setError fun _ => .pure

/-- A transfer of an entry of a directory goes on alike with an error left. -/
lemma entryTransfer {transfer : Inoptr → K Progress} (h : Blind LeftError (transfer ino)) :
    Blind LeftError (entryTransfer transfer ino) := by
  refine .bind (change (fun _ _ => rfl) fun _ => rfl) fun _ => h.bind fun r => ?_
  cases r with
  | returned => exact .pure
  | asleep => exact .throw

/-- The search of `ch_link` goes on alike with an error left. -/
lemma chLinkSearch {name : Nat → Byte} {rounds : Nat} : Blind LeftError (chLinkSearch ino name rounds) := by
  induction rounds with
  | zero => exact .throw
  | succ rounds ih => exact (entryTransfer readi).bind fun _ => see (fun _ _ => rfl) fun _ => .ite .pure ih

/-! ## System calls -/

/-- `uf_alloc` goes on alike with an error left. -/
lemma ufAlloc : Blind LeftError ufAlloc := by
  refine see (fun _ _ => rfl) fun _ => ?_
  split
  · exact .pure
  · exact .bind setError fun _ => .pure

/-- `oft_alloc` goes on alike with an error left. -/
lemma oftAlloc : Blind LeftError oftAlloc := by
  refine see (fun _ _ => rfl) fun _ => ?_
  split
  · exact .bind modifyOft fun _ => .pure
  · exact .bind setError fun _ => .pure

/-- The failed exit of `_open` goes on alike with an error left. -/
lemma openFailed {uindex : Fin UFTSIZE} : Blind LeftError (openFailed uindex of) :=
  .bind oftDeref fun _ => .bind setFile fun _ => .pure

/-- The opening of a device goes on alike with an error left. -/
lemma openDevice : Blind LeftError (openDevice ino) :=
  see (fun _ _ => rfl) fun _ => .ite (.bind dOpen fun _ => .pure) .pure

/-- `_open` goes on alike with an error left. -/
lemma _open {name : CStr} {flag : Word} : Blind LeftError (_open name flag) := by
  refine .ite (.bind setError fun _ => .pure) (.bind ufAlloc fun uindex => ?_)
  cases uindex with
  | none => exact .pure
  | some uindex =>
    refine .bind oftAlloc fun oftindex => ?_
    cases oftindex with
    | none => exact .bind setFile fun _ => .pure
    | some oftindex =>
      refine .bind nOpen fun r => ?_
      obtain ⟨ino, parent⟩ := r
      cases ino with
      | none => exact openFailed
      | some ino =>
        refine .bind modifyOft fun _ => see (fun _ _ => rfl) fun _ => .ite (.bind setError fun _ => openFailed) ?_
        refine .ite (.bind setError fun _ => openFailed) (.bind openDevice fun _ => ?_)
        refine .ite (.bind setError fun _ => openFailed) ?_
        exact .bind setFile fun _ => .bind modifyOft fun _ => .pure

/-- The failed exit of `_creat` goes on alike with an error left. -/
lemma creatFailed : Blind LeftError (creatFailed of) := .bind oftDeref fun _ => .pure

/-- The end of `_creat` goes on alike with an error left. -/
lemma creatDone {uindex : Fin UFTSIZE} : Blind LeftError (creatDone uindex of ino) :=
  .bind setFile fun _ => .bind modifyOft fun _ => .pure

/-- `_creat` of a file that is there goes on alike with an error left. -/
lemma creatOld {uindex : Fin UFTSIZE} {parent : Option Inoptr} : Blind LeftError (creatOld uindex of ino parent) := by
  cases parent with
  | none => exact .throw
  | some parent =>
    refine .bind iDeref fun _ => see (fun _ _ => rfl) fun _ => ?_
    refine .ite (.bind iDeref fun _ => .bind setError fun _ => creatFailed) ?_
    refine .ite (.bind iDeref fun _ => .bind setError fun _ => creatFailed) (.ite ?_ creatDone)
    exact .bind fTrunc fun _ => .bind (change (fun _ _ => rfl) fun _ => rfl) fun _ => creatDone

/-- `rwsetup` goes on alike with an error left. -/
lemma rwsetup {d : Word} {buf : Nat} {nbytes : Word} {rwflag : Bool} :
    Blind LeftError (rwsetup d buf nbytes rwflag) := by
  refine .bind (change (fun _ _ => rfl) fun _ => rfl) fun _ => .bind getinode fun ino => ?_
  cases ino with
  | none => exact .pure
  | some ino =>
    refine see (fun _ _ => rfl) fun _ => .ite (.bind setError fun _ => .pure) (.bind setftime fun _ => ?_)
    exact .bind (change (fun _ _ => rfl) fun _ => rfl) fun _ => .pure

/-- `_read` goes on alike with an error left. -/
lemma _read {d : Word} {buf : Nat} {nbytes : Word} : Blind LeftError (_read d buf nbytes) := by
  refine .bind rwsetup fun ino => ?_
  cases ino with
  | none => exact .pure
  | some ino =>
    refine .bind readi fun progress => ?_
    cases progress with
    | returned => exact .bind updoff fun _ => see (fun _ _ => rfl) fun _ => .pure
    | asleep => exact .pure

/-- `_write` goes on alike with an error left. -/
lemma _write {d : Word} {buf : Nat} {nbytes : Word} : Blind LeftError (_write d buf nbytes) := by
  refine .bind rwsetup fun ino => ?_
  cases ino with
  | none => exact .pure
  | some ino =>
    refine .bind writei fun progress => ?_
    cases progress with
    | returned => exact .bind updoff fun _ => see (fun _ _ => rfl) fun _ => .pure
    | asleep => exact .pure

/-- The failed exit of `_link` goes on alike with an error left. -/
lemma linkFailed : Blind LeftError (linkFailed ino) := .bind iDeref fun _ => .pure

/-- The end of `_link` goes on alike with an error left. -/
lemma linkDone {parent2 : Inoptr} : Blind LeftError (linkDone ino parent2) :=
  .bind modifyInode fun _ => .bind wrInode fun _ => .bind setftime fun _ => .bind iDeref fun _ =>
    .bind iDeref fun _ => .pure

/-- The failed exit of `_unlink` goes on alike with an error left. -/
lemma unlinkFailed {pino : Inoptr} : Blind LeftError (unlinkFailed pino ino) :=
  .bind iDeref fun _ => .bind iDeref fun _ => .pure

/-- The end of `_unlink` goes on alike with an error left. -/
lemma unlinkDone {pino : Inoptr} : Blind LeftError (unlinkDone pino ino) :=
  .bind modifyInode fun _ => .bind setftime fun _ => .bind iDeref fun _ => .bind iDeref fun _ => .pure

/-- The drivers stay the same. -/
def SameDrivers (s s' : Kernel) : Prop := s'.chardev = s.chardev

instance : Transferring SameDrivers where
  refl _ := rfl
  trans _ _ _ h h' := h'.trans h
  bufs _ _ := rfl
  fsTab _ _ _ _ := rfl
  iTab _ _ := rfl
  nexti _ _ := rfl
  error _ _ := rfl
  woken _ _ := rfl
  transfer _ _ _ _ _ _ := rfl
  ptab _ _ := rfl

/-- A program that begins with an error of its own. -/
lemma reset {c : K α} {e : Errno} (h : Within SameDrivers (fun _ => True) c) :
    Blind LeftError (Uzi.setError e >>= fun _ => c) := by
  intro s t left
  have same : (Uzi.setError e >>= fun _ => c) t = (Uzi.setError e >>= fun _ => c) s := by
    rw [left.eq]
    rfl
  rw [same]
  have run : (Uzi.setError e >>= fun _ => c) s = c (s.withError e) := rfl
  rw [run]
  cases ends : c (s.withError e) with
  | ok r =>
    have kept : r.2.chardev = (s.withError e).chardev := h.ok ends
    exact .ok ⟨rfl, .inl rfl, kept ▸ left.drivers⟩
  | error e => exact .error

/-- `_mknod` clears `u_error` first. -/
lemma _mknod {name : CStr} {mode dev : Word} : Blind LeftError (_mknod name mode dev) := by
  refine reset (.bind .get fun _ => .ite (.bind Quiet.setError fun _ => .pure) (.bind Quiet.nOpen fun r => ?_))
  obtain ⟨ino, parent⟩ := r
  cases ino with
  | some ino =>
    cases parent with
    | none => exact .throw trivial
    | some parent => exact .bind Quiet.setError fun _ => .bind Quiet.iDeref fun _ => .bind Quiet.iDeref fun _ => .pure
  | none =>
    cases parent with
    | none => exact .bind Quiet.setError fun _ => .pure
    | some parent =>
      refine .bind Transferring.newfile fun ino => ?_
      cases ino with
      | none => exact .bind Quiet.iDeref fun _ => .pure
      | some ino =>
        refine .bind .get fun _ => .bind Quiet.modifyInode fun _ => .bind Quiet.modifyInode fun _ => ?_
        exact .bind Quiet.setftime fun _ => .bind Quiet.wrInode fun _ => .bind Quiet.iDeref fun _ => .pure

end LeftError

end Uzi
