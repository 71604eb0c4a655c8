import Uzi.Lib.Exec
import Uzi.Unix

/-!
# The kernel as a program over its data

The variables of `kernel/kdata.c` and the buffer pool, the panics, and the type `K` of kernel code:
a program over these variables that can end in a panic. `Panic.undefined` is an access outside a
table or through a null or wild pointer, where C says nothing more, and `Panic.hang` is a loop that
does not end.

The devices are abstract. A transfer of a block device moves the 512 bytes of a block, or the driver
reports -1 where `rdErr` or `wrErr` says so. A transfer of a character device, `chardev dev write`,
changes the memory, base, count and error of the process and returns a count.
-/

namespace Uzi
open Exec

/-- A pointer to a buffer of `bufpool`. -/
abbrev Bufptr := Fin NBUFS

/-- The buffer pool, its clock, and the blocks on the devices behind it. -/
structure Bufs where
  disk : Nat → Word → Block
  rdErr : Nat → Word → Bool
  wrErr : Nat → Word → Bool
  bufpool : Bufptr → Blkbuf
  bufclock : Word

/-- The two builds of the sources: for the NES, where `int` has 16 bits, and as the utility `fsutil`,
where it is wider. -/
inductive Target
  | nes | fsutil
  deriving DecidableEq, Repr

/-- The variables of the kernel. `rodata` is what the memory holds behind a literal `""`, `bss` what it
holds behind `fs_tab`, and `ofBss` what it holds behind `of_tab` where further entries would have
`o_refs`. `swap` is the process data in the swap space, `pp` the pointer that `getproc` keeps, and
`nextpid` the number that `ptab_alloc` keeps. -/
structure Kernel where
  target : Target
  layout : Layout
  bufs : Bufs
  iTab : Inoptr → Cinode
  nexti : Inoptr
  ofTab : Fin OFTSIZE → Oft
  ofBss : Nat → Byte
  fsTab : Nat → Filesys
  root : Inoptr
  rootdev : Nat
  udata : UData
  ptab : Fin PTABSIZE → PTab
  initproc : Fin PTABSIZE
  pp : Fin PTABSIZE
  nextpid : Nat
  runticks : Word
  swap : Word → UData
  tod : Time
  chardev : Nat → Bool → UData → UData × Word
  rodata : Nat → Byte
  bss : Nat → Word

/-- The ways in which the kernel stops. -/
inductive Panic
  | wantBusyBlock | noFreeBuffers | bdreadInvalidDev | bdwriteInvalidDev | dCloseBadDevice
  | iOpenBadDev | getdevBadDev | iFreeBadIno | validblkNotMounted | validblkInvalidBlk
  | getinodeBadDescTable | getinodeBadOft | tooManyIrefs | inodeFreed | corruptInode
  | fmountCantOpen | psleepVoodoo | getprocExtraRunning | mangledSwapin | undefined | hang
  deriving DecidableEq, Repr

/-- Kernel code. -/
abbrev K := Prog Kernel Panic

/-! ## Access to the variables -/

namespace Bufs

/-- The pool with buffer `bp` replaced. -/
def set (b : Bufs) (bp : Bufptr) (x : Blkbuf) : Bufs :=
  { b with bufpool := Function.update b.bufpool bp x }

/-- The device with a block replaced. -/
def write (b : Bufs) (dev : Nat) (blk : Word) (x : Block) : Bufs :=
  { b with disk := fun d n => if d = dev ∧ n = blk then x else b.disk d n }

end Bufs

namespace Kernel

/-- The buffer at `bp`. -/
def buf (s : Kernel) (bp : Bufptr) : Blkbuf := s.bufs.bufpool bp

end Kernel

/-- The kernel with other process data. -/
def Kernel.withUdata (s : Kernel) (u : UData) : Kernel := { s with udata := u }

/-- The kernel with another in-core inode at `ino`. -/
def Kernel.setInode (s : Kernel) (ino : Inoptr) (c : Cinode) : Kernel :=
  { s with iTab := Function.update s.iTab ino c }

namespace Kernel

variable {s : Kernel} {ino : Inoptr} {c c' : Cinode}

/-- The inode that has been set. -/
@[simp] lemma iTab_setInode : (s.setInode ino c).iTab ino = c := Function.update_self ..

/-- The other inodes. -/
lemma iTab_setInode_of_ne {i : Inoptr} (h : i ≠ ino) : (s.setInode ino c).iTab i = s.iTab i :=
  Function.update_of_ne h ..

/-- Nothing is changed. -/
@[simp] lemma setInode_self : s.setInode ino (s.iTab ino) = s := by
  rw [setInode, Function.update_eq_self]

/-- The second change counts. -/
@[simp] lemma setInode_setInode : (s.setInode ino c).setInode ino c' = s.setInode ino c' := by
  simp only [setInode, Function.update_idem]

end Kernel

/-- Which event an address of `Layout.example` stands for. -/
def Event.ofAddr (a : Nat) : Event :=
  if a = 0 then .none
  else if a = 0x200 then .ttyinq
  else if a = 0x210 then .stopflag
  else if a < 0xc00 then .inode (Fin.ofNat ITABSIZE ((a - 0x400) / 72))
  else .ptab (Fin.ofNat PTABSIZE ((a - 0xc00) / 49))

/-- One way to lay the variables out in memory. -/
def Layout.example : Layout where
  addr
    | .none => 0
    | .inode ino => BitVec.ofNat 16 (0x400 + 72 * ino)
    | .ptab p => BitVec.ofNat 16 (0xc00 + 49 * p)
    | .ttyinq => 0x200
    | .stopflag => 0x210
  null := rfl
  injective := by
    refine Function.LeftInverse.injective (g := fun a : Word => Event.ofAddr a.toNat) fun e => ?_
    cases e with
    | inode ino => revert ino; decide
    | ptab p => revert p; decide
    | _ => rfl
  udata := 0xa000

/-- The process data before anything has been done. -/
def UData.zero : UData where
  uPtab := 0
  uError := .ok
  uBase := 0
  uCount := 0
  uOffset := ⟨0, 0⟩
  uGid := 0
  uEuid := 0
  uEgid := 0
  uMask := 0
  uTime := ⟨0, 0⟩
  uFiles := fun _ => 0xff
  uCwd := 0
  uSigvec := fun _ => 0
  uCursig := 0
  uUtime := ⟨0, 0⟩
  uStime := ⟨0, 0⟩
  uCutime := ⟨0, 0⟩
  uCstime := ⟨0, 0⟩
  mem := fun _ => 0

/-- The variables before anything has been done, over devices that report no error. -/
def Kernel.zeroed (disk : Nat → Word → Block) : Kernel where
  target := .nes
  layout := .example
  bufs :=
    { disk := disk
      rdErr := fun _ _ => false
      wrErr := fun _ _ => false
      bufpool := fun _ => ⟨Block.zero, 0, 0, 0, false, 0⟩
      bufclock := 0 }
  iTab := fun _ => ⟨0, 0, 0, ⟨0, 0, 0, 0, ⟨0, 0⟩, ⟨0, 0⟩, ⟨0, 0⟩, ⟨0, 0⟩, fun _ => 0⟩, 0, false⟩
  nexti := 0
  ofTab := fun _ => ⟨⟨0, 0⟩, none, .rdonly, 0⟩
  ofBss := fun _ => 0
  fsTab := fun _ => ⟨0, 0, 0, 0, fun _ => 0, 0, fun _ => 0, 0, ⟨0, 0⟩, 0, 0, 0⟩
  root := 0
  rootdev := 0
  udata := .zero
  ptab := fun _ => .zero
  initproc := 0
  pp := 0
  nextpid := 0
  runticks := 0
  swap := fun _ => .zero
  tod := ⟨0, 0⟩
  chardev := fun _ _ u => (u, 0)
  rodata := fun _ => 0
  bss := fun _ => 0

/-- The variables after `bufinit`: no buffer belongs to a device. -/
def Kernel.inited (disk : Nat → Word → Block) : Kernel :=
  { Kernel.zeroed disk with
    bufs :=
      { (Kernel.zeroed disk).bufs with
        bufpool := fun _ => ⟨Block.zero, NODEV, 0, 0, false, 0⟩ } }

/-- Sets `udata.u_error`. -/
def setError (e : Errno) : K PUnit :=
  modify fun s => { s with udata := { s.udata with uError := e } }

/-- Changes the buffer at `bp`. -/
def modifyBuf (bp : Bufptr) (f : Blkbuf → Blkbuf) : K PUnit :=
  modify fun s => { s with bufs := s.bufs.set bp (f (s.bufs.bufpool bp)) }

/-- Changes the in-core inode at `ino`. -/
def modifyInode (ino : Inoptr) (f : Cinode → Cinode) : K PUnit :=
  modify fun s => { s with iTab := Function.update s.iTab ino (f (s.iTab ino)) }

/-- What a change of an inode does. -/
lemma wp_modifyInode {s : Kernel} {ino : Inoptr} {f : Cinode → Cinode} {Q : PUnit → Kernel → Prop}
    {E : Panic → Prop} :
    wp (modifyInode ino f) Q E s ↔ Q ⟨⟩ (s.setInode ino (f (s.iTab ino))) := Iff.rfl

/-- Changes the mount table entry of a device. -/
def modifyFs (dev : Nat) (f : Filesys → Filesys) : K PUnit :=
  modify fun s => { s with fsTab := Function.update s.fsTab dev (f (s.fsTab dev)) }

/-- Changes an open file table entry. -/
def modifyOft (of : Fin OFTSIZE) (f : Oft → Oft) : K PUnit :=
  modify fun s => { s with ofTab := Function.update s.ofTab of (f (s.ofTab of)) }

/-- Changes the data of the current process. -/
def modifyUdata (f : UData → UData) : K PUnit :=
  modify fun s => { s with udata := f s.udata }

/-- What a change of the data of the process does. -/
lemma wp_modifyUdata {s : Kernel} {f : UData → UData} {Q : PUnit → Kernel → Prop}
    {E : Panic → Prop} : wp (modifyUdata f) Q E s ↔ Q ⟨⟩ (s.withUdata (f s.udata)) := Iff.rfl

end Uzi
