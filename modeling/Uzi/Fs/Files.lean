import Uzi.Fs.Path

/-!
# Open files

The open file table and the file tables of the processes: `oft_alloc`, `oft_deref` and `uf_alloc` of
`fs/filesys.c`, and the system calls of `kernel/scall1.c` and `kernel/scall1b.c` that open and close
files.
-/

namespace Uzi
open Exec

/-! ## The tables -/

/-- `oft_alloc`. -/
def oftAlloc : K (Option (Fin OFTSIZE)) := do
  let s ← get
  match (List.finRange OFTSIZE).find? fun j => (s.ofTab j).oRefs = 0 with
  | some j => do
    modifyOft j fun o => { o with oRefs := 1, oInode := none }
    pure (some j)
  | none => do
    setError .enfile
    pure none

/-- `oft_deref`. -/
def oftDeref (of : Fin OFTSIZE) : K PUnit := do
  modifyOft of fun o => { o with oRefs := o.oRefs - 1 }
  let o := (← get).ofTab of
  if o.oRefs = 0 then
    match o.oInode with
    | none => pure ⟨⟩
    | some ino => do
      iDeref ino
      modifyOft of fun o => { o with oInode := none }

/-- `++of_tab[j].o_refs`, also for a `j` that is outside the table. -/
def oftRef (j : Byte) : K PUnit := do
  if j.toNat < OFTSIZE then modifyOft (Fin.ofNat OFTSIZE j.toNat) fun o => { o with oRefs := o.oRefs + 1 }
  else modify fun s => { s with ofBss := Function.update s.ofBss j.toNat (s.ofBss j.toNat + 1) }

/-- Whether a descriptor is closed. -/
def UData.closed (u : UData) (j : Fin UFTSIZE) : Bool := u.uFiles j &&& 0x80 ≠ 0

/-- `uf_alloc`. -/
def ufAlloc : K (Option (Fin UFTSIZE)) := do
  let s ← get
  match (List.finRange UFTSIZE).find? fun j => s.udata.closed j with
  | some j => pure (some j)
  | none => do
    setError .enfile
    pure none

/-- `udata.u_files[j] = x`. -/
def setFile (j : Fin UFTSIZE) (x : Byte) : K PUnit :=
  modifyUdata fun u => { u with uFiles := Function.update u.uFiles j x }

/-- The descriptor that `uindex` is, for one that `getinode` has checked. -/
def descriptor (uindex : Word) : Fin UFTSIZE := Fin.ofNat UFTSIZE uindex.toNat

/-- The number of an open file table entry as an entry of `u_files`. -/
def oftByte (j : Fin OFTSIZE) : Byte := BitVec.ofNat 8 j

/-- A descriptor as the value of a system call. -/
def fileWord (j : Fin UFTSIZE) : Word := BitVec.ofNat 16 j

/-! ## Closing -/

/-- `doclose`. -/
def doclose (uindex : Word) : K Word := do
  match ← getinode uindex with
  | none => pure 0xffff
  | some ino => do
    let s ← get
    let oftindex := s.udata.ofIndex uindex
    if (s.iTab ino).isdevice then dClose ((s.iTab ino).cNode.addr 0).toNat
    setFile (descriptor uindex) 0xff
    oftDeref oftindex
    pure 0

/-- `_close`. -/
def _close (uindex : Word) : K Word := doclose uindex

/-! ## Opening -/

/-- The exit `cantopen` of `_open`. -/
def openFailed (uindex : Fin UFTSIZE) (oftindex : Fin OFTSIZE) : K Word := do
  oftDeref oftindex
  setFile uindex 0xff
  pure 0xffff

/-- Whether the permissions `perm` of a file refuse the access `flag`. -/
def refused (perm flag : Word) : Bool :=
  ((flag = 0 ∨ flag = 2) ∧ perm &&& OTH_RD = 0) ∨ ((flag = 1 ∨ flag = 2) ∧ perm &&& OTH_WR = 0)

/-- The value `flag` for `o_access`. -/
def Access.ofFlag (flag : Word) : Access :=
  if flag = 0 then .rdonly else if flag = 1 then .wronly else .rdwr

/-- Whether `_open` of a device fails. -/
def openDevice (ino : Inoptr) : K Bool := do
  let c := (← get).iTab ino
  if c.isdevice then return (← dOpen (c.cNode.addr 0).toNat) ≠ 0
  else pure false

/-- `_open`. -/
def _open (name : CStr) (flag : Word) : K Word := do
  if flag.toInt < 0 ∨ 2 < flag.toInt then do
    setError .einval
    pure 0xffff
  else
    match ← ufAlloc with
    | none => pure 0xffff
    | some uindex =>
      match ← oftAlloc with
      | none => do
        setFile uindex 0xff
        pure 0xffff
      | some oftindex =>
        match ← nOpen name false with
        | (none, _) => openFailed uindex oftindex
        | (some ino, _) => do
          modifyOft oftindex fun o => { o with oInode := some ino }
          let s ← get
          if refused (getperm s ino) flag then do
            setError .eperm
            openFailed uindex oftindex
          else if (s.iTab ino).getmode = F_DIR ∧ (flag = 1 ∨ flag = 2) then do
            setError .eisdir
            openFailed uindex oftindex
          else if ← openDevice ino then do
            setError .enxio
            openFailed uindex oftindex
          else do
            setFile uindex (oftByte oftindex)
            modifyOft oftindex fun o => { o with oPtr := ⟨0, 0⟩, oAccess := .ofFlag flag }
            pure (fileWord uindex)

/-- The exit `nogood` of `_creat`. -/
def creatFailed (oftindex : Fin OFTSIZE) : K Word := do
  oftDeref oftindex
  pure 0xffff

/-- The end of `_creat`. -/
def creatDone (uindex : Fin UFTSIZE) (oftindex : Fin OFTSIZE) (ino : Inoptr) : K Word := do
  setFile uindex (oftByte oftindex)
  modifyOft oftindex fun o => { o with oPtr := ⟨0, 0⟩, oInode := some ino, oAccess := .wronly }
  pure (fileWord uindex)

/-- The entry with `o_ptr` set back if it is one of the inode. -/
def Oft.rewind (o : Oft) (ino : Inoptr) : Oft :=
  if o.oInode = some ino then { o with oPtr := ⟨0, 0⟩ } else o

/-- `_creat` of a file that exists. -/
def creatOld (uindex : Fin UFTSIZE) (oftindex : Fin OFTSIZE) (ino : Inoptr) (parent : Option Inoptr) :
    K Word := do
  match parent with
  | none => throw .undefined
  | some parent => do
    iDeref parent
    let s ← get
    if (s.iTab ino).getmode = F_DIR then do
      iDeref ino
      setError .eisdir
      creatFailed oftindex
    else if getperm s ino &&& OTH_WR = 0 then do
      iDeref ino
      setError .eacces
      creatFailed oftindex
    else do
      if (s.iTab ino).getmode = F_REG then do
        fTrunc ino
        modify fun s => { s with ofTab := fun j => (s.ofTab j).rewind ino }
      creatDone uindex oftindex ino

/-- `_creat` of a file that does not exist. -/
def creatNew (uindex : Fin UFTSIZE) (oftindex : Fin OFTSIZE) (name : CStr) (mode : Word)
    (parent : Option Inoptr) : K Word := do
  match parent with
  | none => creatFailed oftindex
  | some parent =>
    match ← newfile parent name with
    | some ino => do
      let u := (← get).udata
      modifyInode ino fun c =>
        { c with cNode := { c.cNode with iMode := F_REG ||| (mode &&& MODE_MASK &&& ~~~u.uMask) } }
      setftime ino (A_TIME ||| M_TIME ||| C_TIME)
      wrInode ino
      creatDone uindex oftindex ino
    | none => do
      -- `newfile` has given up the parent already
      iDeref parent
      creatFailed oftindex

/-- `_creat`. -/
def _creat (name : CStr) (mode : Word) : K Word := do
  match ← ufAlloc with
  | none => pure 0xffff
  | some uindex =>
    match ← oftAlloc with
    | none => pure 0xffff
    | some oftindex =>
      match ← nOpen name true with
      | (some ino, parent) => creatOld uindex oftindex ino parent
      | (none, parent) => creatNew uindex oftindex name mode parent

/-! ## Pipes -/

/-- The exit `nogood` of `_pipe`. -/
def pipeFailed (u1 : Fin UFTSIZE) : K Word := do
  setFile u1 0xff
  pure 0xffff

/-- The end of `_pipe`. The two stores through `fildes`, which nobody has checked, are stores to the memory of
the process: what they overwrite elsewhere is not followed. -/
def pipeDone (fildes : Nat) (u1 u2 : Fin UFTSIZE) (oft1 oft2 : Fin OFTSIZE) (ino : Inoptr) : K Word := do
  setFile u2 (oftByte oft2)
  modifyOft oft1 fun o => { o with oPtr := ⟨0, 0⟩, oInode := some ino, oAccess := .rdonly }
  modifyOft oft2 fun o => { o with oPtr := ⟨0, 0⟩, oInode := some ino, oAccess := .wronly }
  modifyInode ino fun c =>
    { c with cRefs := c.cRefs + 1, cNode := { c.cNode with iMode := F_PIPE ||| 0o777, iNlink := 0 } }
  modifyUdata fun u =>
    { u with
      mem := putBytes u.mem fildes 4 fun i =>
        if i = 0 then BitVec.ofNat 8 u1 else if i = 2 then BitVec.ofNat 8 u2 else 0 }
  pure 0

/-- `_pipe`. -/
def _pipe (fildes : Nat) : K Word := do
  match ← ufAlloc with
  | none => pure 0xffff
  | some u1 =>
    match ← oftAlloc with
    | none => pure 0xffff
    | some oft1 => do
      setFile u1 (oftByte oft1)
      match ← ufAlloc with
      | none => pipeFailed u1
      | some u2 =>
        match ← oftAlloc with
        | none => do
          oftDeref oft1
          pipeFailed u1
        | some oft2 =>
          match ← iOpen (← get).rootdev 0 with
          | none => do
            oftDeref oft1
            oftDeref oft2
            pipeFailed u1
          | some ino => pipeDone fildes u1 u2 oft1 oft2 ino

/-- `_pipe` comes to its end: there are two closed descriptors, two free entries of the open file table and
an inode. -/
structure PipeEnds (s : Kernel) : Prop where
  files : ∃ u v, u ≠ v ∧ s.udata.uFiles u &&& 0x80 ≠ 0 ∧ s.udata.uFiles v &&& 0x80 ≠ 0
  entries : ∃ i j, i ≠ j ∧ (s.ofTab i).oRefs = 0 ∧ (s.ofTab j).oRefs = 0
  inode : ∃ ino s', iOpen s.rootdev 0 s = .ok (some ino, s')

/-! ## Copies of descriptors -/

/-- `udata.u_files[newd] = udata.u_files[oldd]`, and the reference that this makes. -/
def copyFile (oldd : Word) (newd : Fin UFTSIZE) : K PUnit := do
  setFile newd ((← get).udata.file oldd)
  oftRef ((← get).udata.file oldd)

/-- `_dup`. -/
def _dup (oldd : Word) : K Word := do
  match ← getinode oldd with
  | none => pure 0xffff
  | some _ =>
    match ← ufAlloc with
    | none => pure 0xffff
    | some newd => do
      copyFile oldd newd
      pure (fileWord newd)

/-- `_dup2`. -/
def _dup2 (oldd newd : Word) : K Word := do
  match ← getinode oldd with
  | none => pure 0xffff
  | some _ =>
    if newd.toInt < 0 ∨ (UFTSIZE : Int) ≤ newd.toInt then do
      setError .ebadf
      pure 0xffff
    else do
      if ¬ (← get).udata.closed (descriptor newd) then let _ ← doclose newd
      copyFile oldd (descriptor newd)
      pure 0

end Uzi
