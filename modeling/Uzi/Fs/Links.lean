import Uzi.Fs.Files

/-!
# Names

The system calls of `kernel/scall1.c` that make and remove names, `_link`, `_unlink` and `_mknod`, and those that only
look one up: `_chdir`, `_access` and `_chmod`.
-/

namespace Uzi
open Exec

/-- The exit `nogood` of `_link`. -/
def linkFailed (ino : Inoptr) : K Word := do
  iDeref ino
  pure 0xffff

/-- The end of `_link`: the link count goes up. -/
def linkDone (ino parent2 : Inoptr) : K Word := do
  modifyInode ino fun c => { c with cNode := { c.cNode with iNlink := c.cNode.iNlink + 1 } }
  wrInode ino
  setftime ino C_TIME
  iDeref parent2
  iDeref ino
  pure 0

/-- `_link`. -/
def _link (name1 name2 : CStr) : K Word := do
  match ← nOpen name1 false with
  | (none, _) => pure 0xffff
  | (some ino, _) => do
    let s ← get
    if (s.iTab ino).getmode = F_DIR ∧ ¬ super s then do
      setError .eperm
      linkFailed ino
    else
      match ← nOpen name2 true with
      | (some _, none) => throw .undefined
      | (some ino2, some parent2) => do
        iDeref ino2
        iDeref parent2
        setError .eexist
        linkFailed ino
      | (none, none) => linkFailed ino
      | (none, some parent2) => do
        let s ← get
        if (s.iTab ino).cDev ≠ (s.iTab parent2).cDev then do
          iDeref parent2
          setError .exdev
          linkFailed ino
        else if ← chLink parent2 (← get).emptyName (fun k => name2.chr (filename name2 + k)) (some ino) then
          linkDone ino parent2
        else linkFailed ino

/-- The exit `nogood` of `_unlink`. -/
def unlinkFailed (pino ino : Inoptr) : K Word := do
  iDeref pino
  iDeref ino
  pure 0xffff

/-- The link count after `i_nlink--`, which is put right when there was none. -/
def lessLinks (n : Word) : Word := if n = 0 then n - 1 + 2 else n - 1

/-- The end of `_unlink`: the link count goes down. -/
def unlinkDone (pino ino : Inoptr) : K Word := do
  modifyInode ino fun c => { c with cNode := { c.cNode with iNlink := lessLinks c.cNode.iNlink } }
  setftime ino C_TIME
  iDeref pino
  iDeref ino
  pure 0

/-- `_unlink`. -/
def _unlink (path : CStr) : K Word := do
  match ← nOpen path true with
  | (some ino, some pino) => do
    let s ← get
    if (s.iTab ino).getmode = F_DIR ∧ ¬ super s then do
      setError .eperm
      unlinkFailed pino ino
    else if ← chLink pino (fun k => path.chr (filename path + k)) (← get).emptyName none then unlinkDone pino ino
    else unlinkFailed pino ino
  | _ => do
    setError .enoent
    pure 0xffff

/-- The end of `_mknod`: the mode and, of a device file, the device. -/
def mknodDone (ino : Inoptr) (mode dev : Word) : K Word := do
  let u := (← get).udata
  modifyInode ino fun c => { c with cNode := { c.cNode with iMode := mode &&& ~~~u.uMask } }
  modifyInode ino fun c => { c with cNode := c.cNode.setAddr 0 (if c.isdevice then dev else 0) }
  setftime ino (A_TIME ||| M_TIME ||| C_TIME)
  wrInode ino
  iDeref ino
  pure 0

/-- `_mknod`. -/
def _mknod (name : CStr) (mode dev : Word) : K Word := do
  setError .ok
  if ¬ super (← get) then do
    setError .eperm
    pure 0xffff
  else
    match ← nOpen name true with
    | (some _, none) => throw .undefined
    | (some ino, some parent) => do
      setError .eexist
      iDeref ino
      iDeref parent
      pure 0xffff
    | (none, none) => do
      setError .enoent
      pure 0xffff
    | (none, some parent) =>
      match ← newfile parent name with
      | some ino => mknodDone ino mode dev
      | none => do
        -- `newfile` has given up the parent already
        iDeref parent
        pure 0xffff

/-- `_chdir`. -/
def _chdir (dir : CStr) : K Word := do
  match ← nOpen dir false with
  | (none, _) => pure 0xffff
  | (some newcwd, _) => do
    let s ← get
    if (s.iTab newcwd).getmode ≠ F_DIR then do
      setError .enotdir
      iDeref newcwd
      pure 0xffff
    else do
      iDeref s.udata.uCwd
      modifyUdata fun u => { u with uCwd := newcwd }
      pure 0

/-- `_access` with the real user and group as the effective ones. -/
def accessBy (path : CStr) (mode : Word) : K Word := do
  match ← nOpen path false with
  | (none, _) => pure 0xffff
  | (some ino, _) => do
    let missing := ~~~getperm (← get) ino &&& (mode &&& 0o7)
    if missing ≠ 0 then setError .eperm
    iDeref ino
    pure (if missing ≠ 0 then 0xffff else 0)

/-- `_access`. -/
def _access (path : CStr) (mode : Word) : K Word := do
  if mode &&& 0o7 ≠ 0 ∧ path.chr 0 = 0 then do
    setError .enoent
    pure 0xffff
  else do
    let s ← get
    let u := s.udata
    modifyUdata fun u => { u with uEuid := (s.ptab u.uPtab).pUid, uEgid := u.uGid }
    let retval ← accessBy path mode
    modifyUdata fun v => { v with uEuid := u.uEuid, uEgid := u.uEgid }
    pure retval

/-- `_chmod`. -/
def _chmod (path : CStr) (mode : Word) : K Word := do
  match ← nOpen path false with
  | (none, _) => pure 0xffff
  | (some ino, _) => do
    let s ← get
    if ¬ sameId s.target (s.iTab ino).cNode.iUid s.udata.uEuid ∧ ¬ super s then do
      iDeref ino
      setError .eperm
      pure 0xffff
    else do
      modifyInode ino fun c =>
        { c with cNode := { c.cNode with iMode := mode &&& MODE_MASK ||| c.cNode.iMode &&& F_MASK } }
      setftime ino C_TIME
      iDeref ino
      pure 0

end Uzi
