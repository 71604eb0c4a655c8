import Uzi.Fs.LeftError
import Uzi.Fs.PathWalk

/-!
# Sessions

`ch_link` asks `u_error` whether its entry has been written, and so does not tell a new error from one that an earlier
call has left. `unix` clears `u_error` before each call, and `_mknod` clears it itself, but the commands of `fsutil` make
their calls without `unix`.

The definitions with `By` are the functions that get to this test, with a program `passed` that is run where the test
has been passed.
-/

namespace Uzi
open Exec

/-! ## The test of `u_error` -/

/-- The end of `ch_link` from the writing of the entry on. -/
def chLinkWriteBy (passed : K PUnit) (wd : Inoptr) : K Bool := do
  entryTransfer writei wd
  if (← get).udata.uError ≠ .ok then pure false
  else do
    passed
    setftime wd (A_TIME ||| M_TIME ||| C_TIME)
    let size := ((← get).iTab wd).cNode.iSize
    if size.oOffset ≠ 0 then
      modifyInode wd fun c => { c with cNode := { c.cNode with iSize := ⟨size.oBlkno + 1, 0⟩ } }
    pure true

/-- `ch_link`. -/
def chLinkBy (passed : K PUnit) (wd : Inoptr) (oldname newname : Nat → Byte) (nindex : Option Inoptr) : K Bool := do
  if getperm (← get) wd &&& OTH_WR = 0 then do
    setError .eperm
    pure false
  else do
    modifyUdata fun u => { u with uOffset := ⟨0, 0⟩ }
    chLinkSearch wd oldname (2 ^ 26)
    if (← get).udata.uCount = 0 ∧ oldname 0 ≠ 0 then pure false
    else do
      let s ← get
      let ino := match nindex with
        | some nindex => (s.iTab nindex).cNum
        | none => 0
      let entry := Direct.ofName ino newname
      modifyUdata fun u => { u with mem := putBytes u.mem CURENTRY 16 entry.byte }
      if (← get).udata.uCount ≠ 0 then modifyUdata fun u => { u with uOffset := u.uOffset.backUp }
      chLinkWriteBy passed wd

/-- `newfile`. -/
def newfileBy (passed : K PUnit) (pino : Inoptr) (name : CStr) : K (Option Inoptr) := do
  match ← iOpen ((← get).iTab pino).cDev 0 with
  | none => do
    iDeref pino
    pure none
  | some nindex => do
    modifyInode nindex fun c =>
      { c with
        cNode := { c.cNode with iMode := F_REG, iNlink := 1, iSize := ⟨0, 0⟩, iAddr := fun _ => 0 } }
    wrInode nindex
    if ← chLinkBy passed pino (← get).emptyName (fun k => name.chr (filename name + k)) (some nindex) then do
      iDeref pino
      pure (some nindex)
    else do
      iDeref nindex
      iDeref pino
      pure none

/-- `_creat` of a file that does not exist. -/
def creatNewBy (passed : K PUnit) (uindex : Fin UFTSIZE) (oftindex : Fin OFTSIZE) (name : CStr) (mode : Word)
    (parent : Option Inoptr) : K Word := do
  match parent with
  | none => creatFailed oftindex
  | some parent =>
    match ← newfileBy passed parent name with
    | some ino => do
      let u := (← get).udata
      modifyInode ino fun c =>
        { c with cNode := { c.cNode with iMode := F_REG ||| (mode &&& MODE_MASK &&& ~~~u.uMask) } }
      setftime ino (A_TIME ||| M_TIME ||| C_TIME)
      wrInode ino
      creatDone uindex oftindex ino
    | none => do
      iDeref parent
      creatFailed oftindex

/-- `_creat`. -/
def creatBy (passed : K PUnit) (name : CStr) (mode : Word) : K Word := do
  match ← ufAlloc with
  | none => pure 0xffff
  | some uindex =>
    match ← oftAlloc with
    | none => pure 0xffff
    | some oftindex =>
      match ← nOpen name true with
      | (some ino, parent) => creatOld uindex oftindex ino parent
      | (none, parent) => creatNewBy passed uindex oftindex name mode parent

/-- `_link`. -/
def linkBy (passed : K PUnit) (name1 name2 : CStr) : K Word := do
  match ← nOpen name1 false with
  | (none, _) => pure 0xffff
  | (some ino, _) => do
    let s ← get
    if (s.iTab ino).getmode = F_DIR ∧ ¬ super s then do
      setError .eperm
      linkFailed ino
    else
      match ← nOpen name2 true with
      | (some _, none) => throw .undefined
      | (some ino2, some parent2) => do
        iDeref ino2
        iDeref parent2
        setError .eexist
        linkFailed ino
      | (none, none) => linkFailed ino
      | (none, some parent2) => do
        let s ← get
        if (s.iTab ino).cDev ≠ (s.iTab parent2).cDev then do
          iDeref parent2
          setError .exdev
          linkFailed ino
        else if ← chLinkBy passed parent2 (← get).emptyName (fun k => name2.chr (filename name2 + k)) (some ino) then
          linkDone ino parent2
        else linkFailed ino

/-- `_unlink`. -/
def unlinkBy (passed : K PUnit) (path : CStr) : K Word := do
  match ← nOpen path true with
  | (some ino, some pino) => do
    let s ← get
    if (s.iTab ino).getmode = F_DIR ∧ ¬ super s then do
      setError .eperm
      unlinkFailed pino ino
    else if ← chLinkBy passed pino (fun k => path.chr (filename path + k)) (← get).emptyName none then
      unlinkDone pino ino
    else unlinkFailed pino ino
  | _ => do
    setError .enoent
    pure 0xffff

/-- Where the error is passed over, this is `ch_link`. -/
lemma chLinkBy_pure : chLinkBy (pure ⟨⟩) = chLink := rfl

/-- Where the error is passed over, this is `newfile`. -/
lemma newfileBy_pure : newfileBy (pure ⟨⟩) = newfile := rfl

/-- Where the error is passed over, this is `_creat`. -/
lemma creatBy_pure : creatBy (pure ⟨⟩) = _creat := rfl

/-- Where the error is passed over, this is `_link`. -/
lemma linkBy_pure : linkBy (pure ⟨⟩) = _link := rfl

/-- Where the error is passed over, this is `_unlink`. -/
lemma unlinkBy_pure : unlinkBy (pure ⟨⟩) = _unlink := rfl

namespace LeftError

variable {wd pino : Inoptr}

/-- From a clear `u_error` the test is passed. With an error it fails in both runs. -/
lemma test {α : Type} {c d : K α} (hc : Blind LeftError c) :
    Watched LeftError fun passed => get >>= fun s => if s.udata.uError ≠ .ok then c else passed >>= fun _ => d := by
  intro s t h e
  have run : ∀ passed : K PUnit, ∀ s : Kernel, (get >>= fun s => if s.udata.uError ≠ .ok then c else passed >>= fun _ => d) s =
      (if s.udata.uError ≠ .ok then c else passed >>= fun _ => d) s := fun _ _ => rfl
  dsimp only
  rw [run, run, run]
  by_cases clear : s.udata.uError = .ok
  · rw [if_neg (not_not.mpr clear)]
    exact .inl rfl
  · have left : t.udata.uError ≠ .ok := by
      cases h.error with
      | inl same => exact same ▸ clear
      | inr left => exact left
    rw [if_pos clear, if_pos clear, if_pos left]
    exact .inr ⟨rfl, hc s t h⟩

/-- The write of `ch_link` is watched. -/
lemma chLinkWriteBy : Watched LeftError fun passed => chLinkWriteBy passed wd :=
  .bind (.of_blind (entryTransfer writei)) fun _ => test .pure

/-- What depends on the rest of the state is watched. -/
lemma seeBy {α : Type} {f : K PUnit → Kernel → K α} (same : ∀ passed s e, f passed (s.withError e) = f passed s)
    (h : ∀ s, Watched LeftError fun passed => f passed s) : Watched LeftError fun passed => get >>= f passed :=
  .look (fun s t passed left => by rw [left.eq, same]) h

/-- `ch_link` is watched. -/
lemma chLinkBy {oldname newname : Nat → Byte} {nindex : Option Inoptr} :
    Watched LeftError fun passed => chLinkBy passed wd oldname newname nindex := by
  refine seeBy (fun _ _ _ => rfl) fun _ => .ite (.of_blind (.bind setError fun _ => .pure)) ?_
  refine .after (change (fun _ _ => rfl) fun _ => rfl) fun _ => .after chLinkSearch fun _ => ?_
  refine seeBy (fun _ _ _ => rfl) fun _ => .ite (.of_blind .pure) (seeBy (fun _ _ _ => rfl) fun _ => ?_)
  refine .after (change (fun _ _ => rfl) fun _ => rfl) fun _ => seeBy (fun _ _ _ => rfl) fun _ => ?_
  exact .when (change (fun _ _ => rfl) fun _ => rfl) fun _ => chLinkWriteBy

/-- `newfile` is watched. -/
lemma newfileBy {name : CStr} : Watched LeftError fun passed => newfileBy passed pino name := by
  refine seeBy (fun _ _ _ => rfl) fun _ => .after iOpen fun r => ?_
  cases r with
  | none => exact .of_blind (.bind iDeref fun _ => .pure)
  | some nindex =>
    refine .after modifyInode fun _ => .after wrInode fun _ => seeBy (fun _ _ _ => rfl) fun _ => .bind chLinkBy fun linked => ?_
    refine .of_blind (.ite (.bind iDeref fun _ => .pure) ?_)
    exact .bind iDeref fun _ => .bind iDeref fun _ => .pure

/-- The second half of `_creat` is watched. -/
lemma creatNewBy {uindex : Fin UFTSIZE} {oftindex : Fin OFTSIZE} {name : CStr} {mode : Word} {parent : Option Inoptr} :
    Watched LeftError fun passed => creatNewBy passed uindex oftindex name mode parent := by
  cases parent with
  | none => exact .of_blind creatFailed
  | some parent =>
    refine .bind newfileBy fun ino => .of_blind ?_
    cases ino with
    | none => exact .bind iDeref fun _ => creatFailed
    | some ino =>
      refine see (fun _ _ => rfl) fun _ => .bind modifyInode fun _ => .bind setftime fun _ => ?_
      exact .bind wrInode fun _ => creatDone

/-- `_creat` is watched. -/
lemma creatBy {name : CStr} {mode : Word} : Watched LeftError fun passed => creatBy passed name mode := by
  refine .after ufAlloc fun uindex => ?_
  cases uindex with
  | none => exact .of_blind .pure
  | some uindex =>
    refine .after oftAlloc fun oftindex => ?_
    cases oftindex with
    | none => exact .of_blind .pure
    | some oftindex =>
      refine .after nOpen fun r => ?_
      obtain ⟨ino, parent⟩ := r
      cases ino with
      | none => exact creatNewBy
      | some ino => exact .of_blind creatOld

/-- `_link` is watched. -/
lemma linkBy {name1 name2 : CStr} : Watched LeftError fun passed => linkBy passed name1 name2 := by
  refine .after nOpen fun r => ?_
  obtain ⟨ino, parent⟩ := r
  cases ino with
  | none => exact .of_blind .pure
  | some ino =>
    refine seeBy (fun _ _ _ => rfl) fun _ => .ite (.of_blind (.bind setError fun _ => linkFailed)) ?_
    refine .after nOpen fun r => ?_
    obtain ⟨ino2, parent2⟩ := r
    cases parent2 with
    | none =>
      cases ino2 with
      | none => exact .of_blind linkFailed
      | some ino2 => exact .of_blind .throw
    | some parent2 =>
      cases ino2 with
      | some ino2 =>
        exact .of_blind (.bind iDeref fun _ => .bind iDeref fun _ => .bind setError fun _ => linkFailed)
      | none =>
        refine seeBy (fun _ _ _ => rfl) fun _ => .ite ?_ (seeBy (fun _ _ _ => rfl) fun _ => ?_)
        · exact .of_blind (.bind iDeref fun _ => .bind setError fun _ => linkFailed)
        · exact .bind chLinkBy fun linked => .of_blind (.ite linkDone linkFailed)

/-- `_unlink` is watched. -/
lemma unlinkBy {path : CStr} : Watched LeftError fun passed => unlinkBy passed path := by
  have noent : Blind LeftError (do Uzi.setError .enoent; pure 0xffff : K Word) := .bind setError fun _ => .pure
  refine .after nOpen fun r => ?_
  obtain ⟨ino, pino⟩ := r
  cases ino with
  | none => exact .of_blind noent
  | some ino =>
    cases pino with
    | none => exact .of_blind noent
    | some pino =>
      refine seeBy (fun _ _ _ => rfl) fun _ => .ite (.of_blind (.bind setError fun _ => unlinkFailed)) ?_
      refine seeBy (fun _ _ _ => rfl) fun _ => ?_
      exact .bind chLinkBy fun linked => .of_blind (.ite unlinkDone unlinkFailed)

end LeftError

/-! ## Calls -/

/-- `fsutil_fread`. -/
def fread (buf : Nat) (bytes : List Byte) : K Word := do
  modifyUdata fun u => { u with mem := putBytes u.mem buf bytes.length fun i => bytes.getD i 0 }
  pure (BitVec.ofNat 16 bytes.length)

/-- The copy of a read is blind. -/
lemma LeftError.fread {buf : Nat} {bytes : List Byte} : Blind LeftError (fread buf bytes) :=
  .bind (change (fun _ _ => rfl) fun _ => rfl) fun _ => .pure

/-- What the commands of `fsutil` do: they make calls, and fill a buffer from a file of the host. -/
inductive SessionCall
  | _creat (name : CStr) (mode : Word)
  | _open (name : CStr) (flag : Word)
  | _close (d : Word)
  | _read (d : Word) (buf : Nat) (nbytes : Word)
  | _write (d : Word) (buf : Nat) (nbytes : Word)
  | _unlink (path : CStr)
  | _link (name1 name2 : CStr)
  | _mknod (name : CStr) (mode dev : Word)
  | fread (buf : Nat) (bytes : List Byte)

namespace SessionCall

/-- The call. It gives nothing when it sleeps. -/
def run : SessionCall → K (Option Word)
  | _creat name mode => do return some (← Uzi._creat name mode)
  | _open name flag => do return some (← Uzi._open name flag)
  | _close d => do return some (← Uzi._close d)
  | _read d buf nbytes => Uzi._read d buf nbytes
  | _write d buf nbytes => Uzi._write d buf nbytes
  | _unlink path => do return some (← Uzi._unlink path)
  | _link name1 name2 => do return some (← Uzi._link name1 name2)
  | _mknod name mode dev => do return some (← Uzi._mknod name mode dev)
  | fread buf bytes => do return some (← Uzi.fread buf bytes)

/-- The call, with `passed` run where the test of `u_error` has been passed. `_mknod` has cleared `u_error` then. -/
def runBy (passed : K PUnit) : SessionCall → K (Option Word)
  | _creat name mode => do return some (← creatBy passed name mode)
  | _unlink path => do return some (← unlinkBy passed path)
  | _link name1 name2 => do return some (← linkBy passed name1 name2)
  | call => call.run

/-- Where the error is passed over, this is the call. -/
lemma runBy_pure {call : SessionCall} : call.runBy (pure ⟨⟩) = call.run := by
  cases call <;> rfl

/-- In `s` the call gets past the test of `u_error`. -/
def Passes (call : SessionCall) (s : Kernel) : Prop := Probed (fun passed => call.runBy passed) s

/-- An error is left in `t`, and without it the call gets past the test of `u_error`. -/
def Spoiled (call : SessionCall) (s t : Kernel) : Prop := t.udata.uError ≠ .ok ∧ call.Passes s

/-- Every call is watched. -/
lemma watched {call : SessionCall} : Watched LeftError fun passed => call.runBy passed := by
  cases call with
  | _creat name mode => exact .bind LeftError.creatBy fun _ => .of_blind .pure
  | _open name flag => exact .of_blind (.bind LeftError._open fun _ => .pure)
  | _close d => exact .of_blind (.bind LeftError.doclose fun _ => .pure)
  | _read d buf nbytes => exact .of_blind LeftError._read
  | _write d buf nbytes => exact .of_blind LeftError._write
  | _unlink path => exact .bind LeftError.unlinkBy fun _ => .of_blind .pure
  | _link name1 name2 => exact .bind LeftError.linkBy fun _ => .of_blind .pure
  | _mknod name mode dev => exact .of_blind (.bind LeftError._mknod fun _ => .pure)
  | fread buf bytes => exact .of_blind (.bind LeftError.fread fun _ => .pure)

end SessionCall

/-! ## Whole sessions -/

/-- The calls in turn, with what they give. -/
def session : List SessionCall → K (List (Option Word))
  | [] => pure []
  | call :: calls => do
    let r ← call.run
    let rs ← session calls
    pure (r :: rs)

/-- Equal but for `u_error`. -/
def SameButError (s t : Kernel) : Prop := t = s.withError t.udata.uError

/-- In the sessions from `s` and `t` no call is spoiled. -/
def Unspoiled : List SessionCall → Kernel → Kernel → Prop
  | [], _, _ => True
  | call :: calls, s, t =>
    ¬ call.Spoiled s t ∧ ¬ call.Spoiled t s ∧
      ∀ r s' t', call.run s = .ok (r, s') → call.run t = .ok (r, t') → Unspoiled calls s' t'

/-- The same state. -/
lemma SameButError.refl (s : Kernel) : SameButError s s := rfl

/-- The same character devices. -/
lemma SameButError.chardev {s t : Kernel} (h : SameButError s t) : t.chardev = s.chardev := by
  rw [h]
  rfl

/-- The other way round. -/
lemma SameButError.symm {s t : Kernel} (h : SameButError s t) : SameButError t s := by
  unfold SameButError at h ⊢
  rw [h]
  rfl

/-- A call that does not pass over an error agrees. -/
lemma LeftError.agree {call : SessionCall} {s t : Kernel} (h : LeftError s t) (passes : ¬ call.Passes s) :
    Agree LeftError (call.run s) (call.run t) := by
  rw [← SessionCall.runBy_pure]
  exact SessionCall.watched.agree h passes

/-- With an error left in one of the two kernels, a call that it does not spoil goes alike in both. -/
lemma SessionCall.agree {call : SessionCall} {s t : Kernel} (h : SameButError s t) (drivers : Drivers s.chardev)
    (left : s.udata.uError ≠ .ok ∨ t.udata.uError ≠ .ok) (first : ¬ call.Spoiled s t) (second : ¬ call.Spoiled t s) :
    Agree (fun s' t' => SameButError s' t' ∧ Drivers s'.chardev) (call.run s) (call.run t) := by
  by_cases error : t.udata.uError = .ok
  · have error' := left.resolve_right (not_not.mpr error)
    have related : LeftError t s := ⟨h.symm, .inr error', h.chardev ▸ drivers⟩
    refine (related.agree fun passes => second ⟨error', passes⟩).symm.mono fun s' t' left => ?_
    have same : SameButError t' s' := left.eq
    exact ⟨same.symm, same.chardev ▸ left.drivers⟩
  · have related : LeftError s t := ⟨h, .inr error, drivers⟩
    exact (related.agree fun passes => first ⟨error, passes⟩).mono fun s' t' left => ⟨left.eq, left.drivers⟩

/-- Two sessions whose kernels are equal but for `u_error` have the same results and the same effects, if no call is
spoiled in them. -/
theorem session_agree {calls : List SessionCall} {s t : Kernel} (same : SameButError s t) (drivers : Drivers s.chardev)
    (unspoiled : Unspoiled calls s t) : Agree SameButError (session calls s) (session calls t) := by
  induction calls generalizing s t with
  | nil => exact .ok same
  | cons call calls ih =>
    by_cases clear : s.udata.uError = .ok ∧ t.udata.uError = .ok
    · have equal : t = s := by
        rw [same, clear.2, ← clear.1]
        rfl
      rw [equal]
      exact .refl SameButError.refl _
    · obtain ⟨first, second, rest⟩ := unspoiled
      have left := Decidable.not_and_iff_or_not.mp clear
      refine (SessionCall.agree same drivers left first second).bind fun r s' t' es et related => ?_
      refine (ih related.1 related.2 (rest r s' t' es et)).bind fun rs s'' t'' _ _ same => ?_
      exact .ok same

/-! ## A failed call before a good one -/

/-- The root names the file `a`, and inode 3 is free. -/
def oneFile : Kernel :=
  { Kernel.inited fun _ n =>
      if n = 2 then inodeBlock (dirInode 1) { Dinode.zero with iMode := F_REG, iNlink := 1 }
      else if n = 3 then nameBlock [0x61]
      else Block.zero with
    target := .fsutil
    iTab := fun i => if i = 0 then ⟨CMAGIC, 0, ROOTINODE, dirInode 1, 2, false⟩ else .zero
    fsTab := fun dev =>
      { (Kernel.inited fun _ _ => Block.zero).fsTab dev with
        sMounted := SMOUNTED, sIsize := 3, sFsize := 20, sTinode := 1, sNinode := 1, sInode := fun _ => 3 } }

/-- The name `/a`. -/
def oldName : CStr := .ofList [SLASH, 0x61] (by decide)

/-- The name `/n`. -/
def newName : CStr := .ofList [SLASH, 0x6e] (by decide)

/-- The character devices of the small disk. -/
lemma drivers_oneFile : Drivers oneFile.chardev := fun _ _ _ => ⟨none, fun _ => rfl⟩

instance : Nontrivial Panic := ⟨.hang, .undefined, by decide⟩

/-- A call that does not come to the error does not pass over it. -/
lemma SessionCall.not_passes {call : SessionCall} {s : Kernel}
    (h : wp (call.runBy (throw .hang)) (fun _ _ => True) (fun _ => False) s) : ¬ call.Passes s :=
  fun passes => h.error (passes .hang)

/-- A file that exists is created again and written, with and without an error that is left. -/
theorem session_agree_oneFile :
    Agree SameButError (session [._creat oldName 0o666, ._write 0 0 1] oneFile)
      (session [._creat oldName 0o666, ._write 0 0 1] (oneFile.withError .enoent)) := by
  refine session_agree rfl drivers_oneFile ⟨fun spoiled => ?_, fun spoiled => spoiled.1 rfl, fun r s' t' _ _ => ?_⟩
  · exact SessionCall.not_passes (by decide +kernel) spoiled.2
  · exact ⟨fun spoiled => not_probed spoiled.2, fun spoiled => not_probed spoiled.2, fun _ _ _ _ _ => trivial⟩

/-- The call `first` fails, and leaves an error with which the call `second` fails too. -/
lemma not_agree_after {first second : SessionCall} {s : Kernel}
    (h : wp (session [first])
      (fun r t => r = [some 0xffff] ∧
        wp (session [second]) (fun r _ => r = [some 0]) (fun _ => False) (t.withError .ok) ∧
        wp (session [second]) (fun r _ => r = [some 0xffff]) (fun _ => False) t)
      (fun _ => False) s) :
    ∃ t, session [first] s = .ok ([some 0xffff], t) ∧ SameButError (t.withError .ok) t ∧
      ¬ Agree SameButError (session [second] (t.withError .ok)) (session [second] t) := by
  obtain ⟨r, t, run, rfl, good, bad⟩ := h.returns
  refine ⟨t, run, rfl, fun agree => ?_⟩
  obtain ⟨r, s', goodRun, rfl⟩ := good.returns
  obtain ⟨r, t', badRun, rfl⟩ := bad.returns
  rw [goodRun, badRun] at agree
  cases agree

/-- After an `_open` of a file that is not there, `_creat` cannot make it, which it can without the error. -/
theorem not_session_agree : Drivers oneFile.chardev ∧
    ∃ t, session [._open newName 0] oneFile = .ok ([some 0xffff], t) ∧ SameButError (t.withError .ok) t ∧
      ¬ Agree SameButError (session [._creat newName 0o666] (t.withError .ok)) (session [._creat newName 0o666] t) :=
  ⟨drivers_oneFile, not_agree_after (by decide +kernel)⟩

end Uzi
