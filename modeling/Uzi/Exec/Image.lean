import Uzi.Exec.Args
import Uzi.Fs.BlockMap
import Uzi.Fs.Footprint
import Uzi.Fs.Offset

/-!
# The image of a program

How `_execve` and `exec2` of `kernel/scall2.c` bring a program into the memory: the first block, the
others with their holes, and the zeros behind them. The banks that `user_bank_setup` and `tempstack`
switch in are the memory of the process.
-/

namespace Uzi
open Exec Memory

/-- The first byte of a program. -/
def EMAGIC : Byte := 0x4c
/-- Where the bank of the program begins. -/
def MMC5_PRG_MODE3_BANK2_START : Word := 0xa000
/-- The bytes of the largest program. -/
def MAX_PROGRAM_SIZE : Nat := 2 * 8192
/-- The program runs as its owner. -/
def SET_UID : Word := 0o4000
/-- The program runs as its group. -/
def SET_GID : Word := 0o2000
/-- The owner may execute. -/
def OWN_EX : Word := 0o100
/-- The group may execute. -/
def GRP_EX : Word := 0o10

/-- What `_execve` asks of a file. -/
structure Kernel.Executable (s : Kernel) (ino : Inoptr) : Prop where
  size : (s.iTab ino).cNode.iSize.oBlkno.toNat < MAX_PROGRAM_SIZE / 512
  perm : getperm s ino &&& OTH_EX ≠ 0
  regular : (s.iTab ino).cNode.iMode &&& F_REG ≠ 0
  mode : (s.iTab ino).cNode.iMode &&& (OWN_EX ||| OTH_EX ||| GRP_EX) ≠ 0

/-- `bcopy(buf, dest, 512)`. -/
def copyBlock (buf : Bufptr) (dest : Word) : K PUnit := do
  let x := ((← get).buf buf).bfData
  modifyUdata fun u => u.store dest 512 x.byte

/-- The setuid and setgid bits of a program. -/
def setIds (ino : Inoptr) : K PUnit := do
  let d := ((← get).iTab ino).cNode
  modifyUdata fun u =>
    { u with
      uEuid := if d.iMode &&& SET_UID ≠ 0 then d.iUid else u.uEuid
      uEgid := if d.iMode &&& SET_GID ≠ 0 then d.iGid else u.uEgid }

/-- A round of the loop of `exec2`. -/
def exec2Round (ino : Inoptr) (blk progptr : Word) : K PUnit := do
  let pblk ← bmap ino blk true
  if pblk ≠ NULLBLK then do
    let buf ← breadPtr ((← get).iTab ino).cDev pblk 0
    copyBlock buf progptr
    brelse buf
  else pure ⟨⟩

/-- The loop of `exec2` over the blocks of the program, which returns `progptr`. -/
def exec2Loop (ino : Inoptr) : (rounds : Nat) → (blk progptr : Word) → K Word
  | 0, _, _ => throw .hang
  | rounds + 1, blk, progptr => do
    if blk ≤ ((← get).iTab ino).cNode.iSize.oBlkno then do
      exec2Round ino blk progptr
      exec2Loop ino rounds (blk + 1) (progptr + 512)
    else pure progptr

/-- `exec2`, up to the arguments. -/
def exec2Image (ino : Inoptr) : K PUnit := do
  let progptr ← exec2Loop ino (2 ^ 16) 1 (BitVec.ofNat 16 PROGBASE + 512)
  iDeref ino
  modifyUdata fun u => u.store progptr (MMC5_PRG_MODE3_BANK2_START - progptr).toNat fun _ => 0

/-- `_execve` from the first block of the program on, up to the arguments: whether the program is run. -/
def loadProgram (ino : Inoptr) : K Bool := do
  let pblk ← bmap ino 0 true
  let buf ← breadPtr ((← get).iTab ino).cDev pblk 0
  if ((← get).buf buf).bfData.byte 0 ≠ EMAGIC then do
    setError .enoexec
    brelse buf
    iDeref ino
    pure false
  else do
    setIds ino
    copyBlock buf (BitVec.ofNat 16 PROGBASE)
    brelse buf
    exec2Image ino
    pure true

/-! ## The blocks in memory -/

/-- The number that `bmap` gives for a logical block, `NULLBLK` in a hole. -/
noncomputable def Kernel.blockNo (s : Kernel) (ino : Inoptr) (bn : Nat) : Word :=
  orNull ((s.iTab ino).cNode.stored (s.cell (s.iTab ino).cDev) (BitVec.ofNat 16 bn))

/-- A byte of the file: a hole has zeros. -/
noncomputable def Kernel.fileByte (s : Kernel) (ino : Inoptr) (i : Nat) : Byte :=
  if s.blockNo ino (i / 512) = NULLBLK then 0
  else (s.cell (s.iTab ino).cDev (s.blockNo ino (i / 512))).byte (i % 512)

/-- Byte `i` of the program in memory. -/
def UData.image (u : UData) (i : Nat) : Byte := u.user (BitVec.ofNat 16 PROGBASE + BitVec.ofNat 16 i)

/-- What byte `i` of the blocks of the program is when they are loaded: behind a hole remains what was
there, but the first block is read in any case. -/
noncomputable def Kernel.loadByte (s : Kernel) (ino : Inoptr) (i : Nat) : Byte :=
  if 512 ≤ i ∧ s.blockNo ino (i / 512) = NULLBLK then s.udata.image i
  else (s.cell (s.iTab ino).cDev (s.blockNo ino (i / 512))).byte (i % 512)

/-- The program is loaded up to byte `n`: the rest of the memory is as before. -/
structure Kernel.Loading (s t : Kernel) (ino : Inoptr) (n : Nat) : Prop where
  good : t.bufs.Good
  view : t.bufs.view = s.bufs.view
  iTab : t.iTab = s.iTab
  image : ∀ i < MAX_PROGRAM_SIZE, t.udata.image i = if i < n then s.loadByte ino i else s.udata.image i
  outside : ∀ a : Word, MAX_PROGRAM_SIZE ≤ (a - BitVec.ofNat 16 PROGBASE).toNat → t.udata.user a = s.udata.user a

section Load

variable {s t : Kernel} {ino : Inoptr} {n k : Nat}

/-- A block of the program is overwritten. -/
lemma UData.image_store {u : UData} {f : Nat → Byte} {i : Nat} (hi : i < 2 ^ 16) (fits : n + k ≤ 2 ^ 16) :
    (u.store (BitVec.ofNat 16 PROGBASE + BitVec.ofNat 16 n) k f).image i =
      if n ≤ i ∧ i < n + k then f (i - n) else u.image i := by
  unfold UData.image
  rw [UData.user_store, store_add fits hi]

/-- A store at the program does not reach outside. -/
lemma UData.user_store_outside {u : UData} {f : Nat → Byte} {a : Word} (le : n + k ≤ MAX_PROGRAM_SIZE)
    (far : MAX_PROGRAM_SIZE ≤ (a - BitVec.ofNat 16 PROGBASE).toNat) :
    (u.store (BitVec.ofNat 16 PROGBASE + BitVec.ofNat 16 n) k f).user a = u.user a := by
  have bound : MAX_PROGRAM_SIZE ≤ 2 ^ 16 := by decide
  have place : BitVec.ofNat 16 PROGBASE + BitVec.ofNat 16 (a - BitVec.ofNat 16 PROGBASE).toNat = a := add_dist
  rw [UData.user_store, ← place, store_add (by omega) (a - BitVec.ofNat 16 PROGBASE).isLt, if_neg (by omega)]

/-- One more block: `f` has what the code loads, or nothing is stored and the memory has it. -/
lemma Kernel.Loading.block (h : s.Loading t ino n) (le : n + 512 ≤ MAX_PROGRAM_SIZE) {b : Bufs} {f : Nat → Byte}
    (good : b.Good) (view : b.view = s.bufs.view) (data : ∀ i < 512, f i = s.loadByte ino (n + i)) :
    s.Loading { t with bufs := b, udata := t.udata.store (BitVec.ofNat 16 PROGBASE + BitVec.ofNat 16 n) 512 f } ino
      (n + 512) where
  good := good
  view := view
  iTab := h.iTab
  image i lt := by
    have bound : MAX_PROGRAM_SIZE ≤ 2 ^ 16 := by decide
    have before := h.image i lt
    show (t.udata.store _ 512 f).image i = _
    rw [UData.image_store (by omega) (by omega)]
    split
    · next inside => rw [data _ (by omega), Nat.add_sub_cancel' inside.1, if_pos inside.2]
    · next off =>
      rw [before]
      by_cases low : i < n
      · rw [if_pos low, if_pos (by omega)]
      · rw [if_neg low, if_neg (by omega)]
  outside a far := (UData.user_store_outside le far).trans (h.outside a far)

/-- A hole is passed over. -/
lemma Kernel.Loading.hole (h : s.Loading t ino n) {b : Bufs}
    (good : b.Good) (view : b.view = s.bufs.view) (data : ∀ i < 512, s.udata.image (n + i) = s.loadByte ino (n + i)) :
    s.Loading { t with bufs := b } ino (n + 512) where
  good := good
  view := view
  iTab := h.iTab
  image i lt := by
    have before := h.image i lt
    show t.udata.image i = _
    rw [before]
    by_cases low : i < n
    · rw [if_pos low, if_pos (by omega)]
    · rw [if_neg low]
      split
      · next inside =>
        have here := data (i - n) (by omega)
        rwa [Nat.add_sub_cancel' (Nat.le_of_not_lt low)] at here
      · rfl
  outside := h.outside

/-- A block that has been read is copied and released. -/
lemma Kernel.Loading.wp_copyBlock (h : s.Loading t ino (512 * k)) (le : 512 * k + 512 ≤ MAX_PROGRAM_SIZE)
    (data : ∀ i < 512, (s.cell (s.iTab ino).cDev (s.blockNo ino k)).byte i = s.loadByte ino (512 * k + i))
    {bp : Bufptr} {b : Bufs} (good : b.Good) (free : s.bufs.view.held bp = none)
    (view : b.view = s.bufs.view.hold bp ((s.iTab ino).cDev, s.blockNo ino k)) :
    wp (do
      copyBlock bp (BitVec.ofNat 16 PROGBASE + BitVec.ofNat 16 (512 * k))
      brelse bp)
      (fun _ t' => s.Loading t' ino (512 * (k + 1))) (fun _ => False) { t with bufs := b } := by
  have block : (b.bufpool bp).bfData = s.cell (s.iTab ino).cDev (s.blockNo ino k) := by
    have held : b.view.held bp = some ((s.iTab ino).cDev, s.blockNo ino k) := view ▸ View.held_hold
    rw [good.data held, view]
    rfl
  rw [wp_bind]
  unfold copyBlock
  rw [wp_bind, wp_get, wp_modifyUdata]
  simp only [Kernel.buf, block]
  refine wp_post (wp_brelse_hold good free view) fun _ t' got => ?_
  obtain ⟨b', rfl, good', view'⟩ := got
  rw [Nat.mul_succ]
  exact h.block le good' view' data

/-- A round of the loop. -/
lemma wp_exec2Round (h : s.Loading t ino (512 * k)) (idle : ∀ i, s.bufs.view.held i = none)
    (hdev : (s.iTab ino).cDev < NDEVS) (mode : (s.iTab ino).getmode ≠ F_BDEV) (pos : 0 < k)
    (le : 512 * k + 512 ≤ MAX_PROGRAM_SIZE) :
    wp (exec2Round ino (BitVec.ofNat 16 k) (BitVec.ofNat 16 PROGBASE + BitVec.ofNat 16 (512 * k)))
      (fun _ t' => s.Loading t' ino (512 * (k + 1))) (fun _ => False) t := by
  have held : ∀ i, t.bufs.view.held i = none := h.view ▸ idle
  have cells : t.cell (s.iTab ino).cDev = s.cell (s.iTab ino).cDev := Kernel.cell_of_view h.view
  have here : ∀ i < 512, (512 * k + i) / 512 = k ∧ (512 * k + i) % 512 = i := fun i lt => by omega
  unfold exec2Round
  rw [wp_bind]
  have map := @wp_bmap_read ino (BitVec.ofNat 16 k) t h.good held (h.iTab ▸ hdev) (h.iTab ▸ mode)
  rw [h.iTab, cells] at map
  refine wp_post map fun r t₁ got => ?_
  obtain ⟨⟨b, rfl, good, view⟩, rfl⟩ := got
  have dev : (({ t with bufs := b } : Kernel).iTab ino).cDev = (s.iTab ino).cDev :=
    congrArg (fun iTab : Inoptr → Cinode => (iTab ino).cDev) h.iTab
  have view₁ : b.view = s.bufs.view := view.trans h.view
  rw [wp_ite]
  split
  · next there =>
    rw [wp_bind, wp_get, wp_bind, dev]
    have idle₁ : ∀ i, b.view.held i = none := view₁ ▸ idle
    refine wp_mono (wp_breadPtr good hdev) ?_ fun _ stop => View.not_stops_of_idle idle₁ (by decide) stop
    rintro bp _ ⟨b₂, rfl, good₂, free, view₂⟩
    refine (h.wp_copyBlock le (fun i lt => ?_) good₂ (view₁ ▸ free) (view₁ ▸ view₂))
    rw [Kernel.loadByte, (here i lt).1, (here i lt).2, if_neg fun hole => there hole.2]
  · next hole =>
    rw [wp_pure, Nat.mul_succ]
    refine h.hole good view₁ fun i lt => ?_
    rw [Kernel.loadByte, (here i lt).1, if_pos ⟨by omega, not_not.mp hole⟩]

/-- The number of bytes that are loaded. -/
def Kernel.extent (s : Kernel) (ino : Inoptr) : Nat := 512 * ((s.iTab ino).cNode.iSize.oBlkno.toNat + 1)

/-- The loop of `exec2` loads the blocks up to the one with the end of the file. -/
lemma wp_exec2Loop {rounds : Nat} (h : s.Loading t ino (512 * k)) (idle : ∀ i, s.bufs.view.held i = none)
    (hdev : (s.iTab ino).cDev < NDEVS) (mode : (s.iTab ino).getmode ≠ F_BDEV)
    (size : (s.iTab ino).cNode.iSize.oBlkno.toNat < MAX_PROGRAM_SIZE / 512) (pos : 0 < k)
    (le : k ≤ (s.iTab ino).cNode.iSize.oBlkno.toNat + 1)
    (enough : (s.iTab ino).cNode.iSize.oBlkno.toNat + 1 < k + rounds) :
    wp (exec2Loop ino rounds (BitVec.ofNat 16 k) (BitVec.ofNat 16 PROGBASE + BitVec.ofNat 16 (512 * k)))
      (fun r t' => s.Loading t' ino (s.extent ino) ∧ r = BitVec.ofNat 16 PROGBASE + BitVec.ofNat 16 (s.extent ino))
      (fun _ => False) t := by
  have max : MAX_PROGRAM_SIZE = 512 * 32 := by decide
  induction rounds generalizing k t with
  | zero => omega
  | succ rounds ih =>
    have number : (BitVec.ofNat 16 k).toNat = k := by
      rw [BitVec.toNat_ofNat, Nat.mod_eq_of_lt (by omega)]
    have again : BitVec.ofNat 16 k ≤ (s.iTab ino).cNode.iSize.oBlkno ↔ k ≤ (s.iTab ino).cNode.iSize.oBlkno.toNat := by
      rw [BitVec.le_def, number]
    rw [exec2Loop, wp_bind, wp_get, wp_ite, h.iTab]
    split
    · next more =>
      have more := again.mp more
      have next : BitVec.ofNat 16 k + 1 = BitVec.ofNat 16 (k + 1) := (BitVec.ofNat_add ..).symm
      have place : BitVec.ofNat 16 PROGBASE + BitVec.ofNat 16 (512 * k) + 512 =
          BitVec.ofNat 16 PROGBASE + BitVec.ofNat 16 (512 * (k + 1)) := by
        rw [Nat.mul_succ, BitVec.ofNat_add, BitVec.add_assoc]
        rfl
      rw [wp_bind, next, place]
      refine wp_post (wp_exec2Round h idle hdev mode pos (by omega)) fun _ t₁ h₁ => ?_
      exact ih h₁ (Nat.succ_pos k) (by omega) (by omega)
    · next done =>
      have e : k = (s.iTab ino).cNode.iSize.oBlkno.toNat + 1 := by
        have past := mt again.mpr done
        omega
      rw [wp_pure, Kernel.extent, ← e]
      exact ⟨h, rfl⟩

/-- The program has been loaded, and zeros behind it. -/
structure Kernel.Loaded (s t : Kernel) (ino : Inoptr) : Prop where
  image : ∀ i < MAX_PROGRAM_SIZE, t.udata.image i = if i < s.extent ino then s.loadByte ino i else 0
  outside : ∀ a : Word, MAX_PROGRAM_SIZE ≤ (a - BitVec.ofNat 16 PROGBASE).toNat → t.udata.user a = s.udata.user a

/-- A relation for what leaves the memory of the process alone. -/
instance sameMem : Quiet fun s t : Kernel => t.udata.mem = s.udata.mem where
  refl _ := rfl
  trans _ _ _ h h' := h'.trans h
  bufs _ _ := rfl
  fsTab _ _ _ _ := rfl
  error _ _ := rfl
  iTab _ _ := rfl
  nexti _ _ := rfl
  woken _ _ := rfl

/-- `i_deref` leaves the memory alone, if it returns. -/
lemma wp_iDeref_mem :
    wp (iDeref ino) (fun _ t' => t'.udata.mem = t.udata.mem) (fun e => ∃ t, iDeref ino t = .error e) t := by
  have within : Within (fun s t : Kernel => t.udata.mem = s.udata.mem) (fun _ => True) (iDeref ino) := Quiet.iDeref
  have kept := within t
  unfold wp at *
  cases run : iDeref ino t with
  | ok r =>
    rw [run] at kept
    exact kept
  | error e => exact ⟨t, run⟩

/-- `exec2` up to the arguments. -/
lemma wp_exec2Image (h : s.Loading t ino 512) (idle : ∀ i, s.bufs.view.held i = none)
    (hdev : (s.iTab ino).cDev < NDEVS) (mode : (s.iTab ino).getmode ≠ F_BDEV)
    (size : (s.iTab ino).cNode.iSize.oBlkno.toNat < MAX_PROGRAM_SIZE / 512) :
    wp (exec2Image ino) (fun _ t' => s.Loaded t' ino) (fun e => ∃ t, iDeref ino t = .error e) t := by
  have max : MAX_PROGRAM_SIZE = 512 * 32 := by decide
  have loop := wp_exec2Loop (k := 1) h idle hdev mode size Nat.one_pos (by omega)
    (by omega : _ < 1 + 2 ^ 16)
  unfold exec2Image
  rw [wp_bind]
  refine wp_mono loop (fun r t₁ got => ?_) fun _ => False.elim
  obtain ⟨h₁, rfl⟩ := got
  rw [wp_bind]
  refine wp_post wp_iDeref_mem fun _ t₂ mem => ?_
  have extent : s.extent ino ≤ MAX_PROGRAM_SIZE := by
    unfold Kernel.extent
    omega
  have bound : MAX_PROGRAM_SIZE ≤ 2 ^ 16 := by decide
  have top : MMC5_PRG_MODE3_BANK2_START = BitVec.ofNat 16 PROGBASE + BitVec.ofNat 16 MAX_PROGRAM_SIZE := by decide
  have count : (MMC5_PRG_MODE3_BANK2_START - (BitVec.ofNat 16 PROGBASE + BitVec.ofNat 16 (s.extent ino))).toNat =
      MAX_PROGRAM_SIZE - s.extent ino := by
    rw [top, dist_eq extent (by omega)]
  have same : t₂.udata.user = t₁.udata.user := by
    funext a
    exact congrFun mem a.toNat
  rw [wp_modifyUdata, count]
  refine ⟨fun i lt => ?_, fun a far => ?_⟩
  · have before := h₁.image i lt
    show (t₂.udata.store _ _ _).image i = _
    rw [UData.image_store (by omega) (by omega)]
    split
    · next behind => rw [if_neg (by omega)]
    · next inside =>
      have low : i < s.extent ino := by omega
      rw [if_pos low] at before ⊢
      rw [← before, UData.image, same, UData.image]
  · refine (UData.user_store_outside (by omega) far).trans ?_
    rw [same, h₁.outside a far]

/-- An executable is no block device. -/
lemma Kernel.Executable.not_bdev (h : s.Executable ino) : (s.iTab ino).getmode ≠ F_BDEV := by
  intro e
  have mask : F_REG = F_MASK &&& F_REG := by decide
  have e : (s.iTab ino).cNode.iMode &&& F_MASK = F_BDEV := e
  have none : (s.iTab ino).cNode.iMode &&& F_REG = 0 := by
    rw [mask, ← BitVec.and_assoc, e]
    decide
  exact h.regular none

/-- The ids of the process. -/
lemma wp_setIds {E : Panic → Prop} :
    wp (setIds ino) (fun _ t' => ∃ u, t' = t.withUdata u ∧ u.mem = t.udata.mem) E t :=
  ⟨_, rfl, rfl⟩

/-- `_execve` runs the program if its first byte is the magic one, and then loads it. -/
lemma wp_loadProgram (good : s.bufs.Good) (idle : ∀ i, s.bufs.view.held i = none)
    (hdev : (s.iTab ino).cDev < NDEVS) (exec : s.Executable ino) :
    wp (loadProgram ino)
      (fun r t => r = true → (s.cell (s.iTab ino).cDev (s.blockNo ino 0)).byte 0 = EMAGIC ∧ s.Loaded t ino)
      (fun e => ∃ t, iDeref ino t = .error e) s := by
  unfold loadProgram
  rw [wp_bind]
  refine wp_mono (wp_bmap_read good idle hdev exec.not_bdev) ?_ fun _ => False.elim
  rintro _ _ ⟨⟨b, rfl, good₁, view⟩, rfl⟩
  rw [wp_bind, wp_get, wp_bind]
  refine wp_mono (wp_breadPtr good₁ hdev) ?_ fun _ stop =>
    (View.not_stops_of_idle (view ▸ idle : ∀ i, b.view.held i = none) (by decide) stop).elim
  rintro bp _ ⟨b₂, rfl, good₂, free, view₂⟩
  have free : s.bufs.view.held bp = none := view ▸ free
  have view₂ : b₂.view = s.bufs.view.hold bp ((s.iTab ino).cDev, s.blockNo ino 0) := view ▸ view₂
  have first : (b₂.bufpool bp).bfData = s.cell (s.iTab ino).cDev (s.blockNo ino 0) := by
    have held : b₂.view.held bp = some ((s.iTab ino).cDev, s.blockNo ino 0) := view₂ ▸ View.held_hold
    rw [good₂.data held, view₂]
    rfl
  rw [wp_bind, wp_get, wp_ite]
  simp only [Kernel.buf, first]
  split
  · next other =>
    unfold setError
    rw [wp_bind, wp_modify, wp_bind]
    refine wp_mono (wp_brelse_hold good₂ free view₂) (fun _ t₁ _ => ?_) fun _ => False.elim
    rw [wp_bind]
    exact wp_post wp_iDeref_mem fun _ _ _ no => absurd no Bool.false_ne_true
  · next magic =>
    rw [wp_bind]
    refine wp_mono (wp_setIds (E := fun _ => False)) ?_ fun _ => False.elim
    rintro _ _ ⟨u, rfl, mem⟩
    have max : MAX_PROGRAM_SIZE = 512 * 32 := by decide
    have base : BitVec.ofNat 16 PROGBASE + BitVec.ofNat 16 (512 * 0) = BitVec.ofNat 16 PROGBASE := by decide
    have start : s.Loading (s.withUdata u) ino (512 * 0) := by
      have same : u.user = s.udata.user := funext fun a => congrFun mem a.toNat
      refine ⟨good, rfl, rfl, fun i _ => ?_, fun a _ => congrFun same a⟩
      rw [if_neg (Nat.not_lt_zero i)]
      exact congrFun same _
    have data : ∀ i < 512, (s.cell (s.iTab ino).cDev (s.blockNo ino 0)).byte i = s.loadByte ino (512 * 0 + i) := by
      intro i lt
      have zero : (512 * 0 + i) / 512 = 0 := by omega
      have place : (512 * 0 + i) % 512 = i := by omega
      rw [Kernel.loadByte, zero, place, if_neg (by omega)]
    have copied := start.wp_copyBlock (by omega) data good₂ free view₂
    rw [base, wp_bind] at copied
    rw [wp_bind]
    refine wp_mono copied (fun _ t₁ released => ?_) fun _ => False.elim
    rw [wp_bind]
    refine wp_mono released (fun _ t₂ loading => ?_) fun _ => False.elim
    rw [wp_bind]
    refine wp_post (wp_exec2Image loading idle hdev exec.not_bdev exec.size) fun _ t₃ loaded _ => ?_
    exact ⟨not_not.mp magic, loaded⟩

/-! ## The image is the file -/

/-- The memory of the program holds the file and zeros behind it, and the rest is as before. -/
structure Kernel.Imaged (s t : Kernel) (ino : Inoptr) : Prop where
  image : ∀ i < MAX_PROGRAM_SIZE,
    t.udata.image i = if i < (s.iTab ino).cNode.iSize.val then s.fileByte ino i else 0
  outside : ∀ a : Word, MAX_PROGRAM_SIZE ≤ (a - BitVec.ofNat 16 PROGBASE).toNat → t.udata.user a = s.udata.user a

/-- The file has a first block, the memory is zero where a block up to the one with the end of the file has
no number, and the file has zeros behind its end (and, should its size not be normalised, behind its last
block). -/
structure Kernel.Clean (s : Kernel) (ino : Inoptr) : Prop where
  first : s.blockNo ino 0 ≠ NULLBLK
  holes : ∀ i < s.extent ino, s.blockNo ino (i / 512) = NULLBLK → s.udata.image i = 0
  tail : ∀ i < s.extent ino, (s.iTab ino).cNode.iSize.val ≤ i → s.fileByte ino i = 0
  beyond : ∀ i < MAX_PROGRAM_SIZE, s.extent ino ≤ i → i < (s.iTab ino).cNode.iSize.val → s.fileByte ino i = 0

/-- The image is not larger than the memory. -/
lemma Kernel.extent_le (size : (s.iTab ino).cNode.iSize.oBlkno.toNat < MAX_PROGRAM_SIZE / 512) :
    s.extent ino ≤ MAX_PROGRAM_SIZE := by
  have max : MAX_PROGRAM_SIZE = 512 * 32 := by decide
  unfold Kernel.extent
  omega

/-- A byte in a hole. -/
lemma Kernel.fileByte_hole {i : Nat} (hole : s.blockNo ino (i / 512) = NULLBLK) : s.fileByte ino i = 0 := if_pos hole

/-- Behind the first block the code loads what the file has, but for the holes. -/
lemma Kernel.loadByte_eq (first : s.blockNo ino 0 ≠ NULLBLK) {i : Nat} :
    s.loadByte ino i = if s.blockNo ino (i / 512) = NULLBLK then s.udata.image i else s.fileByte ino i := by
  unfold Kernel.loadByte Kernel.fileByte
  by_cases hole : s.blockNo ino (i / 512) = NULLBLK
  · have behind : 512 ≤ i := by
      by_contra low
      rw [Nat.div_eq_of_lt (by omega)] at hole
      exact first hole
    rw [if_pos ⟨behind, hole⟩, if_pos hole]
  · rw [if_neg fun both => hole both.2, if_neg hole, if_neg hole]

/-- The image is the file if and only if nothing of the old memory shows. -/
lemma Kernel.Loaded.imaged_iff (h : s.Loaded t ino)
    (magic : (s.cell (s.iTab ino).cDev (s.blockNo ino 0)).byte 0 = EMAGIC)
    (size : (s.iTab ino).cNode.iSize.oBlkno.toNat < MAX_PROGRAM_SIZE / 512) : s.Imaged t ino ↔ s.Clean ino := by
  have extent : s.extent ino ≤ MAX_PROGRAM_SIZE := Kernel.extent_le size
  constructor
  · intro imaged
    have first : s.blockNo ino 0 ≠ NULLBLK := by
      intro hole
      have some : 0 < s.extent ino := Nat.succ_pos _
      have byte : s.loadByte ino 0 = EMAGIC := by
        rw [Kernel.loadByte, if_neg (by omega)]
        exact magic
      have got := (h.image 0 (by omega)).symm.trans (imaged.image 0 (by omega))
      rw [if_pos some, byte, Kernel.fileByte_hole hole, ite_self] at got
      exact absurd got (by decide)
    refine ⟨first, fun i lt hole => ?_, fun i lt le => ?_, fun i lt le le' => ?_⟩
    · have got := (h.image i (by omega)).symm.trans (imaged.image i (by omega))
      rw [if_pos lt, Kernel.loadByte_eq first, if_pos hole, Kernel.fileByte_hole hole, ite_self] at got
      exact got
    · have got := (h.image i (by omega)).symm.trans (imaged.image i (by omega))
      rw [if_pos lt, Kernel.loadByte_eq first, if_neg (Nat.not_lt.mpr le)] at got
      split at got
      · next hole => exact Kernel.fileByte_hole hole
      · exact got
    · have got := (h.image i lt).symm.trans (imaged.image i lt)
      rw [if_neg (Nat.not_lt.mpr le), if_pos le'] at got
      exact got.symm
  · intro clean
    refine ⟨fun i lt => ?_, h.outside⟩
    rw [h.image i lt]
    split
    · next inside =>
      rw [Kernel.loadByte_eq clean.first]
      split
      · next hole => rw [clean.holes i inside hole, Kernel.fileByte_hole hole, ite_self]
      · split
        · rfl
        · next le => exact clean.tail i inside (Nat.le_of_not_lt le)
    · next behind =>
      split
      · next le => exact (clean.beyond i lt (Nat.le_of_not_lt behind) le).symm
      · rfl

/-- The program in memory is the file if and only if the memory was zero in its holes, the last block
included, and the file has zeros behind its end. -/
theorem loadProgram_image (good : s.bufs.Good) (idle : ∀ i, s.bufs.view.held i = none)
    (hdev : (s.iTab ino).cDev < NDEVS) (exec : s.Executable ino) :
    wp (loadProgram ino) (fun r t => r = true → (s.Imaged t ino ↔ s.Clean ino))
      (fun e => ∃ t, iDeref ino t = .error e) s :=
  wp_post (wp_loadProgram good idle hdev exec) fun _ _ got run => (got run).2.imaged_iff (got run).1 exec.size

end Load

/-- A disk whose block 5 begins with the magic byte. -/
def magicDisk (_dev : Nat) (blk : Word) : Block := if blk = 5 then Block.zero.setWord 0 0x4c else Block.zero

/-- A program of 512 bytes, in block 5 of device 0, and a memory full of `c`. -/
def oneBlock (c : Byte) : Kernel :=
  { Kernel.inited magicDisk with
    iTab := fun _ =>
      ⟨CMAGIC, 0, 2,
        ⟨F_REG ||| 0o555, 1, 0, 0, ⟨1, 0⟩, ⟨0, 0⟩, ⟨0, 0⟩, ⟨0, 0⟩, fun i => if i.val = 0 then 5 else 0⟩, 2, false⟩
    udata := { UData.zero with mem := fun _ => c } }

/-- Whether a run has returned `true`. -/
def returnsTrue : Except Panic (Bool × Kernel) → Bool
  | .ok (r, _) => r
  | .error _ => false

section OneBlock

variable {c : Byte}

/-- The program has been loaded. -/
lemma runs_oneBlock (returns : returnsTrue (loadProgram 0 (oneBlock c)) = true) :
    ∃ t, loadProgram 0 (oneBlock c) = .ok (true, t) := by
  unfold returnsTrue at returns
  split at returns
  · next r t run => exact ⟨t, returns ▸ run⟩
  · cases returns

/-- The file of one block is an executable. -/
lemma executable_oneBlock : (oneBlock c).Executable 0 where
  size := by exact (by decide : (1 : Word).toNat < MAX_PROGRAM_SIZE / 512)
  perm := by exact (by decide : (0o7 : Word) &&& OTH_EX ≠ 0)
  regular := by exact (by decide : (F_REG ||| 0o555) &&& F_REG ≠ 0)
  mode := by exact (by decide : (F_REG ||| 0o555) &&& (OWN_EX ||| OTH_EX ||| GRP_EX) ≠ 0)

/-- Its buffers are good. -/
lemma good_oneBlock : (oneBlock c).bufs.Good := (@Bufs.good_inited magicDisk).1

/-- Its buffers are not held. -/
lemma idle_oneBlock : ∀ i, (oneBlock c).bufs.view.held i = none :=
  congrFun (congrArg View.held (@Bufs.good_inited magicDisk).2)

end OneBlock

/-- In a memory of zeros the program is loaded as it is. -/
theorem loadProgram_image_oneBlock : ∃ t, loadProgram 0 (oneBlock 0) = .ok (true, t) ∧ (oneBlock 0).Imaged t 0 := by
  obtain ⟨t, run⟩ := runs_oneBlock (c := 0) (by decide +kernel)
  have executable : (oneBlock 0).Executable 0 := executable_oneBlock
  have image := loadProgram_image good_oneBlock idle_oneBlock (by decide) executable
  have clean : (oneBlock 0).Clean 0 := by
    refine ⟨by exact (by decide : (5 : Word) ≠ NULLBLK), fun _ _ _ => rfl, fun i lt le => ?_, fun i _ le lt => ?_⟩
    · have second : i / 512 = 1 := by
        have extent : (oneBlock 0).extent 0 = 1024 := rfl
        have size : ((oneBlock 0).iTab 0).cNode.iSize.val = 512 := rfl
        omega
      exact Kernel.fileByte_hole (by rw [second]; rfl)
    · have extent : (oneBlock 0).extent 0 = 1024 := rfl
      have size : ((oneBlock 0).iTab 0).cNode.iSize.val = 512 := rfl
      omega
  exact ⟨t, run, (image.ok run rfl).mpr clean⟩

/-- Behind a program of 512 bytes there are 512 bytes of the program before it. -/
theorem not_loadProgram_image : ¬ ∀ {s t : Kernel} {ino : Inoptr}, s.bufs.Good → (∀ i, s.bufs.view.held i = none) →
    (s.iTab ino).cDev < NDEVS → s.Executable ino → loadProgram ino s = .ok (true, t) → s.Imaged t ino := by
  intro imaged
  obtain ⟨t, run⟩ := runs_oneBlock (c := 0xff) (by decide +kernel)
  have executable : (oneBlock 0xff).Executable 0 := executable_oneBlock
  obtain ⟨magic, loaded⟩ := (wp_loadProgram good_oneBlock idle_oneBlock (by decide) executable).ok run rfl
  have clean := (loaded.imaged_iff magic executable.size).mp
    (imaged good_oneBlock idle_oneBlock (by decide) executable run)
  have hole : (oneBlock 0xff).blockNo 0 1 = NULLBLK := rfl
  have byte := clean.holes 512 (by decide) hole
  exact absurd byte (by decide)

end Uzi
