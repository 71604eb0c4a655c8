import Uzi.Fs.Ownership
import Uzi.Fs.Rw
import Uzi.Lib.Memory

/-!
# The arguments of a program

`wargs` and `rargs` of `kernel/scall2.c`: the strings of an argument vector are put one behind the
other into a block of the swap device, and laid out again below an address, with the vector below
them. An address of a process is a `Word`, and a pointer has two bytes.
-/

namespace Uzi
open Exec Memory

/-- The swap block of the arguments. -/
def ARGBLK : Word := 0
/-- The swap block of the environment. -/
def ENVBLK : Word := 1

/-! ## The memory of a process -/

/-- The memory of the process, by its addresses. -/
def UData.user (u : UData) (p : Word) : Byte := u.mem p.toNat

/-- The memory with `n` bytes from `p` on replaced. -/
def UData.store (u : UData) (p : Word) (n : Nat) (f : Nat → Byte) : UData :=
  { u with mem := fun a => if a < 2 ^ 16 then Memory.store u.user p n f (BitVec.ofNat 16 a) else u.mem a }

/-- The pointer at an address, its low byte first. -/
def pointerAt (m : Word → Byte) (p : Word) : Word := m (p + 1) ++ m p

/-- `*p = v`. -/
def UData.storePointer (u : UData) (p v : Word) : UData :=
  u.store p 2 fun i => if i = 0 then v.setWidth 8 else (v >>> 8).setWidth 8

/-- The loop of `strlen`, or `none` if there is no terminator in sight. -/
def strlenLoop (m : Word → Byte) (p : Word) : (rounds : Nat) → Option Nat
  | 0 => none
  | rounds + 1 => if m p = 0 then some 0 else (strlenLoop m (p + 1) rounds).map (· + 1)

/-- `strlen`, which takes a null pointer for an empty string. -/
def strlen (m : Word → Byte) (p : Word) : Option Nat :=
  if p = 0 then some 0 else strlenLoop m p (2 ^ 16)

/-! ## The block of the arguments

The words of `struct s_argblk` are `a_argc`, `a_arglen` and `a_envc`; `a_buf` begins at byte 6.
-/

/-- The block of the swap device for the arguments. -/
def Kernel.argblk (s : Kernel) (blk : Word) : Word := (s.ptab s.udata.uPtab).pSwap + blk

/-- `*bufp++ = c`, with `bufp` counted from `a_buf`. -/
def putArg (argbuf : Bufptr) (bufp : Nat) (c : Byte) : K PUnit := do
  if 506 ≤ bufp then throw .undefined
  else fill argbuf (((← get).buf argbuf).bfData.setBytes (6 + bufp) 1 fun _ => c)

/-- The loop of `wargs` over the bytes of a string: where the next string goes, or `none` if they are
too many. -/
def wargsString (argbuf : Bufptr) : (rounds : Nat) → Word → Nat → K (Option Nat)
  | 0, _, _ => throw .hang
  | rounds + 1, ptr, bufp => do
    let c := (← get).udata.user ptr
    putArg argbuf bufp c
    if 500 ≤ bufp + 1 then pure none
    else if c = 0 then pure (some (bufp + 1))
    else wargsString argbuf rounds (ptr + 1) (bufp + 1)

/-- The loop of `wargs` over the strings: how many there are and their length, or `none` if they are too
long. -/
def wargsLoop (argbuf : Bufptr) (argv : Word) : (rounds : Nat) → Nat → Nat → K (Option (Nat × Nat))
  | 0, _, _ => throw .hang
  | rounds + 1, j, bufp => do
    let ptr := pointerAt (← get).udata.user (argv + BitVec.ofNat 16 (2 * j))
    if ptr = 0 then pure (some (j, bufp))
    else do
      match ← wargsString argbuf 500 ptr bufp with
      | none => pure none
      | some bufp => wargsLoop argbuf argv rounds (j + 1) bufp

/-- `wargs`. -/
def wargs (argv blk : Word) : K Word := do
  let argbuf ← breadPtr SWAPDEV ((← get).argblk blk) 2
  match ← wargsLoop argbuf argv 501 0 0 with
  | none => do
    setError .e2big
    let _ ← bfree argbuf 1
    pure 1
  | some (j, arglen) => do
    let x := ((← get).buf argbuf).bfData
    fill argbuf ((x.setWord 0 (BitVec.ofNat 16 j)).setWord 1 (BitVec.ofNat 16 arglen))
    let _ ← bfree argbuf 1
    pure 0

/-- A round of the loop of `rargs` over the vector. -/
def rargsRound (argv : Word) (n : Nat) : K PUnit := do
  let u := (← get).udata
  let prev := pointerAt u.user (argv + BitVec.ofNat 16 (2 * (n - 1)))
  match strlen u.user prev with
  | none => throw .hang
  | some len =>
    modifyUdata fun u => u.storePointer (argv + BitVec.ofNat 16 (2 * n)) (prev + BitVec.ofNat 16 len + 1)

/-- `bcopy(a_buf, ptr, a_arglen)`, if there is anything to copy. -/
def copyStrings (x : Block) (ptr arglen : Word) : K PUnit := do
  if arglen = 0 then pure ⟨⟩
  else if 506 < arglen.toNat then throw .undefined
  else modifyUdata fun u => u.store ptr arglen.toNat fun i => x.byte (6 + i)

/-- `rargs`: the address of the vector, and what is stored through `cnt`. -/
def rargs (ptr blk : Word) : K (Word × Word) := do
  let argbuf ← breadPtr SWAPDEV ((← get).argblk blk) 0
  let x := ((← get).buf argbuf).bfData
  let argc := x.word 0
  let arglen := x.word 1
  let ptr := ptr - arglen
  copyStrings x ptr arglen
  let argv := ptr - 2 * (argc + 1)
  modifyUdata fun u => u.storePointer argv ptr
  each (List.range' 1 (argc.toInt - 1).toNat) (rargsRound argv)
  modifyUdata fun u => u.storePointer (argv + 2 * argc) 0
  brelse argbuf
  pure (argv, argc)

/-- `wargs(argv, ARGBLK) || wargs(envp, ENVBLK)`, as in `_execve`. -/
def gatherArgs (argv envp : Word) : K Bool := do
  if (← wargs argv ARGBLK) ≠ 0 then pure true
  else pure ((← wargs envp ENVBLK) ≠ 0)

/-- The calls of `rargs` in `exec2`: `argv`, `argc` and `envp`. -/
def placeArgs (ptr : Word) : K (Word × Word × Word) := do
  let (argv, argc) ← rargs ptr ARGBLK
  let (envp, _) ← rargs argv ENVBLK
  pure (argv, argc, envp)

/-! ## Argument vectors -/

/-- The bytes of a string, its terminator included. -/
def CStr.text (c : CStr) : List Byte := (List.range c.len).map c.chr

/-- At `argv` is a vector of pointers to the strings, with a null pointer behind them. -/
def ArgsAt (m : Word → Byte) : Word → List CStr → Prop
  | argv, [] => pointerAt m argv = 0
  | argv, c :: cs => Lies m (pointerAt m argv) (c.text ++ [0]) ∧ ArgsAt m (argv + 2) cs

/-- The first `n` pointers of a vector are not null. -/
def NonNull (m : Word → Byte) (argv : Word) (n : Nat) : Prop :=
  ∀ j < n, pointerAt m (argv + BitVec.ofNat 16 (2 * j)) ≠ 0

/-- The pointers behind the first one. -/
lemma NonNull.tail {m : Word → Byte} {argv : Word} {n : Nat} (h : NonNull m argv (n + 1)) : NonNull m (argv + 2) n := by
  intro j lt
  have next : argv + BitVec.ofNat 16 (2 * (j + 1)) = argv + 2 + BitVec.ofNat 16 (2 * j) := by
    rw [Nat.mul_add, Nat.add_comm, BitVec.ofNat_add, BitVec.add_assoc]
    rfl
  exact next ▸ h (j + 1) (Nat.succ_lt_succ lt)

/-- The strings one behind the other. -/
def argBytes (args : List CStr) : List Byte := args.flatMap fun c => c.text ++ [0]

/-! ## Putting the strings into the block -/

section Pack

variable {s : Kernel} {bp : Bufptr} {x : Block} {l t : List Byte} {b : Byte} {ptr argv : Word} {args : List CStr}

/-- The kernel with other data in a buffer. -/
def Kernel.filled (s : Kernel) (bp : Bufptr) (x : Block) : Kernel := { s with bufs := s.bufs.fill bp x }

/-- A character is put into the buffer. -/
lemma wp_putArg {k : Nat} {c : Byte} {Q : PUnit → Kernel → Prop} {E : Panic → Prop} (room : k < 506) :
    wp (putArg bp k c) Q E (s.filled bp x) ↔ Q ⟨⟩ (s.filled bp (x.setBytes (6 + k) 1 fun _ => c)) := by
  unfold putArg
  rw [wp_ite, if_neg (Nat.not_le.mpr room), wp_bind, wp_get, wp_fill]
  simp only [Kernel.filled, Kernel.buf, Bufs.fill, Bufs.bufpool_set, Function.update_self, Bufs.set_set]

/-- One more byte behind those that are there. -/
lemma lies_setBytes (h : Lies x.byte 6 l) (room : l.length < 506) :
    Lies (x.setBytes (6 + l.length) 1 fun _ => b).byte 6 (l ++ [b]) := by
  refine lies_append.mpr ⟨h.congr fun i lt => ?_, ?_, trivial⟩
  · rw [Nat.cast_id, byte_setBytes (by omega), if_neg (by omega)]
  · rw [Nat.cast_id, byte_setBytes (by omega), if_pos (by omega)]

/-- One round of the loop over a string. -/
lemma wp_wargsString_succ {rounds k : Nat} {Q : Option Nat → Kernel → Prop} {E : Panic → Prop} (room : k < 506)
    (byte : s.udata.user ptr = b) :
    wp (wargsString bp (rounds + 1) ptr k) Q E (s.filled bp x) ↔
      if 500 ≤ k + 1 then Q none (s.filled bp (x.setBytes (6 + k) 1 fun _ => b))
      else if b = 0 then Q (some (k + 1)) (s.filled bp (x.setBytes (6 + k) 1 fun _ => b))
      else wp (wargsString bp rounds (ptr + 1) (k + 1)) Q E (s.filled bp (x.setBytes (6 + k) 1 fun _ => b)) := by
  have same : (s.filled bp x).udata.user ptr = b := byte
  rw [wargsString, wp_bind, wp_get, same, wp_bind, wp_putArg room, wp_ite, wp_ite, wp_pure, wp_pure]

/-- A string is copied behind the bytes `l`, or the buffer is full. -/
lemma wp_wargsString {rounds : Nat} (str : Lies s.udata.user ptr (t ++ [0])) (text : 0 ∉ t) (h : Lies x.byte 6 l)
    (room : l.length < 500) (enough : 500 ≤ l.length + rounds) :
    wp (wargsString bp rounds ptr l.length)
      (fun r s' => ∃ x', s' = s.filled bp x' ∧
        if l.length + (t.length + 1) < 500 then
          r = some (l.length + (t.length + 1)) ∧ Lies x'.byte 6 (l ++ (t ++ [0]))
        else r = none)
      (fun _ => False) (s.filled bp x) := by
  induction t generalizing ptr l x rounds with
  | nil =>
    obtain ⟨rounds, rfl⟩ : ∃ k, rounds = k + 1 := ⟨rounds - 1, by omega⟩
    rw [wp_wargsString_succ (by omega) str.1]
    split
    · next full => exact ⟨_, rfl, by rw [List.length_nil, if_neg (Nat.not_lt.mpr full)]⟩
    · next more =>
      refine ⟨_, rfl, ?_⟩
      rw [List.length_nil, if_pos (Nat.lt_of_not_le more)]
      exact ⟨rfl, lies_setBytes h (by omega)⟩
  | cons b t ih =>
    obtain ⟨rounds, rfl⟩ : ∃ k, rounds = k + 1 := ⟨rounds - 1, by omega⟩
    obtain ⟨first, rest⟩ := str
    obtain ⟨ne, text⟩ := not_or.mp (mt List.mem_cons.mpr text)
    rw [wp_wargsString_succ (by omega) first]
    split
    · next full =>
      rw [List.length_cons]
      exact ⟨_, rfl, by rw [if_neg (by omega)]⟩
    · next more =>
      rw [if_neg (Ne.symm ne)]
      have len : (l ++ [b]).length = l.length + 1 := List.length_append
      have enough : 500 ≤ (l ++ [b]).length + rounds := by omega
      have copied := ih rest text (lies_setBytes h (by omega)) (by omega) enough
      rw [len] at copied
      refine wp_post copied fun r s' got => ?_
      rwa [List.append_assoc, Nat.add_assoc, Nat.add_comm 1] at got

/-- A text has no zero in it. -/
lemma CStr.zero_notMem_text {c : CStr} : 0 ∉ c.text := by
  intro mem
  obtain ⟨i, lt, e⟩ := List.mem_map.mp mem
  exact c.ne_zero i (List.mem_range.mp lt) e

/-- The bytes of one argument more. -/
lemma argBytes_cons {c : CStr} : argBytes (c :: args) = c.text ++ [0] ++ argBytes args := List.flatMap_cons

/-- All strings are copied behind the bytes `l`, or the buffer is full. -/
lemma wp_wargsLoop {rounds j : Nat} (strs : ArgsAt s.udata.user (argv + BitVec.ofNat 16 (2 * j)) args)
    (nonNull : NonNull s.udata.user (argv + BitVec.ofNat 16 (2 * j)) args.length) (h : Lies x.byte 6 l)
    (room : l.length < 500) (enough : 500 < l.length + rounds) :
    wp (wargsLoop bp argv rounds j l.length)
      (fun r s' => ∃ x', s' = s.filled bp x' ∧
        if (l ++ argBytes args).length < 500 then
          r = some (j + args.length, (l ++ argBytes args).length) ∧ Lies x'.byte 6 (l ++ argBytes args)
        else r = none)
      (fun _ => False) (s.filled bp x) := by
  have same : ∀ x, (s.filled bp x).udata.user = s.udata.user := fun _ => rfl
  induction args generalizing j l x rounds with
  | nil =>
    obtain ⟨rounds, rfl⟩ : ∃ k, rounds = k + 1 := ⟨rounds - 1, by omega⟩
    have null : pointerAt s.udata.user (argv + BitVec.ofNat 16 (2 * j)) = 0 := strs
    rw [wargsLoop, wp_bind, wp_get, same, null, wp_ite, if_pos rfl, wp_pure]
    refine ⟨x, rfl, ?_⟩
    rw [argBytes, List.flatMap_nil, List.append_nil, if_pos room]
    exact ⟨rfl, h⟩
  | cons c args ih =>
    obtain ⟨rounds, rfl⟩ : ∃ k, rounds = k + 1 := ⟨rounds - 1, by omega⟩
    obtain ⟨str, strs⟩ := strs
    have there : pointerAt s.udata.user (argv + BitVec.ofNat 16 (2 * j)) ≠ 0 := by
      have first := nonNull 0 (Nat.succ_pos _)
      rwa [Nat.mul_zero, BitVec.ofNat_eq_ofNat, BitVec.add_zero] at first
    have next : argv + BitVec.ofNat 16 (2 * j) + 2 = argv + BitVec.ofNat 16 (2 * (j + 1)) := by
      rw [Nat.mul_add, BitVec.ofNat_add, BitVec.add_assoc]
      rfl
    have len : (l ++ (c.text ++ [0])).length = l.length + (c.text.length + 1) := by
      rw [List.length_append, List.length_append, List.length_singleton]
    have all : (l ++ argBytes (c :: args)).length = l.length + (c.text.length + 1) + (argBytes args).length := by
      rw [argBytes_cons, ← List.append_assoc, List.length_append, len]
    rw [wargsLoop, wp_bind, wp_get, same, wp_ite, if_neg there, wp_bind]
    refine wp_post (wp_wargsString str CStr.zero_notMem_text h room (by omega)) fun r s₁ got => ?_
    obtain ⟨x₁, rfl, got⟩ := got
    split at got
    · next fits =>
      obtain ⟨rfl, h₁⟩ := got
      rw [next] at strs
      have enough : 500 < (l ++ (c.text ++ [0])).length + rounds := by omega
      have copied := ih strs (next ▸ nonNull.tail) h₁ (len ▸ fits) enough
      rw [List.append_assoc, ← argBytes_cons, len, Nat.add_assoc j 1, Nat.add_comm 1] at copied
      exact copied
    · next full =>
      obtain rfl := got
      refine ⟨x₁, rfl, ?_⟩
      rw [if_neg (by omega)]

/-- What the block of the arguments holds. -/
noncomputable def Kernel.argData (s : Kernel) (blk : Word) : Block := s.bufs.view.content (SWAPDEV, s.argblk blk)

/-- The block holds the strings, their number and their length. -/
structure Packed (x : Block) (args : List CStr) : Prop where
  argc : x.word 0 = BitVec.ofNat 16 args.length
  arglen : x.word 1 = BitVec.ofNat 16 (argBytes args).length
  bytes : Lies x.byte 6 (argBytes args)

/-- The bytes beside a word that is set. -/
lemma byte_setWord {i k : Nat} {v : Word} (hi : i < 512) (ne : i / 2 ≠ k) : (x.setWord k v).byte i = x.byte i := by
  unfold Block.byte
  rw [Block.word_setWord (by omega), if_neg ne]

/-- The number and the length are written in front of the strings. -/
lemma packed_setWord (h : Lies x.byte 6 (argBytes args)) (short : (argBytes args).length < 500) :
    Packed ((x.setWord 0 (BitVec.ofNat 16 args.length)).setWord 1 (BitVec.ofNat 16 (argBytes args).length)) args where
  argc := by rw [Block.word_setWord (by decide), if_neg (by decide), Block.word_setWord (by decide), if_pos rfl]
  arglen := by rw [Block.word_setWord (by decide), if_pos rfl]
  bytes := by
    refine h.congr fun i lt => ?_
    rw [Nat.cast_id, byte_setWord (by omega) (by omega), byte_setWord (by omega) (by omega)]

/-- `wargs` packs the strings into the block, unless they are too long. -/
lemma wp_wargs {blk : Word} (good : s.bufs.Good) (strs : ArgsAt s.udata.user argv args)
    (nonNull : NonNull s.udata.user argv args.length) :
    wp (wargs argv blk)
      (fun r s' => ∃ b' x, b'.Good ∧ b'.view = s.bufs.view.put (SWAPDEV, s.argblk blk) x ∧
        if (argBytes args).length < 500 then r = 0 ∧ s' = { s with bufs := b' } ∧ Packed x args
        else r = 1 ∧ s' = { s.withError .e2big with bufs := b' })
      (s.bufs.view.Stops 0 {(SWAPDEV, s.argblk blk)}) s := by
  unfold wargs
  rw [wp_bind, wp_get, wp_bind]
  refine wp_post (wp_breadPtr_rewrite good (by decide)) fun bp s₁ got => ?_
  obtain ⟨b', rfl, pending⟩ := got
  have start : ({ s with bufs := b' } : Kernel) = Kernel.filled { s with bufs := b' } bp (b'.bufpool bp).bfData := by
    simp only [Kernel.filled, Bufs.fill, Bufs.set, Function.update_eq_self]
  have base : argv + BitVec.ofNat 16 (2 * 0) = argv := BitVec.add_zero argv
  rw [wp_bind, start]
  refine wp_mono (wp_wargsLoop (l := []) (base.symm ▸ strs) (base.symm ▸ nonNull) trivial (by decide) (by decide))
    (fun r s₂ got => ?_) fun _ no => no.elim
  obtain ⟨x, rfl, got⟩ := got
  rw [List.nil_append, Nat.zero_add] at got
  split at got
  · next short =>
    obtain ⟨rfl, h⟩ := got
    have packed := packed_setWord h short
    have data : (b'.fill bp x).bufpool bp = { b'.bufpool bp with bfData := x } := Function.update_self ..
    have again : ∀ y, (b'.fill bp x).fill bp y = b'.fill bp y := by
      intro y
      simp only [Bufs.fill, Bufs.bufpool_set, Function.update_self, Bufs.set_set]
    rw [wp_bind, wp_get, wp_bind, wp_fill, wp_bind]
    simp only [Kernel.filled, Kernel.buf, data, again]
    refine wp_mono (wp_bfree_fill (s := { s with bufs := b' }) pending (by decide)) ?_ fun _ no => no.elim
    rintro _ _ ⟨b, rfl, good', view⟩
    refine ⟨b, _, good', view, ?_⟩
    rw [if_pos short]
    exact ⟨rfl, rfl, packed⟩
  · next full =>
    obtain rfl := got
    show wp (setError .e2big >>= fun _ => bfree bp 1 >>= fun _ => pure 1) _ _ _
    unfold setError
    rw [wp_bind, wp_modify, wp_bind]
    refine wp_mono (wp_bfree_fill (s := { s.withError .e2big with bufs := b' }) pending (by decide)) ?_
      fun _ no => no.elim
    rintro _ _ ⟨b, rfl, good', view⟩
    exact ⟨b, x, good', view, by rw [if_neg full]; exact ⟨rfl, rfl⟩⟩

end Pack

/-! ## Laying the strings out -/

section Lay

variable {u : UData} {m : Word → Byte} {p q v : Word} {args : List CStr} {i j k n : Nat}

/-- A store into the memory of the process. -/
lemma UData.user_store {f : Nat → Byte} : (u.store p n f).user = Memory.store u.user p n f := by
  funext a
  have back : BitVec.ofNat 16 a.toNat = a := by rw [BitVec.ofNat_toNat, BitVec.setWidth_eq]
  show (if a.toNat < 2 ^ 16 then _ else _) = _
  rw [if_pos a.isLt, back]

/-- A word from its bytes. -/
lemma word_of_bytes : (v >>> 8).setWidth 8 ++ v.setWidth 8 = v := by
  apply BitVec.eq_of_toNat_eq
  have lt := v.isLt
  rw [BitVec.toNat_append, BitVec.toNat_setWidth, BitVec.toNat_setWidth, BitVec.toNat_ushiftRight,
    ← Nat.shiftLeft_add_eq_or_of_lt (Nat.mod_lt _ (by decide)), Nat.shiftLeft_eq, Nat.shiftRight_eq_div_pow]
  omega

/-- The vector after a pointer has been stored. -/
lemma pointerAt_storePointer (hi : 2 * i + 2 ≤ 2 ^ 16) (hj : 2 * j + 2 ≤ 2 ^ 16) :
    pointerAt (u.storePointer (q + BitVec.ofNat 16 (2 * j)) v).user (q + BitVec.ofNat 16 (2 * i)) =
      if i = j then v else pointerAt u.user (q + BitVec.ofNat 16 (2 * i)) := by
  have next : q + BitVec.ofNat 16 (2 * i) + 1 = q + BitVec.ofNat 16 (2 * i + 1) := by
    rw [BitVec.ofNat_add, BitVec.add_assoc]
    rfl
  unfold pointerAt UData.storePointer
  rw [UData.user_store, next, store_add hj (by omega), store_add hj (by omega)]
  by_cases e : i = j
  · subst e
    have low : 2 * i ≤ 2 * i ∧ 2 * i < 2 * i + 2 := by omega
    have high : 2 * i ≤ 2 * i + 1 ∧ 2 * i + 1 < 2 * i + 2 := by omega
    rw [if_pos rfl, if_pos low, if_pos high, Nat.sub_self, Nat.add_sub_cancel_left, if_neg Nat.one_ne_zero, if_pos rfl]
    exact word_of_bytes
  · rw [if_neg e, if_neg (by omega), if_neg (by omega)]

/-- The rounds of `strlen` count a text. -/
lemma strlenLoop_eq {t : List Byte} {rounds : Nat} (str : Lies m p (t ++ [0])) (text : 0 ∉ t)
    (enough : t.length < rounds) : strlenLoop m p rounds = some t.length := by
  induction t generalizing p rounds with
  | nil =>
    obtain ⟨rounds, rfl⟩ : ∃ k, rounds = k + 1 := ⟨rounds - 1, by omega⟩
    rw [strlenLoop, if_pos str.1, List.length_nil]
  | cons b t ih =>
    obtain ⟨rounds, rfl⟩ : ∃ k, rounds = k + 1 := ⟨rounds - 1, by omega⟩
    obtain ⟨first, rest⟩ := str
    obtain ⟨ne, text⟩ := not_or.mp (mt List.mem_cons.mpr text)
    rw [strlenLoop, first, if_neg (Ne.symm ne), ih rest text (Nat.lt_of_succ_lt_succ enough), Option.map_some,
      List.length_cons]

/-- `strlen` of a string that is not at the null pointer. -/
lemma strlen_eq {t : List Byte} (ne : p ≠ 0) (str : Lies m p (t ++ [0])) (text : 0 ∉ t) (enough : t.length < 2 ^ 16) :
    strlen m p = some t.length := by
  rw [strlen, if_neg ne, strlenLoop_eq str text enough]

/-- The bytes below `ptr` that the strings and the vector take. -/
def argArea (args : List CStr) : Nat := 2 * (args.length + 1) + (argBytes args).length

/-- Every string takes a byte at least. -/
lemma length_le_argBytes : args.length ≤ (argBytes args).length := by
  induction args with
  | nil => exact Nat.zero_le _
  | cons c args ih =>
    rw [argBytes_cons, List.length_append, List.length_append, List.length_singleton, List.length_cons]
    omega

/-- The area is small. -/
lemma argArea_le (short : (argBytes args).length < 500) : argArea args ≤ 1500 := by
  have count : args.length ≤ (argBytes args).length := length_le_argBytes
  unfold argArea
  omega

/-- The strings are behind a vector at `q`, and its first `k` pointers point to them. -/
structure Laid (m : Word → Byte) (q : Word) (args : List CStr) (k : Nat) : Prop where
  strings : Lies m (q + BitVec.ofNat 16 (2 * (args.length + 1))) (argBytes args)
  pointers : ∀ i < k, pointerAt m (q + BitVec.ofNat 16 (2 * i)) =
    q + BitVec.ofNat 16 (2 * (args.length + 1) + (argBytes (args.take i)).length)

/-- The bytes of the arguments of two lists. -/
lemma argBytes_append {args' : List CStr} : argBytes (args ++ args') = argBytes args ++ argBytes args' :=
  List.flatMap_append

/-- A string among the others. -/
lemma argBytes_split (lt : i < args.length) :
    argBytes args = argBytes (args.take i) ++ (args[i].text ++ [0]) ++ argBytes (args.drop (i + 1)) := by
  rw [List.append_assoc, ← argBytes_cons, ← List.drop_eq_getElem_cons lt, ← argBytes_append, List.take_append_drop]

/-- Every string is where its pointer points. -/
lemma Laid.string (h : Laid m q args k) (lt : i < args.length) :
    Lies m (q + BitVec.ofNat 16 (2 * (args.length + 1) + (argBytes (args.take i)).length)) (args[i].text ++ [0]) := by
  have all := h.strings
  rw [argBytes_split lt, lies_append, lies_append] at all
  rw [BitVec.ofNat_add, ← BitVec.add_assoc]
  exact all.1.2

/-- The place of the next string. -/
lemma length_take_succ (lt : i < args.length) :
    (argBytes (args.take (i + 1))).length = (argBytes (args.take i)).length + (args[i].text.length + 1) := by
  rw [List.take_succ_eq_append_getElem lt, argBytes_append, List.length_append, argBytes_cons, List.length_append,
    List.length_append, List.length_singleton]
  rfl

/-- A pointer that is stored behind the first `k` changes neither them nor the strings. -/
lemma Laid.store_behind (h : Laid u.user q args k) (le : k ≤ j) (le' : j ≤ args.length) (fits : argArea args ≤ 2 ^ 16) :
    Laid (u.storePointer (q + BitVec.ofNat 16 (2 * j)) v).user q args k := by
  unfold argArea at fits
  refine ⟨?_, fun i lt => ?_⟩
  · unfold UData.storePointer
    rw [UData.user_store]
    exact h.strings.apart (by omega) (by omega) (by omega)
  · rw [pointerAt_storePointer (by omega) (by omega), if_neg (by omega)]
    exact h.pointers i lt

/-- One more pointer. -/
lemma Laid.succ (h : Laid u.user q args k) (lt : k < args.length) (fits : argArea args ≤ 2 ^ 16)
    (place : v = q + BitVec.ofNat 16 (2 * (args.length + 1) + (argBytes (args.take k)).length)) :
    Laid (u.storePointer (q + BitVec.ofNat 16 (2 * k)) v).user q args (k + 1) := by
  have kept := h.store_behind (v := v) (Nat.le_refl k) (Nat.le_of_lt lt) fits
  unfold argArea at fits
  refine ⟨kept.strings, fun i le => ?_⟩
  cases Nat.lt_succ_iff_lt_or_eq.mp le with
  | inl before => exact kept.pointers i before
  | inr e =>
    subst e
    rw [pointerAt_storePointer (by omega) (by omega), if_pos rfl, place]

/-- A vector pointer by pointer. -/
lemma argsAt_of_getElem
    (strings : ∀ i (lt : i < args.length), Lies m (pointerAt m (q + BitVec.ofNat 16 (2 * i))) (args[i].text ++ [0]))
    (null : pointerAt m (q + BitVec.ofNat 16 (2 * args.length)) = 0) : ArgsAt m q args := by
  induction args generalizing q with
  | nil =>
    have base : q + BitVec.ofNat 16 (2 * 0) = q := BitVec.add_zero q
    exact base ▸ null
  | cons c args ih =>
    have next : ∀ i, q + BitVec.ofNat 16 (2 * (i + 1)) = q + 2 + BitVec.ofNat 16 (2 * i) := by
      intro i
      rw [Nat.mul_add, Nat.add_comm, BitVec.ofNat_add, BitVec.add_assoc]
      rfl
    refine ⟨?_, ih (fun i lt => ?_) ?_⟩
    · have first := strings 0 (Nat.succ_pos _)
      have base : q + BitVec.ofNat 16 (2 * 0) = q := BitVec.add_zero q
      exact base ▸ first
    · exact next i ▸ strings (i + 1) (Nat.succ_lt_succ lt)
    · exact next args.length ▸ null

/-- The vector with all its pointers and the null pointer. -/
lemma Laid.argsAt (h : Laid m q args args.length)
    (null : pointerAt m (q + BitVec.ofNat 16 (2 * args.length)) = 0) : ArgsAt m q args :=
  argsAt_of_getElem (fun i lt => (h.pointers i lt).symm ▸ h.string lt) null

/-- The memory differs in the `n` bytes from `q` on only. -/
structure UData.OnlyIn (u u' : UData) (q : Word) (n : Nat) : Prop where
  rest : u' = { u with mem := u'.mem }
  outside : ∀ a : Word, n ≤ (a - q).toNat → u'.user a = u.user a
  beyond : ∀ a ≥ 2 ^ 16, u'.mem a = u.mem a

/-- The same memory. -/
lemma UData.OnlyIn.refl : u.OnlyIn u q n := ⟨rfl, fun _ _ => rfl, fun _ _ => rfl⟩

/-- One more block in the range is overwritten. -/
lemma UData.OnlyIn.store {u' : UData} {f : Nat → Byte} (h : u.OnlyIn u' q n) (le : j + k ≤ n) (fits : n ≤ 2 ^ 16) :
    u.OnlyIn (u'.store (q + BitVec.ofNat 16 j) k f) q n where
  rest := by
    rw [h.rest]
    rfl
  outside a far := by
    have place : q + BitVec.ofNat 16 (a - q).toNat = a := add_dist
    rw [UData.user_store, ← h.outside a far, ← place, store_add (by omega) (a - q).isLt, if_neg (by omega)]
  beyond a far := by
    show (if a < 2 ^ 16 then _ else _) = _
    rw [if_neg (Nat.not_lt.mpr far), h.beyond a far]

/-- A store of a pointer into the area. -/
lemma UData.OnlyIn.storePointer {u' : UData} (h : u.OnlyIn u' q n) (le : 2 * j + 2 ≤ n) (fits : n ≤ 2 ^ 16) :
    u.OnlyIn (u'.storePointer (q + BitVec.ofNat 16 (2 * j)) v) q n :=
  h.store le fits

/-- The length of a text. -/
lemma CStr.length_text {c : CStr} : c.text.length = c.len := by
  rw [CStr.text, List.length_map, List.length_range]

/-- A pointer behind `q`, before the end of the memory, is not null. -/
lemma add_ne_zero {o : Nat} (pos : 0 < o) (lt : q.toNat + o < 2 ^ 16) : q + BitVec.ofNat 16 o ≠ 0 := by
  intro e
  have place : (q + BitVec.ofNat 16 o).toNat = q.toNat + o := by
    rw [BitVec.toNat_add, BitVec.toNat_ofNat, Nat.mod_eq_of_lt (by omega : o < 2 ^ 16), Nat.mod_eq_of_lt lt]
  have zero : q.toNat + o = 0 := place.symm.trans (congrArg BitVec.toNat e)
  omega

/-- One round of the loop over the vector. -/
lemma wp_rargsRound {s : Kernel} (h : Laid s.udata.user q args k) (pos : 0 < k) (lt : k < args.length)
    (fits : q.toNat + argArea args < 2 ^ 16) (only : u.OnlyIn s.udata q (argArea args)) :
    wp (rargsRound q k)
      (fun _ s' => ∃ u', s' = s.withUdata u' ∧ Laid u'.user q args (k + 1) ∧ u.OnlyIn u' q (argArea args))
      (fun _ => False) s := by
  obtain ⟨i, rfl⟩ : ∃ i, k = i + 1 := ⟨k - 1, by omega⟩
  have lt' : i < args.length := by omega
  have split := congrArg List.length (argBytes_split lt')
  rw [List.length_append, List.length_append, List.length_append, List.length_singleton] at split
  have area := fits
  unfold argArea at area
  have len := strlen_eq (add_ne_zero (by omega) (by omega)) (h.string lt') CStr.zero_notMem_text (by omega)
  unfold rargsRound
  rw [wp_bind, wp_get, Nat.add_sub_cancel]
  simp only [h.pointers i (Nat.lt_succ_self i), len]
  rw [wp_modifyUdata]
  refine ⟨_, rfl, h.succ lt (by omega) ?_, only.store (by unfold argArea; omega) (by omega)⟩
  rw [length_take_succ lt', ← Nat.add_assoc, ← Nat.add_assoc, BitVec.ofNat_add _ 1,
    BitVec.ofNat_add _ args[i].text.length, BitVec.add_assoc, BitVec.add_assoc, BitVec.add_assoc]
  rfl

/-- The loop over the vector. -/
lemma wp_rargsRounds {s : Kernel} (h : Laid s.udata.user q args k) (pos : 0 < k) (all : k + n = args.length)
    (fits : q.toNat + argArea args < 2 ^ 16) (only : u.OnlyIn s.udata q (argArea args)) :
    wp (each (List.range' k n) (rargsRound q))
      (fun _ s' => ∃ u', s' = s.withUdata u' ∧ Laid u'.user q args args.length ∧ u.OnlyIn u' q (argArea args))
      (fun _ => False) s := by
  induction n generalizing s k with
  | zero =>
    obtain rfl : k = args.length := all
    exact ⟨s.udata, rfl, h, only⟩
  | succ n ih =>
    rw [List.range'_succ, each, wp_bind]
    refine wp_post (wp_rargsRound h pos (by omega) fits only) fun _ s₁ got => ?_
    obtain ⟨u₁, rfl, h₁, only₁⟩ := got
    exact ih h₁ (Nat.succ_pos k) (by omega) only₁

/-- The strings of a packed block are copied. -/
lemma wp_copyStrings {s : Kernel} {x : Block} (packed : Packed x args) (short : (argBytes args).length < 500)
    (only : u.OnlyIn s.udata q (argArea args)) :
    wp (copyStrings x (q + BitVec.ofNat 16 (2 * (args.length + 1))) (x.word 1))
      (fun _ s' => ∃ u', s' = s.withUdata u' ∧
        Lies u'.user (q + BitVec.ofNat 16 (2 * (args.length + 1))) (argBytes args) ∧ u.OnlyIn u' q (argArea args))
      (fun _ => False) s := by
  have len : (x.word 1).toNat = (argBytes args).length := by
    rw [packed.arglen, BitVec.toNat_ofNat, Nat.mod_eq_of_lt (by omega)]
  unfold copyStrings
  rw [wp_ite, wp_ite]
  split
  · next none =>
    rw [none] at len
    refine ⟨s.udata, rfl, ?_, only⟩
    rw [List.eq_nil_of_length_eq_zero len.symm]
    trivial
  · rw [if_neg (by omega), len]
    have fits : argArea args ≤ 2 ^ 16 := (argArea_le short).trans (by decide)
    refine ⟨_, rfl, ?_, only.store (Nat.le_refl _) fits⟩
    have bytes : Lies (fun i => x.byte (6 + i)) 0 (argBytes args) := by
      refine lies_iff.mpr fun i lt => ?_
      rw [Nat.zero_add]
      exact lies_iff.mp packed.bytes i lt
    rw [UData.user_store]
    exact lies_store bytes (Nat.le_refl _) (by omega)

/-- The first pointer and the loop. -/
lemma wp_rargsPointers {s : Kernel}
    (strings : Lies s.udata.user (q + BitVec.ofNat 16 (2 * (args.length + 1))) (argBytes args))
    (fits : q.toNat + argArea args < 2 ^ 16) (only : u.OnlyIn s.udata q (argArea args)) :
    wp (do
      modifyUdata fun u => u.storePointer q (q + BitVec.ofNat 16 (2 * (args.length + 1)))
      each (List.range' 1 (args.length - 1)) (rargsRound q))
      (fun _ s' => ∃ u', s' = s.withUdata u' ∧ Laid u'.user q args args.length ∧ u.OnlyIn u' q (argArea args))
      (fun _ => False) s := by
  have base : q + BitVec.ofNat 16 (2 * 0) = q := BitVec.add_zero q
  have laid : Laid s.udata.user q args 0 := ⟨strings, fun i lt => absurd lt (Nat.not_lt_zero i)⟩
  have only' := only.storePointer (j := 0) (v := q + BitVec.ofNat 16 (2 * (args.length + 1)))
    (by unfold argArea; omega) (by omega)
  rw [base] at only'
  rw [wp_bind, wp_modifyUdata]
  cases args with
  | nil =>
    have kept := laid.store_behind (j := 0) (v := q + BitVec.ofNat 16 (2 * 1)) (Nat.le_refl 0) (Nat.le_refl 0) (by omega)
    rw [base] at kept
    exact ⟨_, rfl, kept, only'⟩
  | cons c args =>
    have first := laid.succ (Nat.succ_pos _) (by omega) rfl
    rw [base] at first
    exact wp_rargsRounds first Nat.one_pos (Nat.add_comm ..) fits only'

/-- `rargs` lays the strings of a packed block out below `ptr`. -/
structure Placed (u u' : UData) (ptr argv : Word) (args : List CStr) : Prop where
  below : argv + BitVec.ofNat 16 (argArea args) = ptr
  laid : Laid u'.user argv args args.length
  null : pointerAt u'.user (argv + BitVec.ofNat 16 (2 * args.length)) = 0
  room : argv.toNat + argArea args = ptr.toNat
  only : u.OnlyIn u' argv (argArea args)

/-- `rargs` puts the arguments at their place. -/
lemma wp_rargs {s : Kernel} {ptr blk : Word} (good : s.bufs.Good)
    (packed : Packed (s.argData blk) args) (short : (argBytes args).length < 500)
    (room : argArea args ≤ ptr.toNat) :
    wp (rargs ptr blk)
      (fun r s' => ∃ b' u', s' = { s with bufs := b', udata := u' } ∧ b'.Good ∧ b'.view = s.bufs.view ∧
        r.2 = BitVec.ofNat 16 args.length ∧ Placed s.udata u' ptr r.1 args)
      (s.bufs.view.Stops 0 {(SWAPDEV, s.argblk blk)}) s := by
  have fits : argArea args ≤ 2 ^ 16 := (argArea_le short).trans (by decide)
  have count : args.length ≤ (argBytes args).length := length_le_argBytes
  unfold rargs
  rw [wp_bind, wp_get, wp_bind]
  refine wp_post (wp_breadPtr good (by decide)) fun bp s₁ got => ?_
  obtain ⟨b', rfl, good', idle, view⟩ := got
  have data : (b'.bufpool bp).bfData = s.argData blk := by
    rw [good'.data (n := (SWAPDEV, s.argblk blk)) (view ▸ View.held_hold), view, View.content_hold, Kernel.argData]
  rw [wp_bind, wp_get, wp_bind]
  simp only [Kernel.buf, data]
  generalize s.argData blk = x at packed
  obtain ⟨q, base⟩ : ∃ q, ptr - x.word 1 - 2 * (x.word 0 + 1) = q := ⟨_, rfl⟩
  have vector : BitVec.ofNat 16 (2 * (args.length + 1)) = 2 * (x.word 0 + 1) := by
    rw [packed.argc, BitVec.ofNat_mul, BitVec.ofNat_add]
    rfl
  have top : ptr - x.word 1 = q + BitVec.ofNat 16 (2 * (args.length + 1)) := by
    rw [vector, ← base, BitVec.sub_add_cancel]
  have below : q + BitVec.ofNat 16 (argArea args) = ptr := by
    rw [argArea, BitVec.ofNat_add, ← BitVec.add_assoc, ← top, ← packed.arglen, BitVec.sub_add_cancel]
  have low : q.toNat + argArea args = ptr.toNat := by
    have back : ptr - BitVec.ofNat 16 (argArea args) = q := by rw [← below, BitVec.add_sub_cancel]
    have size : (BitVec.ofNat 16 (argArea args)).toNat = argArea args := by
      rw [BitVec.toNat_ofNat, Nat.mod_eq_of_lt (by omega)]
    rw [← back, BitVec.toNat_sub_of_le (BitVec.le_def.mpr (by omega)), size]
    omega
  have nulls : q + 2 * x.word 0 = q + BitVec.ofNat 16 (2 * args.length) := by
    rw [packed.argc, BitVec.ofNat_mul]
    rfl
  have rounds : ((x.word 0).toInt - 1).toNat = args.length - 1 := by
    rw [packed.argc, BitVec.toInt_eq_toNat_of_lt (by rw [BitVec.toNat_ofNat]; omega), BitVec.toNat_ofNat,
      Nat.mod_eq_of_lt (by omega)]
    omega
  rw [base, top, nulls, rounds]
  refine wp_mono (wp_copyStrings packed short UData.OnlyIn.refl) (fun _ s₂ got => ?_) fun _ no => no.elim
  obtain ⟨u₁, rfl, strings, only₁⟩ := got
  have pointers := wp_rargsPointers (s := { s with bufs := b', udata := u₁ }) strings (by omega) only₁
  rw [wp_bind] at pointers ⊢
  refine wp_mono pointers (fun _ s₃ loop => ?_) fun _ no => no.elim
  rw [wp_bind]
  refine wp_mono loop (fun _ s₄ got => ?_) fun _ no => no.elim
  obtain ⟨u₂, rfl, laid, only₂⟩ := got
  rw [wp_bind, wp_modifyUdata, wp_bind]
  refine wp_mono (wp_brelse_hold good' idle view) (fun _ s₅ got => ?_) fun _ no => no.elim
  obtain ⟨b'', rfl, good'', view''⟩ := got
  have null : pointerAt (u₂.storePointer (q + BitVec.ofNat 16 (2 * args.length)) 0).user
      (q + BitVec.ofNat 16 (2 * args.length)) = 0 := by
    rw [pointerAt_storePointer (by omega) (by omega), if_pos rfl]
  exact ⟨b'', _, rfl, good'', view'', packed.argc, below, laid.store_behind (Nat.le_refl _) (Nat.le_refl _) fits, null,
    low, only₂.storePointer (by unfold argArea; omega) fits⟩

/-- A pointer is where it was when its two bytes are. -/
lemma pointerAt_congr {m' : Word → Byte} {o : Nat} (low : m' (q + BitVec.ofNat 16 o) = m (q + BitVec.ofNat 16 o))
    (high : m' (q + BitVec.ofNat 16 (o + 1)) = m (q + BitVec.ofNat 16 (o + 1))) :
    pointerAt m' (q + BitVec.ofNat 16 o) = pointerAt m (q + BitVec.ofNat 16 o) := by
  have next : q + BitVec.ofNat 16 o + 1 = q + BitVec.ofNat 16 (o + 1) := by
    rw [BitVec.ofNat_add, BitVec.add_assoc]
    rfl
  rw [pointerAt, pointerAt, next, low, high]

/-- The strings and the vector stay where the bytes of their area stay. -/
lemma Laid.congr {m' : Word → Byte} (h : Laid m q args k) (le : k ≤ args.length)
    (same : ∀ o < argArea args, m' (q + BitVec.ofNat 16 o) = m (q + BitVec.ofNat 16 o)) : Laid m' q args k := by
  unfold argArea at same
  refine ⟨h.strings.congr fun i lt => ?_, fun i lt => ?_⟩
  · have place : q + BitVec.ofNat 16 (2 * (args.length + 1)) + BitVec.ofNat 16 i =
        q + BitVec.ofNat 16 (2 * (args.length + 1) + i) := by
      rw [BitVec.ofNat_add, BitVec.add_assoc]
    show m' (q + _ + BitVec.ofNat 16 i) = m (q + _ + BitVec.ofNat 16 i)
    rw [place]
    exact same _ (by omega)
  · exact (pointerAt_congr (same _ (by omega)) (same _ (by omega))).trans (h.pointers i lt)

namespace Placed

variable {u' : UData} {ptr argv : Word} (h : Placed u u' ptr argv args)

include h

/-- The arguments lie in memory. -/
lemma argsAt : ArgsAt u'.user argv args := h.laid.argsAt h.null

/-- The pointers are not zero. -/
lemma nonNull : NonNull u'.user argv args.length := by
  intro i lt
  have split := congrArg List.length (argBytes_split lt)
  rw [List.length_append, List.length_append, List.length_append, List.length_singleton] at split
  have low := h.room
  unfold argArea at low
  rw [h.laid.pointers i lt]
  exact add_ne_zero (by omega) (by omega)

/-- Every string is behind the vector and below `ptr`. -/
lemma inside (lt : i < args.length) : ∃ o,
    pointerAt u'.user (argv + BitVec.ofNat 16 (2 * i)) = argv + BitVec.ofNat 16 o ∧
    2 * (args.length + 1) ≤ o ∧ o + (args[i].len + 1) ≤ argArea args := by
  refine ⟨_, h.laid.pointers i lt, Nat.le_add_right .., ?_⟩
  have split := congrArg List.length (argBytes_split lt)
  rw [List.length_append, List.length_append, List.length_append, List.length_singleton, CStr.length_text] at split
  unfold argArea
  omega

/-- What is laid out further down leaves it alone. -/
lemma keep {u'' : UData} {envp : Word} (only : u'.OnlyIn u'' envp n) (below : envp + BitVec.ofNat 16 n = argv)
    (fits : n + argArea args ≤ 2 ^ 16) : ArgsAt u''.user argv args := by
  have same : ∀ o < argArea args, u''.user (argv + BitVec.ofNat 16 o) = u'.user (argv + BitVec.ofNat 16 o) := by
    intro o lt
    have dist : (envp + BitVec.ofNat 16 (n + o) - (envp + BitVec.ofNat 16 0)).toNat = n + o :=
      dist_eq (Nat.zero_le _) (by omega)
    have base : envp + BitVec.ofNat 16 0 = envp := BitVec.add_zero envp
    rw [base, BitVec.ofNat_add, ← BitVec.add_assoc, below] at dist
    exact only.outside _ (by omega)
  have area : 2 * args.length + 1 < argArea args := by unfold argArea; omega
  exact (h.laid.congr (Nat.le_refl _) same).argsAt
    ((pointerAt_congr (same _ (by omega)) (same _ area)).trans h.null)

end Placed

/-- What is further down is apart. -/
lemma areas_apart {envp argv : Word} {l : Nat} (below : envp + BitVec.ofNat 16 n = argv) (hi : i < l) (hj : j < n)
    (fits : n + l ≤ 2 ^ 16) : argv + BitVec.ofNat 16 i ≠ envp + BitVec.ofNat 16 j := by
  intro e
  rw [← below, BitVec.add_assoc, ← BitVec.ofNat_add] at e
  have dist : (envp + BitVec.ofNat 16 (n + i) - (envp + BitVec.ofNat 16 j)).toNat = n + i - j :=
    dist_eq (by omega) (by omega)
  rw [e, BitVec.sub_self, BitVec.toNat_zero] at dist
  omega

end Lay

/-! ## Program arguments survive -/

/-- Below `ptr` are the strings and, at `argv`, the vector of pointers to them: the strings lie behind the
vector, and nothing else of the memory has changed. -/
structure UData.LaidBelow (u u' : UData) (ptr argv : Word) (args : List CStr) : Prop where
  below : argv + BitVec.ofNat 16 (argArea args) = ptr
  argsAt : ArgsAt u'.user argv args
  nonNull : NonNull u'.user argv args.length
  inside : ∀ i (lt : i < args.length), ∃ o,
    pointerAt u'.user (argv + BitVec.ofNat 16 (2 * i)) = argv + BitVec.ofNat 16 o ∧
      2 * (args.length + 1) ≤ o ∧ o + (args[i].len + 1) ≤ argArea args
  only : u.OnlyIn u' argv (argArea args)

section Survive

variable {s s' : Kernel} {argv envp ptr blk : Word} {args envs : List CStr}

/-- `rargs` after `wargs`. -/
lemma wp_wargs_rargs (good : s.bufs.Good) (strs : ArgsAt s.udata.user argv args)
    (nonNull : NonNull s.udata.user argv args.length) :
    wp (wargs argv blk)
      (fun r s₁ => if (argBytes args).length < 500 then
          r = 0 ∧ ∀ s₂ : Kernel, s₂.bufs.Good → s₂.argData blk = s₁.argData blk →
            ∀ ptr : Word, argArea args ≤ ptr.toNat →
            wp (rargs ptr blk)
              (fun r s₃ => r.2.toNat = args.length ∧ s₂.udata.LaidBelow s₃.udata ptr r.1 args)
              (s₂.bufs.view.Stops 0 {(SWAPDEV, s₂.argblk blk)}) s₂
        else r = 1 ∧ s₁.udata.uError = .e2big)
      (s.bufs.view.Stops 0 {(SWAPDEV, s.argblk blk)}) s := by
  refine wp_post (wp_wargs good strs nonNull) fun r s₁ got => ?_
  obtain ⟨b', x, good', view, got⟩ := got
  split at got
  · next short =>
    obtain ⟨rfl, rfl, packed⟩ := got
    rw [if_pos short]
    refine ⟨rfl, fun s₂ good₂ same ptr room => ?_⟩
    have data : s₂.argData blk = x := by
      refine same.trans ?_
      show b'.view.content (SWAPDEV, s.argblk blk) = x
      rw [view, View.content_put]
    have count : args.length ≤ (argBytes args).length := length_le_argBytes
    refine wp_post (wp_rargs good₂ (data ▸ packed) short room) fun r s₃ got => ?_
    obtain ⟨b₃, u', rfl, -, -, argc, placed⟩ := got
    refine ⟨?_, placed.below, placed.argsAt, placed.nonNull, fun i lt => placed.inside lt, placed.only⟩
    rw [argc, BitVec.toNat_ofNat, Nat.mod_eq_of_lt (by omega)]
  · next full =>
    obtain ⟨rfl, rfl⟩ := got
    rw [if_neg full]
    exact ⟨rfl, rfl⟩

/-- The two blocks of a process. -/
lemma Kernel.argblk_ne : (SWAPDEV, s.argblk ENVBLK) ≠ (SWAPDEV, s.argblk ARGBLK) := by
  intro e
  have same := congrArg (fun p => (p.2 - (s.ptab s.udata.uPtab).pSwap)) e
  simp only [Kernel.argblk, BitVec.add_comm _ ENVBLK, BitVec.add_comm _ ARGBLK, BitVec.add_sub_cancel] at same
  exact absurd same (by decide)

/-- `_execve` packs both vectors, unless one is too long. -/
lemma wp_gatherArgs (good : s.bufs.Good) (argStrs : ArgsAt s.udata.user argv args)
    (argPtrs : NonNull s.udata.user argv args.length) (envStrs : ArgsAt s.udata.user envp envs)
    (envPtrs : NonNull s.udata.user envp envs.length) :
    wp (gatherArgs argv envp)
      (fun r s' => if (argBytes args).length < 500 ∧ (argBytes envs).length < 500 then
          r = false ∧ ∃ b', s' = { s with bufs := b' } ∧ b'.Good ∧ b'.view.held = s.bufs.view.held ∧
            Packed (s'.argData ARGBLK) args ∧ Packed (s'.argData ENVBLK) envs
        else r = true ∧ s'.udata.uError = .e2big)
      (s.bufs.view.Stops 0 {(SWAPDEV, s.argblk ARGBLK), (SWAPDEV, s.argblk ENVBLK)}) s := by
  unfold gatherArgs
  rw [wp_bind]
  refine wp_mono (wp_wargs good argStrs argPtrs) (fun r s₁ got => ?_) fun e stop =>
    stop.mono (Nat.le_refl 0) (Set.singleton_subset_iff.mpr (.inl rfl))
  obtain ⟨b₁, x, good₁, view₁, got⟩ := got
  rw [wp_ite]
  split at got
  · next short =>
    obtain ⟨rfl, rfl, packed⟩ := got
    rw [if_neg (not_not.mpr rfl), wp_bind]
    refine wp_mono (wp_wargs (s := { s with bufs := b₁ }) good₁ envStrs envPtrs) (fun r s₂ got => ?_) fun e stop => ?_
    · obtain ⟨b₂, y, good₂, view₂, got⟩ := got
      rw [wp_pure]
      split at got
      · next short' =>
        obtain ⟨rfl, rfl, packed'⟩ := got
        rw [if_pos ⟨short, short'⟩]
        refine ⟨rfl, b₂, rfl, good₂, ?_, ?_, ?_⟩
        · rw [view₂, view₁]
          rfl
        · show Packed (b₂.view.content (SWAPDEV, s.argblk ARGBLK)) args
          have other : b₂.view.content (SWAPDEV, s.argblk ARGBLK) = b₁.view.content (SWAPDEV, s.argblk ARGBLK) :=
            view₂ ▸ View.content_put_of_ne Kernel.argblk_ne.symm
          rw [other, view₁, View.content_put]
          exact packed
        · show Packed (b₂.view.content (SWAPDEV, s.argblk ENVBLK)) envs
          have own : b₂.view.content (SWAPDEV, s.argblk ENVBLK) = y := view₂ ▸ View.content_put
          rw [own]
          exact packed'
      · next full =>
        obtain ⟨rfl, rfl⟩ := got
        rw [if_neg fun both => full both.2]
        exact ⟨rfl, rfl⟩
    · have held : b₁.view.held = s.bufs.view.held := by
        rw [view₁]
        rfl
      exact (stop.of_held held).mono (Nat.le_refl 0) (Set.singleton_subset_iff.mpr (.inr rfl))
  · next full =>
    obtain ⟨rfl, rfl⟩ := got
    have long : ¬ ((argBytes args).length < 500 ∧ (argBytes envs).length < 500) := fun both => full both.1
    rw [if_pos (by decide), wp_pure, if_neg long]
    exact ⟨rfl, rfl⟩

/-- `exec2` lays both vectors out, the environment below the arguments. -/
lemma wp_placeArgs (good : s.bufs.Good) (argPacked : Packed (s.argData ARGBLK) args)
    (argShort : (argBytes args).length < 500) (envPacked : Packed (s.argData ENVBLK) envs)
    (envShort : (argBytes envs).length < 500) (room : argArea args + argArea envs ≤ ptr.toNat) :
    wp (placeArgs ptr)
      (fun r s' => r.1 + BitVec.ofNat 16 (argArea args) = ptr ∧ r.2.1.toNat = args.length ∧
        r.2.2 + BitVec.ofNat 16 (argArea envs) = r.1 ∧ ArgsAt s'.udata.user r.1 args ∧ ArgsAt s'.udata.user r.2.2 envs)
      (s.bufs.view.Stops 0 {(SWAPDEV, s.argblk ARGBLK), (SWAPDEV, s.argblk ENVBLK)}) s := by
  unfold placeArgs
  rw [wp_bind]
  refine wp_mono (wp_rargs good argPacked argShort (by omega)) (fun r s₁ got => ?_) fun e stop =>
    stop.mono (Nat.le_refl 0) (Set.singleton_subset_iff.mpr (.inl rfl))
  obtain ⟨b₁, u₁, rfl, good₁, view₁, argc, placed⟩ := got
  have rest := placed.only.rest
  have blk : Kernel.argblk { s with bufs := b₁, udata := u₁ } ENVBLK = s.argblk ENVBLK := by
    rw [rest]
    rfl
  have data : Kernel.argData { s with bufs := b₁, udata := u₁ } ENVBLK = s.argData ENVBLK := by
    rw [Kernel.argData, blk, view₁]
    rfl
  rw [wp_bind]
  refine wp_mono (wp_rargs (s := { s with bufs := b₁, udata := u₁ }) good₁
    ((congrArg (Packed · envs) data).mpr envPacked) envShort (by have low := placed.room; omega))
    (fun r₂ s₂ got => ?_) fun e stop => ?_
  · obtain ⟨b₂, u₂, rfl, -, -, -, placed₂⟩ := got
    rw [wp_pure]
    refine ⟨placed.below, ?_, placed₂.below, placed.keep placed₂.only placed₂.below ?_, placed₂.argsAt⟩
    · have count : args.length ≤ (argBytes args).length := length_le_argBytes
      rw [argc, BitVec.toNat_ofNat, Nat.mod_eq_of_lt (by omega)]
    · have argFits := argArea_le argShort
      have envFits := argArea_le envShort
      omega
  · rw [blk, view₁] at stop
    exact stop.mono (Nat.le_refl 0) (Set.singleton_subset_iff.mpr (.inr rfl))

/-- The arguments of a program survive `execve`: what `wargs` puts into a block `rargs` lays out again,
byte for byte and in the area below its address only, and the area of the environment is below that of
the arguments. Vectors of 500 bytes or more are refused. -/
theorem args_survive (good : s.bufs.Good) (argStrs : ArgsAt s.udata.user argv args)
    (argPtrs : NonNull s.udata.user argv args.length) :
    (∀ blk, wp (wargs argv blk)
      (fun r s₁ => if (argBytes args).length < 500 then
          r = 0 ∧ ∀ s₂ : Kernel, s₂.bufs.Good → s₂.argData blk = s₁.argData blk →
            ∀ ptr : Word, argArea args ≤ ptr.toNat →
            wp (rargs ptr blk)
              (fun r s₃ => r.2.toNat = args.length ∧ s₂.udata.LaidBelow s₃.udata ptr r.1 args)
              (s₂.bufs.view.Stops 0 {(SWAPDEV, s₂.argblk blk)}) s₂
        else r = 1 ∧ s₁.udata.uError = .e2big)
      (s.bufs.view.Stops 0 {(SWAPDEV, s.argblk blk)}) s) ∧
    ∀ envp envs, ArgsAt s.udata.user envp envs → NonNull s.udata.user envp envs.length →
      wp (gatherArgs argv envp)
        (fun r s₁ => if (argBytes args).length < 500 ∧ (argBytes envs).length < 500 then
            r = false ∧ ∀ s₂ : Kernel, s₂.bufs.Good → s₂.argData ARGBLK = s₁.argData ARGBLK →
              s₂.argData ENVBLK = s₁.argData ENVBLK →
              ∀ ptr : Word, argArea args + argArea envs ≤ ptr.toNat →
              wp (placeArgs ptr)
                (fun r s₃ => ArgsAt s₃.udata.user r.1 args ∧ r.2.1.toNat = args.length ∧
                  ArgsAt s₃.udata.user r.2.2 envs ∧ r.1 + BitVec.ofNat 16 (argArea args) = ptr ∧
                  r.2.2 + BitVec.ofNat 16 (argArea envs) = r.1 ∧
                  ∀ i < argArea args, ∀ j < argArea envs, r.1 + BitVec.ofNat 16 i ≠ r.2.2 + BitVec.ofNat 16 j)
                (s₂.bufs.view.Stops 0 {(SWAPDEV, s₂.argblk ARGBLK), (SWAPDEV, s₂.argblk ENVBLK)}) s₂
          else r = true ∧ s₁.udata.uError = .e2big)
        (s.bufs.view.Stops 0 {(SWAPDEV, s.argblk ARGBLK), (SWAPDEV, s.argblk ENVBLK)}) s := by
  refine ⟨fun blk => wp_wargs_rargs good argStrs argPtrs, fun envp envs envStrs envPtrs => ?_⟩
  refine wp_post (wp_gatherArgs good argStrs argPtrs envStrs envPtrs) fun r s₁ got => ?_
  split at got
  · next short =>
    obtain ⟨rfl, b', rfl, good', held, packed, packed'⟩ := got
    rw [if_pos short]
    refine ⟨rfl, fun s₂ good₂ same same' ptr room => ?_⟩
    refine wp_post (wp_placeArgs good₂ (same ▸ packed) short.1 (same' ▸ packed') short.2 room) fun r s₃ got => ?_
    obtain ⟨below, argc, below', argsAt, envsAt⟩ := got
    have argFits := argArea_le short.1
    have envFits := argArea_le short.2
    exact ⟨argsAt, argc, envsAt, below, below', fun i hi j hj => areas_apart below' hi hj (by omega)⟩
  · next long =>
    rw [if_neg long]
    exact got

end Survive

/-- The string "a". -/
def CStr.a : CStr where
  chr i := if i = 0 then 0x61 else 0
  len := 1
  ne_zero := by decide
  terminated := rfl

/-- The empty string. -/
def CStr.empty : CStr where
  chr _ := 0
  len := 0
  ne_zero := by decide
  terminated := rfl

/-- A process with the arguments "a" and "" at 0x6000. -/
def twoArgs : Kernel :=
  { Kernel.inited fun _ _ => Block.zero with
    udata := { UData.zero with mem := fun a => [0x06, 0x60, 0x08, 0x60, 0, 0, 0x61, 0, 0].getD (a - 0x6000) 0 } }

/-- Two arguments survive. -/
theorem args_survive_twoArgs : ∃ s', wargs 0x6000 ARGBLK twoArgs = .ok (0, s') := by
  have good := (@Bufs.good_inited fun _ _ => Block.zero).1
  have view := (@Bufs.good_inited fun _ _ => Block.zero).2
  have first : pointerAt twoArgs.udata.user 0x6000 = 0x6006 := by decide
  have second : pointerAt twoArgs.udata.user (0x6000 + 2) = 0x6008 := by decide
  have strs : ArgsAt twoArgs.udata.user 0x6000 [.a, .empty] := by
    rw [ArgsAt, ArgsAt, ArgsAt, first, second]
    refine ⟨⟨?_, ?_, trivial⟩, ⟨?_, trivial⟩, ?_⟩ <;> decide
  have ptrs : NonNull twoArgs.udata.user 0x6000 2 := by unfold NonNull; decide
  have short : (argBytes [.a, .empty]).length < 500 := by decide
  have survive := (args_survive (s := twoArgs) good strs ptrs).1 ARGBLK
  simp only [if_pos short] at survive
  have idle : ∀ i, twoArgs.bufs.view.held i = none := congrFun (congrArg View.held view)
  have returns : wp (wargs 0x6000 ARGBLK) (fun r _ => r = 0) (fun _ => False) twoArgs := by
    refine wp_mono survive (fun r s' got => got.1) fun e stop => ?_
    exact View.not_stops_of_idle idle (by decide) stop
  obtain ⟨r, s', run, rfl⟩ := returns.returns
  exact ⟨s', run⟩

end Uzi
