import SandboxingNaCl.Lib.ByteImage
import SandboxingNaCl.Service.App

/-!
# The initial stack

`NaClCreateMainThread_helper` copies the arguments and the environment to the top of the stack, below
the page that `NaClGetInitialStackTop` leaves free, under a table of pointers to them.  The sums in
`size_t` are made in 64 bits: what they count is in the memory of the process, so that neither these
nor narrower ones wrap.
-/

namespace SandboxingNaCl

open MachineInt Patches ByteImage AddressRange

/-! ## The code -/

namespace NaClArch

/-- `sizeof(pointerType)`. -/
def pointerSize : NaClArch → ℕ
  | .x8664 => 8
  | .x8632 | .arm | .mips => 4

/-- `NACL_STACK_ALIGN_MASK` is one less than two to this power. -/
def stackAlignShift : NaClArch → ℕ
  | .mips => 3
  | .x8632 | .x8664 | .arm => 4

/-- `NACL_STACK_GETS_ARG`. -/
def stackGetsArg : NaClArch → Bool
  | .x8632 => true
  | .x8664 | .arm | .mips => false

/-- `NACL_STACK_PAD_BELOW_ALIGN`. -/
def stackPadBelowAlign : NaClArch → ℕ
  | .x8632 => 4
  | .x8664 => 8
  | .arm | .mips => 0

end NaClArch

def atNull : ℕ := 0

def atBase : ℕ := 7

def atEntry : ℕ := 9

def CharString : Type := { chars : List UInt8 // 0 ∉ chars }

/-- The string with its NUL: the bytes `strcpy` copies. -/
def CharString.bytes (str : CharString) : List UInt8 := str.val ++ [0]

/-- `argv` and `envv`.  The strings and the tables are in the memory of the process, with at least a
page of code beside them. -/
structure MainArgs (arch : NaClArch) where
  argv : List CharString
  envv : List CharString
  argc_lt : argv.length < 2 ^ 31
  resident : ((argv ++ envv).map CharString.bytes).flatten.length +
    arch.pointerSize * (argv.length + envv.length + 2) + 2 ^ 12 ≤ 2 ^ arch.ptrBits

/-- The fields of `NaClApp` that the start of the main thread reads.  `stack_size` has been rounded
when the module was loaded, and is smaller than the address space. -/
structure MainThreadApp where
  space : AddressSpace
  stackSize : ℕ
  userEntryPt : ℕ
  dynamicTextStart : ℕ
  dvd_stackSize : naclMapPageSize ∣ stackSize
  stackSize_lt : stackSize < 2 ^ space.addrBits

/-- The range of host addresses that `NaClMemoryProtection` maps for the stack. -/
def MainThreadApp.mappedStack (nap : MainThreadApp) : ℕ × ℕ :=
  (nap.space.memStart + naclTruncAllocPage (2 ^ nap.space.addrBits - nap.stackSize), nap.stackSize)

/-- Why no thread is started. -/
inductive MainThreadFailure
  | refused
  /-- A `CHECK` is false or an address is fatal. -/
  | fatal
  /-- A sum in `int` overflows. -/
  | undefined

/-- The memory with the two places where the next word and the next string go. -/
structure StackWriter where
  memory : ℕ → UInt8
  p : ℕ
  strp : ℕ

/-- `*p++ = v`. -/
def StackWriter.push (w : StackWriter) (arch : NaClArch) (v : ℕ) : StackWriter :=
  { w with memory := write w.memory w.p (leBytes arch.pointerSize v), p := w.p + arch.pointerSize }

@[simp] theorem StackWriter.push_strp (w : StackWriter) (arch : NaClArch) (v : ℕ) :
    (w.push arch v).strp = w.strp := rfl

/-- One iteration of the loops over `argv` and `envv`. -/
def copyString (arch : NaClArch) (nap : MainThreadApp) (w : StackWriter) (str : CharString) :
    Except MainThreadFailure StackWriter :=
  match naclSysToUser nap.space w.strp with
  | none => .error .fatal
  | some uaddr =>
    let w := w.push arch (uaddr % 2 ^ 32)
    .ok { w with memory := write w.memory w.strp str.bytes, strp := w.strp + str.bytes.length }

def auxvWords (nap : MainThreadApp) : List ℕ :=
  (if nap.userEntryPt ≠ 0 then [atEntry, nap.userEntryPt % 2 ^ 32] else []) ++
    (if nap.dynamicTextStart ≠ 0 then [atBase, nap.dynamicTextStart % 2 ^ 32] else []) ++ [atNull, 0]

/-- For x86-32 the address of the main argument block comes first. -/
def pushArgloc (arch : NaClArch) (nap : MainThreadApp) (w : StackWriter) :
    Except MainThreadFailure StackWriter :=
  if arch.stackGetsArg then
    match naclSysToUser nap.space (w.p + arch.pointerSize) with
    | none => .error .fatal
    | some uaddr => .ok (w.push arch (uaddr % 2 ^ 32))
  else .ok w

/-- The part of `NaClCreateMainThread_helper` that writes the strings and the tables. -/
def writeTables (arch : NaClArch) (nap : MainThreadApp) (args : MainArgs arch) (w : StackWriter) :
    Except MainThreadFailure StackWriter := do
  let w ← pushArgloc arch nap w
  -- The cleanup function pointer, always null, comes before `envc` and `argc`.
  let w := ((w.push arch 0).push arch args.envv.length).push arch args.argv.length
  let w ← args.argv.foldlM (copyString arch nap) w
  let w := w.push arch 0
  let w ← args.envv.foldlM (copyString arch nap) w
  let w := w.push arch 0
  return (auxvWords nap).foldl (fun w v => w.push arch v) w

def naclGetInitialStackTop (nap : MainThreadApp) : ℕ :=
  usub (2 ^ nap.space.addrBits) naclMapPageSize

def naclSysToUserStackAddr (arch : NaClArch) (space : AddressSpace) (stackaddr : ℕ) : Option ℕ :=
  match arch with
  | .x8664 => some stackaddr
  | .x8632 | .arm | .mips => naclSysToUser space stackaddr

/-- What the main thread starts with: the memory, the block with the table at its start, and the
stack pointer. -/
structure StackImage where
  memory : ℕ → UInt8
  block : ℕ
  tableSize : ℕ
  size : ℕ
  stackPtr : ℕ

def stringBytes (strs : List CharString) : ℕ :=
  strs.foldl (fun size str => uadd size str.bytes.length) 0

/-- The number of words in the table. -/
def ptrTblWords (arch : NaClArch) (nap : MainThreadApp) (args : MainArgs arch) : ℕ :=
  let auxvEntries := 1 + (if nap.userEntryPt ≠ 0 then 1 else 0) +
    (if nap.dynamicTextStart ≠ 0 then 1 else 0)
  (if arch.stackGetsArg then 1 else 0) +
    (3 + args.argv.length + 1 + args.envv.length + 1 + auxvEntries * 2)

/-- `NaClCreateMainThread_helper` up to the start of the thread; `allocated` tells whether its two
calls of `malloc` succeed. -/
def naclCreateMainThreadHelper (arch : NaClArch) (nap : MainThreadApp) (args : MainArgs arch)
    (allocated : Bool) (memory : ℕ → UInt8) : Except MainThreadFailure StackImage :=
  if allocated = false then .error .refused
  else if 2 ^ 31 ≤ ptrTblWords arch nap args then .error .undefined
  else
    let strSize := stringBytes (args.argv ++ args.envv)
    let tableSize := ptrTblWords arch nap args * arch.pointerSize
    if usub (2 ^ 64 - 1) strSize < tableSize then .error .refused
    else
      let size := alignUp arch.stackAlignShift (uadd strSize tableSize)
      if nap.stackSize < size then .error .refused
      else
        let block := naclUserToSysAddrRange nap.space (usub (naclGetInitialStackTop nap) size) size
        if block = kNaClBadAddress then .error .refused
        else if ¬ 2 ^ arch.stackAlignShift ∣ block then .error .fatal
        else
          match writeTables arch nap args ⟨memory, block, block + tableSize⟩ with
          | .error failure => .error failure
          | .ok w =>
            if w.p ≠ block + tableSize then .error .fatal
            else
              let stackPtr := usub block arch.stackPadBelowAlign
              match naclSysToUserStackAddr arch nap.space stackPtr with
              | none => .error .fatal
              | some sp => .ok
                ⟨write w.memory stackPtr (List.replicate arch.stackPadBelowAlign 0), block, tableSize,
                  size, sp⟩

/-! ## What is written -/

section

variable {arch : NaClArch} {nap : MainThreadApp} {w : StackWriter} {memory : ℕ → UInt8}
  {table strings : ℕ} {words : List ℕ} {blocks : List (List UInt8)}

/-- The words are in the memory from `table` on and the strings from `strings` on, the writer stands
behind both, and nothing else has been written. -/
structure Written (arch : NaClArch) (memory : ℕ → UInt8) (table strings : ℕ) (words : List ℕ)
    (blocks : List (List UInt8)) (w : StackWriter) : Prop where
  p_eq : w.p = table + arch.pointerSize * words.length
  strp_eq : w.strp = strings + blocks.flatten.length
  holds_words : Holds w.memory table (words.map (leBytes arch.pointerSize)).flatten
  holds_strings : Holds w.memory strings blocks.flatten
  frame : ∀ a, a < table ∨ strings + blocks.flatten.length ≤ a → w.memory a = memory a

theorem length_flatten_leBytes (n : ℕ) (ws : List ℕ) :
    (ws.map (leBytes n)).flatten.length = n * ws.length := by
  induction ws with
  | nil => rfl
  | cons v ws ih =>
    rw [List.map_cons, List.flatten_cons, List.length_append, length_leBytes, ih, List.length_cons,
      Nat.mul_succ, Nat.add_comm]

theorem written_nil (memory : ℕ → UInt8) (table strings : ℕ) :
    Written arch memory table strings [] [] ⟨memory, table, strings⟩ :=
  ⟨rfl, rfl, holds_nil, holds_nil, fun _ _ => rfl⟩

theorem room_of_le {n table strings k l : ℕ} (hroom : table + n * l ≤ strings) (h : k ≤ l) :
    table + n * k ≤ strings :=
  (Nat.add_le_add_left (Nat.mul_le_mul_left n h) table).trans hroom

theorem Written.push (h : Written arch memory table strings words blocks w) (v : ℕ)
    (hroom : table + arch.pointerSize * (words.length + 1) ≤ strings) :
    Written arch memory table strings (words ++ [v]) blocks (w.push arch v) := by
  have hp := h.p_eq
  rw [Nat.mul_succ] at hroom
  have hlen := length_flatten_leBytes arch.pointerSize words
  constructor
  · rw [List.length_append, List.length_singleton, Nat.mul_succ, ← Nat.add_assoc, ← hp]
    rfl
  · exact h.strp_eq
  · rw [List.map_append, List.flatten_append, holds_append, hlen, ← hp]
    constructor
    · apply h.holds_words.write
      exact Or.inl (by rw [hlen, ← hp])
    · rw [List.map_singleton, List.flatten_singleton]
      exact holds_write _ _ _
  · apply h.holds_strings.write
    right
    dsimp only
    rw [length_leBytes]
    omega
  · intro a ha
    refine (write_eq_of_out ?_).trans (h.frame a ha)
    rw [length_leBytes]
    omega

theorem Written.pushAll (h : Written arch memory table strings words blocks w) (vs : List ℕ)
    (hroom : table + arch.pointerSize * (words.length + vs.length) ≤ strings) :
    Written arch memory table strings (words ++ vs) blocks
      (vs.foldl (fun w v => w.push arch v) w) := by
  induction vs generalizing w words with
  | nil => simpa using h
  | cons v vs ih =>
    rw [List.length_cons] at hroom
    have hpush := h.push v (room_of_le hroom (by omega))
    rw [List.append_cons]
    apply ih hpush
    rw [List.length_append, List.length_singleton]
    exact room_of_le hroom (by omega)

theorem naclSysToUser_of_contains {space : AddressSpace} {sysaddr : ℕ}
    (h : space.Contains sysaddr) : naclSysToUser space sysaddr = some (sysaddr - space.memStart) := by
  unfold AddressSpace.Contains at h
  exact if_neg (by omega)

theorem mod_of_contains {space : AddressSpace} {sysaddr : ℕ} (h : space.Contains sysaddr) :
    (sysaddr - space.memStart) % 2 ^ 32 = sysaddr - space.memStart := by
  have := addrBits_pow_le space
  apply Nat.mod_eq_of_lt
  unfold AddressSpace.Contains at h
  omega

/-- One iteration of the loops: the pointer goes behind the words and the string behind the
strings. -/
theorem Written.copyString (h : Written arch memory table strings words blocks w)
    (nap : MainThreadApp) (str : CharString)
    (hroom : table + arch.pointerSize * (words.length + 1) ≤ strings)
    (hin : nap.space.Contains w.strp) :
    ∃ w', SandboxingNaCl.copyString arch nap w str = .ok w' ∧
      Written arch memory table strings (words ++ [w.strp - nap.space.memStart])
        (blocks ++ [str.bytes]) w' := by
  have hpush := h.push (w.strp - nap.space.memStart) hroom
  have hstrp := h.strp_eq
  unfold SandboxingNaCl.copyString
  rw [naclSysToUser_of_contains hin]
  dsimp only
  rw [mod_of_contains hin, StackWriter.push_strp]
  refine ⟨_, rfl, hpush.p_eq, ?_, ?_, ?_, fun a ha => ?_⟩
  · dsimp only
    rw [List.flatten_append, List.flatten_singleton, List.length_append, ← Nat.add_assoc, ← hstrp]
  · apply hpush.holds_words.write
    left
    rw [length_flatten_leBytes, List.length_append, List.length_singleton]
    dsimp only
    omega
  · rw [List.flatten_append, List.flatten_singleton, holds_append, ← hstrp]
    constructor
    · apply hpush.holds_strings.write
      exact Or.inl hstrp.ge
    · exact holds_write _ _ _
  · rw [List.flatten_append, List.flatten_singleton, List.length_append] at ha
    have hout : a < w.strp ∨ w.strp + str.bytes.length ≤ a := by omega
    exact (write_eq_of_out hout).trans (hpush.frame a (by omega))

/-- The user addresses of strings that follow one another from a host address on. -/
def stringPtrs (space : AddressSpace) (strp : ℕ) (strs : List CharString) : List ℕ :=
  (placed strp (strs.map CharString.bytes)).map fun q => q.1 - space.memStart

@[simp] theorem length_stringPtrs (space : AddressSpace) (strp : ℕ) (strs : List CharString) :
    (stringPtrs space strp strs).length = strs.length := by
  simp [stringPtrs]

theorem CharString.bytes_length_pos (str : CharString) : 0 < str.bytes.length := by
  simp [CharString.bytes]

theorem Written.copyStrings (h : Written arch memory table strings words blocks w)
    (nap : MainThreadApp) (strs : List CharString)
    (hroom : table + arch.pointerSize * (words.length + strs.length) ≤ strings)
    (hlo : nap.space.memStart ≤ w.strp)
    (hhi : w.strp + (strs.map CharString.bytes).flatten.length ≤
      nap.space.memStart + 2 ^ nap.space.addrBits) :
    ∃ w', strs.foldlM (SandboxingNaCl.copyString arch nap) w = .ok w' ∧
      Written arch memory table strings (words ++ stringPtrs nap.space w.strp strs)
        (blocks ++ strs.map CharString.bytes) w' := by
  induction strs generalizing w words blocks with
  | nil => exact ⟨w, rfl, by simpa [stringPtrs, placed] using h⟩
  | cons str strs ih =>
    rw [List.map_cons, List.flatten_cons, List.length_append] at hhi
    rw [List.length_cons] at hroom
    have hpos := str.bytes_length_pos
    obtain ⟨w₁, hw₁, hwritten⟩ := h.copyString nap str
      (room_of_le hroom (by omega)) ⟨hlo, by omega⟩
    have hstrp : w₁.strp = w.strp + str.bytes.length := by
      rw [hwritten.strp_eq, List.flatten_append, List.flatten_singleton, List.length_append,
        ← Nat.add_assoc, ← h.strp_eq]
    have hroom' : table + arch.pointerSize *
        ((words ++ [w.strp - nap.space.memStart]).length + strs.length) ≤ strings := by
      rw [List.length_append, List.length_singleton]
      exact room_of_le hroom (by omega)
    obtain ⟨w', hw', hdone⟩ := ih hwritten hroom' (by omega) (by omega)
    refine ⟨w', ?_, ?_⟩
    · rw [List.foldlM_cons, hw₁]
      exact hw'
    · rw [hstrp, List.append_assoc, List.append_assoc] at hdone
      exact hdone

/-- The user address of the word behind the first one, where that is passed on the stack. -/
def arglocWords (arch : NaClArch) (space : AddressSpace) (table : ℕ) : List ℕ :=
  if arch.stackGetsArg then [table + arch.pointerSize - space.memStart] else []

/-- The words of the table, with the pointers to the strings. -/
def tableWords (arch : NaClArch) (nap : MainThreadApp) (args : MainArgs arch) (table : ℕ)
    (argPtrs envPtrs : List ℕ) : List ℕ :=
  arglocWords arch nap.space table ++ [0] ++ [args.envv.length] ++ [args.argv.length] ++ argPtrs ++
    [0] ++ envPtrs ++ [0] ++ auxvWords nap

theorem length_tableWords (nap : MainThreadApp) (args : MainArgs arch) (table : ℕ) {argPtrs envPtrs : List ℕ}
    (hargs : argPtrs.length = args.argv.length) (henv : envPtrs.length = args.envv.length) :
    (tableWords arch nap args table argPtrs envPtrs).length = ptrTblWords arch nap args := by
  simp only [tableWords, arglocWords, auxvWords, ptrTblWords, List.length_append,
    List.length_singleton, hargs, henv]
  split_ifs <;> simp only [List.length_cons, List.length_nil] <;> omega

theorem Written.pushArgloc (h : Written arch memory table strings [] [] w)
    (hroom : table + arch.pointerSize * 1 ≤ strings)
    (hin : nap.space.Contains (table + arch.pointerSize)) :
    ∃ w', SandboxingNaCl.pushArgloc arch nap w = .ok w' ∧
      Written arch memory table strings (arglocWords arch nap.space table) [] w' := by
  unfold SandboxingNaCl.pushArgloc arglocWords
  split_ifs
  · have hp : w.p = table := h.p_eq
    rw [hp, naclSysToUser_of_contains hin]
    dsimp only
    rw [mod_of_contains hin]
    exact ⟨_, rfl, h.push _ hroom⟩
  · exact ⟨w, rfl, h⟩

theorem three_le_ptrTblWords (nap : MainThreadApp) (args : MainArgs arch) : 3 ≤ ptrTblWords arch nap args := by
  simp only [ptrTblWords]
  omega

theorem written_writeTables (args : MainArgs arch) (memory : ℕ → UInt8)
    (hroom : table + arch.pointerSize * ptrTblWords arch nap args = strings)
    (hlo : nap.space.memStart ≤ table)
    (hhi : strings + ((args.argv ++ args.envv).map CharString.bytes).flatten.length <
      nap.space.memStart + 2 ^ nap.space.addrBits) :
    ∃ w', writeTables arch nap args ⟨memory, table, strings⟩ = .ok w' ∧
      Written arch memory table strings
        (tableWords arch nap args table (stringPtrs nap.space strings args.argv)
          (stringPtrs nap.space (strings + (args.argv.map CharString.bytes).flatten.length) args.envv))
        ((args.argv ++ args.envv).map CharString.bytes) w' := by
  rw [List.map_append, List.flatten_append, List.length_append] at hhi
  have hthree := three_le_ptrTblWords nap args
  have hlen : (arglocWords arch nap.space table).length + 5 + args.argv.length + args.envv.length +
      (auxvWords nap).length = ptrTblWords arch nap args := by
    rw [← length_tableWords nap args table (length_stringPtrs nap.space strings args.argv)
      (length_stringPtrs nap.space strings args.envv)]
    simp only [tableWords, List.length_append, List.length_singleton, length_stringPtrs]
    omega
  have hone : table + arch.pointerSize * 1 ≤ strings := room_of_le hroom.le (by omega)
  have hargloc : nap.space.Contains (table + arch.pointerSize) := ⟨by omega, by omega⟩
  obtain ⟨w₁, hw₁, h₁⟩ := (written_nil memory table strings).pushArgloc hone hargloc
  have h₂ := ((h₁.push 0 (room_of_le hroom.le (by omega))).push args.envv.length
    (room_of_le hroom.le (by simp; omega))).push args.argv.length
      (room_of_le hroom.le (by simp; omega))
  have hstrp₂ : (((w₁.push arch 0).push arch args.envv.length).push arch args.argv.length).strp =
      strings := h₂.strp_eq
  obtain ⟨w₃, hw₃, h₃⟩ := h₂.copyStrings nap args.argv
    (room_of_le hroom.le (by simp; omega)) (by omega) (by omega)
  rw [hstrp₂, List.nil_append] at h₃
  have h₄ := h₃.push 0 (room_of_le hroom.le (by simp; omega))
  have hstrp₄ : (w₃.push arch 0).strp =
      strings + (args.argv.map CharString.bytes).flatten.length := h₄.strp_eq
  obtain ⟨w₅, hw₅, h₅⟩ := h₄.copyStrings nap args.envv
    (room_of_le hroom.le (by simp; omega)) (by omega) (by omega)
  rw [hstrp₄, ← List.map_append] at h₅
  have h₆ := h₅.push 0 (room_of_le hroom.le (by simp; omega))
  have h₇ := h₆.pushAll (auxvWords nap) (room_of_le hroom.le (by simp; omega))
  refine ⟨_, ?_, h₇⟩
  unfold writeTables
  rw [hw₁]
  simp only [Except.bind, bind, pure, Except.pure]
  rw [hw₃]
  simp only
  rw [hw₅]

end

/-! ## The image -/

def MainArgs.copies {arch : NaClArch} (args : MainArgs arch) (ptrs : List ℕ) : List (Patch UInt8) :=
  ptrs.zip ((args.argv ++ args.envv).map CharString.bytes)

/-- Each pointer designates a copy of its string with the NUL, in the block and behind the table, and
the copies have no byte in common. -/
structure StackImage.StringsCopied {arch : NaClArch} (image : StackImage) (nap : MainThreadApp)
    (args : MainArgs arch) (ptrs : List ℕ) : Prop where
  length_eq : ptrs.length = args.argv.length + args.envv.length
  holds : ∀ c ∈ args.copies ptrs, Holds image.memory (nap.space.memStart + c.1) c.2
  inside : ∀ c ∈ args.copies ptrs, image.block + image.tableSize ≤ nap.space.memStart + c.1 ∧
    nap.space.memStart + c.1 + c.2.length ≤ image.block + image.size
  apart : (args.copies ptrs).Pairwise Apart

/-- The table at the start of the block consists of these words. -/
def StackImage.HasTable (image : StackImage) (arch : NaClArch) (words : List ℕ) : Prop :=
  image.tableSize = arch.pointerSize * words.length ∧
    ∀ k v, words[k]? = some v →
      wordAt image.memory arch.pointerSize (image.block + arch.pointerSize * k) = v

/-- The size of the block: the strings and the table, rounded up. -/
def blockSize (arch : NaClArch) (nap : MainThreadApp) (args : MainArgs arch) : ℕ :=
  alignUp arch.stackAlignShift (((args.argv ++ args.envv).map CharString.bytes).flatten.length +
    ptrTblWords arch nap args * arch.pointerSize)

/-- What the main thread finds on its stack.  Everything is in the part mapped for the stack where
that has room for the page above the block and the words pushed below it too. -/
structure StackImage.Sound (arch : NaClArch) (nap : MainThreadApp) (args : MainArgs arch)
    (memory : ℕ → UInt8) (image : StackImage) : Prop where
  size_eq : image.size = blockSize arch nap args
  table : ∃ argPtrs envPtrs : List ℕ, argPtrs.length = args.argv.length ∧
    image.HasTable arch (tableWords arch nap args image.block argPtrs envPtrs) ∧
    image.StringsCopied nap args (argPtrs ++ envPtrs)
  frame : ∀ a, a < image.block - arch.stackPadBelowAlign ∨ image.block + image.size ≤ a →
    image.memory a = memory a
  mapped : blockSize arch nap args + naclMapPageSize + arch.stackPadBelowAlign ≤ nap.stackSize →
    Within nap.mappedStack.1 (nap.mappedStack.1 + nap.mappedStack.2)
      (image.block - arch.stackPadBelowAlign, arch.stackPadBelowAlign + image.size)
  stackPtr_eq : naclSysToUserStackAddr arch nap.space (image.block - arch.stackPadBelowAlign) =
    some image.stackPtr
  aligned : 2 ^ arch.stackAlignShift ∣ image.stackPtr + arch.stackPadBelowAlign

section

variable {arch : NaClArch} {nap : MainThreadApp} {args : MainArgs arch} {allocated : Bool}
  {memory : ℕ → UInt8} {image : StackImage}

theorem pow_ptrBits_le (arch : NaClArch) : 2 ^ arch.ptrBits ≤ 2 ^ 64 := by
  cases arch <;> decide

theorem foldl_uadd_eq (strs : List CharString) (size : ℕ)
    (h : size + (strs.map CharString.bytes).flatten.length < 2 ^ 64) :
    strs.foldl (fun size str => uadd size str.bytes.length) size =
      size + (strs.map CharString.bytes).flatten.length := by
  induction strs generalizing size with
  | nil => rfl
  | cons str strs ih =>
    rw [List.map_cons, List.flatten_cons, List.length_append] at h ⊢
    rw [List.foldl_cons, uadd_eq (by omega), ih _ (by omega), Nat.add_assoc]

theorem stringBytes_eq (args : MainArgs arch) : stringBytes (args.argv ++ args.envv) =
    ((args.argv ++ args.envv).map CharString.bytes).flatten.length := by
  have hle := args.resident.trans (pow_ptrBits_le arch)
  exact (foldl_uadd_eq _ 0 (by omega)).trans (Nat.zero_add _)

theorem size_lt (nap : MainThreadApp) (args : MainArgs arch) :
    ((args.argv ++ args.envv).map CharString.bytes).flatten.length +
      ptrTblWords arch nap args * arch.pointerSize + 2 ^ 11 ≤ 2 ^ 64 := by
  have hle := args.resident.trans (pow_ptrBits_le arch)
  have hwords : ptrTblWords arch nap args ≤ args.argv.length + args.envv.length + 2 + 10 := by
    simp only [ptrTblWords]
    split_ifs <;> omega
  have hsize : arch.pointerSize ≤ 8 := by cases arch <;> decide
  calc _ ≤ ((args.argv ++ args.envv).map CharString.bytes).flatten.length +
        (args.argv.length + args.envv.length + 2 + 10) * arch.pointerSize + 2 ^ 11 := by gcongr
    _ ≤ 2 ^ 64 := by
      rw [Nat.add_mul, Nat.mul_comm _ arch.pointerSize]
      omega

theorem naclMapPageSize_eq : naclMapPageSize = 2 ^ 16 := rfl

theorem addrBits_of_stackSize {size : ℕ} (hpos : 0 < size) (hsize : size ≤ nap.stackSize) :
    16 ≤ nap.space.addrBits ∧ naclMapPageSize ≤ nap.stackSize := by
  have hle : naclMapPageSize ≤ nap.stackSize := Nat.le_of_dvd (by omega) nap.dvd_stackSize
  have hlt : 2 ^ 16 < 2 ^ nap.space.addrBits := hle.trans_lt nap.stackSize_lt
  exact ⟨((Nat.pow_lt_pow_iff_right (by decide)).1 hlt).le, hle⟩

theorem naclUserToSysAddrRange_stackTop {size : ℕ} (hpos : 0 < size) (hsize : size ≤ nap.stackSize)
    (h : naclUserToSysAddrRange nap.space (usub (naclGetInitialStackTop nap) size) size ≠
      kNaClBadAddress) :
    size + naclMapPageSize < 2 ^ nap.space.addrBits ∧
      naclUserToSysAddrRange nap.space (usub (naclGetInitialStackTop nap) size) size =
        nap.space.memStart + (2 ^ nap.space.addrBits - naclMapPageSize - size) := by
  have hbits := addrBits_pow_le nap.space
  have hlt := nap.stackSize_lt
  have hle := (addrBits_of_stackSize hpos hsize).2
  have htop : naclGetInitialStackTop nap = 2 ^ nap.space.addrBits - naclMapPageSize :=
    usub_eq (by omega) (by omega)
  rw [htop] at h ⊢
  have hsub : usub (2 ^ nap.space.addrBits - naclMapPageSize) size < 2 ^ 64 :=
    Nat.mod_lt _ (by decide)
  obtain ⟨hpos', hend, heq⟩ := naclUserToSysAddrRange_spec hsub (by omega) h
  have hfit : size < 2 ^ nap.space.addrBits - naclMapPageSize := by
    unfold usub at hpos' hend
    omega
  rw [heq, usub_eq hfit.le (by omega)]
  exact ⟨by omega, rfl⟩

theorem dvd_blockSize (arch : NaClArch) (nap : MainThreadApp) (args : MainArgs arch) :
    2 ^ arch.stackAlignShift ∣ blockSize arch nap args := dvd_alignUp _ _

theorem stackAlignShift_le (arch : NaClArch) : arch.stackAlignShift ≤ 11 := by
  cases arch <;> decide

theorem stackPadBelowAlign_le (arch : NaClArch) :
    arch.stackPadBelowAlign ≤ 2 ^ arch.stackAlignShift := by
  cases arch <;> decide

theorem le_blockSize (arch : NaClArch) (nap : MainThreadApp) (args : MainArgs arch) :
    ((args.argv ++ args.envv).map CharString.bytes).flatten.length +
      ptrTblWords arch nap args * arch.pointerSize ≤ blockSize arch nap args := by
  have hpow : 2 ^ arch.stackAlignShift ≤ 2 ^ 11 :=
    Nat.pow_le_pow_right (by decide) (stackAlignShift_le arch)
  exact le_alignUp ((Nat.add_le_add_left hpow _).trans (size_lt nap args))

theorem blockSize_pos (arch : NaClArch) (nap : MainThreadApp) (args : MainArgs arch) :
    0 < blockSize arch nap args := by
  have hle := le_blockSize arch nap args
  have hthree := three_le_ptrTblWords nap args
  have hsize : 0 < arch.pointerSize := by cases arch <;> decide
  have := Nat.mul_pos (by omega : 0 < ptrTblWords arch nap args) hsize
  omega

theorem dvd_stackTop (hfit : blockSize arch nap args ≤ nap.stackSize) :
    2 ^ arch.stackAlignShift ∣
      2 ^ nap.space.addrBits - naclMapPageSize - blockSize arch nap args := by
  have haddr := (addrBits_of_stackSize (blockSize_pos arch nap args) hfit).1
  have hpow (k : ℕ) (hk : 11 ≤ k) : 2 ^ arch.stackAlignShift ∣ 2 ^ k :=
    Nat.pow_dvd_pow 2 ((stackAlignShift_le arch).trans hk)
  exact Nat.dvd_sub (Nat.dvd_sub (hpow _ (by omega)) (hpow 16 (by decide)))
    (dvd_blockSize arch nap args)

theorem exists_writeTables
    (hrun : naclCreateMainThreadHelper arch nap args allocated memory = .ok image) :
    ∃ w uaddr, uaddr = 2 ^ nap.space.addrBits - naclMapPageSize - blockSize arch nap args ∧
      blockSize arch nap args + naclMapPageSize < 2 ^ nap.space.addrBits ∧
      ptrTblWords arch nap args < 2 ^ 31 ∧ blockSize arch nap args ≤ nap.stackSize ∧
      2 ^ arch.stackAlignShift ∣ nap.space.memStart + uaddr ∧
      writeTables arch nap args ⟨memory, nap.space.memStart + uaddr,
        nap.space.memStart + uaddr + ptrTblWords arch nap args * arch.pointerSize⟩ = .ok w ∧
      naclSysToUserStackAddr arch nap.space (usub (nap.space.memStart + uaddr)
        arch.stackPadBelowAlign) = some image.stackPtr ∧
      image = ⟨write w.memory (usub (nap.space.memStart + uaddr) arch.stackPadBelowAlign)
        (List.replicate arch.stackPadBelowAlign 0), nap.space.memStart + uaddr,
        ptrTblWords arch nap args * arch.pointerSize, blockSize arch nap args, image.stackPtr⟩ := by
  have hsize : alignUp arch.stackAlignShift (uadd (stringBytes (args.argv ++ args.envv))
      (ptrTblWords arch nap args * arch.pointerSize)) = blockSize arch nap args := by
    have := size_lt nap args
    rw [stringBytes_eq, uadd_eq (by omega)]
    rfl
  unfold naclCreateMainThreadHelper at hrun
  simp only [hsize] at hrun
  split_ifs at hrun with _ hwords _ hfit hbad haligned
  obtain ⟨hlt, hblock⟩ := naclUserToSysAddrRange_stackTop (blockSize_pos arch nap args)
    (not_lt.1 hfit) hbad
  rw [hblock] at hrun haligned
  split at hrun
  · cases hrun
  · rename_i w hw
    split_ifs at hrun
    split at hrun
    · cases hrun
    · rename_i sp hsp
      cases hrun
      exact ⟨w, _, rfl, hlt, not_le.1 hwords, not_lt.1 hfit, haligned, hw, hsp, rfl⟩

theorem stringPtrs_append (space : AddressSpace) (strp : ℕ) (strs strs' : List CharString) :
    stringPtrs space strp strs ++
        stringPtrs space (strp + (strs.map CharString.bytes).flatten.length) strs' =
      stringPtrs space strp (strs ++ strs') := by
  simp only [stringPtrs, List.map_append, placed_append]

theorem copies_stringPtrs (args : MainArgs arch) (space : AddressSpace) (strp : ℕ) :
    args.copies (stringPtrs space strp (args.argv ++ args.envv)) =
      (placed strp ((args.argv ++ args.envv).map CharString.bytes)).map fun q =>
        (q.1 - space.memStart, q.2) := by
  have hzip := List.zip_map' (f := fun q : Patch UInt8 => q.1 - space.memStart) (g := Prod.snd)
    (l := placed strp ((args.argv ++ args.envv).map CharString.bytes))
  rwa [map_snd_placed] at hzip

theorem stringsCopied_of_holds {strp : ℕ} (hlo : nap.space.memStart ≤ strp)
    (htable : image.block + image.tableSize = strp)
    (hend : strp + ((args.argv ++ args.envv).map CharString.bytes).flatten.length ≤
      image.block + image.size)
    (hholds : Holds image.memory strp ((args.argv ++ args.envv).map CharString.bytes).flatten) :
    image.StringsCopied nap args (stringPtrs nap.space strp (args.argv ++ args.envv)) := by
  constructor
  · rw [length_stringPtrs, List.length_append]
  · rw [copies_stringPtrs, List.forall_mem_map]
    intro q hq
    have hwithin := within_of_mem_placed hq
    dsimp only
    rw [Nat.add_sub_cancel' (hlo.trans hwithin.1)]
    exact (holds_flatten strp _).1 hholds q hq
  · rw [copies_stringPtrs, List.forall_mem_map]
    intro q hq
    have hwithin := within_of_mem_placed hq
    dsimp only
    rw [Nat.add_sub_cancel' (hlo.trans hwithin.1)]
    omega
  · rw [copies_stringPtrs, List.pairwise_map]
    refine (pairwise_apart_placed strp _).imp_of_mem fun {p q} hp hq hapart => ?_
    have hp' := within_of_mem_placed hp
    have hq' := within_of_mem_placed hq
    unfold Apart Avoids at hapart ⊢
    dsimp only
    omega

theorem lt_of_mem_auxvWords {v : ℕ} (h : v ∈ auxvWords nap) : v < 2 ^ 32 := by
  have hmod (a : ℕ) : a % 2 ^ 32 < 2 ^ 32 := Nat.mod_lt a (by decide)
  simp only [auxvWords, List.mem_append, or_assoc] at h
  rcases h with h | h | h
  · split_ifs at h
    · simp only [List.mem_cons, List.not_mem_nil, or_false] at h
      rcases h with rfl | rfl
      · decide
      · exact hmod _
    · cases h
  · split_ifs at h
    · simp only [List.mem_cons, List.not_mem_nil, or_false] at h
      rcases h with rfl | rfl
      · decide
      · exact hmod _
    · cases h
  · simp only [atNull, List.mem_cons, List.not_mem_nil, or_false] at h
    omega

theorem lt_of_mem_tableWords {block v : ℕ} {argPtrs envPtrs : List ℕ}
    (hblock : block + arch.pointerSize < nap.space.memStart + 2 ^ nap.space.addrBits)
    (henvc : args.envv.length < 2 ^ 31)
    (hptrs : ∀ p ∈ argPtrs ++ envPtrs, p < 2 ^ 32)
    (h : v ∈ tableWords arch nap args block argPtrs envPtrs) : v < 2 ^ 32 := by
  have hargc := args.argc_lt
  have hbits := addrBits_pow_le nap.space
  simp only [tableWords, List.mem_append, List.mem_singleton, or_assoc] at h
  rcases h with h | rfl | rfl | rfl | h | rfl | h | rfl | h
  · unfold arglocWords at h
    split_ifs at h
    · rw [List.mem_singleton] at h
      omega
    · cases h
  · decide
  · omega
  · omega
  · exact hptrs v (List.mem_append_left _ h)
  · decide
  · exact hptrs v (List.mem_append_right _ h)
  · decide
  · exact lt_of_mem_auxvWords h

theorem lt_of_mem_stringPtrs {strp p : ℕ} {strs : List CharString}
    (hend : strp + (strs.map CharString.bytes).flatten.length <
      nap.space.memStart + 2 ^ nap.space.addrBits)
    (h : p ∈ stringPtrs nap.space strp strs) : p < 2 ^ 32 := by
  have hbits := addrBits_pow_le nap.space
  obtain ⟨q, hq, rfl⟩ := List.mem_map.1 h
  have := within_of_mem_placed hq
  omega

/-- Where the block is, and what `w` has written there before the words below the block. -/
structure BlockWritten (arch : NaClArch) (nap : MainThreadApp) (args : MainArgs arch)
    (memory : ℕ → UInt8) (image : StackImage) (uaddr : ℕ) (w : StackWriter) : Prop where
  block_eq : image.block = nap.space.memStart + uaddr
  tableSize_eq : image.tableSize = ptrTblWords arch nap args * arch.pointerSize
  size_eq : image.size = blockSize arch nap args
  memory_eq : image.memory = write w.memory (image.block - arch.stackPadBelowAlign)
    (List.replicate arch.stackPadBelowAlign 0)
  end_eq : uaddr + blockSize arch nap args + naclMapPageSize = 2 ^ nap.space.addrBits
  pos : 0 < uaddr
  dvd : 2 ^ arch.stackAlignShift ∣ uaddr
  dvd_block : 2 ^ arch.stackAlignShift ∣ image.block
  words_lt : ptrTblWords arch nap args < 2 ^ 31
  fits : blockSize arch nap args ≤ nap.stackSize
  written : Written arch memory image.block (image.block + image.tableSize)
    (tableWords arch nap args image.block
      (stringPtrs nap.space (image.block + image.tableSize) args.argv)
      (stringPtrs nap.space (image.block + image.tableSize +
        (args.argv.map CharString.bytes).flatten.length) args.envv))
    ((args.argv ++ args.envv).map CharString.bytes) w
  stackPtr_eq : naclSysToUserStackAddr arch nap.space
    (usub image.block arch.stackPadBelowAlign) = some image.stackPtr

namespace BlockWritten

variable {uaddr : ℕ} {w : StackWriter}

theorem pad_le (h : BlockWritten arch nap args memory image uaddr w) :
    arch.stackPadBelowAlign ≤ uaddr :=
  (stackPadBelowAlign_le arch).trans (Nat.le_of_dvd h.pos h.dvd)

theorem tableSize_add_le (h : BlockWritten arch nap args memory image uaddr w) :
    image.tableSize + ((args.argv ++ args.envv).map CharString.bytes).flatten.length ≤ image.size := by
  rw [h.tableSize_eq, h.size_eq, Nat.add_comm]
  exact le_blockSize arch nap args

theorem block_add_size (h : BlockWritten arch nap args memory image uaddr w) :
    image.block + image.size + naclMapPageSize = nap.space.memStart + 2 ^ nap.space.addrBits := by
  rw [h.block_eq, h.size_eq, ← h.end_eq]
  omega

theorem holds (h : BlockWritten arch nap args memory image uaddr w) {a : ℕ} {xs : List UInt8}
    (hxs : Holds w.memory a xs) (ha : image.block ≤ a) : Holds image.memory a xs := by
  have hpad := h.pad_le
  have hblock := h.block_eq
  rw [h.memory_eq]
  apply hxs.write
  right
  dsimp only
  rw [List.length_replicate]
  omega

theorem hasTable (h : BlockWritten arch nap args memory image uaddr w) :
    image.HasTable arch (tableWords arch nap args image.block
      (stringPtrs nap.space (image.block + image.tableSize) args.argv)
      (stringPtrs nap.space (image.block + image.tableSize +
        (args.argv.map CharString.bytes).flatten.length) args.envv)) := by
  have hlen := length_tableWords nap args image.block
    (length_stringPtrs nap.space (image.block + image.tableSize) args.argv)
    (length_stringPtrs nap.space (image.block + image.tableSize +
      (args.argv.map CharString.bytes).flatten.length) args.envv)
  have hend := h.block_add_size
  have hsize := h.tableSize_add_le
  have hpage := naclMapPageSize_eq
  have hthree := three_le_ptrTblWords nap args
  have hword : 2 ^ 32 ≤ 256 ^ arch.pointerSize := by cases arch <;> decide
  have hone : arch.pointerSize ≤ image.tableSize := by
    rw [h.tableSize_eq]
    exact Nat.le_mul_of_pos_left _ (by omega)
  constructor
  · rw [hlen, h.tableSize_eq, Nat.mul_comm]
  · intro k v hk
    apply wordAt_of_holds_flatten (h.holds h.written.holds_words le_rfl) hk
    refine lt_of_lt_of_le ?_ hword
    refine lt_of_mem_tableWords (by omega) ?_ ?_ (List.mem_of_getElem? hk)
    · have := h.words_lt
      simp only [ptrTblWords] at this
      omega
    · rw [stringPtrs_append]
      intro p hp
      exact lt_of_mem_stringPtrs (by omega) hp

theorem stringsCopied (h : BlockWritten arch nap args memory image uaddr w) :
    image.StringsCopied nap args (stringPtrs nap.space (image.block + image.tableSize) args.argv ++
      stringPtrs nap.space (image.block + image.tableSize +
        (args.argv.map CharString.bytes).flatten.length) args.envv) := by
  have hblock := h.block_eq
  have hsize := h.tableSize_add_le
  rw [stringPtrs_append]
  apply stringsCopied_of_holds (by omega) rfl (by omega)
  exact h.holds h.written.holds_strings (by omega)

theorem frame (h : BlockWritten arch nap args memory image uaddr w) {a : ℕ}
    (ha : a < image.block - arch.stackPadBelowAlign ∨ image.block + image.size ≤ a) :
    image.memory a = memory a := by
  have hpad := h.pad_le
  have hblock := h.block_eq
  have hsize := h.tableSize_add_le
  rw [h.memory_eq, write_eq_of_out]
  · apply h.written.frame
    omega
  · rw [List.length_replicate]
    omega

theorem mappedStack_eq (h : BlockWritten arch nap args memory image uaddr w) :
    nap.mappedStack.1 + nap.mappedStack.2 = nap.space.memStart + 2 ^ nap.space.addrBits ∧
      nap.mappedStack.2 = nap.stackSize := by
  have hlt := nap.stackSize_lt
  have haddr := (addrBits_of_stackSize (blockSize_pos arch nap args) h.fits).1
  have hdvd : 2 ^ naclMapPageShift ∣ 2 ^ nap.space.addrBits - nap.stackSize :=
    Nat.dvd_sub (Nat.pow_dvd_pow 2 haddr) nap.dvd_stackSize
  refine ⟨?_, rfl⟩
  unfold MainThreadApp.mappedStack naclTruncAllocPage
  rw [alignDown_eq_self hdvd]
  dsimp only
  omega

theorem mapped (h : BlockWritten arch nap args memory image uaddr w)
    (hroom : blockSize arch nap args + naclMapPageSize + arch.stackPadBelowAlign ≤ nap.stackSize) :
    Within nap.mappedStack.1 (nap.mappedStack.1 + nap.mappedStack.2)
      (image.block - arch.stackPadBelowAlign, arch.stackPadBelowAlign + image.size) := by
  have hstack := h.mappedStack_eq
  have hend := h.block_add_size
  have hpad := h.pad_le
  have hblock := h.block_eq
  have hsize := h.size_eq
  intro i hi
  dsimp only at hi ⊢
  omega

theorem naclSysToUserStackAddr_eq (h : BlockWritten arch nap args memory image uaddr w) :
    naclSysToUserStackAddr arch nap.space (image.block - arch.stackPadBelowAlign) =
      some image.stackPtr := by
  have hpad := h.pad_le
  have hblock := h.block_eq
  have hend := h.block_add_size
  have hspace := nap.space.lt
  have hsub : usub image.block arch.stackPadBelowAlign = image.block - arch.stackPadBelowAlign :=
    usub_eq (by omega) (by omega)
  rw [← hsub]
  exact h.stackPtr_eq

theorem aligned (h : BlockWritten arch nap args memory image uaddr w) :
    2 ^ arch.stackAlignShift ∣ image.stackPtr + arch.stackPadBelowAlign := by
  have hptr := h.naclSysToUserStackAddr_eq
  have hpad := h.pad_le
  have hblock := h.block_eq
  have hin : nap.space.Contains (image.block - arch.stackPadBelowAlign) := by
    have hend := h.block_add_size
    have hsize := h.tableSize_add_le
    have hpage := naclMapPageSize_eq
    unfold AddressSpace.Contains
    omega
  -- The stack pointer of x86-64 is a host address, that of the others a user address.
  have huser : image.stackPtr + arch.stackPadBelowAlign = image.block ∨
      image.stackPtr + arch.stackPadBelowAlign = uaddr := by
    have hsys := naclSysToUser_of_contains hin
    cases arch with
    | x8664 =>
      left
      have heq : image.block - NaClArch.x8664.stackPadBelowAlign = image.stackPtr :=
        Option.some.inj hptr
      omega
    | x8632 | arm | mips =>
      right
      have heq := Option.some.inj (hsys.symm.trans hptr)
      omega
  rcases huser with heq | heq
  · exact heq ▸ h.dvd_block
  · exact heq ▸ h.dvd

end BlockWritten

theorem exists_blockWritten
    (hrun : naclCreateMainThreadHelper arch nap args allocated memory = .ok image) :
    ∃ uaddr w, BlockWritten arch nap args memory image uaddr w := by
  obtain ⟨w, uaddr, huaddr, hlt, hwords, hfit, haligned, hw, hsp, himage⟩ := exists_writeTables hrun
  have hspace := nap.space.lt
  have hsize := le_blockSize arch nap args
  have hpage := naclMapPageSize_eq
  have hdvd : 2 ^ arch.stackAlignShift ∣ uaddr := huaddr ▸ dvd_stackTop hfit
  have hpos : 0 < uaddr := by omega
  have hpad := (stackPadBelowAlign_le arch).trans (Nat.le_of_dvd hpos hdvd)
  have hsub : usub (nap.space.memStart + uaddr) arch.stackPadBelowAlign =
      nap.space.memStart + uaddr - arch.stackPadBelowAlign := usub_eq (by omega) (by omega)
  have hroom : nap.space.memStart + uaddr + arch.pointerSize * ptrTblWords arch nap args =
      nap.space.memStart + uaddr + ptrTblWords arch nap args * arch.pointerSize := by
    rw [Nat.mul_comm]
  obtain ⟨w', hw', h⟩ := written_writeTables args memory hroom (by omega) (by omega)
  obtain rfl : w = w' := Except.ok.inj (hw.symm.trans hw')
  rw [hsub] at himage
  refine ⟨uaddr, w, ?_⟩
  rw [himage]
  exact ⟨rfl, rfl, rfl, rfl, by omega, hpos, hdvd, haligned, hwords, hfit, h, hsp⟩

theorem naclUserToSysAddrRange_eq {space : AddressSpace} {uaddr count : ℕ} (hpos : 0 < uaddr)
    (h : uaddr + count ≤ 2 ^ space.addrBits) :
    naclUserToSysAddrRange space uaddr count = space.memStart + uaddr := by
  have hspace := space.lt
  have hbits := addrBits_pow_le space
  unfold naclUserToSysAddrRange
  rw [uadd_eq (by omega : uaddr + count < 2 ^ 64), uadd_eq (by omega), if_neg hpos.ne]
  dsimp only
  rw [if_neg (by omega), if_neg (by omega), Nat.add_comm]

theorem exists_naclSysToUserStackAddr (arch : NaClArch) {space : AddressSpace} {sysaddr : ℕ}
    (h : space.Contains sysaddr) : ∃ sp, naclSysToUserStackAddr arch space sysaddr = some sp := by
  cases arch with
  | x8664 => exact ⟨_, rfl⟩
  | x8632 | arm | mips => exact ⟨_, naclSysToUser_of_contains h⟩

/-- The main thread is started exactly when the block is no larger than the stack and fits below the
page at the top, and the block is aligned. -/
theorem exists_image_iff (arch : NaClArch) (nap : MainThreadApp) (args : MainArgs arch)
    (allocated : Bool) (memory : ℕ → UInt8) :
    (∃ image, naclCreateMainThreadHelper arch nap args allocated memory = .ok image) ↔
      allocated = true ∧ ptrTblWords arch nap args < 2 ^ 31 ∧
        blockSize arch nap args ≤ nap.stackSize ∧
        blockSize arch nap args + naclMapPageSize < 2 ^ nap.space.addrBits ∧
        2 ^ arch.stackAlignShift ∣ nap.space.memStart +
          (2 ^ nap.space.addrBits - naclMapPageSize - blockSize arch nap args) := by
  constructor
  · rintro ⟨image, hrun⟩
    obtain ⟨w, uaddr, rfl, hlt, hwords, hfit, haligned, -⟩ := exists_writeTables hrun
    refine ⟨?_, hwords, hfit, hlt, haligned⟩
    by_contra hfalse
    rw [naclCreateMainThreadHelper, if_pos (Bool.eq_false_iff.2 hfalse)] at hrun
    cases hrun
  · rintro ⟨rfl, hwords, hfit, hlt, haligned⟩
    have hspace := nap.space.lt
    have hbits := addrBits_pow_le nap.space
    have hpage := naclMapPageSize_eq
    have hsum := size_lt nap args
    have hsize := le_blockSize arch nap args
    have hstr : usub (2 ^ 64 - 1) (stringBytes (args.argv ++ args.envv)) = 2 ^ 64 - 1 -
        ((args.argv ++ args.envv).map CharString.bytes).flatten.length := by
      rw [stringBytes_eq, usub_eq (by omega) (by decide)]
    have hround : alignUp arch.stackAlignShift (uadd (stringBytes (args.argv ++ args.envv))
        (ptrTblWords arch nap args * arch.pointerSize)) = blockSize arch nap args := by
      rw [stringBytes_eq, uadd_eq (by omega)]
      rfl
    have htop : usub (naclGetInitialStackTop nap) (blockSize arch nap args) =
        2 ^ nap.space.addrBits - naclMapPageSize - blockSize arch nap args := by
      unfold naclGetInitialStackTop
      rw [usub_eq (by omega : naclMapPageSize ≤ 2 ^ nap.space.addrBits) (by omega),
        usub_eq (by omega) (by omega)]
    generalize huaddr : 2 ^ nap.space.addrBits - naclMapPageSize - blockSize arch nap args = uaddr at *
    have haddr : naclUserToSysAddrRange nap.space uaddr (blockSize arch nap args) =
        nap.space.memStart + uaddr := naclUserToSysAddrRange_eq (by omega) (by omega)
    have hroom : nap.space.memStart + uaddr + arch.pointerSize * ptrTblWords arch nap args =
        nap.space.memStart + uaddr + ptrTblWords arch nap args * arch.pointerSize := by
      rw [Nat.mul_comm]
    obtain ⟨w, hw, h⟩ := written_writeTables args memory hroom (by omega) (by omega)
    have hp : w.p = nap.space.memStart + uaddr + ptrTblWords arch nap args * arch.pointerSize := by
      rw [h.p_eq, length_tableWords nap args _ (length_stringPtrs _ _ _) (length_stringPtrs _ _ _), hroom]
    unfold naclCreateMainThreadHelper
    simp only [hstr, hround, htop, haddr, hw, hp]
    rw [if_neg (by decide), if_neg (not_le.2 hwords), if_neg (by omega), if_neg (not_lt.2 hfit),
      if_neg, if_neg (not_not.2 haligned), if_neg (not_not.2 rfl)]
    · have hdvd : 2 ^ arch.stackAlignShift ∣ uaddr := by
        rw [← huaddr]
        exact dvd_stackTop hfit
      have hpad := (stackPadBelowAlign_le arch).trans (Nat.le_of_dvd (by omega) hdvd)
      have hin : nap.space.Contains
          (usub (nap.space.memStart + uaddr) arch.stackPadBelowAlign) := by
        rw [usub_eq (by omega) (by omega)]
        exact ⟨by omega, by omega⟩
      obtain ⟨sp, hsp⟩ := exists_naclSysToUserStackAddr arch hin
      rw [hsp]
      exact ⟨_, rfl⟩
    · unfold kNaClBadAddress
      omega

/-- What the main thread starts with is sound. -/
theorem sound_of_run
    (hrun : naclCreateMainThreadHelper arch nap args allocated memory = .ok image) :
    image.Sound arch nap args memory := by
  obtain ⟨uaddr, w, h⟩ := exists_blockWritten hrun
  exact ⟨h.size_eq, ⟨_, _, length_stringPtrs _ _ _, h.hasTable, h.stringsCopied⟩,
    fun a ha => h.frame ha, h.mapped, h.naclSysToUserStackAddr_eq, h.aligned⟩

theorem zero_notMem_oneChar : (0 : UInt8) ∉ [97] := by decide

def oneChar : CharString := ⟨[97], zero_notMem_oneChar⟩

/-- One argument and no environment. -/
def oneArgv : MainArgs .x8664 where
  argv := [oneChar]
  envv := []
  argc_lt := by decide
  resident := by decide

/-- An application whose stack has the given number of pages. -/
def stackApp (pages : ℕ) (h : pages ≤ 2) : MainThreadApp where
  space := ⟨2 ^ 32, 32, AddressSpace.pos_at4GB, AddressSpace.le_at4GB, AddressSpace.lt_at4GB⟩
  stackSize := pages * naclMapPageSize
  userEntryPt := 0
  dynamicTextStart := 0
  dvd_stackSize := Nat.dvd_mul_left _ _
  stackSize_lt := by
    rw [naclMapPageSize_eq]
    dsimp only
    omega

theorem sound_of_run_oneArgv : ∃ image,
    naclCreateMainThreadHelper .x8664 (stackApp 2 le_rfl) oneArgv true (fun _ => 0) = .ok image ∧
      image.Sound .x8664 (stackApp 2 le_rfl) oneArgv (fun _ => 0) := by
  obtain ⟨image, hrun⟩ := (exists_image_iff .x8664 (stackApp 2 le_rfl) oneArgv true fun _ => 0).2
    ⟨rfl, by decide, by decide, by decide, by decide⟩
  exact ⟨image, hrun, sound_of_run hrun⟩

/-- A stack of one page has the block below it, and the table does not start with `argc`. -/
theorem block_below_stack : ∃ image,
    naclCreateMainThreadHelper .x8664 (stackApp 1 one_le_two) oneArgv true (fun _ => 0) = .ok image ∧
      ¬ Within (stackApp 1 one_le_two).mappedStack.1
        ((stackApp 1 one_le_two).mappedStack.1 + (stackApp 1 one_le_two).mappedStack.2)
        (image.block, image.size) ∧
      ∀ argPtrs envPtrs : List ℕ, ¬ image.HasTable .x8664
        ([1] ++ argPtrs ++ [0] ++ envPtrs ++ [0] ++ auxvWords (stackApp 1 one_le_two)) := by
  obtain ⟨image, hrun⟩ := (exists_image_iff .x8664 (stackApp 1 one_le_two) oneArgv true fun _ => 0).2
    ⟨rfl, by decide, by decide, by decide, by decide⟩
  obtain ⟨uaddr, w, h⟩ := exists_blockWritten hrun
  refine ⟨image, hrun, fun hin => ?_, fun argPtrs envPtrs htable => ?_⟩
  · have hsize : blockSize .x8664 (stackApp 1 one_le_two) oneArgv = 80 := by decide
    have hpos : 0 < image.size := by rw [h.size_eq, hsize]; decide
    have hfirst := (hin 0 hpos).1
    have hend := h.block_add_size
    have hstack : (stackApp 1 one_le_two).mappedStack.1 = 2 ^ 32 + (2 ^ 32 - 2 ^ 16) := by decide
    rw [h.size_eq, hsize, naclMapPageSize_eq] at hend
    rw [hstack] at hfirst
    change image.block + 80 + 2 ^ 16 = 2 ^ 32 + 2 ^ 32 at hend
    omega
  · have hzero := h.hasTable.2 0 0 rfl
    have hone := htable.2 0 1 rfl
    exact absurd (hzero.symm.trans hone) (by decide)

end

end SandboxingNaCl
