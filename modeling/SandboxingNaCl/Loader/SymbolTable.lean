import SandboxingNaCl.DynLdr.CallbackSyscall
import SandboxingNaCl.Lib.ByteImage
import SandboxingNaCl.Loader.ElfUtil

/-!
# The symbol table of the sandboxed program

The loader of the symbol table at the end of `elf_util.c` and the lookup of function symbols by name
in `dyn_ldr_lib.c`, in the versions for 32 and 64 bits.  Characters are bytes, and a name is the list
of its characters without the NUL.  A read past the end of a table that was loaded ends the model's
run with an error.
-/

namespace SandboxingNaCl

abbrev SymbolName : Type := List UInt8

/-- The `bits` of the macros. -/
inductive ElfBits
  | bits32 | bits64

/-- `sizeof(Elf##bits##_Shdr)`. -/
def ElfBits.shdrSize : ElfBits → ℕ
  | .bits32 => 40
  | .bits64 => 64

/-- `sizeof(Elf##bits##_Sym)`. -/
def ElfBits.symSize : ElfBits → ℕ
  | .bits32 => 16
  | .bits64 => 24

/-- `Elf##bits##_Shdr`. -/
structure ElfShdr where
  shType : ℕ
  shOffset : ℕ
  shSize : ℕ
  shLink : ℕ
  shEntsize : ℕ
deriving DecidableEq

/-- `Elf##bits##_Sym`. -/
structure ElfSym where
  stName : ℕ
  stInfo : ℕ
  stValue : ℕ

def fieldAt (bytes : List UInt8) (offset size : ℕ) : ℕ :=
  Nat.ofDigits 256 (((bytes.drop offset).take size).map UInt8.toNat)

/-- A section header in the bytes of the file. -/
def ElfShdr.ofBytes (bytes : List UInt8) : ElfBits → ElfShdr
  | .bits32 =>
    ⟨fieldAt bytes 4 4, fieldAt bytes 16 4, fieldAt bytes 20 4, fieldAt bytes 24 4, fieldAt bytes 36 4⟩
  | .bits64 =>
    ⟨fieldAt bytes 4 4, fieldAt bytes 24 8, fieldAt bytes 32 8, fieldAt bytes 40 4, fieldAt bytes 56 8⟩

def ElfSym.ofBytes (bytes : List UInt8) : ElfBits → ElfSym
  | .bits32 => ⟨fieldAt bytes 0 4, fieldAt bytes 12 1, fieldAt bytes 4 4⟩
  | .bits64 => ⟨fieldAt bytes 0 4, fieldAt bytes 4 1, fieldAt bytes 8 8⟩

/-- The descriptor of the file.  `pread offset count` is what `PRead` reads if it reads all of it. -/
structure ElfDesc where
  pread : ℕ → ℕ → Option (List UInt8)
  length_pread : ∀ offset count bytes, pread offset count = some bytes → bytes.length = count

/-- `ElfSectionData##bits`. -/
structure ElfSectionData where
  stringTableSize : ℕ
  symbolCount : ℕ
  stringTable : List UInt8
  symbolTable : List UInt8
deriving DecidableEq

structure SymbolTableMapEntry where
  name : SymbolName
  address : ℕ

def shtSymtab : ℕ := 2

def shtStrtab : ℕ := 3

/-- `ELF_ST_TYPE(x) == STT_FUNC`. -/
def ElfSym.isFunc (sym : ElfSym) : Bool := sym.stInfo % 16 = 2

/-- The length of the names that `GetFromStringTable` has room for, with the NUL. -/
def maxStringLength : ℕ := 257

/-! ## Loading the tables -/

/-- The section headers: `NaClElfGetSymbolInfo##bits` up to its loop. -/
def readSectionHeaders (bits : ElfBits) (ndp : ElfDesc) (shoff shnum : ℕ) : Option (List ElfShdr) :=
  if naclMaxProgramHeaders < shnum then none
  else (ndp.pread shoff (shnum * bits.shdrSize)).map fun bytes =>
    (List.range shnum).map fun i => ElfShdr.ofBytes (bytes.drop (i * bits.shdrSize)) bits

/-- The body of the loop of `NaClElfGetSymbolInfo##bits`. -/
def loadSection (bits : ElfBits) (ndp : ElfDesc) (data : ElfSectionData) (sectionHeader : ElfShdr) :
    Option ElfSectionData :=
  if sectionHeader.shType = shtStrtab then
    (ndp.pread sectionHeader.shOffset sectionHeader.shSize).map fun bytes =>
      { data with stringTableSize := sectionHeader.shSize % 2 ^ 32, stringTable := bytes }
  else if sectionHeader.shType = shtSymtab then
    if sectionHeader.shEntsize ≠ bits.symSize then none
    else (ndp.pread sectionHeader.shOffset sectionHeader.shSize).map fun bytes =>
      { data with
        symbolTable := bytes
        symbolCount := sectionHeader.shSize / bits.symSize % 2 ^ 32 }
  else some data

/-- `NaClElfGetSymbolInfo##bits`. -/
def naclElfGetSymbolInfo (bits : ElfBits) (ndp : ElfDesc) (shoff shnum : ℕ) :
    Option ElfSectionData := do
  let shdr ← readSectionHeaders bits ndp shoff shnum
  shdr.foldlM (loadSection bits ndp) ⟨0, 0, [], []⟩

/-! ## The mapping -/

/-- The loop of `GetFromStringTable`: `n` rounds from a position on, with the characters copied. -/
def copyName (stringTable : List UInt8) (stringTableSize : ℕ) :
    ℕ → ℕ → SymbolName → Except Fault (Option SymbolName)
  | 0, _, _ => .ok none
  | n + 1, pos, ret =>
    if pos ≤ stringTableSize then
      match stringTable[pos]? with
      | none => .error .badAccess
      | some c =>
        if c = 0 then .ok (some ret) else copyName stringTable stringTableSize n (pos + 1) (ret ++ [c])
    else .ok none

def getFromStringTable (stringTable : List UInt8) (stringTableSize index : ℕ) :
    Except Fault (Option SymbolName) :=
  copyName stringTable stringTableSize maxStringLength index []

/-- `symbolTable[i]`. -/
def ElfSectionData.symbol (bits : ElfBits) (data : ElfSectionData) (i : ℕ) : Except Fault ElfSym :=
  if data.symbolTable.length < (i + 1) * bits.symSize then .error .badAccess
  else .ok (.ofBytes (data.symbolTable.drop (i * bits.symSize)) bits)

/-- The second loop of `GetSymbolTableMapping##bits`; the first one counts the function symbols, for
which the mapping has room. -/
def mapSymbol (bits : ElfBits) (data : ElfSectionData) (symbolMap : List SymbolTableMapEntry) (i : ℕ) :
    Except Fault (List SymbolTableMapEntry) := do
  let currSymbol ← data.symbol bits i
  if currSymbol.isFunc then
    match ← getFromStringTable data.stringTable data.stringTableSize currSymbol.stName with
    | some symbolName =>
      if symbolName ≠ [] then .ok (symbolMap ++ [⟨symbolName, currSymbol.stValue⟩])
      else .ok symbolMap
    | none => .ok symbolMap
  else .ok symbolMap

/-- `GetSymbolTableMapping##bits`. -/
def getSymbolTableMapping (bits : ElfBits) (data : ElfSectionData) :
    Except Fault (List SymbolTableMapEntry) :=
  (List.range data.symbolCount).foldlM (mapSymbol bits data) []

/-- `symbolTableLookupInSandbox`, with 0 for a null pointer; `none` is the fatal error of
`NaClUserToSys`. -/
def symbolTableLookupInSandbox (as : AddressSpace) (symbolMap : List SymbolTableMapEntry)
    (symbol : SymbolName) : Option ℕ :=
  match symbolMap.find? (·.name = symbol) with
  | some entry => getUnsandboxedAddress as entry.address
  | none => some 0

/-! ## What the lookup is to find -/

/-- The symbols of a symbol table section. -/
def sectionSymbols (bits : ElfBits) (ndp : ElfDesc) (symtab : ElfShdr) : List ElfSym :=
  match ndp.pread symtab.shOffset symtab.shSize with
  | none => []
  | some bytes => (List.range (symtab.shSize / bits.symSize)).map fun i =>
    .ofBytes (bytes.drop (i * bits.symSize)) bits

/-- The name of a symbol in the string table that its section links to. -/
def linkedName (ndp : ElfDesc) (headers : List ElfShdr) (symtab : ElfShdr) (sym : ElfSym) :
    Option SymbolName := do
  let strtab ← headers[symtab.shLink]?
  let bytes ← ndp.pread strtab.shOffset strtab.shSize
  let rest := bytes.drop sym.stName
  if 0 ∈ rest then some (rest.takeWhile (· ≠ 0)) else none

/-- The named function symbols of an image with their values. -/
def linkedFunctions (bits : ElfBits) (ndp : ElfDesc) (headers : List ElfShdr) :
    List (SymbolName × ℕ) :=
  (headers.filter (·.shType = shtSymtab)).flatMap fun symtab =>
    ((sectionSymbols bits ndp symtab).filter (·.isFunc)).filterMap fun sym =>
      (linkedName ndp headers symtab sym).map fun name => (name, sym.stValue)

def firstValue (functions : List (SymbolName × ℕ)) (name : SymbolName) : Option ℕ :=
  (functions.find? (·.1 = name)).map (·.2)

/-- The mapping is made without a read outside the tables, and for each name the lookup returns the
host address of the first function symbol with that name, or a null pointer if there is none. -/
def LookupCorrect (bits : ElfBits) (as : AddressSpace) (ndp : ElfDesc) (headers : List ElfShdr)
    (data : ElfSectionData) : Prop :=
  ∃ symbolMap, getSymbolTableMapping bits data = .ok symbolMap ∧
    ∀ symbol, symbolTableLookupInSandbox as symbolMap symbol =
      some (((firstValue (linkedFunctions bits ndp headers) symbol).map (as.memStart + ·)).getD 0)

/-! ## The names in the loaded tables -/

namespace ElfSectionData

def symbolAt (bits : ElfBits) (data : ElfSectionData) (i : ℕ) : ElfSym :=
  .ofBytes (data.symbolTable.drop (i * bits.symSize)) bits

def symbols (bits : ElfBits) (data : ElfSectionData) : List ElfSym :=
  (List.range data.symbolCount).map (data.symbolAt bits)

/-- The characters from which `GetFromStringTable` takes a name. -/
def nameWindow (data : ElfSectionData) (pos n : ℕ) : List UInt8 :=
  ((data.stringTable.take (data.stringTableSize + 1)).drop pos).take n

/-- The name of a symbol in the loaded string table, if it is not empty or too long. -/
def loadedName (data : ElfSectionData) (sym : ElfSym) : Option SymbolName :=
  let window := data.nameWindow sym.stName maxStringLength
  if 0 ∈ window ∧ window.takeWhile (· ≠ 0) ≠ [] then some (window.takeWhile (· ≠ 0)) else none

/-- The functions among some symbols, with the names in the loaded string table. -/
def functionsOf (data : ElfSectionData) (syms : List ElfSym) : List (SymbolName × ℕ) :=
  (syms.filter (·.isFunc)).filterMap fun sym =>
    (data.loadedName sym).map fun name => (name, sym.stValue)

/-- A name begins after the string table, has its NUL in it, or has more characters in it than are
copied. -/
def NameEnds (data : ElfSectionData) (sym : ElfSym) : Prop :=
  data.stringTableSize < data.stringTable.length ∨ data.stringTable.length < sym.stName ∨
    0 ∈ data.stringTable.drop sym.stName ∨ sym.stName + maxStringLength ≤ data.stringTable.length

/-- What the loader has made of the sizes. -/
structure Sized (bits : ElfBits) (data : ElfSectionData) : Prop where
  strings : data.stringTableSize ≤ data.stringTable.length
  symbols : data.symbolCount * bits.symSize ≤ data.symbolTable.length

end ElfSectionData

section Loading

variable {bits : ElfBits} {ndp : ElfDesc} {data data' : ElfSectionData} {sectionHeader : ElfShdr}

theorem ElfSectionData.Sized.loadSection (h : data.Sized bits)
    (hload : loadSection bits ndp data sectionHeader = some data') : data'.Sized bits := by
  unfold SandboxingNaCl.loadSection at hload
  split_ifs at hload
  · obtain ⟨bytes, hbytes, rfl⟩ := Option.map_eq_some_iff.1 hload
    refine ⟨?_, h.symbols⟩
    rw [ndp.length_pread _ _ _ hbytes]
    exact Nat.mod_le _ _
  · obtain ⟨bytes, hbytes, rfl⟩ := Option.map_eq_some_iff.1 hload
    refine ⟨h.strings, ?_⟩
    rw [ndp.length_pread _ _ _ hbytes]
    exact (Nat.mul_le_mul_right _ (Nat.mod_le _ _)).trans (Nat.div_mul_le_self _ _)
  · cases hload
    exact h

theorem sized_of_foldlM {headers : List ElfShdr} (h : data.Sized bits)
    (hload : headers.foldlM (loadSection bits ndp) data = some data') : data'.Sized bits := by
  induction headers generalizing data with
  | nil =>
    cases hload
    exact h
  | cons header headers ih =>
    rw [List.foldlM_cons] at hload
    obtain ⟨next, hnext, hload⟩ := Option.bind_eq_some_iff.1 hload
    exact ih (h.loadSection hnext) hload

end Loading

section Mapping

variable {bits : ElfBits} {data : ElfSectionData}

theorem nameWindow_zero (pos : ℕ) : data.nameWindow pos 0 = [] := List.take_zero

theorem nameWindow_of_lt {pos : ℕ} (h : data.stringTableSize < pos) (n : ℕ) :
    data.nameWindow pos n = [] := by
  have hlength : (data.stringTable.take (data.stringTableSize + 1)).length ≤ pos := by
    rw [List.length_take]
    omega
  rw [ElfSectionData.nameWindow, List.drop_eq_nil_of_le hlength, List.take_nil]

theorem nameWindow_succ {pos : ℕ} {c : UInt8} (h : pos ≤ data.stringTableSize)
    (hc : data.stringTable[pos]? = some c) (n : ℕ) :
    data.nameWindow pos (n + 1) = c :: data.nameWindow (pos + 1) n := by
  have hget : (data.stringTable.take (data.stringTableSize + 1))[pos]? = some c := by
    rw [List.getElem?_take_of_lt (Nat.lt_succ_of_le h), hc]
  obtain ⟨hlt, hget⟩ := List.getElem?_eq_some_iff.1 hget
  rw [ElfSectionData.nameWindow, List.drop_eq_getElem_cons hlt, hget, List.take_succ_cons]
  rfl

/-- The copy of a name ends at its NUL; without one it fails when it comes to the end of the table
before it has copied all it has room for. -/
theorem copyName_eq (h : data.stringTableSize ≤ data.stringTable.length) (n pos : ℕ)
    (ret : SymbolName) : copyName data.stringTable data.stringTableSize n pos ret =
      if 0 ∈ data.nameWindow pos n then
        .ok (some (ret ++ (data.nameWindow pos n).takeWhile (· ≠ 0)))
      else if data.stringTable.length ≤ data.stringTableSize ∧ pos ≤ data.stringTable.length ∧
          data.stringTable.length < pos + n then .error .badAccess
      else .ok none := by
  induction n generalizing pos ret with
  | zero =>
    rw [copyName, nameWindow_zero, if_neg List.not_mem_nil, if_neg (by omega)]
  | succ n ih =>
    rw [copyName]
    by_cases hpos : pos ≤ data.stringTableSize
    · rw [if_pos hpos]
      cases hc : data.stringTable[pos]? with
      | none =>
        have hlength := List.getElem?_eq_none_iff.1 hc
        have hwindow : data.nameWindow pos (n + 1) = [] := by
          have htake : (data.stringTable.take (data.stringTableSize + 1)).length ≤ pos := by
            rw [List.length_take]
            omega
          rw [ElfSectionData.nameWindow, List.drop_eq_nil_of_le htake, List.take_nil]
        rw [hwindow, if_neg List.not_mem_nil, if_pos (by omega)]
      | some c =>
        obtain ⟨hlt, -⟩ := List.getElem?_eq_some_iff.1 hc
        rw [nameWindow_succ hpos hc]
        by_cases hzero : c = 0
        · simp [hzero]
        · have hiff : (data.stringTable.length ≤ data.stringTableSize ∧
                pos + 1 ≤ data.stringTable.length ∧ data.stringTable.length < pos + 1 + n) ↔
              (data.stringTable.length ≤ data.stringTableSize ∧
                pos ≤ data.stringTable.length ∧ data.stringTable.length < pos + (n + 1)) := by
            omega
          simp only [hzero, if_false, ih, hiff, List.mem_cons, Ne.symm hzero, false_or,
            ne_eq, not_false_eq_true, decide_true, List.takeWhile_cons_of_pos,
            List.append_assoc, List.singleton_append]
    · rw [if_neg hpos, nameWindow_of_lt (Nat.lt_of_not_le hpos), if_neg List.not_mem_nil,
        if_neg (by omega)]

theorem mem_nameWindow_or (h : data.stringTable.length ≤ data.stringTableSize) {pos n : ℕ}
    (hzero : 0 ∈ data.stringTable.drop pos) :
    0 ∈ data.nameWindow pos n ∨ pos + n ≤ data.stringTable.length := by
  have htake : data.stringTable.take (data.stringTableSize + 1) = data.stringTable :=
    List.take_of_length_le (by omega)
  rw [ElfSectionData.nameWindow, htake]
  by_cases hn : pos + n ≤ data.stringTable.length
  · exact Or.inr hn
  · have hall : (data.stringTable.drop pos).take n = data.stringTable.drop pos :=
      List.take_of_length_le (by rw [List.length_drop]; omega)
    rw [hall]
    exact Or.inl hzero

theorem mem_drop_of_mem_nameWindow {pos n : ℕ} {c : UInt8} (h : c ∈ data.nameWindow pos n) :
    c ∈ data.stringTable.drop pos := by
  have hdrop := List.mem_of_mem_take h
  rw [List.drop_take] at hdrop
  exact List.mem_of_mem_take hdrop

theorem getFromStringTable_eq (h : data.stringTableSize ≤ data.stringTable.length) (sym : ElfSym) :
    (¬ data.NameEnds sym ∧
        getFromStringTable data.stringTable data.stringTableSize sym.stName = .error .badAccess) ∨
      data.NameEnds sym ∧
        getFromStringTable data.stringTable data.stringTableSize sym.stName =
          .ok (if 0 ∈ data.nameWindow sym.stName maxStringLength then
            some ((data.nameWindow sym.stName maxStringLength).takeWhile (· ≠ 0)) else none) := by
  rw [getFromStringTable, copyName_eq h]
  by_cases hzero : 0 ∈ data.nameWindow sym.stName maxStringLength
  · refine Or.inr ⟨Or.inr (Or.inr (Or.inl (mem_drop_of_mem_nameWindow hzero))), ?_⟩
    rw [if_pos hzero, if_pos hzero, List.nil_append]
  · rw [if_neg hzero, if_neg hzero]
    by_cases hends : data.NameEnds sym
    · refine Or.inr ⟨hends, if_neg ?_⟩
      rintro ⟨hsize, hle, hlt⟩
      obtain hlong | hafter | hdrop | hroom := hends
      · omega
      · omega
      · have hroom := (mem_nameWindow_or hsize hdrop).resolve_left hzero
        omega
      · omega
    · refine Or.inl ⟨hends, if_pos ?_⟩
      simp only [ElfSectionData.NameEnds, not_or] at hends
      omega

theorem symbol_eq (h : data.Sized bits) {i : ℕ} (hi : i < data.symbolCount) :
    data.symbol bits i = .ok (data.symbolAt bits i) := by
  have hsize := (Nat.mul_le_mul_right bits.symSize (Nat.succ_le_of_lt hi)).trans h.symbols
  rw [ElfSectionData.symbol, if_neg (Nat.not_lt.2 hsize)]
  rfl

theorem mapSymbol_eq (h : data.Sized bits) {i : ℕ} (hi : i < data.symbolCount)
    (symbolMap : List SymbolTableMapEntry) :
    ((data.symbolAt bits i).isFunc = true ∧ ¬ data.NameEnds (data.symbolAt bits i) ∧
        mapSymbol bits data symbolMap i = .error .badAccess) ∨
      ((data.symbolAt bits i).isFunc = true → data.NameEnds (data.symbolAt bits i)) ∧
        mapSymbol bits data symbolMap i = .ok (symbolMap ++
          (data.functionsOf [data.symbolAt bits i]).map fun f => ⟨f.1, f.2⟩) := by
  rw [mapSymbol, symbol_eq h hi]
  generalize data.symbolAt bits i = sym
  simp only [bind, Except.bind]
  cases hfunc : sym.isFunc with
  | false => simp [ElfSectionData.functionsOf, hfunc]
  | true =>
    obtain ⟨hends, hname⟩ | ⟨hends, hname⟩ := getFromStringTable_eq h.strings sym
    · simp [hname, hends]
    · refine Or.inr ⟨fun _ => hends, ?_⟩
      rw [hname, if_pos rfl]
      simp only [ElfSectionData.functionsOf, ElfSectionData.loadedName, hfunc,
        List.filter_cons_of_pos, List.filter_nil, List.filterMap_cons, List.filterMap_nil]
      generalize (data.nameWindow sym.stName maxStringLength).takeWhile (· ≠ 0) = name
      by_cases hzero : 0 ∈ data.nameWindow sym.stName maxStringLength
      · by_cases hempty : name = []
        · simp [hzero, hempty]
        · simp [hzero, hempty]
      · simp [hzero]

theorem foldlM_mapSymbol_iff (h : data.Sized bits) {places : List ℕ}
    (hplaces : ∀ i ∈ places, i < data.symbolCount) (symbolMap result : List SymbolTableMapEntry) :
    places.foldlM (mapSymbol bits data) symbolMap = .ok result ↔
      (∀ sym ∈ places.map (data.symbolAt bits), sym.isFunc = true → data.NameEnds sym) ∧
        result = symbolMap ++
          (data.functionsOf (places.map (data.symbolAt bits))).map fun f => ⟨f.1, f.2⟩ := by
  induction places generalizing symbolMap with
  | nil =>
    simp only [List.foldlM_nil, List.map_nil, List.not_mem_nil, false_imp_iff, implies_true,
      true_and, ElfSectionData.functionsOf, List.filter_nil, List.filterMap_nil, List.append_nil]
    exact ⟨fun h => (Except.ok.inj h).symm, fun h => congrArg _ h.symm⟩
  | cons i places ih =>
    rw [List.forall_mem_cons] at hplaces
    have hcons : data.functionsOf ((i :: places).map (data.symbolAt bits)) =
        data.functionsOf [data.symbolAt bits i] ++
          data.functionsOf (places.map (data.symbolAt bits)) := by
      rw [List.map_cons, ← List.singleton_append]
      simp only [ElfSectionData.functionsOf, List.filter_append, List.filterMap_append]
    rw [List.foldlM_cons, hcons, List.map_cons, List.forall_mem_cons]
    obtain ⟨hfunc, hends, hsym⟩ | ⟨hends, hsym⟩ := mapSymbol_eq h hplaces.1 symbolMap
    · rw [hsym]
      exact ⟨nofun, fun h => absurd (h.1.1 hfunc) hends⟩
    · rw [hsym]
      refine (ih hplaces.2 _).trans ?_
      rw [List.map_append, List.append_assoc, and_iff_right hends]

theorem getSymbolTableMapping_iff (h : data.Sized bits) (result : List SymbolTableMapEntry) :
    getSymbolTableMapping bits data = .ok result ↔
      (∀ sym ∈ data.symbols bits, sym.isFunc = true → data.NameEnds sym) ∧
        result = (data.functionsOf (data.symbols bits)).map fun f => ⟨f.1, f.2⟩ :=
  foldlM_mapSymbol_iff h (fun _ hi => List.mem_range.1 hi) [] result

end Mapping

/-! ## The lookup -/

/-- The names are found as they are linked: the first function with a name in its linked string table
has a value that is an address of the sandbox, and the first one with this name in the loaded string
table has the same; a name that is only in the loaded string table is given to no address. -/
structure NamesLinked (as : AddressSpace) (linked loaded : List (SymbolName × ℕ)) : Prop where
  found : ∀ name value, firstValue linked name = some value → 0 < value ∧ value < 2 ^ as.addrBits ∧
    ∃ address, firstValue loaded name = some address ∧ address % 2 ^ 32 = value
  absent : ∀ name address, firstValue linked name = none → firstValue loaded name = some address →
    address = 0

section Lookup

variable {bits : ElfBits} {as : AddressSpace} {ndp : ElfDesc} {headers : List ElfShdr}
  {data : ElfSectionData} {shoff shnum : ℕ}

theorem symbolTableLookupInSandbox_eq (as : AddressSpace) (loaded : List (SymbolName × ℕ))
    (symbol : SymbolName) :
    symbolTableLookupInSandbox as (loaded.map fun f => ⟨f.1, f.2⟩) symbol =
      match firstValue loaded symbol with
      | some address => getUnsandboxedAddress as address
      | none => some 0 := by
  rw [symbolTableLookupInSandbox, List.find?_map, firstValue]
  cases hfind : loaded.find? ((fun entry : SymbolTableMapEntry => decide (entry.name = symbol)) ∘
      fun f => ⟨f.1, f.2⟩) with
  | none =>
    have hfind' : loaded.find? (fun f => decide (f.1 = symbol)) = none := hfind
    rw [hfind']
    rfl
  | some f =>
    have hfind' : loaded.find? (fun f => decide (f.1 = symbol)) = some f := hfind
    rw [hfind']
    rfl

theorem getUnsandboxedAddress_of_ne_zero {address : ℕ} (h : address ≠ 0) :
    getUnsandboxedAddress as address =
      if address % 2 ^ 32 = 0 ∨ 2 ^ as.addrBits ≤ address % 2 ^ 32 then none
      else some (as.memStart + address % 2 ^ 32) := by
  have hmask : address &&& 0xFFFFFFFF = address % 2 ^ 32 := Nat.and_two_pow_sub_one_eq_mod address 32
  rw [getUnsandboxedAddress, if_neg h, naclUserToSys, hmask]
  have hlt := as.lt
  split_ifs with h₁ h₂ h₂
  · rfl
  · omega
  · omega
  · rw [MachineInt.uadd_eq (by omega), Nat.add_comm]

theorem getUnsandboxedAddress_eq_zero_iff {address : ℕ} :
    getUnsandboxedAddress as address = some 0 ↔ address = 0 := by
  constructor
  · intro h
    by_contra hne
    have hpos := as.pos
    rw [getUnsandboxedAddress_of_ne_zero hne] at h
    split_ifs at h
    have := Option.some.inj h
    omega
  · rintro rfl
    rfl

theorem getUnsandboxedAddress_eq_iff {address value : ℕ} :
    getUnsandboxedAddress as address = some (as.memStart + value) ↔
      0 < value ∧ value < 2 ^ as.addrBits ∧ address % 2 ^ 32 = value := by
  have hpos := as.pos
  by_cases hne : address = 0
  · subst hne
    rw [getUnsandboxedAddress, if_pos rfl, Option.some_inj]
    omega
  · rw [getUnsandboxedAddress_of_ne_zero hne]
    split_ifs with h
    · refine ⟨nofun, fun h => ?_⟩
      omega
    · rw [Option.some_inj]
      omega

theorem lookup_iff (linked loaded : List (SymbolName × ℕ)) :
    (∀ symbol, symbolTableLookupInSandbox as (loaded.map fun f => ⟨f.1, f.2⟩) symbol =
      some (((firstValue linked symbol).map (as.memStart + ·)).getD 0)) ↔
    NamesLinked as linked loaded := by
  constructor
  · intro h
    refine ⟨fun name value hvalue => ?_, fun name address hnone haddress => ?_⟩
    · have hname := h name
      rw [symbolTableLookupInSandbox_eq, hvalue] at hname
      cases haddress : firstValue loaded name with
      | none =>
        have hpos := as.pos
        rw [haddress] at hname
        simp at hname
        omega
      | some address =>
        rw [haddress] at hname
        obtain ⟨hpos, hlt, hmod⟩ := getUnsandboxedAddress_eq_iff.1 hname
        exact ⟨hpos, hlt, address, rfl, hmod⟩
    · have hname := h name
      rw [symbolTableLookupInSandbox_eq, hnone, haddress] at hname
      exact getUnsandboxedAddress_eq_zero_iff.1 hname
  · intro h symbol
    rw [symbolTableLookupInSandbox_eq]
    cases hlinked : firstValue linked symbol with
    | none =>
      cases hloaded : firstValue loaded symbol with
      | none => rfl
      | some address =>
        exact getUnsandboxedAddress_eq_zero_iff.2 (h.absent symbol address hlinked hloaded)
    | some value =>
      obtain ⟨hpos, hlt, address, haddress, hmod⟩ := h.found symbol value hlinked
      rw [haddress]
      exact getUnsandboxedAddress_eq_iff.2 ⟨hpos, hlt, hmod⟩

end Lookup

/-! ## A small image -/

/-- A descriptor of a file with these bytes. -/
def ElfDesc.ofBytes (file : List UInt8) : ElfDesc where
  pread offset count :=
    if offset + count ≤ file.length then some ((file.drop offset).take count) else none
  length_pread offset count bytes h := by
    split_ifs at h
    cases h
    rw [List.length_take, List.length_drop]
    omega

/-- The section headers of a symbol table, its string table and one of section names, then a symbol
at `0x20000` and the tables with the names `f` and `g`. -/
def smallElf : ElfDesc := .ofBytes ((([
  0, 2, 0, 0, 120, 16, 1, 0, 0, 16,
  0, 3, 0, 0, 136, 3, 0, 0, 0, 0,
  0, 3, 0, 0, 139, 3, 0, 0, 0, 0,
  1, 0x20000, 0, 0x10002].map (ByteImage.leBytes 4)).flatten) ++ [0, 102, 0, 0, 103, 0])

def smallHeaders : List ElfShdr := [⟨2, 120, 16, 1, 16⟩, ⟨3, 136, 3, 0, 0⟩, ⟨3, 139, 3, 0, 0⟩]

def smallData : ElfSectionData := ⟨3, 1, [0, 103, 0], [1, 0, 0, 0, 0, 0, 2, 0, 0, 0, 0, 0, 2, 0, 1, 0]⟩

def smallSpace : AddressSpace :=
  ⟨2 ^ 32, 32, AddressSpace.pos_at4GB, AddressSpace.le_at4GB, AddressSpace.lt_at4GB⟩

theorem readSectionHeaders_small :
    readSectionHeaders .bits32 smallElf 0 3 = some smallHeaders := by decide +kernel

theorem naclElfGetSymbolInfo_small :
    naclElfGetSymbolInfo .bits32 smallElf 0 3 = some smallData := by decide +kernel

end SandboxingNaCl
