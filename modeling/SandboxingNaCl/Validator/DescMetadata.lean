import SandboxingNaCl.Lib.ByteImage
import SandboxingNaCl.Lib.Ledger
import SandboxingNaCl.Service.App

/-!
# The metadata of a file descriptor

`NaClSerializeNaClDescMetadata` and `NaClDeserializeNaClDescMetadata` of `validation_cache.c`.  What is
written is read back, and what is read is exactly an encoding; otherwise nothing is kept of it.
-/

namespace SandboxingNaCl

open ByteImage

namespace DescMetadata

/-! ## The code -/

/-- A block of memory. -/
structure Block where
  address : ℕ
  bytes : List UInt8
deriving DecidableEq

structure NaClRichFileInfo where
  knownFile : UInt8
  filePath : Option Block
  filePathLength : BitVec 32
deriving DecidableEq

/-- The width of `size_t`, and what `malloc` returns for a size. -/
structure Host where
  sizeBits : ℕ
  malloc : ℕ → Option Block

/-- `Serialize`; the buffer is null in the first pass. -/
def serialize (buffer : Option (List UInt8)) (value : List UInt8) (offset : BitVec 32) :
    Except Fault (Option (List UInt8) × BitVec 32) :=
  match buffer with
  | none => .ok (none, offset + .ofNat 32 value.length)
  | some bytes =>
    if bytes.length < offset.toNat + value.length then .error .badAccess
    else .ok (some (bytes.take offset.toNat ++ value ++ bytes.drop (offset.toNat + value.length)),
      offset + .ofNat 32 value.length)

/-- The `filePathLength` bytes at `filePath`. -/
def NaClRichFileInfo.path (info : NaClRichFileInfo) : Except Fault (List UInt8) :=
  match info.filePath with
  | none => .error .badAccess
  | some block =>
    if block.bytes.length < info.filePathLength.toNat then .error .badAccess
    else .ok (block.bytes.take info.filePathLength.toNat)

def serializeNaClDescMetadataInternal (info : NaClRichFileInfo) (buffer : Option (List UInt8)) :
    Except Fault (Option (List UInt8) × BitVec 32) := do
  let (buffer, offset) ← serialize buffer [info.knownFile] 0
  if info.knownFile = 0 then return (buffer, offset)
  else
    let (buffer, offset) ← serialize buffer (leBytes 4 info.filePathLength.toNat) offset
    let path ← info.path
    serialize buffer path offset

/-- `NaClSerializeNaClDescMetadata`: the buffer and its length, or `none` if it cannot be allocated. -/
def naClSerializeNaClDescMetadata (host : Host) (info : NaClRichFileInfo) :
    Except Fault (Option (Block × BitVec 32)) := do
  let (_, bufferLength) ← serializeNaClDescMetadataInternal info none
  match host.malloc bufferLength.toNat with
  | none => return none
  | some block =>
    let (buffer, bufferLength) ← serializeNaClDescMetadataInternal info (some block.bytes)
    return some ({ block with bytes := buffer.getD [] }, bufferLength)

/-- `Deserialize`: the value and the new offset, or `none` if it is not in the buffer.  The sum is a
`size_t`. -/
def deserialize (host : Host) (buffer : List UInt8) (bufferLength : BitVec 32) (size : ℕ)
    (offset : BitVec 32) : Except Fault (Option (List UInt8 × BitVec 32)) :=
  if bufferLength.toNat < (offset.toNat + size) % 2 ^ host.sizeBits then .ok none
  else if buffer.length < offset.toNat + size then .error .badAccess
  else .ok (some ((buffer.drop offset.toNat).take size, offset + .ofNat 32 size))

/-- `NaClRichFileInfoCtor`, and what `NaClRichFileInfoDtor` leaves. -/
def emptyInfo : NaClRichFileInfo := ⟨0, none, 0⟩

def free : Option Block → List (LedgerEntry ℕ)
  | none => []
  | some block => [.give block.address]

/-- `on_error`: the path that was not handed over and the one of the info are freed. -/
def onError (filePath : Option Block) (info : NaClRichFileInfo) (ledger : List (LedgerEntry ℕ)) :
    ℕ × NaClRichFileInfo × List (LedgerEntry ℕ) :=
  (1, emptyInfo, ledger ++ free filePath ++ free info.filePath)

def checkConsumed (bufferLength offset : BitVec 32) (info : NaClRichFileInfo)
    (ledger : List (LedgerEntry ℕ)) : ℕ × NaClRichFileInfo × List (LedgerEntry ℕ) :=
  if offset ≠ bufferLength then onError none info ledger else (0, info, ledger)

/-- `NaClDeserializeNaClDescMetadata`, from the allocation of the path on. -/
def deserializePath (host : Host) (buffer : List UInt8) (bufferLength : BitVec 32)
    (info : NaClRichFileInfo) (offset : BitVec 32) :
    Except Fault (ℕ × NaClRichFileInfo × List (LedgerEntry ℕ)) :=
  match host.malloc info.filePathLength.toNat with
  | none => return onError none info []
  | some block => do
    match ← deserialize host buffer bufferLength info.filePathLength.toNat offset with
    | none => return onError (some block) info [.take block.address]
    | some (value, offset) =>
      if block.bytes.length < value.length then .error .badAccess
      else
        let path := value ++ block.bytes.drop value.length
        return checkConsumed bufferLength offset
          { info with filePath := some { block with bytes := path } } [.take block.address]

/-- `NaClDeserializeNaClDescMetadata`: the status, the info, and what was allocated and freed. -/
def naClDeserializeNaClDescMetadata (host : Host) (buffer : List UInt8) (bufferLength : BitVec 32) :
    Except Fault (ℕ × NaClRichFileInfo × List (LedgerEntry ℕ)) := do
  match ← deserialize host buffer bufferLength 1 0 with
  | none => return onError none emptyInfo []
  | some (value, offset) =>
    let info := { emptyInfo with knownFile := value.headD 0 }
    if info.knownFile = 0 then return checkConsumed bufferLength offset info []
    else
      match ← deserialize host buffer bufferLength 4 offset with
      | none => return onError none info []
      | some (value, offset) =>
        deserializePath host buffer bufferLength
          { info with filePathLength := .ofNat 32 (Nat.ofDigits 256 (value.map UInt8.toNat)) } offset

/-! ## What it is for -/

namespace NaClRichFileInfo

def pathBytes (info : NaClRichFileInfo) : Option (List UInt8) :=
  info.filePath.map fun block => block.bytes.take info.filePathLength.toNat

def encoding (info : NaClRichFileInfo) : List UInt8 :=
  if info.knownFile = 0 then [info.knownFile]
  else [info.knownFile] ++ leBytes 4 info.filePathLength.toNat ++ info.pathBytes.getD []

/-- A known file has a path, and the length of the encoding fits its 32 bits. -/
def Representable (info : NaClRichFileInfo) : Prop :=
  info.knownFile ≠ 0 → 5 + info.filePathLength.toNat < 2 ^ 32 ∧
    ∃ block, info.filePath = some block ∧ info.filePathLength.toNat ≤ block.bytes.length

/-- What is kept of an info: of an unknown file, only that it is unknown. -/
def stored (info : NaClRichFileInfo) : NaClRichFileInfo := if info.knownFile = 0 then emptyInfo else info

/-- The fields are the same; where the path is does not matter. -/
def SameFields (info info' : NaClRichFileInfo) : Prop :=
  info.knownFile = info'.knownFile ∧ info.filePathLength = info'.filePathLength ∧
    info.pathBytes = info'.pathBytes

instance (info info' : NaClRichFileInfo) : Decidable (SameFields info info') :=
  inferInstanceAs (Decidable (_ ∧ _ ∧ _))

end NaClRichFileInfo

namespace Host

variable (host : Host)

/-- The block of `malloc` is new: it has the size, and is apart from the buffer.  Neither is at
address 0. -/
structure Allocates (buffer : Block) : Prop where
  sizeBits_ge : 32 ≤ host.sizeBits
  buffer_pos : 0 < buffer.address
  buffer_le : buffer.address + buffer.bytes.length ≤ 2 ^ host.sizeBits
  length : ∀ size block, host.malloc size = some block → block.bytes.length = size
  block_pos : ∀ size block, host.malloc size = some block → 0 < block.address
  block_le : ∀ size block, host.malloc size = some block → block.address + size ≤ 2 ^ host.sizeBits
  apart : ∀ size block, host.malloc size = some block →
    block.address + size ≤ buffer.address ∨ buffer.address + buffer.bytes.length ≤ block.address

/-- Both passes compute the length of the encoding, and the second one fills a buffer of this length with
it. -/
def Serializes (info : NaClRichFileInfo) : Prop :=
  ∃ bufferLength : BitVec 32, bufferLength.toNat = info.encoding.length ∧
    serializeNaClDescMetadataInternal info none = .ok (none, bufferLength) ∧
    (∀ bytes : List UInt8, bytes.length = bufferLength.toNat →
      serializeNaClDescMetadataInternal info (some bytes) = .ok (some info.encoding, bufferLength)) ∧
    ∀ block, host.malloc bufferLength.toNat = some block → block.bytes.length = bufferLength.toNat →
      naClSerializeNaClDescMetadata host info =
        .ok (some (⟨block.address, info.encoding⟩, bufferLength))

/-- From a buffer with the encoding, the info is read, if there is memory for the path. -/
def ReadsBack (info : NaClRichFileInfo) : Prop :=
  ∀ address, host.Allocates ⟨address, info.encoding⟩ →
    (info.knownFile ≠ 0 → (host.malloc info.filePathLength.toNat).isSome) →
    ∃ info' ledger, naClDeserializeNaClDescMetadata host info.encoding (.ofNat 32 info.encoding.length) =
      .ok (0, info', ledger) ∧ info'.SameFields info.stored

/-- Nothing behind the buffer is read.  Either the buffer is the encoding of the info, which owns the only
block that was allocated; or the info is left empty, and what was allocated is freed. -/
def ReadsSafely (buffer : List UInt8) : Prop :=
  ∃ status info ledger,
    naClDeserializeNaClDescMetadata host buffer (.ofNat 32 buffer.length) = .ok (status, info, ledger) ∧
      (status = 0 ∧ buffer = info.encoding ∧ info.Representable ∧
          ledger = info.filePath.toList.map (fun block => .take block.address) ∨
        status = 1 ∧ info = emptyInfo ∧ ∀ address, LedgerEntry.Settled address ledger)

end Host

/-! ## Writing -/

section

variable {info : NaClRichFileInfo} {done rest value : List UInt8} {offset : BitVec 32}

theorem serialize_append (hdone : done.length = offset.toNat) (hrest : value.length ≤ rest.length) :
    serialize (some (done ++ rest)) value offset =
      .ok (some (done ++ value ++ rest.drop value.length), offset + .ofNat 32 value.length) := by
  have hfits : ¬ (done ++ rest).length < offset.toNat + value.length := by
    rw [List.length_append]
    omega
  unfold serialize
  dsimp only
  rw [if_neg hfits, ← hdone, List.take_left, List.drop_length_add_append]

theorem ok_bind {α β : Type} (a : α) (f : α → Except Fault β) : (Except.ok a >>= f) = f a := rfl

theorem path_eq {block : Block} (hpath : info.filePath = some block)
    (hlength : info.filePathLength.toNat ≤ block.bytes.length) :
    info.path = .ok (block.bytes.take info.filePathLength.toNat) := by
  rw [NaClRichFileInfo.path, hpath]
  exact if_neg (not_lt.2 hlength)

theorem serializes (host : Host) (hinfo : info.Representable) : host.Serializes info := by
  suffices h : ∃ bufferLength : BitVec 32, bufferLength.toNat = info.encoding.length ∧
      serializeNaClDescMetadataInternal info none = .ok (none, bufferLength) ∧
      ∀ bytes : List UInt8, bytes.length = bufferLength.toNat →
        serializeNaClDescMetadataInternal info (some bytes) = .ok (some info.encoding, bufferLength) by
    obtain ⟨bufferLength, hlength, hmeasure, hwrite⟩ := h
    refine ⟨bufferLength, hlength, hmeasure, hwrite, fun block hmalloc hblock => ?_⟩
    rw [naClSerializeNaClDescMetadata, hmeasure, ok_bind]
    dsimp only
    rw [hmalloc]
    dsimp only
    rw [hwrite _ hblock, ok_bind]
    rfl
  unfold serializeNaClDescMetadataInternal
  by_cases hknown : info.knownFile = 0
  · refine ⟨1, ?_, ?_, fun bytes hbytes => ?_⟩
    · rw [NaClRichFileInfo.encoding, if_pos hknown]
      rfl
    · change (if info.knownFile = 0 then _ else _) = _
      rw [if_pos hknown]
      rfl
    · have hwrite := @serialize_append [] bytes [info.knownFile] 0 rfl (le_of_eq hbytes.symm)
      have hrest : bytes.drop [info.knownFile].length = [] := List.drop_eq_nil_of_le hbytes.le
      rw [List.nil_append, hrest] at hwrite
      rw [hwrite, ok_bind]
      change (if info.knownFile = 0 then _ else _) = _
      rw [NaClRichFileInfo.encoding, if_pos hknown, if_pos hknown]
      rfl
  · obtain ⟨hfits, block, hpath, hlength⟩ := hinfo hknown
    have htake : (block.bytes.take info.filePathLength.toNat).length = info.filePathLength.toNat := by
      rw [List.length_take, Nat.min_eq_left hlength]
    have hencoding : info.encoding = [info.knownFile] ++ leBytes 4 info.filePathLength.toNat ++
        block.bytes.take info.filePathLength.toNat := by
      rw [NaClRichFileInfo.encoding, if_neg hknown, NaClRichFileInfo.pathBytes, hpath]
      rfl
    have htotal : (0 + 1#32 + 4#32 + .ofNat 32 info.filePathLength.toNat).toNat =
        5 + info.filePathLength.toNat := by
      simp
      omega
    refine ⟨0 + 1#32 + 4#32 + .ofNat 32 info.filePathLength.toNat, ?_, ?_, fun bytes hbytes => ?_⟩
    · rw [htotal, hencoding, List.length_append, List.length_append, length_leBytes, htake]
      rfl
    · simp only [serialize, ok_bind, if_neg hknown, path_eq hpath hlength, htake, length_leBytes]
      rfl
    · rw [htotal] at hbytes
      have hknownFile := @serialize_append [] bytes [info.knownFile] 0 rfl
        (by rw [List.length_singleton]; omega)
      have hpathLength := @serialize_append ([] ++ [info.knownFile]) (bytes.drop 1)
        (leBytes 4 info.filePathLength.toNat) (0 + 1#32) rfl
        (by rw [length_leBytes, List.length_drop]; omega)
      have hfilePath := @serialize_append ([] ++ [info.knownFile] ++ leBytes 4 info.filePathLength.toNat)
        ((bytes.drop 1).drop 4) (block.bytes.take info.filePathLength.toNat) (0 + 1#32 + 4#32)
        (by rw [List.length_append, length_leBytes]; rfl)
        (by rw [htake, List.length_drop, List.length_drop]; omega)
      have hrest : ((bytes.drop 1).drop 4).drop info.filePathLength.toNat = [] := by
        rw [List.drop_drop, List.drop_drop]
        exact List.drop_eq_nil_of_le (by omega)
      rw [List.nil_append] at hknownFile
      rw [length_leBytes] at hpathLength
      rw [htake, hrest, List.append_nil] at hfilePath
      rw [hknownFile, ok_bind]
      change (if info.knownFile = 0 then _ else _) = _
      rw [if_neg hknown]
      change (serialize (some ([] ++ [info.knownFile] ++ bytes.drop 1)) _ (0 + 1#32) >>= _) = _
      rw [hpathLength, ok_bind]
      change (info.path >>= _) = _
      rw [path_eq hpath hlength, ok_bind, hencoding]
      exact hfilePath

end

/-! ## Reading -/

section

variable {host : Host} {buffer : List UInt8} {size : ℕ} {offset : BitVec 32}

theorem Host.Allocates.lt {buffer block : Block} (halloc : host.Allocates buffer)
    (hmalloc : host.malloc size = some block) : size + buffer.bytes.length < 2 ^ host.sizeBits := by
  have hpos := halloc.block_pos size block hmalloc
  have hle := halloc.block_le size block hmalloc
  have hpos' := halloc.buffer_pos
  have hle' := halloc.buffer_le
  obtain hapart | hapart := halloc.apart size block hmalloc <;> omega

theorem toNat_length (hbuffer : buffer.length < 2 ^ 32) :
    (BitVec.ofNat 32 buffer.length).toNat = buffer.length := by
  rw [BitVec.toNat_ofNat, Nat.mod_eq_of_lt hbuffer]

theorem deserialize_append (hsize : 32 ≤ host.sizeBits) (hbuffer : buffer.length < 2 ^ 32)
    {done value rest : List UInt8} (heq : buffer = done ++ (value ++ rest))
    (hdone : done.length = offset.toNat) (hvalue : value.length = size) :
    deserialize host buffer (.ofNat 32 buffer.length) size offset =
      .ok (some (value, offset + .ofNat 32 size)) := by
  have hpow : 2 ^ 32 ≤ 2 ^ host.sizeBits := Nat.pow_le_pow_right (by omega) hsize
  have hle : offset.toNat + size ≤ buffer.length := by
    rw [heq, List.length_append, List.length_append]
    omega
  unfold deserialize
  rw [toNat_length hbuffer, Nat.mod_eq_of_lt (by omega), if_neg (not_lt.2 hle), if_neg (not_lt.2 hle), heq,
    ← hdone, List.drop_left, ← hvalue, List.take_left]

theorem deserialize_of_lt (hbuffer : buffer.length < 2 ^ 32)
    (hsum : offset.toNat + size < 2 ^ host.sizeBits) (hlt : buffer.length < offset.toNat + size) :
    deserialize host buffer (.ofNat 32 buffer.length) size offset = .ok none := by
  unfold deserialize
  rw [toNat_length hbuffer, Nat.mod_eq_of_lt hsum, if_pos hlt]

theorem deserialize_nil (hsize : 32 ≤ host.sizeBits) :
    naClDeserializeNaClDescMetadata host [] (.ofNat 32 0) = .ok (1, emptyInfo, []) := by
  have hpow : 2 ^ 32 ≤ 2 ^ host.sizeBits := Nat.pow_le_pow_right (by omega) hsize
  have hread := @deserialize_of_lt host [] 1 0 (by decide) (lt_of_lt_of_le (by decide) hpow) (by decide)
  rw [naClDeserializeNaClDescMetadata]
  rw [List.length_nil] at hread
  rw [hread]
  rfl

theorem deserialize_unknown (hsize : 32 ≤ host.sizeBits) {rest : List UInt8}
    (hbuffer : (0 :: rest).length < 2 ^ 32) :
    naClDeserializeNaClDescMetadata host (0 :: rest) (.ofNat 32 (0 :: rest).length) =
      .ok (checkConsumed (.ofNat 32 (0 :: rest).length) 1 emptyInfo []) := by
  have hread := @deserialize_append host _ 1 0 hsize hbuffer [] [0] rest rfl rfl rfl
  rw [naClDeserializeNaClDescMetadata, hread]
  rfl

theorem deserialize_short (hsize : 32 ≤ host.sizeBits) {knownFile : UInt8} (hknown : knownFile ≠ 0)
    {rest : List UInt8} (hrest : rest.length < 4) :
    naClDeserializeNaClDescMetadata host (knownFile :: rest) (.ofNat 32 (knownFile :: rest).length) =
      .ok (1, emptyInfo, []) := by
  have hpow : 2 ^ 32 ≤ 2 ^ host.sizeBits := Nat.pow_le_pow_right (by omega) hsize
  have hbuffer : (knownFile :: rest).length < 2 ^ 32 := by
    rw [List.length_cons]
    omega
  have hread := @deserialize_append host _ 1 0 hsize hbuffer [] [knownFile] rest rfl rfl rfl
  have hlength := @deserialize_of_lt host (knownFile :: rest) 4 (0 + 1#32) hbuffer
    (lt_of_lt_of_le (by decide) hpow) (by simp; omega)
  rw [naClDeserializeNaClDescMetadata, hread, ok_bind]
  change (if knownFile = 0 then _ else _) = _
  rw [if_neg hknown]
  rw [hlength]
  rfl

/-- What is made of a known file, from the length of its path and what follows it. -/
def readKnown (host : Host) (bufferLength : BitVec 32) (knownFile : UInt8) (length tail : List UInt8) :
    ℕ × NaClRichFileInfo × List (LedgerEntry ℕ) :=
  let filePathLength : BitVec 32 := .ofNat 32 (Nat.ofDigits 256 (length.map UInt8.toNat))
  match host.malloc filePathLength.toNat with
  | none => (1, emptyInfo, [])
  | some block =>
    if filePathLength.toNat ≤ tail.length then
      checkConsumed bufferLength (0 + 1#32 + 4#32 + filePathLength)
        ⟨knownFile, some ⟨block.address, tail.take filePathLength.toNat⟩, filePathLength⟩
        [.take block.address]
    else (1, emptyInfo, [.take block.address, .give block.address])

theorem deserialize_known {knownFile : UInt8} (hknown : knownFile ≠ 0) {length tail : List UInt8}
    (hlength : length.length = 4) {address : ℕ}
    (hbuffer : (knownFile :: (length ++ tail)).length < 2 ^ 32)
    (halloc : host.Allocates ⟨address, knownFile :: (length ++ tail)⟩) :
    naClDeserializeNaClDescMetadata host (knownFile :: (length ++ tail))
        (.ofNat 32 (knownFile :: (length ++ tail)).length) =
      .ok (readKnown host (.ofNat 32 (knownFile :: (length ++ tail)).length) knownFile length tail) := by
  have hsize := halloc.sizeBits_ge
  have hread := @deserialize_append host _ 1 0 hsize hbuffer [] [knownFile] (length ++ tail) rfl rfl rfl
  have hreadLength := @deserialize_append host _ 4 (0 + 1#32) hsize hbuffer [knownFile] length tail rfl rfl
    hlength
  rw [naClDeserializeNaClDescMetadata, hread, ok_bind]
  change (if knownFile = 0 then _ else _) = _
  rw [if_neg hknown]
  rw [hreadLength, ok_bind]
  change deserializePath _ _ _ _ _ = _
  unfold deserializePath readKnown
  dsimp only
  generalize BitVec.ofNat 32 (Nat.ofDigits 256 (length.map UInt8.toNat)) = filePathLength
  cases hmalloc : host.malloc filePathLength.toNat with
  | none => rfl
  | some block =>
    dsimp only
    have hblock := halloc.length _ _ hmalloc
    by_cases hle : filePathLength.toNat ≤ tail.length
    · have hpath := @deserialize_append host _ filePathLength.toNat (0 + 1#32 + 4#32) hsize hbuffer
        (knownFile :: length) (tail.take filePathLength.toNat) (tail.drop filePathLength.toNat)
        (by rw [List.take_append_drop, List.cons_append]) (by rw [List.length_cons, hlength]; rfl)
        (by rw [List.length_take, Nat.min_eq_left hle])
      rw [hpath, ok_bind, if_pos hle]
      have htake : (tail.take filePathLength.toNat).length = block.bytes.length := by
        rw [List.length_take, Nat.min_eq_left hle, hblock]
      change (if block.bytes.length < (tail.take filePathLength.toNat).length then _ else _) = _
      rw [if_neg (not_lt.2 htake.le), htake, List.drop_length, List.append_nil, BitVec.ofNat_toNat,
        BitVec.setWidth_eq]
      rfl
    · have hheader : 5 + tail.length = (knownFile :: (length ++ tail)).length := by
        rw [List.length_cons, List.length_append, hlength]
        omega
      have hlt := halloc.lt hmalloc
      dsimp only at hlt
      have hoffset : (0 + 1#32 + 4#32).toNat = 5 := rfl
      have hpath := @deserialize_of_lt host _ filePathLength.toNat (0 + 1#32 + 4#32) hbuffer
        (by omega) (by omega)
      rw [hpath, if_neg hle]
      rfl

theorem settled_take_give (address address' : ℕ) :
    LedgerEntry.Settled address [.take address', .give address'] := by
  change LedgerEntry.Settled address (LedgerEntry.holding address' [])
  by_cases h : address' = address
  · subst h
    exact LedgerEntry.settled_holding_self rfl
  · exact (LedgerEntry.settled_holding_of_ne h).2 (LedgerEntry.settled_nil _)

theorem leBytes_ofDigits (bytes : List UInt8) :
    leBytes bytes.length (Nat.ofDigits 256 (bytes.map UInt8.toNat)) = bytes := by
  induction bytes with
  | nil => rfl
  | cons b bytes ih =>
    have hb := b.toNat_lt
    rw [List.map_cons, Nat.ofDigits_cons, List.length_cons, leBytes]
    rw [show (b.toNat + 256 * Nat.ofDigits 256 (bytes.map UInt8.toNat)) / 256 =
      Nat.ofDigits 256 (bytes.map UInt8.toNat) by omega, ih]
    refine congrArg (· :: bytes) (UInt8.toNat.inj ?_)
    rw [UInt8.toNat_ofNat']
    omega

theorem ofDigits_lt {length : List UInt8} (hlength : length.length = 4) :
    Nat.ofDigits 256 (length.map UInt8.toNat) < 2 ^ 32 := by
  have hdigit : ∀ x ∈ length.map UInt8.toNat, x < 256 := by
    intro x hx
    obtain ⟨b, -, rfl⟩ := List.mem_map.1 hx
    exact b.toNat_lt
  have hlt := Nat.ofDigits_lt_base_pow_length (by decide) hdigit
  rwa [List.length_map, hlength] at hlt

theorem readKnown_cases {knownFile : UInt8} (hknown : knownFile ≠ 0) {length tail : List UInt8}
    (hlength : length.length = 4) (hbuffer : 5 + tail.length < 2 ^ 32) :
    ∃ status info ledger,
      readKnown host (.ofNat 32 (5 + tail.length)) knownFile length tail = (status, info, ledger) ∧
        (status = 0 ∧ knownFile :: (length ++ tail) = info.encoding ∧ info.Representable ∧
            ledger = info.filePath.toList.map (fun block => .take block.address) ∨
          status = 1 ∧ info = emptyInfo ∧ ∀ address, LedgerEntry.Settled address ledger) := by
  unfold readKnown
  dsimp only
  have hdigits := ofDigits_lt hlength
  have hbytes := leBytes_ofDigits length
  rw [hlength] at hbytes
  generalize Nat.ofDigits 256 (length.map UInt8.toNat) = pathLength at *
  have hpathLength : (BitVec.ofNat 32 pathLength).toNat = pathLength := by
    rw [BitVec.toNat_ofNat, Nat.mod_eq_of_lt hdigits]
  rw [hpathLength]
  cases host.malloc pathLength with
  | none => exact ⟨_, _, _, rfl, Or.inr ⟨rfl, rfl, fun _ => LedgerEntry.settled_nil _⟩⟩
  | some block =>
    dsimp only
    by_cases hle : pathLength ≤ tail.length
    · rw [if_pos hle, checkConsumed]
      split_ifs with hconsumed
      · exact ⟨_, _, _, rfl, Or.inr ⟨rfl, rfl, fun address => settled_take_give address block.address⟩⟩
      · -- the offset is the whole length, so the path is all that follows its length
        replace hconsumed := congrArg BitVec.toNat (not_not.1 hconsumed)
        have hall : pathLength = tail.length := by
          have hoffset : (0 + 1#32 + 4#32).toNat = 5 := rfl
          rw [BitVec.toNat_add, hoffset, hpathLength, BitVec.toNat_ofNat] at hconsumed
          omega
        refine ⟨_, _, _, rfl, Or.inl ⟨rfl, ?_, fun _ => ⟨?_, _, rfl, ?_⟩, rfl⟩⟩
        · rw [NaClRichFileInfo.encoding, if_neg hknown, NaClRichFileInfo.pathBytes]
          dsimp only [Option.map_some, Option.getD_some]
          rw [hpathLength, hbytes, List.take_take, Nat.min_self, hall, List.take_length]
          rfl
        · rw [hpathLength]
          omega
        · rw [hpathLength, hall, List.take_length]
    · rw [if_neg hle]
      exact ⟨_, _, _, rfl, Or.inr ⟨rfl, rfl, fun address => settled_take_give address block.address⟩⟩

theorem readsSafely {block : Block} (hbuffer : block.bytes.length < 2 ^ 32)
    (halloc : host.Allocates block) : host.ReadsSafely block.bytes := by
  have hsize := halloc.sizeBits_ge
  obtain ⟨address, bytes⟩ := block
  unfold Host.ReadsSafely
  dsimp only at *
  obtain _ | ⟨knownFile, rest⟩ := bytes
  · exact ⟨_, _, _, deserialize_nil hsize, Or.inr ⟨rfl, rfl, fun _ => LedgerEntry.settled_nil _⟩⟩
  by_cases hknown : knownFile = 0
  · subst hknown
    have hread := deserialize_unknown hsize hbuffer
    rw [checkConsumed] at hread
    split_ifs at hread with hconsumed
    · exact ⟨_, _, _, hread, Or.inr ⟨rfl, rfl, fun _ => LedgerEntry.settled_nil _⟩⟩
    · replace hconsumed := congrArg BitVec.toNat (not_not.1 hconsumed)
      rw [toNat_length hbuffer, List.length_cons] at hconsumed
      obtain rfl : rest = [] := List.length_eq_zero_iff.1 (Nat.succ.inj hconsumed).symm
      exact ⟨_, _, _, hread, Or.inl ⟨rfl, rfl, fun h => absurd rfl h, rfl⟩⟩
  by_cases hshort : rest.length < 4
  · exact ⟨_, _, _, deserialize_short hsize hknown hshort,
      Or.inr ⟨rfl, rfl, fun _ => LedgerEntry.settled_nil _⟩⟩
  obtain ⟨length, tail, hlength, rfl⟩ :
      ∃ length tail : List UInt8, length.length = 4 ∧ rest = length ++ tail :=
    ⟨rest.take 4, rest.drop 4, by rw [List.length_take]; omega, (List.take_append_drop 4 rest).symm⟩
  have htotal : (knownFile :: (length ++ tail)).length = 5 + tail.length := by
    rw [List.length_cons, List.length_append, hlength]
    omega
  rw [deserialize_known hknown hlength hbuffer halloc, htotal]
  obtain ⟨status, info, ledger, hread, h⟩ := @readKnown_cases host _ hknown _ tail hlength (htotal ▸ hbuffer)
  exact ⟨status, info, ledger, congrArg Except.ok hread, h⟩

theorem readsBack {info : NaClRichFileInfo} (hinfo : info.Representable) : host.ReadsBack info := by
  intro address halloc hmalloc
  by_cases hknown : info.knownFile = 0
  · have hencoding : info.encoding = [0] := by rw [NaClRichFileInfo.encoding, if_pos hknown, hknown]
    rw [hencoding, deserialize_unknown halloc.sizeBits_ge (by decide), NaClRichFileInfo.stored, if_pos hknown]
    exact ⟨_, _, rfl, rfl, rfl, rfl⟩
  · obtain ⟨hfits, source, hpath, hlength⟩ := hinfo hknown
    obtain ⟨block, hblock⟩ := Option.isSome_iff_exists.1 (hmalloc hknown)
    have htake : (source.bytes.take info.filePathLength.toNat).length = info.filePathLength.toNat := by
      rw [List.length_take, Nat.min_eq_left hlength]
    have hencoding : info.encoding = info.knownFile :: (leBytes 4 info.filePathLength.toNat ++
        source.bytes.take info.filePathLength.toNat) := by
      rw [NaClRichFileInfo.encoding, if_neg hknown, NaClRichFileInfo.pathBytes, hpath]
      rfl
    have htotal : info.encoding.length = 5 + info.filePathLength.toNat := by
      rw [hencoding, List.length_cons, List.length_append, length_leBytes, htake]
      omega
    have hread := @deserialize_known host _ hknown _ (source.bytes.take info.filePathLength.toNat)
      (length_leBytes 4 info.filePathLength.toNat) address (hencoding ▸ htotal ▸ hfits) (hencoding ▸ halloc)
    rw [← hencoding, htotal] at hread
    rw [htotal, hread, readKnown, ofDigits_leBytes, Nat.mod_eq_of_lt (by omega), BitVec.ofNat_toNat,
      BitVec.setWidth_eq]
    rw [hblock]
    dsimp only
    rw [if_pos htake.ge, checkConsumed, if_neg]
    · refine ⟨_, _, rfl, ?_⟩
      rw [NaClRichFileInfo.stored, if_neg hknown]
      refine ⟨rfl, rfl, ?_⟩
      rw [NaClRichFileInfo.pathBytes, NaClRichFileInfo.pathBytes, hpath]
      simp only [Option.map_some, List.take_take, Nat.min_self]
    · refine not_not.2 (BitVec.eq_of_toNat_eq ?_)
      have hoffset : (0 + 1#32 + 4#32).toNat = 5 := rfl
      rw [BitVec.toNat_add, hoffset, BitVec.toNat_ofNat]

end

/-- **Round trip.** What can be represented is written with its exact length and read back, except for the
path of an unknown file; and from any buffer exactly the encodings are read, and nothing else is kept. -/
theorem serialized_and_read (host : Host) :
    (∀ info : NaClRichFileInfo, info.Representable → host.Serializes info ∧ host.ReadsBack info) ∧
      ∀ buffer : Block, buffer.bytes.length < 2 ^ 32 → host.Allocates buffer →
        host.ReadsSafely buffer.bytes :=
  ⟨fun _ hinfo => ⟨serializes host hinfo, readsBack hinfo⟩, fun _ => readsSafely⟩

def smallHost : Host :=
  ⟨64, fun size => if size ≤ 4096 then some ⟨65536, List.replicate size 0⟩ else none⟩

theorem allocates_smallHost {address : ℕ} {bytes : List UInt8} (hpos : 0 < address)
    (hle : address + bytes.length ≤ 65536) : smallHost.Allocates ⟨address, bytes⟩ := by
  have hblock : ∀ size block, smallHost.malloc size = some block →
      size ≤ 4096 ∧ block = ⟨65536, List.replicate size 0⟩ := by
    intro size block hmalloc
    unfold smallHost at hmalloc
    dsimp only at hmalloc
    split_ifs at hmalloc with hsize
    cases hmalloc
    exact ⟨hsize, rfl⟩
  refine ⟨by decide, hpos, hle.trans (by decide), ?_, ?_, ?_, ?_⟩ <;>
    rintro size block hmalloc <;> obtain ⟨hsize, rfl⟩ := hblock size block hmalloc
  · exact List.length_replicate
  · exact Nat.succ_pos _
  · change 65536 + size ≤ 2 ^ 64
    omega
  · exact Or.inr hle

def zeroInPath : NaClRichFileInfo := ⟨1, some ⟨8192, [0x61, 0, 0x62]⟩, 3⟩

theorem serialized_and_read_zeroInPath :
    smallHost.Serializes zeroInPath ∧ smallHost.ReadsBack zeroInPath ∧
      smallHost.ReadsSafely [1, 3, 0, 0, 0, 0x61] :=
  have hinfo : zeroInPath.Representable := fun _ => ⟨by decide, _, rfl, by decide⟩
  ⟨((serialized_and_read smallHost).1 zeroInPath hinfo).1,
    ((serialized_and_read smallHost).1 zeroInPath hinfo).2,
    (serialized_and_read smallHost).2 ⟨4096, [1, 3, 0, 0, 0, 0x61]⟩ (by decide)
      (allocates_smallHost (by decide) (by decide))⟩

/-- The path of an unknown file is not written. -/
theorem not_sameFields_unknown : ∃ block bufferLength info',
    naClSerializeNaClDescMetadata smallHost ⟨0, some ⟨8192, [0x66, 0x6f, 0x6f]⟩, 3⟩ =
        .ok (some (block, bufferLength)) ∧
      naClDeserializeNaClDescMetadata smallHost block.bytes bufferLength = .ok (0, info', []) ∧
      ¬ info'.SameFields ⟨0, some ⟨8192, [0x66, 0x6f, 0x6f]⟩, 3⟩ :=
  ⟨⟨65536, [0]⟩, 1, emptyInfo, by decide +kernel, by decide +kernel, by decide⟩

end DescMetadata

end SandboxingNaCl
