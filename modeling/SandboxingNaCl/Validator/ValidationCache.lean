import SandboxingNaCl.Lib.ByteImage
import SandboxingNaCl.Service.App

/-!
# Keys of the validation cache

What the validators and `NaClAddCodeIdentity` of `validation_cache.c` add to a query of the validation
cache.  The key is the bare concatenation; two requests have the same key only if they have the same CPU
features and the same identity.
-/

namespace SandboxingNaCl

open ByteImage

namespace ValidationCache

/-! ## Fixed-width literals -/

section

variable {n : ℕ} {x y : BitVec (8 * n)} {rest rest' : List UInt8}

/-- `ADD_LITERAL`: the bytes of a variable, the least significant first. -/
def literal (n : ℕ) (x : BitVec (8 * n)) : List UInt8 := leBytes n x.toNat

@[simp] theorem length_literal : (literal n x).length = n := length_leBytes n _

theorem literal_inj (h : literal n x = literal n y) : x = y := by
  have hdigits : x.toNat % 256 ^ n = y.toNat % 256 ^ n := by
    rw [← ofDigits_leBytes, ← ofDigits_leBytes]
    exact congrArg (fun bytes => Nat.ofDigits 256 (bytes.map UInt8.toNat)) h
  have hpow : 256 ^ n = 2 ^ (8 * n) := by rw [pow_mul, show 2 ^ 8 = 256 by norm_num]
  rw [hpow, Nat.mod_eq_of_lt x.isLt, Nat.mod_eq_of_lt y.isLt] at hdigits
  exact BitVec.eq_of_toNat_eq hdigits

theorem literal_append_inj (h : literal n x ++ rest = literal n y ++ rest') : x = y ∧ rest = rest' := by
  obtain ⟨hliteral, hrest⟩ := List.append_inj h (by rw [length_literal, length_literal])
  exact ⟨literal_inj hliteral, hrest⟩

end

/-! ## Requests -/

/-- The sizes of `size_t` and `uintptr_t`, and of `time_t`, on the machine of the runtime. -/
structure CacheHost where
  ptrBytes : ℕ
  timeBytes : ℕ

inductive Validator
  | x86_64
  | x86_32
  | arm
  | mips

/-- `NaClCPUFeatureX86_Max`, `NaClCPUFeatureArm_Max` and `NaClCPUFeatureMips_Max`. -/
def Validator.featureMax : Validator → ℕ
  | x86_64 | x86_32 => 39
  | arm => 1
  | mips => 2

/-- The field `data` of `NaClCPUFeaturesX86`, `NaClCPUFeaturesArm` and `NaClCPUFeaturesMips`. -/
abbrev CpuFeatures (validator : Validator) := Vector UInt8 validator.featureMax

def naClCodeIdentityData : BitVec 32 := 0

def naClCodeIdentityFile : BitVec 32 := 1

def naClCodeIdentityMax : BitVec 32 := 2

/-- `file_name` is null or has `file_name_length` bytes, which need not end with a zero. -/
structure NaClValidationMetadata (host : CacheHost) where
  identityType : BitVec 32
  codeOffset : BitVec 64
  fileName : Option (List UInt8)
  deviceId : BitVec 64
  fileId : BitVec 64
  fileSize : BitVec 64
  mtime : BitVec (8 * host.timeBytes)
  ctime : BitVec (8 * host.timeBytes)
  fileName_lt : ∀ name ∈ fileName, name.length < 2 ^ (8 * host.ptrBytes)

/-- The arguments of a validator that decide what it asks the cache. -/
structure ValidationRequest (host : CacheHost) (validator : Validator) where
  guestAddr : BitVec (8 * host.ptrBytes)
  /-- Where `code` is in the memory of the runtime. -/
  data : BitVec (8 * host.ptrBytes)
  code : List UInt8
  stuboutMode : Bool
  cpuFeatures : CpuFeatures validator
  metadata : Option (NaClValidationMetadata host)
  code_lt : code.length < 2 ^ (8 * host.ptrBytes)

/-- `CachingIsInexpensive`, which may be null, and whether `CreateQuery` returns a query. -/
structure NaClValidationCache (host : CacheHost) where
  cachingIsInexpensive : Option (Option (NaClValidationMetadata host) → Bool)
  createQuery : Bool

variable {host : CacheHost} {validator : Validator}

def naClCachingIsInexpensive (cache : NaClValidationCache host)
    (metadata : Option (NaClValidationMetadata host)) : Bool :=
  match cache.cachingIsInexpensive with
  | some cachingIsInexpensive => cachingIsInexpensive metadata
  | none => metadata.any fun metadata => metadata.identityType == naClCodeIdentityFile

/-- The identity type that `NaClAddCodeIdentity` records; without metadata the code is anonymous data. -/
def identityType (metadata : Option (NaClValidationMetadata host)) : BitVec 32 :=
  match metadata with
  | some metadata => metadata.identityType
  | none => naClCodeIdentityData

/-- `NaClAddCodeIdentity`: what it adds, call by call. -/
def naClAddCodeIdentity (code : List UInt8) (metadata : Option (NaClValidationMetadata host)) :
    Except Fault (List (List UInt8)) :=
  let size : BitVec (8 * host.ptrBytes) := .ofNat _ code.length
  if ¬ identityType metadata < naClCodeIdentityMax then .error .checkFailed
  else if identityType metadata = naClCodeIdentityFile then
    match metadata with
    | none => .error .badAccess
    | some metadata =>
      match metadata.fileName with
      | none => .error .checkFailed
      | some fileName =>
        if fileName.length = 0 then .error .checkFailed
        else if ¬ (metadata.codeOffset + size.setWidth 64).sle metadata.fileSize then .error .checkFailed
        else .ok [literal 4 naClCodeIdentityFile,
          literal 8 metadata.codeOffset,
          literal host.ptrBytes size,
          literal host.ptrBytes (.ofNat _ fileName.length),
          fileName,
          literal 8 metadata.deviceId,
          literal 8 metadata.fileId,
          literal 8 metadata.fileSize,
          literal host.timeBytes metadata.mtime,
          literal host.timeBytes metadata.ctime]
  else .ok [literal 4 (identityType metadata), code]

/-! ## The validators -/

/-- `validator_id`, with its terminator. -/
def Validator.id : Validator → List UInt8
  | x86_64 => ofString "x86-64 dfa" ++ [0]
  | x86_32 => ofString "x86-32 dfa" ++ [0]
  | arm => ofString "arm_v2" ++ [0]
  | mips => ofString "mips" ++ [0]

/-- `params` of `ApplyValidatorArm`: the size of a bundle, of the code space and of the data space, and the
lists of the registers `Tp` and `Sp`. -/
def armParams (host : CacheHost) : List UInt8 :=
  ([1 <<< 4, 1024 * 1024 * 1024, 1024 * 1024 * 1024, 1 <<< 9, 1 <<< 13].map (leBytes host.ptrBytes)).flatten

def Validator.prologue (host : CacheHost) : Validator → List (List UInt8)
  | arm => [id arm, armParams host]
  | validator => [validator.id]

namespace ValidationRequest

/-- The query, if the cache is asked at all. -/
def addQuery (request : ValidationRequest host validator) (cache : Option (NaClValidationCache host)) :
    Except Fault (Option (List (List UInt8))) :=
  if cache.any fun cache => naClCachingIsInexpensive cache request.metadata && cache.createQuery then
    (naClAddCodeIdentity request.code request.metadata).map fun identity =>
      some (validator.prologue host ++ request.cpuFeatures.toList :: identity)
  else .ok none

/-- `NaClArchSupportedX86`: `CPUIDSupported` and `CPUSupported` are the first two features. -/
def naClArchSupportedX86 (features : Vector UInt8 39) : Bool := features[0] != 0 && features[1] != 0

/-- `ApplyDfaValidator_x86_64`, to the end of its query; `kBundleMask` is 31. -/
def applyDfaValidator_x86_64 (request : ValidationRequest host .x86_64)
    (cache : Option (NaClValidationCache host)) : Except Fault (Option (List (List UInt8))) :=
  if request.stuboutMode then .ok none
  else if ¬ naClArchSupportedX86 request.cpuFeatures then .ok none
  else if request.code.length &&& 31 ≠ 0 then .ok none
  else request.addQuery cache

/-- `ApplyDfaValidator_x86_32`, to the end of its query. -/
def applyDfaValidator_x86_32 (request : ValidationRequest host .x86_32)
    (cache : Option (NaClValidationCache host)) : Except Fault (Option (List (List UInt8))) :=
  if request.stuboutMode then .ok none
  else if ¬ naClArchSupportedX86 request.cpuFeatures then .ok none
  else if request.code.length &&& 31 ≠ 0 then .ok none
  else request.addQuery cache

/-- `CheckAddressOverflow`. -/
def addressOverflows (ptr : BitVec (8 * host.ptrBytes)) (size : ℕ) : Bool :=
  ¬ ptr.toNat < 2 ^ (8 * host.ptrBytes) - 1 - size

/-- `ApplyValidatorArm`, to the end of its query.  `IsAligned` masks with `NACL_BLOCK_SHIFT - 1`, which
is 3. -/
def applyValidatorArm (request : ValidationRequest host .arm)
    (cache : Option (NaClValidationCache host)) : Except Fault (Option (List (List UInt8))) :=
  let size := request.code.length
  if request.guestAddr.toNat &&& 3 ≠ 0 ∨ size &&& 3 ≠ 0 then .error .checkFailed
  else if addressOverflows request.guestAddr size ∨ addressOverflows request.data size then
    .error .checkFailed
  else if request.stuboutMode then .ok none
  else if 2 ^ 32 ≤ request.guestAddr.toNat then .error .checkFailed
  else if 2 ^ 30 ≤ request.guestAddr.toNat ∨ 2 ^ 30 < request.guestAddr.toNat + size then .ok none
  else request.addQuery cache

/-- `ApplyValidatorMips`, to the end of its query. -/
def applyValidatorMips (request : ValidationRequest host .mips)
    (cache : Option (NaClValidationCache host)) : Except Fault (Option (List (List UInt8))) :=
  request.addQuery (if request.stuboutMode then none else cache)

/-- What the validator adds to its query, if it makes one. -/
def query : {validator : Validator} → ValidationRequest host validator →
    Option (NaClValidationCache host) → Except Fault (Option (List (List UInt8)))
  | .x86_64 => applyDfaValidator_x86_64
  | .x86_32 => applyDfaValidator_x86_32
  | .arm => applyValidatorArm
  | .mips => applyValidatorMips

/-- The requests have the same CPU features and the same identity: the same code, or the same part of the
same file. -/
structure SameKey (request request' : ValidationRequest host validator) : Prop where
  cpuFeatures : request.cpuFeatures = request'.cpuFeatures
  identityType : identityType request.metadata = identityType request'.metadata
  data : ValidationCache.identityType request.metadata = naClCodeIdentityData →
    request.code = request'.code
  file : ValidationCache.identityType request.metadata = naClCodeIdentityFile →
    request.metadata = request'.metadata ∧ request.code.length = request'.code.length

end ValidationRequest

/-! ## The two forms of an identity -/

variable {code code' : List UInt8} {metadata metadata' : Option (NaClValidationMetadata host)}
variable {chunks chunks' : List (List UInt8)} {rest rest' : List UInt8}

/-- What follows the type of a file identity. -/
def fileStream (code : List UInt8) (metadata : NaClValidationMetadata host) (fileName : List UInt8) :
    List UInt8 :=
  literal 8 metadata.codeOffset ++ (literal host.ptrBytes (.ofNat _ code.length) ++
    (literal host.ptrBytes (.ofNat _ fileName.length) ++ (fileName ++ (literal 8 metadata.deviceId ++
      (literal 8 metadata.fileId ++ (literal 8 metadata.fileSize ++
        (literal host.timeBytes metadata.mtime ++ (literal host.timeBytes metadata.ctime ++ []))))))))

theorem naClAddCodeIdentity_cases (h : naClAddCodeIdentity code metadata = .ok chunks) :
    (identityType metadata = naClCodeIdentityData ∧
      chunks.flatten = literal 4 naClCodeIdentityData ++ code) ∨
      ∃ info fileName, metadata = some info ∧ info.identityType = naClCodeIdentityFile ∧
        info.fileName = some fileName ∧
        chunks.flatten = literal 4 naClCodeIdentityFile ++ fileStream code info fileName := by
  unfold naClAddCodeIdentity at h
  dsimp only at h
  split_ifs at h with hmax hfile
  · right
    cases metadata with
    | none => cases h
    | some info =>
      dsimp only at h
      cases hname : info.fileName with
      | none =>
        rw [hname] at h
        cases h
      | some fileName =>
        rw [hname] at h
        dsimp only at h
        split_ifs at h
        cases h
        exact ⟨info, fileName, rfl, hfile, hname, rfl⟩
  · left
    cases h
    -- below `naClCodeIdentityMax` there are only the two types
    have hdata : identityType metadata = naClCodeIdentityData := by
      have hlt : (identityType metadata).toNat < 2 := hmax
      have hne : (identityType metadata).toNat ≠ 1 := fun heq => hfile (BitVec.eq_of_toNat_eq heq)
      exact BitVec.eq_of_toNat_eq (show (identityType metadata).toNat = 0 by omega)
    refine ⟨hdata, ?_⟩
    rw [hdata, List.flatten_cons, List.flatten_singleton]

theorem length_inj {a b : List UInt8} {n : ℕ} (ha : a.length < 2 ^ n) (hb : b.length < 2 ^ n)
    (h : BitVec.ofNat n a.length = BitVec.ofNat n b.length) : a.length = b.length := by
  replace h := congrArg BitVec.toNat h
  rwa [BitVec.toNat_ofNat, BitVec.toNat_ofNat, Nat.mod_eq_of_lt ha, Nat.mod_eq_of_lt hb] at h

theorem fileStream_inj {info info' : NaClValidationMetadata host} {fileName fileName' : List UInt8}
    (hcode : code.length < 2 ^ (8 * host.ptrBytes)) (hcode' : code'.length < 2 ^ (8 * host.ptrBytes))
    (htype : info.identityType = info'.identityType)
    (hname : info.fileName = some fileName) (hname' : info'.fileName = some fileName')
    (h : fileStream code info fileName = fileStream code' info' fileName') :
    info = info' ∧ code.length = code'.length := by
  obtain ⟨hoffset, h⟩ := literal_append_inj h
  obtain ⟨hsize, h⟩ := literal_append_inj h
  obtain ⟨hlength, h⟩ := literal_append_inj h
  obtain ⟨hfileName, h⟩ := List.append_inj h
    (length_inj (info.fileName_lt _ hname) (info'.fileName_lt _ hname') hlength)
  obtain ⟨hdevice, h⟩ := literal_append_inj h
  obtain ⟨hfile, h⟩ := literal_append_inj h
  obtain ⟨hfileSize, h⟩ := literal_append_inj h
  obtain ⟨hmtime, h⟩ := literal_append_inj h
  obtain ⟨hctime, -⟩ := literal_append_inj h
  refine ⟨?_, length_inj hcode hcode' hsize⟩
  cases info
  cases info'
  dsimp only at *
  subst htype hoffset hname hdevice hfile hfileSize hmtime hctime hfileName
  cases hname'
  rfl

/-! ## The key of a request -/

namespace ValidationRequest

variable {request request' : ValidationRequest host validator}
variable {cache cache' : Option (NaClValidationCache host)}

theorem addQuery_spec (h : request.addQuery cache = .ok (some chunks)) :
    ∃ identity, naClAddCodeIdentity request.code request.metadata = .ok identity ∧
      chunks = validator.prologue host ++ request.cpuFeatures.toList :: identity := by
  unfold addQuery at h
  split_ifs at h
  · cases hidentity : naClAddCodeIdentity request.code request.metadata with
    | error fault =>
      rw [hidentity] at h
      cases h
    | ok identity =>
      rw [hidentity] at h
      cases h
      exact ⟨identity, rfl, rfl⟩
  · cases h

theorem of_check {c : Prop} [Decidable c] {a x : Except Fault (Option (List (List UInt8)))}
    (ha : a ≠ .ok (some chunks)) (h : (if c then a else x) = .ok (some chunks)) :
    x = .ok (some chunks) := by
  split_ifs at h
  · exact absurd h ha
  · exact h

theorem query_spec (h : request.query cache = .ok (some chunks)) :
    ∃ identity, naClAddCodeIdentity request.code request.metadata = .ok identity ∧
      chunks = validator.prologue host ++ request.cpuFeatures.toList :: identity := by
  have hnone : (.ok none : Except Fault (Option (List (List UInt8)))) ≠ .ok (some chunks) := by simp
  have herror : (.error .checkFailed : Except Fault (Option (List (List UInt8)))) ≠
      .ok (some chunks) := by simp
  cases validator with
  | x86_64 => exact addQuery_spec (of_check hnone (of_check hnone (of_check hnone h)))
  | x86_32 => exact addQuery_spec (of_check hnone (of_check hnone (of_check hnone h)))
  | arm => exact addQuery_spec (of_check hnone (of_check herror (of_check hnone
      (of_check herror (of_check herror h)))))
  | mips => exact addQuery_spec h

theorem flatten_query (h : request.query cache = .ok (some chunks)) :
    ∃ identity, naClAddCodeIdentity request.code request.metadata = .ok identity ∧
      chunks.flatten = (validator.prologue host).flatten ++
        (request.cpuFeatures.toList ++ identity.flatten) := by
  obtain ⟨identity, hidentity, rfl⟩ := query_spec h
  exact ⟨identity, hidentity, by rw [List.flatten_append, List.flatten_cons]⟩

end ValidationRequest

open ValidationRequest in
/-- **Keys are injective.** Two requests to a validator add the same bytes to their queries only if they
have the same CPU features and the same identity. -/
theorem sameKey_of_flatten_eq (host : CacheHost) (validator : Validator)
    (request request' : ValidationRequest host validator)
    (cache cache' : Option (NaClValidationCache host)) (chunks chunks' : List (List UInt8))
    (h : request.query cache = .ok (some chunks)) (h' : request'.query cache' = .ok (some chunks'))
    (heq : chunks.flatten = chunks'.flatten) : request.SameKey request' := by
  obtain ⟨identity, hidentity, hchunks⟩ := flatten_query h
  obtain ⟨identity', hidentity', hchunks'⟩ := flatten_query h'
  rw [hchunks, hchunks'] at heq
  replace heq := List.append_cancel_left heq
  obtain ⟨hfeatures, heq⟩ := List.append_inj heq (by rw [Vector.length_toList, Vector.length_toList])
  replace hfeatures : request.cpuFeatures = request'.cpuFeatures := Vector.toList_inj.1 hfeatures
  obtain ⟨htype, hstream⟩ | ⟨info, fileName, hinfo, htype, hname, hstream⟩ :=
      naClAddCodeIdentity_cases hidentity <;>
    obtain ⟨htype', hstream'⟩ | ⟨info', fileName', hinfo', htype', hname', hstream'⟩ :=
      naClAddCodeIdentity_cases hidentity'
  all_goals
    rw [hstream, hstream'] at heq
    obtain ⟨hliteral, heq⟩ := literal_append_inj heq
  · refine ⟨hfeatures, htype.trans htype'.symm, fun _ => heq, fun hfile => ?_⟩
    exact absurd (htype.symm.trans hfile) (by decide)
  · exact absurd hliteral (by decide)
  · exact absurd hliteral (by decide)
  · obtain ⟨hsame, hlength⟩ := fileStream_inj request.code_lt request'.code_lt
      (htype.trans htype'.symm) hname hname' heq
    have hmetadata : request.metadata = request'.metadata := by rw [hinfo, hinfo', hsame]
    refine ⟨hfeatures, congrArg _ hmetadata, fun hdata => ?_, fun _ => ⟨hmetadata, hlength⟩⟩
    rw [hinfo] at hdata
    exact absurd (htype.symm.trans hdata) (by decide)

/-- Two words of code at an address, with a cache that is asked for all code. -/
def wordsAt (guestAddr data : BitVec 64) : ValidationRequest ⟨8, 8⟩ .mips where
  guestAddr := guestAddr
  data := data
  code := [0, 0, 0, 0, 1, 0, 0, 0]
  stuboutMode := false
  cpuFeatures := #v[1, 0]
  metadata := none
  code_lt := by norm_num

/-- Code is known wherever it is, since its addresses are not part of the key. -/
theorem sameKey_wordsAt : (wordsAt 65536 4096).SameKey (wordsAt 131072 8192) :=
  sameKey_of_flatten_eq ⟨8, 8⟩ .mips _ _
    (some ⟨some fun _ => true, true⟩) (some ⟨some fun _ => true, true⟩)
    (Validator.id .mips :: [[1, 0], [0, 0, 0, 0], [0, 0, 0, 0, 1, 0, 0, 0]])
    (Validator.id .mips :: [[1, 0], [0, 0, 0, 0], [0, 0, 0, 0, 1, 0, 0, 0]]) rfl rfl rfl

end ValidationCache

end SandboxingNaCl
