import SandboxingNaCl.Lib.BinarySearch
import SandboxingNaCl.Lib.ByteImage
import SandboxingNaCl.Service.App

/-!
# The environment of the program

The environment cleanser of `env_cleanser.c`.  It puts the explicit extra entries into the program's
environment and then those of the host's entries that the program may see.  A C string is the list
of its bytes, without the NUL.  A null pointer to an array of entries is an array without entries:
the code treats both alike.
-/

namespace SandboxingNaCl

open BinarySearch

/-- The bytes of `size_t` and of a pointer. -/
inductive PtrBits
  | bits32 | bits64

/-- The bits of `size_t`. -/
def PtrBits.sizeBits : PtrBits → ℕ
  | .bits32 => 32
  | .bits64 => 64

/-- `sizeof(char *)`. -/
def PtrBits.ptrSize : PtrBits → ℕ
  | .bits32 => 4
  | .bits64 => 8

/-- An entry of an environment. -/
structure EnvEntry where
  chars : List UInt8
  noNul : 0 ∉ chars
deriving DecidableEq

/-- `'='`. -/
def equalsSign : UInt8 := 0x3d

/-- The pointer to the `n`-th character of an entry. -/
def EnvEntry.drop (entry : EnvEntry) (n : ℕ) : EnvEntry where
  chars := entry.chars.drop n
  noNul := fun h => entry.noNul (List.mem_of_mem_drop h)

/-- The arrays that `NaClEnvCleanserInit` is given.  With a null pointer they do not fill the
memory. -/
structure EnvArrays (bits : PtrBits) where
  envp : List EnvEntry
  extraEnv : List EnvEntry
  fits : (envp.length + extraEnv.length + 1) * bits.ptrSize < 2 ^ bits.sizeBits

/-- A table of pointers to entries.  A cell is `none` until it is written. -/
abbrev PtrTbl : Type := List (Option (Option EnvEntry))

/-- `struct NaClEnvCleanser`. -/
structure NaClEnvCleanser where
  withWhitelist : Bool
  withPassthrough : Bool
  cleansedEnviron : Option PtrTbl
deriving DecidableEq

def naclEnvPrefix : List UInt8 := ByteImage.ofString "NACLENV_"

def naclEnvPrefixLength : ℕ := 8

/-- `kNaClEnvWhitelist`, without its null pointer. -/
def kNaClEnvWhitelist : List (List UInt8) :=
  ["LANG", "LC_ADDRESS", "LC_ALL", "LC_COLLATE", "LC_CTYPE", "LC_IDENTIFICATION", "LC_MEASUREMENT",
    "LC_MESSAGES", "LC_MONETARY", "LC_NAME", "LC_NUMERIC", "LC_PAPER", "LC_TELEPHONE", "LC_TIME",
    "NACLVERBOSITY", "NACL_PLUGIN_DEBUG"].map ByteImage.ofString

def envCmp : List UInt8 → List UInt8 → ℤ
  | [], [] => 0
  | [], cright :: _ => 0 - cright.toNat
  | cleft :: _, [] => if cleft = equalsSign then 0 else cleft.toNat - 0
  | cleft :: left, cright :: right =>
    if cleft = cright then envCmp left right else cleft.toNat - cright.toNat

def naclEnvIsPassThroughVar (entry : EnvEntry) : Bool :=
  naclEnvPrefixLength < entry.chars.length ∧
    entry.chars.take naclEnvPrefixLength = naclEnvPrefix.take naclEnvPrefixLength

def naclEnvInWhitelist (entry : EnvEntry) : Bool :=
  (bsearch (envCmp entry.chars) kNaClEnvWhitelist).isSome

def varIsInExtraEnv (entry : EnvEntry) (extraEnv : List EnvEntry) : Bool :=
  if equalsSign ∈ entry.chars then
    let compareLen := entry.chars.idxOf equalsSign + 1
    extraEnv.any fun extra => entry.chars.take compareLen = extra.chars.take compareLen
  else false

/-! ## The two passes -/

/-- `++num_env`, unless it would overflow. -/
def countEntry (bits : PtrBits) (numEnv : ℕ) : Option ℕ :=
  if numEnv = 2 ^ bits.sizeBits - 1 then none else some (numEnv + 1)

/-- The body of the second loop that counts. -/
def countInherited (bits : PtrBits) (self : NaClEnvCleanser) (extraEnv : List EnvEntry) (numEnv : ℕ)
    (entry : EnvEntry) : Option ℕ :=
  if varIsInExtraEnv entry extraEnv ∨
      !self.withPassthrough ∧ !(self.withWhitelist ∧ naclEnvInWhitelist entry) ∧
        !naclEnvIsPassThroughVar entry then
    some numEnv
  else countEntry bits numEnv

def countEnv (bits : PtrBits) (self : NaClEnvCleanser) (envp extraEnv : List EnvEntry) : Option ℕ := do
  let numEnv ← extraEnv.foldlM (fun numEnv _ => countEntry bits numEnv) 0
  envp.foldlM (countInherited bits self extraEnv) numEnv

/-- `ptr_tbl[env] = p`. -/
def storePtr (ptrTbl : PtrTbl) (env : ℕ) (p : Option EnvEntry) : Except Fault PtrTbl :=
  if env < ptrTbl.length then .ok (ptrTbl.set env (some p)) else .error .badAccess

/-- `ptr_tbl[env] = p; ++env`. -/
def fillEntry (filled : PtrTbl × ℕ) (p : EnvEntry) : Except Fault (PtrTbl × ℕ) := do
  let ptrTbl ← storePtr filled.1 filled.2 (some p)
  return (ptrTbl, filled.2 + 1)

/-- The body of the second loop that fills. -/
def fillInherited (self : NaClEnvCleanser) (extraEnv : List EnvEntry) (filled : PtrTbl × ℕ)
    (entry : EnvEntry) : Except Fault (PtrTbl × ℕ) :=
  if varIsInExtraEnv entry extraEnv then .ok filled
  else if naclEnvIsPassThroughVar entry then fillEntry filled (entry.drop naclEnvPrefixLength)
  else if self.withPassthrough ∨ self.withWhitelist ∧ naclEnvInWhitelist entry then
    fillEntry filled entry
  else .ok filled

/-- The second pass. -/
def fillEnv (self : NaClEnvCleanser) (envp extraEnv : List EnvEntry) (ptrTbl : PtrTbl) :
    Except Fault (PtrTbl × ℕ) := do
  let filled ← extraEnv.foldlM fillEntry (ptrTbl, 0)
  envp.foldlM (fillInherited self extraEnv) filled

def ptrSizeMultOverflowMask (bits : PtrBits) : ℕ :=
  2 ^ bits.sizeBits - 1 - (2 ^ bits.sizeBits - 1) / bits.ptrSize

/-- `NaClEnvCleanserInit`, where `malloc` says whether there are so many bytes; `none` is the return
of 0. -/
def naclEnvCleanserInit (bits : PtrBits) (malloc : ℕ → Bool) (self : NaClEnvCleanser)
    (envp extraEnv : List EnvEntry) : Except Fault (Option NaClEnvCleanser) :=
  if envp = [] ∧ extraEnv = [] then .ok (some { self with cleansedEnviron := none })
  else
    match countEnv bits self envp extraEnv with
    | none => .ok none
    | some numEnv =>
      let slots := (1 + numEnv) % 2 ^ bits.sizeBits
      let ptrBytes := slots * bits.ptrSize % 2 ^ bits.sizeBits
      if slots &&& ptrSizeMultOverflowMask bits ≠ 0 then .ok none
      else if !malloc ptrBytes then .ok none
      else do
        let (ptrTbl, env) ← fillEnv self envp extraEnv (.replicate (ptrBytes / bits.ptrSize) none)
        if numEnv ≠ env then return none
        else
          let ptrTbl ← storePtr ptrTbl env none
          return some { self with cleansedEnviron := some ptrTbl }

/-! ## The environment that is to result -/

def EnvEntry.varName (entry : EnvEntry) : List UInt8 := entry.chars.takeWhile (· ≠ equalsSign)

/-- What the program may see of an inherited entry. -/
def NaClEnvCleanser.permitted (self : NaClEnvCleanser) (entry : EnvEntry) : Option EnvEntry :=
  if naclEnvPrefix <+: entry.chars ∧ naclEnvPrefix ≠ entry.chars then
    some (entry.drop naclEnvPrefix.length)
  else if self.withPassthrough ∨ self.withWhitelist ∧ entry.varName ∈ kNaClEnvWhitelist then
    some entry
  else none

def NamesVar (entries : List EnvEntry) (name : List UInt8) : Prop := ∃ e ∈ entries, e.varName = name

instance (entries : List EnvEntry) (name : List UInt8) : Decidable (NamesVar entries name) :=
  inferInstanceAs (Decidable (∃ e ∈ entries, _))

/-- The extra entries, then what the program may see of the inherited ones, without the variables of
the extra ones. -/
def NaClEnvCleanser.environment (self : NaClEnvCleanser) (envp extraEnv : List EnvEntry) :
    List EnvEntry :=
  extraEnv ++ (envp.filterMap self.permitted).filter (¬ NamesVar extraEnv ·.varName)

/-- The table of pointers to some entries, with the null pointer at its end. -/
def ptrTblOf (entries : List EnvEntry) : PtrTbl := entries.map (some ∘ some) ++ [some none]

/-- The initialisation writes only to the table it has got, fails only if there is no memory for the
table, and fills the table with the environment. -/
def Cleanses {bits : PtrBits} (self : NaClEnvCleanser) (env : EnvArrays bits) : Prop :=
  ∀ malloc, ∃ result, naclEnvCleanserInit bits malloc self env.envp env.extraEnv = .ok result ∧
    (result = none → ∃ size, malloc size = false) ∧
    ∀ cleanser, result = some cleanser → cleanser = { self with
      cleansedEnviron := if env.envp = [] ∧ env.extraEnv = [] then none
        else some (ptrTblOf (self.environment env.envp env.extraEnv)) }

/-! ## Names -/

section Names

variable {left right a b : List UInt8} {entry extra : EnvEntry} {extraEnv : List EnvEntry}

def NameChars (name : List UInt8) : Prop := ∀ c ∈ name, equalsSign < c

theorem toNat_ne_zero {c : UInt8} (h : c ≠ 0) : c.toNat ≠ 0 := fun hc => h (UInt8.toNat_inj.1 hc)

theorem envCmp_eq_zero_iff (hleft : 0 ∉ left) (hright : NameChars right) :
    envCmp left right = 0 ↔ left.takeWhile (· ≠ equalsSign) = right := by
  fun_induction envCmp left right with
  | case1 => simp
  | case2 d right =>
    have hd := UInt8.lt_iff_toNat_lt.1 (hright d List.mem_cons_self)
    simp only [List.takeWhile_nil, List.nil_eq, reduceCtorEq, iff_false]
    omega
  | case3 left => simp
  | case4 c left hc =>
    have hne := toNat_ne_zero (Ne.symm (List.ne_of_not_mem_cons hleft))
    simp only [List.takeWhile_cons, hc, ne_eq, not_false_eq_true, decide_true, if_true, reduceCtorEq,
      iff_false]
    omega
  | case5 left c right ih =>
    have hc := hright c List.mem_cons_self
    rw [List.takeWhile_cons_of_pos (by simpa using (UInt8.ne_of_lt hc).symm),
      List.cons_inj_right]
    exact ih (List.not_mem_of_not_mem_cons hleft) fun d hd => hright d (List.mem_cons_of_mem c hd)
  | case6 c left d right hne =>
    have hd := hright d List.mem_cons_self
    have hsub : (c.toNat : ℤ) - d.toNat ≠ 0 := fun h => hne (UInt8.toNat_inj.1 (by omega))
    refine iff_of_false hsub fun h => ?_
    by_cases hc : c = equalsSign
    · rw [List.takeWhile_cons_of_neg (by simpa using hc)] at h
      cases h
    · rw [List.takeWhile_cons_of_pos (by simpa using hc)] at h
      exact hne (List.cons.inj h).1

theorem envCmp_cons_of_lt {c d : UInt8} (h : c < d) : envCmp (c :: left) (d :: right) < 0 := by
  rw [envCmp, if_neg (UInt8.ne_of_lt h)]
  have := UInt8.lt_iff_toNat_lt.1 h
  omega

theorem envCmp_cons_of_gt {c d : UInt8} (h : d < c) : 0 < envCmp (c :: left) (d :: right) := by
  rw [envCmp, if_neg (UInt8.ne_of_lt h).symm]
  have := UInt8.lt_iff_toNat_lt.1 h
  omega

theorem envCmp_nil_nonneg : 0 ≤ envCmp left [] := by
  cases left with
  | nil => exact Int.le_refl 0
  | cons c left =>
    rw [envCmp]
    split_ifs <;> omega

/-- If a name comes before another one, a key before the first comes before the second, and a key
after the second comes after the first. -/
theorem envCmp_of_lt (ha : NameChars a) (hb : NameChars b) (hab : a < b) :
    (envCmp left a < 0 → envCmp left b < 0) ∧ (0 < envCmp left b → 0 < envCmp left a) := by
  induction left generalizing a b with
  | nil =>
    cases b with
    | nil => exact absurd hab (List.not_lt_nil a)
    | cons d b =>
      have hd := UInt8.lt_iff_toNat_lt.1 (hb d List.mem_cons_self)
      simp only [envCmp]
      exact ⟨fun _ => by omega, fun h => by omega⟩
  | cons c left ih =>
    cases b with
    | nil => exact absurd hab (List.not_lt_nil a)
    | cons d b =>
      cases a with
      | nil =>
        refine ⟨fun h => absurd h (Int.not_lt.2 envCmp_nil_nonneg), fun h => ?_⟩
        have hdc : d ≤ c := UInt8.not_lt.1 fun hcd => Int.lt_asymm h (envCmp_cons_of_lt hcd)
        have hc : equalsSign < c := UInt8.lt_of_lt_of_le (hb d List.mem_cons_self) hdc
        rw [envCmp, if_neg (UInt8.ne_of_lt hc).symm]
        have := UInt8.lt_iff_toNat_lt.1 hc
        omega
      | cons x a =>
        rcases List.cons_lt_cons_iff.1 hab with hxd | ⟨rfl, hab'⟩
        · constructor
          · intro h
            have hcx : c ≤ x := UInt8.not_lt.1 fun hxc => Int.lt_asymm h (envCmp_cons_of_gt hxc)
            exact envCmp_cons_of_lt (UInt8.lt_of_le_of_lt hcx hxd)
          · intro h
            have hdc : d ≤ c := UInt8.not_lt.1 fun hcd => Int.lt_asymm h (envCmp_cons_of_lt hcd)
            exact envCmp_cons_of_gt (UInt8.lt_of_lt_of_le hxd hdc)
        · have ha' : NameChars a := fun e he => ha e (List.mem_cons_of_mem x he)
          have hb' : NameChars b := fun e he => hb e (List.mem_cons_of_mem x he)
          simp only [envCmp]
          split_ifs with hcx
          · exact ih ha' hb' hab'
          · exact ⟨id, id⟩

theorem nameChars_of_mem (h : right ∈ kNaClEnvWhitelist) : NameChars right := by
  have hall : ∀ name ∈ kNaClEnvWhitelist, ∀ c ∈ name, equalsSign < c := by decide +kernel
  exact hall right h

theorem sorted_kNaClEnvWhitelist : kNaClEnvWhitelist.Pairwise (· < ·) := by decide

theorem fits_kNaClEnvWhitelist (left : List UInt8) : Fits (envCmp left) kNaClEnvWhitelist :=
  sorted_kNaClEnvWhitelist.imp_of_mem fun ha hb hab =>
    envCmp_of_lt (nameChars_of_mem ha) (nameChars_of_mem hb) hab

theorem naclEnvInWhitelist_iff :
    naclEnvInWhitelist entry = true ↔ entry.varName ∈ kNaClEnvWhitelist := by
  rw [naclEnvInWhitelist, isSome_bsearch_iff (fits_kNaClEnvWhitelist entry.chars)]
  constructor
  · rintro ⟨name, hmem, hname⟩
    rwa [EnvEntry.varName, (envCmp_eq_zero_iff entry.noNul (nameChars_of_mem hmem)).1 hname]
  · intro hmem
    exact ⟨entry.varName, hmem, (envCmp_eq_zero_iff entry.noNul (nameChars_of_mem hmem)).2 rfl⟩

theorem take_idxOf_equalsSign {chars : List UInt8} (h : equalsSign ∈ chars) :
    chars.take (chars.idxOf equalsSign + 1) = chars.takeWhile (· ≠ equalsSign) ++ [equalsSign] := by
  induction chars with
  | nil => cases h
  | cons c chars ih =>
    by_cases hc : c = equalsSign
    · subst hc
      simp
    · have hmem : equalsSign ∈ chars := (List.mem_cons.1 h).resolve_left (Ne.symm hc)
      rw [List.idxOf_cons_ne _ hc, List.take_succ_cons, ih hmem,
        List.takeWhile_cons_of_pos (by simpa using hc), List.cons_append]

theorem append_equalsSign_prefix_iff {name chars : List UInt8} (hname : equalsSign ∉ name) :
    name ++ [equalsSign] <+: chars ↔
      equalsSign ∈ chars ∧ chars.takeWhile (· ≠ equalsSign) = name := by
  constructor
  · rintro ⟨value, rfl⟩
    refine ⟨by simp, ?_⟩
    have hall : ∀ c ∈ name, decide (c ≠ equalsSign) = true := fun c hc =>
      decide_eq_true (ne_of_mem_of_not_mem hc hname)
    rw [List.append_assoc, List.takeWhile_append_of_pos hall, List.singleton_append,
      List.takeWhile_cons_of_neg (by simp), List.append_nil]
  · rintro ⟨hmem, rfl⟩
    rw [← take_idxOf_equalsSign hmem]
    exact List.take_prefix _ _

theorem equalsSign_not_mem_varName : equalsSign ∉ entry.varName := fun h => by
  simpa using List.mem_takeWhile_imp h

theorem varIsInExtraEnv_iff : varIsInExtraEnv entry extraEnv = true ↔
    equalsSign ∈ entry.chars ∧
      ∃ extra ∈ extraEnv, equalsSign ∈ extra.chars ∧ extra.varName = entry.varName := by
  unfold varIsInExtraEnv
  split_ifs with hmem
  · have hlength : (entry.varName ++ [equalsSign]).length = entry.chars.idxOf equalsSign + 1 := by
      rw [EnvEntry.varName, ← take_idxOf_equalsSign hmem, List.length_take]
      exact Nat.min_eq_left (List.idxOf_lt_length_of_mem hmem)
    simp only [List.any_eq_true, decide_eq_true_eq, hmem, true_and]
    refine exists_congr fun extra => and_congr_right fun _ => ?_
    have hprefix : entry.varName ++ [equalsSign] <+: extra.chars ↔
        equalsSign ∈ extra.chars ∧ extra.varName = entry.varName :=
      append_equalsSign_prefix_iff equalsSign_not_mem_varName
    rw [List.prefix_iff_eq_take, hlength] at hprefix
    rw [take_idxOf_equalsSign hmem]
    exact hprefix
  · simp [hmem]

def NaClEnvCleanser.passed (self : NaClEnvCleanser) (extraEnv : List EnvEntry) (entry : EnvEntry) :
    Option EnvEntry :=
  if varIsInExtraEnv entry extraEnv then none else self.permitted entry

end Names

/-! ## The passes agree -/

section Passes

variable {bits : PtrBits} {self : NaClEnvCleanser} {envp extraEnv : List EnvEntry}
  {entry : EnvEntry}

theorem naclEnvIsPassThroughVar_iff : naclEnvIsPassThroughVar entry = true ↔
    naclEnvPrefix <+: entry.chars ∧ naclEnvPrefix ≠ entry.chars := by
  have hlength : naclEnvPrefix.length = naclEnvPrefixLength := by decide
  have htake : naclEnvPrefix.take naclEnvPrefixLength = naclEnvPrefix := by decide
  rw [naclEnvIsPassThroughVar, decide_eq_true_iff, htake, List.prefix_iff_eq_take, hlength]
  constructor
  · rintro ⟨hlt, heq⟩
    refine ⟨heq.symm, fun h => ?_⟩
    rw [← h, hlength] at hlt
    exact lt_irrefl _ hlt
  · rintro ⟨heq, hne⟩
    refine ⟨?_, heq.symm⟩
    by_contra hle
    rw [List.take_of_length_le (not_lt.1 hle)] at heq
    exact hne heq

theorem permitted_eq (self : NaClEnvCleanser) (entry : EnvEntry) : self.permitted entry =
    if naclEnvIsPassThroughVar entry then some (entry.drop naclEnvPrefixLength)
    else if self.withPassthrough ∨ self.withWhitelist ∧ naclEnvInWhitelist entry then some entry
    else none := by
  simp only [NaClEnvCleanser.permitted, ← naclEnvIsPassThroughVar_iff, ← naclEnvInWhitelist_iff]
  rfl

theorem countInherited_eq (numEnv : ℕ) : countInherited bits self extraEnv numEnv entry =
    match self.passed extraEnv entry with
    | some _ => countEntry bits numEnv
    | none => pure numEnv := by
  rw [countInherited, NaClEnvCleanser.passed, permitted_eq]
  cases varIsInExtraEnv entry extraEnv <;> cases naclEnvIsPassThroughVar entry <;>
    cases self.withPassthrough <;> cases self.withWhitelist <;> cases naclEnvInWhitelist entry <;> rfl

theorem fillInherited_eq (filled : PtrTbl × ℕ) : fillInherited self extraEnv filled entry =
    match self.passed extraEnv entry with
    | some p => fillEntry filled p
    | none => pure filled := by
  rw [fillInherited, NaClEnvCleanser.passed, permitted_eq]
  cases varIsInExtraEnv entry extraEnv <;> cases naclEnvIsPassThroughVar entry <;>
    cases self.withPassthrough <;> cases self.withWhitelist <;> cases naclEnvInWhitelist entry <;> rfl

def NaClEnvCleanser.cleansed (self : NaClEnvCleanser) (envp extraEnv : List EnvEntry) :
    List EnvEntry :=
  extraEnv ++ envp.filterMap (self.passed extraEnv)

theorem countEnv_eq_foldlM : countEnv bits self envp extraEnv =
    (self.cleansed envp extraEnv).foldlM (fun numEnv _ => countEntry bits numEnv) 0 := by
  rw [NaClEnvCleanser.cleansed, List.foldlM_append]
  refine bind_congr fun numEnv => ?_
  rw [List.foldlM_filterMap]
  refine congrArg (fun f => envp.foldlM f numEnv) (funext₂ fun n entry => ?_)
  rw [countInherited_eq]
  cases self.passed extraEnv entry <;> rfl

theorem fillEnv_eq_foldlM (ptrTbl : PtrTbl) : fillEnv self envp extraEnv ptrTbl =
    (self.cleansed envp extraEnv).foldlM fillEntry (ptrTbl, 0) := by
  rw [NaClEnvCleanser.cleansed, List.foldlM_append]
  refine bind_congr fun filled => ?_
  rw [List.foldlM_filterMap]
  refine congrArg (fun f => envp.foldlM f filled) (funext₂ fun n entry => ?_)
  rw [fillInherited_eq]
  cases self.passed extraEnv entry <;> rfl
/-! ## Counting and filling -/

theorem foldlM_countEntry (entries : List EnvEntry) (numEnv : ℕ)
    (h : numEnv + entries.length < 2 ^ bits.sizeBits) :
    entries.foldlM (fun numEnv _ => countEntry bits numEnv) numEnv =
      some (numEnv + entries.length) := by
  induction entries generalizing numEnv with
  | nil => rfl
  | cons entry entries ih =>
    rw [List.length_cons] at h
    rw [List.foldlM_cons, countEntry, if_neg (by omega)]
    refine (ih (numEnv + 1) (by omega)).trans (congrArg some ?_)
    rw [List.length_cons]
    omega

def partTbl (written : List EnvEntry) (room : ℕ) : PtrTbl :=
  written.map (some ∘ some) ++ List.replicate room none

theorem storePtr_partTbl (written : List EnvEntry) (room : ℕ) (p : Option EnvEntry) :
    storePtr (partTbl written (room + 1)) written.length p =
      .ok (written.map (some ∘ some) ++ some p :: List.replicate room none) := by
  have hlt : written.length < (partTbl written (room + 1)).length := by
    simp [partTbl]
  have hlength : (written.map (some ∘ some)).length = written.length := List.length_map _
  rw [storePtr, if_pos hlt, partTbl, ← hlength, List.set_append_right _ _ le_rfl, Nat.sub_self,
    List.replicate_succ, List.set_cons_zero]

theorem foldlM_fillEntry (entries written : List EnvEntry) (room : ℕ) :
    entries.foldlM fillEntry (partTbl written (entries.length + room), written.length) =
      .ok (partTbl (written ++ entries) room, written.length + entries.length) := by
  induction entries generalizing written with
  | nil =>
    rw [List.append_nil]
    simp only [List.length_nil, Nat.zero_add, Nat.add_zero]
    rfl
  | cons entry entries ih =>
    have hstore := storePtr_partTbl written (entries.length + room) (some entry)
    have htbl : written.map (some ∘ some) ++ some (some entry) ::
        List.replicate (entries.length + room) none =
          partTbl (written ++ [entry]) (entries.length + room) := by
      simp [partTbl]
    have hfill : fillEntry (partTbl written (entries.length + room + 1), written.length) entry =
        .ok (partTbl (written ++ [entry]) (entries.length + room), (written ++ [entry]).length) := by
      rw [fillEntry, hstore, htbl, List.length_append]
      rfl
    rw [List.length_cons, Nat.add_right_comm, List.foldlM_cons, hfill]
    refine (ih (written ++ [entry])).trans ?_
    rw [List.append_assoc, List.singleton_append, List.length_append, List.length_singleton,
      Nat.add_right_comm, Nat.add_assoc]

theorem length_cleansed_le (self : NaClEnvCleanser) (envp extraEnv : List EnvEntry) :
    (self.cleansed envp extraEnv).length ≤ envp.length + extraEnv.length := by
  have := List.length_filterMap_le (self.passed extraEnv) envp
  rw [NaClEnvCleanser.cleansed, List.length_append]
  omega

theorem land_ptrSizeMultOverflowMask {slots : ℕ} (h : slots * bits.ptrSize < 2 ^ bits.sizeBits) :
    slots &&& ptrSizeMultOverflowMask bits = 0 := by
  obtain ⟨j, m, hmask, hlt⟩ : ∃ j m, ptrSizeMultOverflowMask bits = m * 2 ^ j ∧ slots < 2 ^ j := by
    cases bits with
    | bits32 => exact ⟨30, 3, by decide, by simp only [PtrBits.ptrSize, PtrBits.sizeBits] at h; omega⟩
    | bits64 => exact ⟨61, 7, by decide, by simp only [PtrBits.ptrSize, PtrBits.sizeBits] at h; omega⟩
  have hle : slots &&& ptrSizeMultOverflowMask bits < 2 ^ j := Nat.and_le_left.trans_lt hlt
  rw [← Nat.mod_eq_of_lt hle, Nat.and_mod_two_pow, hmask, Nat.mul_mod_left, Nat.and_zero]

/-- The initialisation on every environment: it does not write past its table, and the passes
agree. -/
theorem naclEnvCleanserInit_eq (malloc : ℕ → Bool) (self : NaClEnvCleanser) (env : EnvArrays bits) :
    naclEnvCleanserInit bits malloc self env.envp env.extraEnv = .ok (
      if env.envp = [] ∧ env.extraEnv = [] then some { self with cleansedEnviron := none }
      else if malloc ((1 + (self.cleansed env.envp env.extraEnv).length) * bits.ptrSize) then
        some { self with cleansedEnviron := some (ptrTblOf (self.cleansed env.envp env.extraEnv)) }
      else none) := by
  set entries := self.cleansed env.envp env.extraEnv with hentries
  have hlength : entries.length ≤ env.envp.length + env.extraEnv.length := length_cleansed_le _ _ _
  have hpos : 0 < bits.ptrSize := by cases bits <;> decide
  have hbytes : (1 + entries.length) * bits.ptrSize < 2 ^ bits.sizeBits :=
    (Nat.mul_le_mul_right _ (by omega)).trans_lt env.fits
  have hslots : 1 + entries.length < 2 ^ bits.sizeBits :=
    (Nat.le_mul_of_pos_right _ hpos).trans_lt hbytes
  have hcount : countEnv bits self env.envp env.extraEnv = some entries.length := by
    rw [countEnv_eq_foldlM, ← hentries, foldlM_countEntry entries 0 (by omega), Nat.zero_add]
  have hfill : fillEnv self env.envp env.extraEnv (List.replicate (1 + entries.length) none) =
      .ok (partTbl entries 1, entries.length) := by
    rw [fillEnv_eq_foldlM, ← hentries, Nat.add_comm]
    simpa [partTbl] using foldlM_fillEntry entries [] 1
  have hend : storePtr (partTbl entries 1) entries.length none = .ok (ptrTblOf entries) :=
    storePtr_partTbl entries 0 none
  have hmask := land_ptrSizeMultOverflowMask hbytes
  rw [naclEnvCleanserInit, hcount]
  simp only [Nat.mod_eq_of_lt hslots, Nat.mod_eq_of_lt hbytes, hmask, Nat.mul_div_cancel _ hpos, hfill]
  by_cases hempty : env.envp = [] ∧ env.extraEnv = []
  · rw [if_pos hempty, if_pos hempty]
  · rw [if_neg hempty, if_neg hempty, if_neg (by simp)]
    cases malloc ((1 + entries.length) * bits.ptrSize) with
    | false => rfl
    | true =>
      change (do
        if entries.length ≠ entries.length then return none
        else
          let ptrTbl ← storePtr (partTbl entries 1) entries.length none
          return some { self with cleansedEnviron := some ptrTbl } : Except Fault _) = _
      rw [if_neg (by simp), hend]
      rfl

end Passes

/-! ## The result -/

section Result

variable {bits : PtrBits} {self : NaClEnvCleanser} {envp extraEnv : List EnvEntry}

/-- Two selections from a list are equal as lists only if they are equal everywhere, if the one
selects nothing that the other one does not. -/
theorem eq_of_filterMap_eq {α β : Type*} {f g : α → Option β} {l : List α}
    (hle : ∀ a ∈ l, ∀ b, f a = some b → g a = some b) (h : l.filterMap f = l.filterMap g) :
    ∀ a ∈ l, f a = g a := by
  induction l with
  | nil => exact fun a ha => nomatch ha
  | cons a l ih =>
    have hle' : ∀ a ∈ l, ∀ b, f a = some b → g a = some b :=
      fun c hc => hle c (List.mem_cons_of_mem a hc)
    have hcount : (l.filterMap f).length ≤ (l.filterMap g).length := by
      rw [List.length_filterMap_eq_countP, List.length_filterMap_eq_countP]
      refine List.countP_mono_left fun c hc hsome => ?_
      obtain ⟨b, hb⟩ := Option.isSome_iff_exists.1 hsome
      rw [hle' c hc b hb]
      rfl
    cases hf : f a with
    | none =>
      cases hg : g a with
      | none =>
        rw [List.filterMap_cons_none hf, List.filterMap_cons_none hg] at h
        exact List.forall_mem_cons.2 ⟨hf.trans hg.symm, ih hle' h⟩
      | some b =>
        rw [List.filterMap_cons_none hf, List.filterMap_cons_some hg] at h
        have := congrArg List.length h
        rw [List.length_cons] at this
        omega
    | some b =>
      have hg := hle a List.mem_cons_self b hf
      rw [List.filterMap_cons_some hf, List.filterMap_cons_some hg] at h
      exact List.forall_mem_cons.2 ⟨hf.trans hg.symm, ih hle' (List.cons.inj h).2⟩

theorem ptrTblOf_inj {a b : List EnvEntry} : ptrTblOf a = ptrTblOf b ↔ a = b := by
  have hinj : Function.Injective (some ∘ some : EnvEntry → Option (Option EnvEntry)) :=
    (Option.some_injective _).comp (Option.some_injective _)
  rw [ptrTblOf, ptrTblOf, List.append_left_inj, hinj.list_map.eq_iff]

theorem passed_eq_filter_iff {entry : EnvEntry} : self.passed extraEnv entry =
      (self.permitted entry).filter (¬ NamesVar extraEnv ·.varName) ↔
    ∀ permitted, self.permitted entry = some permitted →
      (varIsInExtraEnv entry extraEnv = true ↔ NamesVar extraEnv permitted.varName) := by
  rw [NaClEnvCleanser.passed]
  cases self.permitted entry with
  | none => simp
  | some permitted =>
    rw [Option.filter_some]
    cases varIsInExtraEnv entry extraEnv <;> by_cases hname : NamesVar extraEnv permitted.varName <;>
      simp [hname]

/-- The code passes the right entries exactly when the names that it compares are as good as those
that the program gets. -/
theorem cleansed_eq_environment_iff : self.cleansed envp extraEnv = self.environment envp extraEnv ↔
    ∀ entry ∈ envp, ∀ permitted, self.permitted entry = some permitted →
      (varIsInExtraEnv entry extraEnv = true ↔ NamesVar extraEnv permitted.varName) := by
  rw [NaClEnvCleanser.cleansed, NaClEnvCleanser.environment, List.append_right_inj,
    List.filter_filterMap]
  constructor
  · intro h entry hmem
    refine passed_eq_filter_iff.1 (eq_of_filterMap_eq (fun entry hmem p hp => ?_) h entry hmem)
    -- What is passed is in the environment, so no extra entry has its name.
    have hpassed : p ∈ envp.filterMap (self.passed extraEnv) :=
      List.mem_filterMap.2 ⟨entry, hmem, hp⟩
    rw [h] at hpassed
    obtain ⟨other, -, hother⟩ := List.mem_filterMap.1 hpassed
    have hname := (Option.filter_eq_some_iff.1 hother).2
    have hpermitted : self.permitted entry = some p := by
      rw [NaClEnvCleanser.passed] at hp
      split_ifs at hp
      exact hp
    exact Option.filter_eq_some_iff.2 ⟨hpermitted, hname⟩
  · intro h
    exact List.filterMap_congr fun entry hmem => passed_eq_filter_iff.2 (h entry hmem)

/-- The environment is cleansed as it is to be exactly when, for each inherited entry that the program
may see, an extra entry has its name in the host's environment if and only if one has its name in the
program's. -/
theorem cleanses_iff (self : NaClEnvCleanser) (env : EnvArrays bits) : Cleanses self env ↔
    ∀ entry ∈ env.envp, ∀ permitted, self.permitted entry = some permitted →
      ((equalsSign ∈ entry.chars ∧
          ∃ extra ∈ env.extraEnv, equalsSign ∈ extra.chars ∧ extra.varName = entry.varName) ↔
        NamesVar env.extraEnv permitted.varName) := by
  simp only [← varIsInExtraEnv_iff]
  rw [← cleansed_eq_environment_iff]
  constructor
  · intro h
    obtain ⟨result, hresult, -, hcleanser⟩ := h fun _ => true
    rw [naclEnvCleanserInit_eq, Except.ok.injEq, if_pos rfl] at hresult
    split_ifs at hresult hcleanser with hempty
    · rw [NaClEnvCleanser.cleansed, NaClEnvCleanser.environment, hempty.1, hempty.2]
      rfl
    · have := hcleanser _ hresult.symm
      exact ptrTblOf_inj.1 (Option.some.inj (congrArg NaClEnvCleanser.cleansedEnviron this))
  · intro h malloc
    refine ⟨_, naclEnvCleanserInit_eq malloc self env, fun hnone => ?_, fun cleanser hcleanser => ?_⟩
    · split_ifs at hnone with hempty hmalloc
      exact ⟨_, Bool.eq_false_iff.2 hmalloc⟩
    · rw [h] at hcleanser
      split_ifs at hcleanser ⊢
      · exact (Option.some.inj hcleanser).symm
      · exact (Option.some.inj hcleanser).symm

end Result

/-- An inherited entry and an extra one, which name the same variable for the program. -/
def twoFoo : EnvArrays .bits64 where
  envp := [⟨ByteImage.ofString "NACLENV_FOO=1", by decide⟩]
  extraEnv := [⟨ByteImage.ofString "FOO=2", by decide⟩]
  fits := by decide

/-- The program gets both. -/
theorem not_cleanses_twoFoo :
    naclEnvCleanserInit .bits64 (fun _ => true) ⟨true, false, none⟩ twoFoo.envp twoFoo.extraEnv =
      .ok (some ⟨true, false, some (ptrTblOf [⟨ByteImage.ofString "FOO=2", by decide⟩,
        ⟨ByteImage.ofString "FOO=1", by decide⟩])⟩) ∧
    ¬ Cleanses ⟨true, false, none⟩ twoFoo := by
  have hinit : naclEnvCleanserInit .bits64 (fun _ => true) ⟨true, false, none⟩ twoFoo.envp
      twoFoo.extraEnv = .ok (some ⟨true, false, some (ptrTblOf
        [⟨ByteImage.ofString "FOO=2", by decide⟩, ⟨ByteImage.ofString "FOO=1", by decide⟩])⟩) := by
    rw [naclEnvCleanserInit_eq]
    decide +kernel
  refine ⟨hinit, fun h => ?_⟩
  obtain ⟨result, hresult, -, hcleanser⟩ := h fun _ => true
  rw [hinit, Except.ok.injEq] at hresult
  exact absurd (hcleanser _ hresult.symm) (by decide +kernel)

end SandboxingNaCl
