import SandboxingNaCl.DebugStub.Session

/-!
# The query for the target description

The case `qXfer:features:read:target.xml` of `ProcessPacket`: its fields are split off by `StringSplit`
of `util.cc` and read by `strtol`, and what is asked for is computed in `int`.
-/

namespace SandboxingNaCl

open ByteImage

/-- The C string at an index of characters that a NUL is behind. -/
def cString (chars : List UInt8) (i : ℕ) : Except Fault (List UInt8) :=
  if i ≤ chars.length then .ok ((chars.drop i).takeWhile (· ≠ 0)) else .error .badAccess

/-- The loop of `StringSplit`.  It comes round at most once for each character. -/
def stringSplitLoop (delim : List UInt8) : ℕ → List UInt8 → List (List UInt8)
  | 0, _ => []
  | n + 1, chars =>
    let start := chars.dropWhile (· ∈ delim)
    if start = [] then []
    else start.takeWhile (· ∉ delim) :: stringSplitLoop delim n (start.dropWhile (· ∉ delim))

def stringSplit (delim str : List UInt8) : List (List UInt8) := stringSplitLoop delim str.length str

/-! ## `strtol` -/

/-- `'x'` and `'X'`. -/
def lowerX : UInt8 := 0x78
def upperX : UInt8 := 0x58

def isSpace (ch : UInt8) : Bool := ch = 0x20 ∨ 9 ≤ ch.toNat ∧ ch.toNat ≤ 13

/-- The hex number that some characters go on with, and what is behind it. -/
def scanDigits : ℕ → List UInt8 → ℕ × List UInt8
  | n, [] => (n, [])
  | n, ch :: str =>
    match nibbleToInt ch with
    | some nib => scanDigits (16 * n + nib) str
    | none => (n, ch :: str)

/-- The sign of a number, and what is behind it. -/
def scanSign (str : List UInt8) : Bool × List UInt8 :=
  match str with
  | [] => (false, [])
  | ch :: chars =>
    if ch = minus then (true, chars) else if ch = plus then (false, chars) else (false, str)

/-- The characters behind a `0x` that is in front of a digit. -/
def skipBase : List UInt8 → List UInt8
  | ch1 :: ch2 :: ch3 :: str =>
    if ch1 = digitZero ∧ (ch2 = lowerX ∨ ch2 = upperX) ∧ (nibbleToInt ch3).isSome then ch3 :: str
    else ch1 :: ch2 :: ch3 :: str
  | str => str

/-- `strtol(str, &end, 16)`: the number, which is kept within a `long`, and `end`. -/
def strtol (longBits : ℕ) (str : List UInt8) : ℤ × List UInt8 :=
  let (negative, chars) := scanSign (str.dropWhile isSpace)
  let digits := skipBase chars
  if (digits.head?.bind nibbleToInt).isNone then (0, str)
  else
    let (n, rest) := scanDigits 0 digits
    (if negative then max (-2 ^ (longBits - 1)) (-(n : ℤ)) else min (2 ^ (longBits - 1) - 1) (n : ℤ), rest)

/-- The conversion to `int`. -/
def toInt32 (n : ℤ) : ℤ := if n % 2 ^ 32 < 2 ^ 31 then n % 2 ^ 32 else n % 2 ^ 32 - 2 ^ 32

/-! ## The answer -/

/-- `out[i]`. -/
def charAt (out : List UInt8) (i : ℤ) : Except Fault UInt8 :=
  if 0 ≤ i then checked out[i.toNat]? else .error .badAccess

/-- `offs` and `max`, before the loop. -/
def featuresRange (longBits size : ℕ) (arg0 arg1 : List UInt8) : ℤ × ℤ :=
  let offs := toInt32 (strtol longBits arg0).1
  let max := toInt32 ((strtol longBits arg1).1 + offs)
  let len := toInt32 size
  (offs, if len ≤ max then len else max)

/-- The characters of the answer, for what is behind the annex. -/
def featuresReply (longBits : ℕ) (out : List UInt8) (args : List (List UInt8)) :
    Except Fault (List UInt8) :=
  match args with
  | [arg0, arg1] =>
    let (offs, max) := featuresRange longBits out.length arg0 arg1
    (List.range (max - offs).toNat).mapM fun i : ℕ => charAt out (offs + i)
  | _ => return []

/-! ## When it is exact -/

def spelledNumber (str : List UInt8) : Option ℕ :=
  if str = [] then none else str.foldlM (fun n ch => (nibbleToInt ch).map (16 * n + ·)) 0

/-- The answer is empty, or there are two fields that are numbers and it is what they ask for. -/
def AnswersFeatures (out : List UInt8) (args : List (List UInt8)) (reply : List UInt8) : Prop :=
  reply = [] ∨ ∃ arg0 arg1 offset length, args = [arg0, arg1] ∧ spelledNumber arg0 = some offset ∧
    spelledNumber arg1 = some length ∧ reply = (out.take (offset + length)).drop offset

/-- No character is asked for in `int`; or the fields are numbers, the offset is one of `int`, and the
end is, or comes out behind the description. -/
def FeaturesExact (longBits size : ℕ) (args : List (List UInt8)) : Prop :=
  match args with
  | [arg0, arg1] =>
    (featuresRange longBits size arg0 arg1).2 ≤ (featuresRange longBits size arg0 arg1).1 ∨
      ∃ offset ∈ spelledNumber arg0, ∃ length ∈ spelledNumber arg1, offset < 2 ^ 31 ∧
        (offset + length < 2 ^ 31 ∨ (size : ℤ) ≤ toInt32 ((strtol longBits arg1).1 + offset))
  | _ => True

section

variable {out str : List UInt8} {arg0 arg1 : List UInt8} {ch : UInt8} {n m longBits : ℕ}

theorem scanDigits_of_foldlM
    (h : str.foldlM (fun n ch => (nibbleToInt ch).map (16 * n + ·)) n = some m) :
    scanDigits n str = (m, []) := by
  induction str generalizing n with
  | nil =>
    cases h
    rfl
  | cons ch str ih =>
    rw [List.foldlM_cons] at h
    obtain ⟨k, hk, hrest⟩ := Option.bind_eq_some_iff.1 h
    obtain ⟨nib, hnib, rfl⟩ := Option.map_eq_some_iff.1 hk
    rw [scanDigits, hnib]
    exact ih hrest

theorem le_toNat_of_nibble {nib : ℕ} (h : nibbleToInt ch = some nib) : 48 ≤ ch.toNat := by
  rw [nibbleToInt] at h
  split_ifs at h with hlower hupper hdigit
  · exact le_trans (by decide) hlower.1
  · exact le_trans (by decide) hupper.1
  · exact hdigit.1

theorem blank_of_nibble {nib : ℕ} (h : nibbleToInt ch = some nib) :
    isSpace ch = false ∧ ch ≠ minus ∧ ch ≠ plus := by
  have hle := le_toNat_of_nibble h
  have hne {c : UInt8} (hc : c.toNat < 48) : ch ≠ c := fun heq => by rw [heq] at hle; omega
  refine ⟨?_, hne (by decide), hne (by decide)⟩
  rw [isSpace, decide_eq_false_iff_not, not_or]
  exact ⟨hne (by decide), fun hblank => by omega⟩

theorem skipBase_of_spelled (h : str.foldlM (fun n ch => (nibbleToInt ch).map (16 * n + ·)) n = some m) :
    skipBase str = str := by
  rcases str with _ | ⟨ch1, _ | ⟨ch2, _ | ⟨ch3, str⟩⟩⟩
  · rfl
  · rfl
  · rfl
  · rw [List.foldlM_cons] at h
    obtain ⟨k, -, hrest⟩ := Option.bind_eq_some_iff.1 h
    rw [List.foldlM_cons] at hrest
    obtain ⟨k', hk, -⟩ := Option.bind_eq_some_iff.1 hrest
    obtain ⟨nib, hnib, -⟩ := Option.map_eq_some_iff.1 hk
    have hx : ¬ (ch2 = lowerX ∨ ch2 = upperX) := by
      have hlower : nibbleToInt lowerX = none := by decide
      have hupper : nibbleToInt upperX = none := by decide
      rintro (rfl | rfl)
      · cases hlower.symm.trans hnib
      · cases hupper.symm.trans hnib
    rw [skipBase, if_neg fun hbase => hx hbase.2.1]

theorem strtol_of_spelled (h : spelledNumber str = some n) (longBits : ℕ) :
    (strtol longBits str).1 = min (2 ^ (longBits - 1) - 1) (n : ℤ) := by
  unfold spelledNumber at h
  split_ifs at h with hnil
  have hscan := scanDigits_of_foldlM h
  have hskip := skipBase_of_spelled h
  cases str with
  | nil => exact absurd rfl hnil
  | cons ch str =>
    rw [List.foldlM_cons] at h
    obtain ⟨k, hk, -⟩ := Option.bind_eq_some_iff.1 h
    obtain ⟨nib, hnib, -⟩ := Option.map_eq_some_iff.1 hk
    obtain ⟨hspace, hminus, hplus⟩ := blank_of_nibble hnib
    have hdrop : (ch :: str).dropWhile isSpace = ch :: str := by
      rw [List.dropWhile_cons_of_neg (by simp [hspace])]
    have hsign : scanSign (ch :: str) = (false, ch :: str) := by
      rw [scanSign, if_neg hminus, if_neg hplus]
    unfold strtol
    simp [hdrop, hsign, hskip, hnib, hscan]

theorem toInt32_of_lt {k : ℕ} (h : k < 2 ^ 31) : toInt32 k = k := by
  unfold toInt32
  omega

theorem toInt32_le (k : ℕ) : toInt32 k ≤ k := by
  unfold toInt32
  omega

theorem mapM_charAt {offs : ℕ} {k : ℕ} (h : offs + k ≤ out.length) :
    (List.range k).mapM (fun i : ℕ => charAt out (offs + i)) = .ok ((out.drop offs).take k) := by
  induction k with
  | zero => rfl
  | succ k ih =>
    have hget : charAt out ((offs : ℤ) + k) = .ok out[offs + k] := by
      rw [charAt, if_pos (by omega)]
      have hindex : ((offs : ℤ) + k).toNat = offs + k := by omega
      rw [hindex, List.getElem?_eq_getElem (by omega)]
      rfl
    have htake : (out.drop offs).take (k + 1) = (out.drop offs).take k ++ [out[offs + k]] := by
      rw [List.take_succ_eq_append_getElem (by rw [List.length_drop]; omega), List.getElem_drop]
    rw [List.range_succ, List.mapM_append, ih (by omega), List.mapM_cons, List.mapM_nil, hget, htake]
    rfl

theorem mapM_charAt_neg {offs : ℤ} {k : ℕ} (hoffs : offs < 0) (hk : 0 < k) :
    (List.range k).mapM (fun i : ℕ => charAt out (offs + i)) = .error .badAccess := by
  obtain ⟨n, rfl⟩ := Nat.exists_eq_succ_of_ne_zero (Nat.ne_of_gt hk)
  have hneg : charAt out (offs + (0 : ℕ)) = .error .badAccess := by
    rw [charAt, if_neg (by omega)]
  rw [List.range_succ_eq_map, List.mapM_cons, hneg]
  rfl

theorem mapM_charAt_range {offs max : ℤ} (hoffs : 0 ≤ offs) (hlt : offs < max) (hmax : max ≤ out.length) :
    (List.range (max - offs).toNat).mapM (fun i : ℕ => charAt out (offs + i)) =
      .ok ((out.take max.toNat).drop offs.toNat) := by
  obtain ⟨o, rfl⟩ := Int.eq_ofNat_of_zero_le hoffs
  have h := @mapM_charAt out o (max - o).toNat (by omega)
  rw [List.take_drop] at h
  have hend : o + (max - o).toNat = max.toNat := by omega
  rw [hend] at h
  exact h

theorem featuresRange_le (hsize : n < 2 ^ 31) (longBits : ℕ) (arg0 arg1 : List UInt8) :
    (featuresRange longBits n arg0 arg1).2 ≤ n := by
  unfold featuresRange
  simp only [toInt32_of_lt hsize]
  split_ifs
  · exact le_rfl
  · omega

theorem le_longMax (hlong : 32 ≤ longBits) : (2 ^ 31 - 1 : ℤ) ≤ 2 ^ (longBits - 1) - 1 := by
  have hpow : (2 : ℤ) ^ 31 ≤ 2 ^ (longBits - 1) := pow_le_pow_right₀ (by decide) (by omega)
  omega

theorem featuresRange_fst (hlong : 32 ≤ longBits) {offset : ℕ} (h0 : spelledNumber arg0 = some offset)
    (hoffset : offset < 2 ^ 31) (n : ℕ) (arg1 : List UInt8) :
    (featuresRange longBits n arg0 arg1).1 = offset := by
  have hmax := le_longMax hlong
  unfold featuresRange
  simp only
  rw [strtol_of_spelled h0, min_eq_right (by omega), toInt32_of_lt hoffset]

theorem featuresRange_snd_iff (hlong : 32 ≤ longBits) (hsize : n < 2 ^ 31) {offset length : ℕ}
    (h0 : spelledNumber arg0 = some offset) (h1 : spelledNumber arg1 = some length)
    (hoffset : offset < 2 ^ 31) :
    (featuresRange longBits n arg0 arg1).2 = min ((offset : ℤ) + length) n ↔
      offset + length < 2 ^ 31 ∨ (n : ℤ) ≤ toInt32 ((strtol longBits arg1).1 + offset) := by
  have hmax := le_longMax hlong
  have hfst := featuresRange_fst hlong h0 hoffset n arg1
  unfold featuresRange at hfst ⊢
  simp only at hfst
  rw [hfst, toInt32_of_lt hsize, strtol_of_spelled h1]
  have hle : toInt32 (min (2 ^ (longBits - 1) - 1) (length : ℤ) + offset) ≤ length + offset := by
    obtain ⟨k, hk⟩ := Int.eq_ofNat_of_zero_le
      (show 0 ≤ min (2 ^ (longBits - 1) - 1) (length : ℤ) + offset by omega)
    have := toInt32_le k
    rw [hk]
    exact this.trans (by rw [← hk]; omega)
  by_cases hend : offset + length < 2 ^ 31
  · have hexact : toInt32 (min (2 ^ (longBits - 1) - 1) (length : ℤ) + offset) = offset + length := by
      rw [min_eq_right (by omega)]
      have h := @toInt32_of_lt (length + offset) (by omega)
      push_cast at h
      rw [h, Int.add_comm]
    simp only [hexact]
    omega
  · have hcut : min ((offset : ℤ) + length) n = n := min_eq_right (by omega)
    rw [hcut]
    simp only
    split_ifs <;> omega

theorem featuresReply_cases (hsize : out.length < 2 ^ 31) (longBits : ℕ) (args : List (List UInt8)) :
    (∃ reply, featuresReply longBits out args = .ok reply) ∨
      featuresReply longBits out args = .error .badAccess := by
  unfold featuresReply
  split
  · next arg0 arg1 =>
    have hle := featuresRange_le hsize longBits arg0 arg1
    generalize featuresRange longBits out.length arg0 arg1 = range at hle ⊢
    obtain ⟨offs, max⟩ := range
    simp only at hle ⊢
    by_cases hempty : max ≤ offs
    · have hzero : (max - offs).toNat = 0 := by omega
      rw [hzero]
      exact Or.inl ⟨[], rfl⟩
    · by_cases hoffs : 0 ≤ offs
      · exact Or.inl ⟨_, mapM_charAt_range hoffs (by omega) hle⟩
      · exact Or.inr (mapM_charAt_neg (by omega) (by omega))
  · exact Or.inl ⟨[], rfl⟩

theorem featuresReply_iff (hlong : 32 ≤ longBits) (hsize : out.length < 2 ^ 31)
    (args : List (List UInt8)) :
    (∃ reply, featuresReply longBits out args = .ok reply ∧ AnswersFeatures out args reply) ↔
      FeaturesExact longBits out.length args := by
  unfold featuresReply FeaturesExact
  split
  · next arg0 arg1 =>
    have hle := featuresRange_le hsize longBits arg0 arg1
    have hfst {offset : ℕ} (h0 : spelledNumber arg0 = some offset) (hoffset : offset < 2 ^ 31) :=
      featuresRange_fst hlong h0 hoffset out.length arg1
    have hsnd {offset length : ℕ} (h0 : spelledNumber arg0 = some offset)
        (h1 : spelledNumber arg1 = some length) (hoffset : offset < 2 ^ 31) :=
      featuresRange_snd_iff hlong hsize h0 h1 hoffset
    generalize featuresRange longBits out.length arg0 arg1 = range at hle hfst hsnd ⊢
    obtain ⟨offs, max⟩ := range
    simp only at hle hfst hsnd ⊢
    by_cases hempty : max ≤ offs
    · have hzero : (max - offs).toNat = 0 := by omega
      rw [hzero]
      exact iff_of_true ⟨[], rfl, Or.inl rfl⟩ (Or.inl hempty)
    rw [or_iff_right hempty]
    constructor
    · rintro ⟨reply, hreply, hanswers⟩
      have hoffs : 0 ≤ offs := by
        by_contra hneg
        rw [mapM_charAt_neg (by omega) (by omega)] at hreply
        cases hreply
      rw [mapM_charAt_range hoffs (by omega) hle] at hreply
      cases hreply
      have hlength : ((out.take max.toNat).drop offs.toNat).length = max.toNat - offs.toNat := by
        rw [List.length_drop, List.length_take]
        omega
      rcases hanswers with hnil | ⟨_, _, offset, length, hargs, h0, h1, hexact⟩
      · rw [hnil, List.length_nil] at hlength
        omega
      cases hargs
      -- An offset that is no `int` is behind the description.
      rw [hexact, List.length_drop, List.length_take] at hlength
      have hoffset : offset < 2 ^ 31 := by omega
      refine ⟨offset, h0, length, h1, hoffset, (hsnd h0 h1 hoffset).1 ?_⟩
      have := hfst h0 hoffset
      omega
    · rintro ⟨offset, h0, length, h1, hoffset, hend⟩
      have hoffs := hfst h0 hoffset
      have hmax := (hsnd h0 h1 hoffset).2 hend
      refine ⟨_, mapM_charAt_range (by omega) (by omega) hle,
        Or.inr ⟨arg0, arg1, offset, length, rfl, h0, h1, ?_⟩⟩
      have htake : max.toNat = min (offset + length) out.length := by omega
      rw [htake, hoffs, Int.toNat_natCast, ← List.take_take, List.take_length]
  · exact iff_of_true ⟨[], rfl, Or.inl rfl⟩ trivial

end

end SandboxingNaCl
