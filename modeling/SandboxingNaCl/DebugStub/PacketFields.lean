import SandboxingNaCl.DebugStub.PacketReader
import SandboxingNaCl.Lib.ByteImage

/-!
# Fields of a packet

The fields that `packet.cc` writes to a packet and reads from one: hex pairs, words in the byte order
of the host, hex strings and numbers with a separator.  The loops that end with the packet have fuel,
which never runs out.
-/

namespace SandboxingNaCl

open ByteImage

/-- `'-'`. -/
def minus : UInt8 := 0x2d

/-- `'0'` and `'1'`. -/
def digitZero : UInt8 := 0x30
def digitOne : UInt8 := 0x31

def intToNibble (nibble : ℕ) : UInt8 :=
  .ofNat (if nibble < 10 then '0'.toNat + nibble else 'a'.toNat + (nibble - 10))

/-! ## Writing -/

def addWord8 (ch : UInt8) : PacketM Unit := do
  addRawChar (intToNibble (ch.toNat / 16))
  addRawChar (intToNibble (ch.toNat % 16))

def addBlock (p : List UInt8) : PacketM Unit := p.forM addWord8

def addWord16 (val : BitVec 16) : PacketM Unit := addBlock (leBytes 2 val.toNat)

def addWord32 (val : BitVec 32) : PacketM Unit := addBlock (leBytes 4 val.toNat)

def addWord64 (val : BitVec 64) : PacketM Unit := addBlock (leBytes 8 val.toNat)

def addHexString : List UInt8 → PacketM Unit
  | [] => return ()
  | ch :: str => if ch = 0 then return () else do
    addWord8 ch
    addHexString str

/-- The nibbles of a number, the least significant first, until the rest is zero. -/
def numberNibbles : ℕ → ℕ → List UInt8
  | 0, _ => []
  | n + 1, val =>
    let byte := val % 256
    intToNibble (byte % 16) :: intToNibble (byte / 16) ::
      if val / 256 = 0 then [] else numberNibbles n (val / 256)

def strippedNibbles (val : ℕ) : List UInt8 :=
  let out := numberNibbles 8 val
  if 1 < out.length ∧ out.getLast? = some digitZero then out.dropLast else out

/-- The characters of a number. -/
def addNumber (val : BitVec 64) : PacketM Unit :=
  if val = -1 then do
    addRawChar minus
    addRawChar digitOne
  else addRawChars (strippedNibbles val.toNat).reverse

def addNumberSep (val : BitVec 64) (sep : UInt8) : PacketM Unit := do
  addNumber val
  if sep ≠ 0 then addRawChar sep

/-! ## Reading -/

/-- What is in `ch` after `ch = 0; GetRawChar(&ch)`. -/
def RawChar.orNul : RawChar → UInt8
  | .char ch => ch
  | .badRun => star
  | .endOfPacket => 0

/-- As many characters as can still be read, with the runs among them expanded. -/
def Packet.fuel (p : Packet) : ℕ := 100 * (p.writeIndex - p.readIndex) + 1

def outOfFuel {α : Type} : PacketM α := fun _ => .error .fatal

/-- `GetBlock`: its result, and the bytes it has stored. -/
def getBlock : ℕ → PacketM (Bool × List UInt8)
  | 0 => return (true, [])
  | len + 1 => do
    let some ch ← getWord8 | return (false, [])
    let (res, p) ← getBlock len
    return (res, ch :: p)

def getWord (w size : ℕ) : PacketM (Option (BitVec w)) := do
  let (res, p) ← getBlock size
  return if res then some (.ofNat w (Nat.ofDigits 256 (p.map UInt8.toNat))) else none

def getWord16 : PacketM (Option (BitVec 16)) := getWord 16 2

def getWord32 : PacketM (Option (BitVec 32)) := getWord 32 4

def getWord64 : PacketM (Option (BitVec 64)) := getWord 64 8

/-- The loop of `GetHexString`. -/
def hexStringLoop : ℕ → List UInt8 → PacketM (Option (List UInt8))
  | 0, _ => outOfFuel
  | n + 1, str => do
    let .char ch1 ← getRawChar | return some str
    match nibbleToInt ch1 with
    | none =>
      modify fun p => { p with readIndex := p.readIndex - 1 }
      return some str
    | some nib1 =>
      let .char ch2 ← getRawChar | return none
      match nibbleToInt ch2 with
      | none => return none
      | some nib2 => hexStringLoop n (str ++ [.ofNat (nib1 * 16 + nib2)])

def getHexString : PacketM (Option (List UInt8)) := do
  let p ← get
  if p.endOfPacket then return none
  else hexStringLoop p.fuel []

/-- The loop of `GetNumberSep`: the number, and the character behind it. -/
def numberLoop : ℕ → BitVec 64 → UInt8 → PacketM (BitVec 64 × UInt8)
  | 0, _, _ => outOfFuel
  | n + 1, out, ch =>
    match nibbleToInt ch with
    | none => return (out, ch)
    | some nib => do
      match ← getRawChar with
      | .char ch => numberLoop n (out <<< 4 + .ofNat 64 nib) ch
      | raw => return (out <<< 4 + .ofNat 64 nib, raw.orNul)

/-- The part of `GetNumberSep` for -1. -/
def getMinusOne : PacketM (Option (BitVec 64 × UInt8)) := do
  let .char ch ← getRawChar | return none
  if ch = digitOne then return some (-1, (← getRawChar).orNul) else return none

/-- `GetNumberSep`: the number and the separator. -/
def getNumberSep : PacketM (Option (BitVec 64 × UInt8)) := do
  let fuel := (← get).fuel
  let .char ch ← getRawChar | return none
  if ch = minus then getMinusOne else return some (← numberLoop fuel 0 ch)

/-! ## Fields -/

/-- A field of a packet. -/
inductive Field
  | rawChar (ch : UInt8)
  | word8 (val : UInt8)
  | word16 (val : BitVec 16)
  | word32 (val : BitVec 32)
  | word64 (val : BitVec 64)
  | block (p : List UInt8)
  | hexString (str : List UInt8)
  | numberSep (val : BitVec 64) (sep : UInt8)
deriving DecidableEq

namespace Field

/-- The field is added. -/
def add : Field → PacketM Unit
  | rawChar ch => addRawChar ch
  | word8 val => addWord8 val
  | word16 val => addWord16 val
  | word32 val => addWord32 val
  | word64 val => addWord64 val
  | block p => addBlock p
  | hexString str => addHexString str
  | numberSep val sep => addNumberSep val sep

/-- What the matching read gives, with the values that it has got; `none` if it fails. -/
def get : Field → PacketM (Option Field)
  | rawChar _ => do
    let .char ch ← getRawChar | return none
    return some (rawChar ch)
  | word8 _ => return (← getWord8).map word8
  | word16 _ => return (← getWord16).map word16
  | word32 _ => return (← getWord32).map word32
  | word64 _ => return (← getWord64).map word64
  | block p => do
    let (res, p) ← getBlock p.length
    return if res then some (block p) else none
  | hexString _ => return (← getHexString).map hexString
  | numberSep _ _ => return (← getNumberSep).map fun (val, sep) => numberSep val sep

/-- The fields are written to a packet, which is then read from its start. -/
def writeAndRead (fields : List Field) : PacketM (List (Option Field)) := do
  fields.forM add
  modify Packet.rewind
  fields.mapM get

def readThen (fields : List Field) (f : Field) : PacketM (List (Option Field) × Option Field) := do
  let values ← fields.mapM get
  return (values, ← f.get)

/-- On every packet that is cleared, the fields are read back, and nothing is left. -/
def RoundTrips (fields : List Field) : Prop :=
  ∀ p v, Packet.Shows p v → ∃ p', writeAndRead fields p.clear = .ok (fields.map some, p') ∧
    p'.endOfPacket = true

end Field

/-! ## What is written -/

def hexPair (ch : UInt8) : List UInt8 := [intToNibble (ch.toNat / 16), intToNibble (ch.toNat % 16)]

def hexChars (p : List UInt8) : List UInt8 := p.flatMap hexPair

def numberChars (val : BitVec 64) : List UInt8 :=
  if val = -1 then [minus, digitOne] else (strippedNibbles val.toNat).reverse

/-- The characters of a field. -/
def Field.chars : Field → List UInt8
  | rawChar ch => [ch]
  | word8 val => hexPair val
  | word16 val => hexChars (leBytes 2 val.toNat)
  | word32 val => hexChars (leBytes 4 val.toNat)
  | word64 val => hexChars (leBytes 8 val.toNat)
  | block p => hexChars p
  | hexString str => hexChars (str.takeWhile (· ≠ 0))
  | numberSep val sep => numberChars val ++ if sep = 0 then [] else [sep]

namespace PacketView

def adds (v : PacketView) (chars : List UInt8) : PacketView := { v with payload := v.payload ++ chars }

def rest (v : PacketView) : List UInt8 := v.payload.drop v.pos

def skip (v : PacketView) (n : ℕ) : PacketView := { v with pos := v.pos + n }

@[simp] theorem rest_skip (v : PacketView) (n : ℕ) : (v.skip n).rest = v.rest.drop n := by
  simp [rest, skip]

@[simp] theorem skip_skip (v : PacketView) (m n : ℕ) : (v.skip m).skip n = v.skip (m + n) := by
  simp [skip, Nat.add_assoc]

@[simp] theorem skip_zero (v : PacketView) : v.skip 0 = v := rfl

@[simp] theorem adds_nil (v : PacketView) : v.adds [] = v := by simp [adds]

@[simp] theorem adds_adds (v : PacketView) (xs ys : List UInt8) :
    (v.adds xs).adds ys = v.adds (xs ++ ys) := by
  simp [adds]

theorem rest_eq_nil_iff {v : PacketView} : v.rest = [] ↔ v.payload[v.pos]? = none := by
  rw [rest, List.drop_eq_nil_iff, List.getElem?_eq_none_iff]

theorem getElem?_of_rest {v : PacketView} {ch : UInt8} {chars : List UInt8}
    (h : v.rest = ch :: chars) : v.payload[v.pos]? = some ch := by
  have hget : v.rest[0]? = some ch := by rw [h]; rfl
  rwa [rest, List.getElem?_drop, Nat.add_zero] at hget

end PacketView

section

variable {v v' : PacketView} {ch : UInt8} {p str chars : List UInt8} {n k : ℕ}

open PacketView

theorem nibbleToInt_intToNibble (h : n < 16) : nibbleToInt (intToNibble n) = some n := by
  decide +revert

theorem ne_star_of_nibble {nib : ℕ} (h : nibbleToInt ch = some nib) : ch ≠ star := by
  rintro rfl
  have hnone : nibbleToInt star = none := by decide
  cases hnone.symm.trans h

theorem ne_minus_of_nibble {nib : ℕ} (h : nibbleToInt ch = some nib) : ch ≠ minus := by
  rintro rfl
  have hnone : nibbleToInt minus = none := by decide
  cases hnone.symm.trans h

theorem hexChars_cons (ch : UInt8) (p : List UInt8) : hexChars (ch :: p) = hexPair ch ++ hexChars p :=
  List.flatMap_cons

@[simp] theorem length_hexChars (p : List UInt8) : (hexChars p).length = 2 * p.length := by
  induction p with
  | nil => rfl
  | cons ch p ih =>
    rw [hexChars_cons, List.length_append, ih, List.length_cons]
    change 2 + 2 * p.length = _
    omega

theorem runs_addWord8 (ch : UInt8) (v : PacketView) : RunsTo (addWord8 ch) v () (v.adds (hexPair ch)) := by
  have h : RunsTo (addWord8 ch) v () _ := (runs_addRawChar _ v).seq (runs_addRawChar _ _)
  rwa [PacketView.add, PacketView.add, List.append_assoc] at h

theorem runs_addBlock (p : List UInt8) (v : PacketView) :
    RunsTo (addBlock p) v () (v.adds (hexChars p)) := by
  induction p generalizing v with
  | nil =>
    rw [hexChars, List.flatMap_nil, adds_nil]
    exact .pure () v
  | cons ch p ih =>
    have h : RunsTo (addBlock (ch :: p)) v () _ := (runs_addWord8 ch v).seq (ih _)
    rwa [adds_adds, ← hexChars_cons] at h

theorem runs_addHexString (str : List UInt8) (v : PacketView) :
    RunsTo (addHexString str) v () (v.adds (hexChars (str.takeWhile (· ≠ 0)))) := by
  induction str generalizing v with
  | nil =>
    rw [List.takeWhile_nil, hexChars, List.flatMap_nil, adds_nil]
    exact .pure () v
  | cons ch str ih =>
    unfold addHexString
    split_ifs with hzero
    · rw [List.takeWhile_cons_of_neg (by simpa using hzero), hexChars, List.flatMap_nil, adds_nil]
      exact .pure () v
    · rw [List.takeWhile_cons_of_pos (by simpa using hzero), hexChars_cons, ← adds_adds]
      exact (runs_addWord8 ch v).seq (ih _)

theorem runs_addNumber (val : BitVec 64) (v : PacketView) :
    RunsTo (addNumber val) v () (v.adds (numberChars val)) := by
  unfold addNumber numberChars
  split_ifs
  · have h := (runs_addRawChar minus v).seq (runs_addRawChar digitOne _)
    rwa [PacketView.add, PacketView.add, List.append_assoc] at h
  · exact runs_addRawChars _ v

theorem runs_addNumberSep (val : BitVec 64) (sep : UInt8) (v : PacketView) :
    RunsTo (addNumberSep val sep) v () (v.adds (numberChars val ++ if sep = 0 then [] else [sep])) := by
  rw [← adds_adds]
  refine (runs_addNumber val v).seq ?_
  by_cases hsep : sep = 0
  · rw [if_neg (not_not_intro hsep), if_pos hsep, adds_nil]
    exact .pure () _
  · rw [if_pos hsep, if_neg hsep]
    exact runs_addRawChar sep _

theorem Field.runs_add (f : Field) (v : PacketView) : RunsTo f.add v () (v.adds f.chars) := by
  cases f with
  | rawChar ch => exact runs_addRawChar ch v
  | word8 val => exact runs_addWord8 val v
  | word16 val => exact runs_addBlock _ v
  | word32 val => exact runs_addBlock _ v
  | word64 val => exact runs_addBlock _ v
  | block p => exact runs_addBlock p v
  | hexString str => exact runs_addHexString str v
  | numberSep val sep => exact runs_addNumberSep val sep v

theorem runs_adds (fields : List Field) (v : PacketView) :
    RunsTo (fields.forM Field.add) v () (v.adds (fields.flatMap Field.chars)) := by
  induction fields generalizing v with
  | nil =>
    rw [List.flatMap_nil, adds_nil]
    exact .pure () v
  | cons f fields ih =>
    rw [List.flatMap_cons, ← adds_adds]
    exact (f.runs_add v).seq (ih _)

/-! ## What is read -/

theorem runs_getRawChar_cons (h : v.rest = ch :: chars) (hne : ch ≠ star) :
    RunsTo getRawChar v (.char ch) (v.skip 1) := by
  have hnext := runs_getRawChar v
  rwa [next_of_ne (getElem?_of_rest h) hne] at hnext

theorem runs_getRawChar_nil (h : v.rest = []) : RunsTo getRawChar v .endOfPacket v := by
  have hnext := runs_getRawChar v
  rwa [next_of_none (rest_eq_nil_iff.1 h)] at hnext

theorem ofNat_nibbles (ch : UInt8) : UInt8.ofNat (ch.toNat / 16 * 16 + ch.toNat % 16) = ch := by
  rw [Nat.div_add_mod', UInt8.ofNat_toNat]

theorem nibble_hi (ch : UInt8) : nibbleToInt (intToNibble (ch.toNat / 16)) = some (ch.toNat / 16) :=
  nibbleToInt_intToNibble (by have := ch.toNat_lt; omega)

theorem nibble_lo (ch : UInt8) : nibbleToInt (intToNibble (ch.toNat % 16)) = some (ch.toNat % 16) :=
  nibbleToInt_intToNibble (Nat.mod_lt _ (by decide))

theorem runs_getWord8_hexPair (h : v.rest = hexPair ch ++ chars) :
    RunsTo getWord8 v (some ch) (v.skip 2) := by
  refine (runs_getRawChar_cons h (ne_star_of_nibble (nibble_hi ch))).bind ?_
  have hrest : (v.skip 1).rest = intToNibble (ch.toNat % 16) :: chars := by
    rw [rest_skip, h]
    rfl
  refine (runs_getRawChar_cons hrest (ne_star_of_nibble (nibble_lo ch))).bind ?_
  simp only [nibble_hi, nibble_lo, ofNat_nibbles, skip_skip]
  exact .pure _ _

theorem runs_getWord8_truncated (h : v.rest = (hexPair ch).take k) (hk : k < 2) :
    RunsTo getWord8 v none (v.skip k) := by
  obtain rfl | rfl : k = 0 ∨ k = 1 := by omega
  · exact (runs_getRawChar_nil h).bind (.pure none v)
  · refine (runs_getRawChar_cons h (ne_star_of_nibble (nibble_hi ch))).bind ?_
    have hrest : (v.skip 1).rest = [] := by
      rw [rest_skip, h]
      rfl
    exact (runs_getRawChar_nil hrest).bind (.pure none _)

theorem runs_getBlock (h : v.rest = hexChars p ++ chars) :
    RunsTo (getBlock p.length) v (true, p) (v.skip (2 * p.length)) := by
  induction p generalizing v with
  | nil => exact .pure _ v
  | cons ch p ih =>
    rw [hexChars_cons, List.append_assoc] at h
    have hrest : (v.skip 2).rest = hexChars p ++ chars := by
      rw [rest_skip, h]
      rfl
    have hskip : v.skip (2 * (ch :: p).length) = (v.skip 2).skip (2 * p.length) := by
      rw [skip_skip, List.length_cons, Nat.mul_succ, Nat.add_comm]
    rw [hskip]
    exact (runs_getWord8_hexPair h).bind ((ih hrest).bind (.pure _ _))

theorem runs_getBlock_truncated (h : v.rest = (hexChars p).take k) (hk : k < 2 * p.length) :
    RunsTo (getBlock p.length) v (false, p.take (k / 2)) (v.skip k) := by
  induction p generalizing v k with
  | nil => exact absurd hk (Nat.not_lt_zero k)
  | cons ch p ih =>
    rw [hexChars_cons] at h
    rcases Nat.lt_or_ge k 2 with hlt | hge
    · rw [List.take_append_of_le_length (Nat.le_of_lt hlt)] at h
      rw [Nat.div_eq_of_lt hlt]
      exact (runs_getWord8_truncated h hlt).bind (.pure _ _)
    · obtain ⟨k, rfl⟩ := Nat.exists_eq_add_of_le hge
      have htake : (hexPair ch ++ hexChars p).take (2 + k) = hexPair ch ++ (hexChars p).take k :=
        @List.take_length_add_append _ (hexPair ch) _ k
      rw [htake] at h
      have hrest : (v.skip 2).rest = (hexChars p).take k := by
        rw [rest_skip, h]
        rfl
      have hlt : k < 2 * p.length := by
        rw [List.length_cons] at hk
        omega
      have hhalf : (2 + k) / 2 = k / 2 + 1 := by omega
      rw [hhalf, List.take_succ_cons, ← skip_skip]
      exact (runs_getWord8_hexPair h).bind ((ih hrest hlt).bind (.pure _ _))

/-- The character is not part of a hex field, and is given as it is. -/
def Stops (ch : UInt8) : Prop := nibbleToInt ch = none ∧ ch ≠ star

def Ends (chars : List UInt8) : Prop := ∀ ch ∈ chars.head?, Stops ch

theorem runs_hexStringLoop_append {acc : List UInt8} {r : Option (List UInt8)}
    (h : v.rest = hexChars str ++ chars)
    (hloop : RunsTo (hexStringLoop n (acc ++ str)) (v.skip (2 * str.length)) r v') :
    RunsTo (hexStringLoop (n + str.length) acc) v r v' := by
  induction str generalizing v acc with
  | nil =>
    rw [List.append_nil] at hloop
    exact hloop
  | cons ch str ih =>
    rw [hexChars_cons, List.append_assoc] at h
    have hrest : (v.skip 1).rest = intToNibble (ch.toNat % 16) :: (hexChars str ++ chars) := by
      rw [rest_skip, h]
      rfl
    have hrest' : (v.skip 2).rest = hexChars str ++ chars := by
      rw [rest_skip, h]
      rfl
    rw [List.length_cons, Nat.mul_succ, Nat.add_comm (2 * str.length), ← skip_skip,
      ← List.singleton_append, ← List.append_assoc] at hloop
    rw [List.length_cons, ← Nat.add_assoc]
    unfold hexStringLoop
    refine (runs_getRawChar_cons h (ne_star_of_nibble (nibble_hi ch))).bind ?_
    simp only [nibble_hi]
    refine (runs_getRawChar_cons hrest (ne_star_of_nibble (nibble_lo ch))).bind ?_
    simp only [nibble_lo, ofNat_nibbles, skip_skip]
    exact ih hrest' hloop

theorem runs_hexStringLoop_end {acc : List UInt8} (hend : Ends v.rest) :
    RunsTo (hexStringLoop (n + 1) acc) v (some acc) v := by
  unfold hexStringLoop
  cases h : v.rest with
  | nil => exact (runs_getRawChar_nil h).bind (.pure _ v)
  | cons ch chars =>
    rw [h] at hend
    obtain ⟨hnone, hne⟩ := hend ch rfl
    refine (runs_getRawChar_cons h hne).bind ?_
    simp only [hnone]
    have hback : RunsTo (modify fun p => { p with readIndex := p.readIndex - 1 }) (v.skip 1) () v :=
      fun p hp => ⟨_, rfl, hp.seq, congrArg (· - 1) hp.readIndex, hp.writeIndex,
        Nat.le_of_succ_le hp.pos_le, hp.data⟩
    exact hback.seq (.pure _ v)

theorem runs_hexStringLoop_half {acc : List UInt8} {nib : ℕ} (h : v.rest = [ch])
    (hnib : nibbleToInt ch = some nib) : RunsTo (hexStringLoop (n + 1) acc) v none (v.skip 1) := by
  have hrest : (v.skip 1).rest = [] := by
    rw [rest_skip, h]
    rfl
  unfold hexStringLoop
  refine (runs_getRawChar_cons h (ne_star_of_nibble hnib)).bind ?_
  simp only [hnib]
  exact (runs_getRawChar_nil hrest).bind (.pure _ _)

theorem fuel_eq {p : Packet} (hp : p.Shows v) : p.fuel = 100 * v.rest.length + 1 := by
  rw [rest, List.length_drop, Packet.fuel, hp.writeIndex, hp.readIndex]

theorem endOfPacket_iff {p : Packet} (hp : p.Shows v) : p.endOfPacket = true ↔ v.rest = [] := by
  rw [rest, List.drop_eq_nil_iff, Packet.endOfPacket, decide_eq_true_iff, hp.writeIndex, hp.readIndex]

theorem runs_getHexString_of_loop {r : Option (List UInt8)} (hne : v.rest ≠ [])
    (hloop : RunsTo (hexStringLoop (100 * v.rest.length + 1) []) v r v') : RunsTo getHexString v r v' := by
  refine .get_bind fun p hp => ?_
  rw [if_neg fun hend => hne ((endOfPacket_iff hp).1 hend), fuel_eq hp]
  exact hloop

theorem runs_getHexString (h : v.rest = hexChars str ++ chars) (hend : Ends chars)
    (hne : v.rest ≠ []) : RunsTo getHexString v (some str) (v.skip (2 * str.length)) := by
  refine runs_getHexString_of_loop hne ?_
  have hlength := congrArg List.length h
  rw [List.length_append, length_hexChars] at hlength
  obtain ⟨n, hn⟩ : ∃ n, 100 * v.rest.length + 1 = n + 1 + str.length :=
    ⟨100 * v.rest.length - str.length, by omega⟩
  rw [hn]
  refine runs_hexStringLoop_append h (runs_hexStringLoop_end ?_)
  rwa [rest_skip, h, ← length_hexChars, List.drop_left]

theorem runs_getHexString_half {nib : ℕ} (h : v.rest = hexChars str ++ [ch])
    (hnib : nibbleToInt ch = some nib) : RunsTo getHexString v none (v.skip (2 * str.length + 1)) := by
  have hne : v.rest ≠ [] := by
    rw [h]
    exact List.concat_ne_nil ch _
  refine runs_getHexString_of_loop hne ?_
  have hlength := congrArg List.length h
  rw [List.length_append, length_hexChars] at hlength
  obtain ⟨n, hn⟩ : ∃ n, 100 * v.rest.length + 1 = n + 1 + str.length :=
    ⟨100 * v.rest.length - str.length, by omega⟩
  rw [hn]
  rw [← skip_skip]
  refine runs_hexStringLoop_append h (runs_hexStringLoop_half ?_ hnib)
  rw [rest_skip, h, ← length_hexChars, List.drop_left]

theorem runs_getHexString_nil (h : v.rest = []) : RunsTo getHexString v none v := by
  refine .get_bind fun p hp => ?_
  rw [if_pos ((endOfPacket_iff hp).2 h)]
  exact .pure none v

/-! ## Numbers -/

def digitOf (ch : UInt8) : ℕ := (nibbleToInt ch).getD 0

/-- What `GetNumberSep` makes of digits. -/
def hexValue (out : BitVec 64) (digits : List UInt8) : BitVec 64 :=
  digits.foldl (fun out ch => out <<< 4 + .ofNat 64 (digitOf ch)) out

def HexDigits (digits : List UInt8) : Prop := ∀ ch ∈ digits, (nibbleToInt ch).isSome

theorem shiftLeft_four_add (a b : ℕ) :
    BitVec.ofNat 64 a <<< 4 + BitVec.ofNat 64 b = BitVec.ofNat 64 (b + 16 * a) := by
  apply BitVec.eq_of_toNat_eq
  simp only [BitVec.toNat_add, BitVec.toNat_shiftLeft, BitVec.toNat_ofNat, Nat.shiftLeft_eq]
  omega

theorem hexValue_reverse (digits : List UInt8) :
    hexValue 0 digits.reverse = .ofNat 64 (Nat.ofDigits 16 (digits.map digitOf)) := by
  rw [hexValue, List.foldl_reverse]
  induction digits with
  | nil => rfl
  | cons ch digits ih =>
    rw [List.foldr_cons, ih, shiftLeft_four_add, List.map_cons, Nat.ofDigits_cons]

theorem digitOf_intToNibble (h : n < 16) : digitOf (intToNibble n) = n := by
  rw [digitOf, nibbleToInt_intToNibble h, Option.getD_some]

theorem hexDigits_numberNibbles (n val : ℕ) : HexDigits (numberNibbles n val) := by
  induction n generalizing val with
  | zero => exact fun _ h => absurd h List.not_mem_nil
  | succ n ih =>
    intro ch hch
    have hlo : val % 256 % 16 < 16 := Nat.mod_lt _ (by decide)
    have hhi : val % 256 / 16 < 16 := by omega
    rcases List.mem_cons.1 hch with rfl | hch
    · rw [nibbleToInt_intToNibble hlo]
      rfl
    rcases List.mem_cons.1 hch with rfl | hch
    · rw [nibbleToInt_intToNibble hhi]
      rfl
    split_ifs at hch
    · exact absurd hch List.not_mem_nil
    · exact ih _ ch hch

theorem ofDigits_numberNibbles (n val : ℕ) (h : val < 256 ^ n) :
    Nat.ofDigits 16 ((numberNibbles n val).map digitOf) = val := by
  induction n generalizing val with
  | zero =>
    rw [Nat.lt_one_iff.1 h]
    rfl
  | succ n ih =>
    have hlo : val % 256 % 16 < 16 := Nat.mod_lt _ (by decide)
    have hhi : val % 256 / 16 < 16 := by omega
    have hrest : Nat.ofDigits 16 ((if val / 256 = 0 then [] else numberNibbles n (val / 256)).map
        digitOf) = val / 256 := by
      split_ifs with hzero
      · rw [hzero]
        rfl
      · exact ih _ (Nat.div_lt_of_lt_mul (by rwa [Nat.pow_succ'] at h))
    unfold numberNibbles
    simp only [List.map_cons, Nat.ofDigits_cons, digitOf_intToNibble hlo, digitOf_intToNibble hhi, hrest]
    omega

theorem ofDigits_strippedNibbles (val : BitVec 64) :
    Nat.ofDigits 16 ((strippedNibbles val.toNat).map digitOf) = val.toNat := by
  have hvalue := ofDigits_numberNibbles 8 val.toNat val.isLt
  unfold strippedNibbles
  dsimp only
  generalize numberNibbles 8 val.toNat = out at hvalue ⊢
  split_ifs with hstrip
  · obtain ⟨out, rfl⟩ : ∃ rest, out = rest ++ [digitZero] := List.getLast?_eq_some_iff.1 hstrip.2
    have hzero : digitOf digitZero = 0 := by decide
    rw [List.map_append, Nat.ofDigits_append, List.map_singleton, hzero, Nat.ofDigits_singleton,
      Nat.mul_zero, Nat.add_zero] at hvalue
    rwa [List.dropLast_concat]
  · exact hvalue

theorem hexDigits_strippedNibbles (val : ℕ) : HexDigits (strippedNibbles val) := by
  intro ch hch
  unfold strippedNibbles at hch
  dsimp only at hch
  split_ifs at hch
  · exact hexDigits_numberNibbles 8 val ch (List.mem_of_mem_dropLast hch)
  · exact hexDigits_numberNibbles 8 val ch hch

theorem strippedNibbles_ne_nil (val : ℕ) : strippedNibbles val ≠ [] := by
  intro hnil
  unfold strippedNibbles at hnil
  dsimp only at hnil
  split_ifs at hnil with hstrip
  · have hlength := congrArg List.length hnil
    rw [List.length_dropLast, List.length_nil] at hlength
    omega
  · unfold numberNibbles at hnil
    cases hnil

theorem runs_numberLoop {out : BitVec 64} {digits : List UInt8} (hch : (nibbleToInt ch).isSome)
    (hdigits : HexDigits digits) (h : v.rest = digits ++ chars) (hend : Ends chars)
    (hn : digits.length + 1 < n) :
    RunsTo (numberLoop n out ch) v (hexValue out (ch :: digits), chars.head?.getD 0)
      (v.skip (digits.length + chars.head?.toList.length)) := by
  obtain ⟨nib, hnib⟩ := Option.isSome_iff_exists.1 hch
  have hdigit : digitOf ch = nib := by rw [digitOf, hnib, Option.getD_some]
  induction digits generalizing v n out ch nib with
  | nil =>
    obtain ⟨n, rfl⟩ : ∃ n', n = n' + 1 + 1 := ⟨n - 2, by omega⟩
    unfold numberLoop
    simp only [hnib]
    cases chars with
    | nil =>
      refine (runs_getRawChar_nil h).bind ?_
      rw [hexValue, List.foldl_cons, hdigit]
      exact .pure _ v
    | cons sep chars =>
      obtain ⟨hnone, hne⟩ := hend sep rfl
      refine (runs_getRawChar_cons h hne).bind ?_
      unfold numberLoop
      simp only [hnone]
      rw [hexValue, List.foldl_cons, hdigit]
      exact .pure _ _
  | cons digit digits ih =>
    obtain ⟨n, rfl⟩ := Nat.exists_eq_add_one_of_ne_zero (Nat.ne_zero_of_lt hn)
    have hsome := hdigits digit List.mem_cons_self
    obtain ⟨nib', hnib'⟩ := Option.isSome_iff_exists.1 hsome
    have hrest : (v.skip 1).rest = digits ++ chars := by
      rw [rest_skip, h]
      rfl
    have hloop : RunsTo (numberLoop n (out <<< 4 + .ofNat 64 nib) digit) (v.skip 1) _ _ :=
      ih hsome (fun ch hch => hdigits ch (List.mem_cons_of_mem _ hch)) hrest
        (Nat.lt_of_succ_lt_succ hn) nib' hnib' (by rw [digitOf, hnib', Option.getD_some])
    rw [skip_skip, ← Nat.add_assoc, Nat.add_comm 1] at hloop
    unfold numberLoop
    simp only [hnib]
    refine (runs_getRawChar_cons h (ne_star_of_nibble hnib')).bind ?_
    rw [hexValue, List.foldl_cons, hdigit]
    exact hloop

theorem runs_getNumberSep_digits {digits : List UInt8} (hdigits : HexDigits (ch :: digits))
    (h : v.rest = ch :: digits ++ chars) (hend : Ends chars) :
    RunsTo getNumberSep v (some (hexValue 0 (ch :: digits), chars.head?.getD 0))
      (v.skip ((ch :: digits).length + chars.head?.toList.length)) := by
  have hsome := hdigits ch List.mem_cons_self
  obtain ⟨nib, hnib⟩ := Option.isSome_iff_exists.1 hsome
  have hrest : (v.skip 1).rest = digits ++ chars := by
    rw [rest_skip, h]
    rfl
  refine .get_bind fun p hp => ?_
  have hfuel : digits.length + 1 < p.fuel := by
    rw [fuel_eq hp, h, List.length_append, List.length_cons]
    omega
  refine (runs_getRawChar_cons h (ne_star_of_nibble hnib)).bind ?_
  simp only [ne_minus_of_nibble hnib, if_false]
  have hloop : RunsTo (numberLoop p.fuel 0 ch) (v.skip 1) _ _ :=
    runs_numberLoop hsome (fun ch hch => hdigits ch (List.mem_cons_of_mem _ hch)) hrest hend hfuel
  rw [skip_skip, ← Nat.add_assoc, Nat.add_comm 1] at hloop
  exact hloop.bind (.pure _ _)

theorem runs_getNumberSep_minusOne (h : v.rest = minus :: digitOne :: chars)
    (hstar : chars.head? ≠ some star) :
    RunsTo getNumberSep v (some (-1, chars.head?.getD 0)) (v.skip (2 + chars.head?.toList.length)) := by
  have hrest : (v.skip 1).rest = digitOne :: chars := by
    rw [rest_skip, h]
    rfl
  have hrest' : ((v.skip 1).skip 1).rest = chars := by
    rw [rest_skip, hrest]
    rfl
  refine .get_bind fun p _ => (runs_getRawChar_cons h (by decide)).bind ?_
  simp only [if_true]
  refine (runs_getRawChar_cons hrest (by decide)).bind ?_
  simp only [if_true]
  cases chars with
  | nil =>
    refine (runs_getRawChar_nil hrest').bind ?_
    rw [skip_skip]
    exact .pure _ _
  | cons sep chars =>
    have hne : sep ≠ star := fun h => hstar (congrArg some h)
    refine (runs_getRawChar_cons hrest' hne).bind ?_
    rw [skip_skip, skip_skip]
    exact .pure _ _

theorem runs_getNumberSep_nil (h : v.rest = []) : RunsTo getNumberSep v none v :=
  RunsTo.get_bind fun _ _ => (runs_getRawChar_nil h).bind (.pure none v)

theorem runs_getNumberSep_minus (h : v.rest = [minus]) : RunsTo getNumberSep v none (v.skip 1) := by
  have hrest : (v.skip 1).rest = [] := by
    rw [rest_skip, h]
    rfl
  refine .get_bind fun p _ => (runs_getRawChar_cons h (by decide)).bind ?_
  simp only [if_true]
  exact (runs_getRawChar_nil hrest).bind (.pure none _)

theorem numberChars_ne (val : BitVec 64) (h : val ≠ -1) : ∃ ch digits, numberChars val = ch :: digits ∧
    HexDigits (ch :: digits) ∧ hexValue 0 (ch :: digits) = val := by
  have hvalue : hexValue 0 (strippedNibbles val.toNat).reverse = val := by
    rw [hexValue_reverse, ofDigits_strippedNibbles, BitVec.ofNat_toNat, BitVec.setWidth_eq]
  have hhex : HexDigits (strippedNibbles val.toNat).reverse := fun ch hch =>
    hexDigits_strippedNibbles _ ch (List.mem_reverse.1 hch)
  rw [numberChars, if_neg h]
  cases hout : (strippedNibbles val.toNat).reverse with
  | nil => exact absurd (List.reverse_eq_nil_iff.1 hout) (strippedNibbles_ne_nil _)
  | cons ch digits =>
    rw [hout] at hvalue hhex
    exact ⟨ch, digits, rfl, hhex, hvalue⟩

theorem runs_getNumberSep {val : BitVec 64} (h : v.rest = numberChars val ++ chars)
    (hstar : chars.head? ≠ some star) (hend : val = -1 ∨ Ends chars) :
    RunsTo getNumberSep v (some (val, chars.head?.getD 0))
      (v.skip ((numberChars val).length + chars.head?.toList.length)) := by
  by_cases hminus : val = -1
  · have hchars : numberChars val = [minus, digitOne] := if_pos hminus
    rw [hchars] at h ⊢
    rw [hminus]
    exact runs_getNumberSep_minusOne h hstar
  · obtain ⟨ch, digits, hchars, hhex, hvalue⟩ := numberChars_ne val hminus
    rw [hchars] at h ⊢
    have hread := runs_getNumberSep_digits hhex h (hend.resolve_left hminus)
    rwa [hvalue] at hread

end

end SandboxingNaCl
