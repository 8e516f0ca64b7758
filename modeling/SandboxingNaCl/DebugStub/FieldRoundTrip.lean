import SandboxingNaCl.DebugStub.PacketFields

/-!
# Round trips of packet fields

Every read of a field comes back and stays within the packet, whatever its characters are.  A sequence
of fields is read back as it was written, if each is followed by characters that let it be read; and
what a read gives for a field that the packet ends in is computed.
-/

namespace SandboxingNaCl

open ByteImage

section

variable {v v' : PacketView} {ch : UInt8} {p str chars : List UInt8} {n k : ℕ}

open PacketView

/-! ## Every packet -/

/-- The characters that some may become; a marker counts for the copies that its run may stand for. -/
def expandedLength (chars : List UInt8) : ℕ := (chars.map fun ch => if ch = star then 100 else 1).sum

@[simp] theorem expandedLength_cons (ch : UInt8) (chars : List UInt8) :
    expandedLength (ch :: chars) = (if ch = star then 100 else 1) + expandedLength chars := rfl

theorem expandedLength_append (xs ys : List UInt8) :
    expandedLength (xs ++ ys) = expandedLength xs + expandedLength ys := by
  simp [expandedLength]

theorem expandedLength_replicate (n : ℕ) (h : ch ≠ star) : expandedLength (.replicate n ch) = n := by
  simp [expandedLength, h]

theorem expandedLength_le (chars : List UInt8) : expandedLength chars ≤ 100 * chars.length := by
  induction chars with
  | nil => exact Nat.le_refl 0
  | cons ch chars ih =>
    rw [expandedLength_cons, List.length_cons]
    split_ifs <;> omega

theorem runCount_le {count : UInt8} (h : runCount count = some n) : n ≤ 98 := by
  have hlt : count.toInt8.toInt < 128 := Int8.toInt_lt _
  rw [runCount, charValue] at h
  split_ifs at h
  cases h
  omega

theorem exists_next_run (h : v.payload[v.pos]? = some star) (hpos : v.pos ≠ 0)
    (hcount : v.payload[v.pos + 1]?.bind runCount ≠ none) : ∃ last count n after,
      v.rest = star :: count :: after ∧ n ≤ 98 ∧ v.next.1 = .char last ∧
        v.next.2.rest = .replicate (n - 1) last ++ after := by
  obtain ⟨n, hn⟩ := Option.ne_none_iff_exists'.1 hcount
  obtain ⟨count, hget, hrun⟩ := Option.bind_eq_some_iff.1 hn
  obtain ⟨hlt, -⟩ := List.getElem?_eq_some_iff.1 h
  have hlast : v.payload[v.pos - 1]? = some v.payload[v.pos - 1] := List.getElem?_eq_getElem _
  have hlength : v.pos = (v.payload.take (v.pos - 1)).length + 1 := by
    rw [List.length_take]
    omega
  have hsplit := eq_append_run hpos hlast h hget
  generalize v.payload.take (v.pos - 1) = before at hsplit hlength
  generalize v.payload.drop (v.pos + 2) = after at hsplit
  generalize v.payload[v.pos - 1] = last at hsplit
  obtain ⟨htwo, hnext⟩ := next_of_run hsplit hlength hrun
  refine ⟨last, count, n, after, ?_, runCount_le hrun, by rw [hnext], ?_⟩
  · rw [rest, hsplit, hlength, ← List.drop_drop, List.drop_left]
    rfl
  · obtain ⟨m, rfl⟩ := Nat.exists_eq_add_of_le htwo
    have hcopies : 2 + m + 1 = m + 1 + 1 + 1 := by omega
    have hleft : 2 + m - 1 = m + 1 := by omega
    rw [hnext, rest]
    dsimp only
    rw [hlength, List.append_assoc, Nat.add_assoc, ← List.drop_drop, List.drop_left, hcopies, hleft]
    rfl

theorem expandedLength_next (h : v.next.1 = .char ch) (hne : ch ≠ star) :
    expandedLength v.next.2.rest < expandedLength v.rest := by
  cases hch : v.payload[v.pos]? with
  | none =>
    rw [next_of_none hch] at h
    cases h
  | some ch' =>
    by_cases hstar : ch' = star
    · subst hstar
      by_cases hbad : v.pos = 0 ∨ v.payload[v.pos + 1]?.bind runCount = none
      · rw [next_of_bad hch hbad] at h
        cases h
      · obtain ⟨hpos, hcount⟩ := not_or.1 hbad
        obtain ⟨last, count, n, after, hrest, hle, hlast, hnext⟩ := exists_next_run hch hpos hcount
        obtain rfl : last = ch := RawChar.char.inj (hlast.symm.trans h)
        rw [hrest, hnext, expandedLength_append, expandedLength_replicate _ hne, expandedLength_cons,
          expandedLength_cons, if_pos rfl]
        omega
    · obtain ⟨hlt, hget⟩ := List.getElem?_eq_some_iff.1 hch
      have hrest : v.rest = ch' :: (v.skip 1).rest := by
        rw [rest_skip, rest, List.drop_drop, ← hget]
        exact List.drop_eq_getElem_cons hlt
      rw [next_of_ne hch hstar, hrest, expandedLength_cons, if_neg hstar]
      change expandedLength (v.skip 1).rest < _
      omega

/-- The code comes back, and does not leave the packet. -/
def Returns {α : Type} (m : PacketM α) (v : PacketView) : Prop := ∃ a v', RunsTo m v a v'

theorem Returns.bind {α β : Type} {m : PacketM α} {f : α → PacketM β} {a : α} (hm : RunsTo m v a v')
    (hf : Returns (f a) v') : Returns (m >>= f) v := by
  obtain ⟨b, v'', hf⟩ := hf
  exact ⟨b, v'', hm.bind hf⟩

theorem Returns.pure {α : Type} (a : α) (v : PacketView) : Returns (Pure.pure a) v :=
  ⟨a, v, RunsTo.pure a v⟩

theorem Returns.map {α β : Type} {m : PacketM α} {f : α → β} (hm : Returns m v) :
    Returns (m >>= fun a => Pure.pure (f a)) v := by
  obtain ⟨a, v', hm⟩ := hm
  exact Returns.bind hm (Returns.pure _ _)

theorem returns_getRawChar_bind {α : Type} {f : RawChar → PacketM α}
    (hf : Returns (f v.next.1) v.next.2) : Returns (getRawChar >>= f) v :=
  Returns.bind (runs_getRawChar v) hf

/-! ### What a read gives -/

namespace PacketView

/-- `GetBlock` on the payload. -/
def block : ℕ → PacketView → (Bool × List UInt8) × PacketView
  | 0, v => ((true, []), v)
  | len + 1, v =>
    match v.word8 with
    | (some ch, v) =>
      let ((res, p), v) := v.block len
      ((res, ch :: p), v)
    | (none, v) => ((false, []), v)

/-- The loop of `GetNumberSep` on the payload. -/
def numberLoop : ℕ → BitVec 64 → UInt8 → PacketView → (BitVec 64 × UInt8) × PacketView
  | 0, out, ch, v => ((out, ch), v)
  | n + 1, out, ch, v =>
    match nibbleToInt ch with
    | none => ((out, ch), v)
    | some nib =>
      match v.next with
      | (.char ch, v) => numberLoop n (out <<< 4 + .ofNat 64 nib) ch v
      | (raw, v) => ((out <<< 4 + .ofNat 64 nib, raw.orNul), v)

/-- `GetNumberSep` on the payload. -/
def numberSep (v : PacketView) : Option (BitVec 64 × UInt8) × PacketView :=
  match v.next with
  | (.char ch, v') =>
    if ch = minus then
      match v'.next with
      | (.char ch, v'') =>
        if ch = digitOne then (some (-1, v''.next.1.orNul), v''.next.2) else (none, v'')
      | (_, v'') => (none, v'')
    else
      let (number, v'') := numberLoop (100 * v.rest.length + 1) 0 ch v'
      (some number, v'')
  | (_, v') => (none, v')

end PacketView

theorem runs_getBlock_block (len : ℕ) (v : PacketView) :
    RunsTo (getBlock len) v (v.block len).1 (v.block len).2 := by
  induction len generalizing v with
  | zero => exact .pure _ v
  | succ len ih =>
    unfold block
    refine (runs_getWord8 v).bind ?_
    generalize v.word8 = word
    obtain ⟨word, v'⟩ := word
    cases word with
    | none => exact .pure _ v'
    | some ch => exact (ih v').bind (.pure _ _)

theorem runs_numberLoop_loop {out : BitVec 64} (hpos : 0 < n)
    (hn : ∀ nib, nibbleToInt ch = some nib → expandedLength v.rest + 1 < n) :
    RunsTo (numberLoop n out ch) v (v.numberLoop n out ch).1 (v.numberLoop n out ch).2 := by
  induction n generalizing v out ch with
  | zero => exact absurd hpos (Nat.lt_irrefl 0)
  | succ n ih =>
    unfold SandboxingNaCl.numberLoop PacketView.numberLoop
    cases hnib : nibbleToInt ch with
    | none => exact .pure _ v
    | some nib =>
      have hless := hn nib hnib
      refine (runs_getRawChar v).bind ?_
      have hdecreases (ch : UInt8) := @expandedLength_next v ch
      generalize v.next = read at hdecreases ⊢
      obtain ⟨raw, v'⟩ := read
      cases raw with
      | badRun => exact .pure _ v'
      | endOfPacket => exact .pure _ v'
      | char ch' =>
        refine ih (by omega) fun nib' hnib' => ?_
        have hless' := hdecreases ch' rfl (ne_star_of_nibble hnib')
        change expandedLength v'.rest < _ at hless'
        change expandedLength v'.rest + 1 < n
        omega

theorem runs_getNumberSep_numberSep (v : PacketView) :
    RunsTo getNumberSep v v.numberSep.1 v.numberSep.2 := by
  unfold PacketView.numberSep
  refine .get_bind fun p hp => (runs_getRawChar v).bind ?_
  have hdecreases (ch : UInt8) := @expandedLength_next v ch
  generalize v.next = read at hdecreases ⊢
  obtain ⟨raw, v'⟩ := read
  cases raw with
  | badRun => exact .pure none v'
  | endOfPacket => exact .pure none v'
  | char ch =>
    simp only
    by_cases hminus : ch = minus
    · rw [if_pos hminus, if_pos hminus]
      refine (runs_getRawChar v').bind ?_
      generalize v'.next = read
      obtain ⟨raw, v''⟩ := read
      cases raw with
      | badRun => exact .pure none v''
      | endOfPacket => exact .pure none v''
      | char ch =>
        simp only
        by_cases hone : ch = digitOne
        · rw [if_pos hone, if_pos hone]
          exact (runs_getRawChar v'').bind (.pure _ _)
        · rw [if_neg hone, if_neg hone]
          exact .pure none v''
    · rw [if_neg hminus, if_neg hminus, fuel_eq hp]
      refine (runs_numberLoop_loop (Nat.succ_pos _) fun nib hnib => ?_).bind (.pure _ _)
      have hless := hdecreases ch rfl (ne_star_of_nibble hnib)
      have hle := expandedLength_le v.rest
      change expandedLength v'.rest < _ at hless
      omega

theorem returns_hexStringLoop {acc : List UInt8} (hn : expandedLength v.rest < n) :
    Returns (hexStringLoop n acc) v := by
  induction n generalizing v acc with
  | zero => exact absurd hn (Nat.not_lt_zero _)
  | succ n ih =>
    unfold hexStringLoop
    refine returns_getRawChar_bind ?_
    have hdecreases (ch : UInt8) := @expandedLength_next v ch
    generalize v.next = read at hdecreases ⊢
    obtain ⟨raw, v'⟩ := read
    cases raw with
    | badRun => exact Returns.pure _ v'
    | endOfPacket => exact Returns.pure _ v'
    | char ch1 =>
      simp only
      cases hnib1 : nibbleToInt ch1 with
      | none =>
        have hback : RunsTo (modify fun p => { p with readIndex := p.readIndex - 1 }) v' ()
            { v' with pos := v'.pos - 1 } := fun p hp =>
          ⟨_, rfl, hp.seq, congrArg (· - 1) hp.readIndex, hp.writeIndex,
            (Nat.sub_le _ _).trans hp.pos_le, hp.data⟩
        exact Returns.bind hback (Returns.pure _ _)
      | some nib1 =>
        have hless := hdecreases ch1 rfl (ne_star_of_nibble hnib1)
        refine returns_getRawChar_bind ?_
        have hdecreases' (ch : UInt8) := @expandedLength_next v' ch
        generalize v'.next = read at hdecreases' ⊢
        obtain ⟨raw, v''⟩ := read
        cases raw with
        | badRun => exact Returns.pure _ v''
        | endOfPacket => exact Returns.pure _ v''
        | char ch2 =>
          simp only
          cases hnib2 : nibbleToInt ch2 with
          | none => exact Returns.pure _ v''
          | some nib2 =>
            have hless' := hdecreases' ch2 rfl (ne_star_of_nibble hnib2)
            exact ih (by simp only at hless hless'; omega)

theorem returns_getHexString (v : PacketView) : Returns getHexString v := by
  by_cases h : v.rest = []
  · exact ⟨none, v, runs_getHexString_nil h⟩
  · have hloop : Returns (hexStringLoop (100 * v.rest.length + 1) []) v :=
      returns_hexStringLoop (Nat.lt_succ_of_le (expandedLength_le v.rest))
    obtain ⟨r, v', hloop⟩ := hloop
    exact ⟨r, v', runs_getHexString_of_loop h hloop⟩

theorem returns_getWord (w size : ℕ) (v : PacketView) : Returns (getWord w size) v :=
  Returns.bind (runs_getBlock_block size v) (Returns.pure _ _)

theorem Field.returns_get (f : Field) (v : PacketView) : Returns f.get v := by
  cases f with
  | rawChar ch =>
    refine returns_getRawChar_bind ?_
    generalize v.next = read
    obtain ⟨raw, v'⟩ := read
    cases raw <;> exact Returns.pure _ v'
  | word8 val => exact Returns.bind (runs_getWord8 v) (Returns.pure _ _)
  | word16 val => exact (returns_getWord 16 2 v).map
  | word32 val => exact (returns_getWord 32 4 v).map
  | word64 val => exact (returns_getWord 64 8 v).map
  | block p => exact Returns.bind (runs_getBlock_block p.length v) (Returns.pure _ _)
  | hexString str => exact (returns_getHexString v).map
  | numberSep val sep => exact Returns.bind (runs_getNumberSep_numberSep v) (Returns.pure _ _)

/-! ## Round trips -/

/-- The characters behind a field let it be read: the marker of a run is not written as a character, a
hex string ends at a separator or, unless it is empty, with the packet, and so does a number, which
takes the character behind it as its separator. -/
def Field.FollowedBy : Field → List UInt8 → Prop
  | rawChar ch, _ => ch ≠ star
  | hexString str, chars => 0 ∉ str ∧ Ends chars ∧ (str = [] → chars ≠ [])
  | numberSep val sep, chars =>
    sep ≠ star ∧ (val = -1 ∨ nibbleToInt sep = none) ∧ (sep = 0 → chars = [])
  | _, _ => True

/-- Each field is followed by characters that let it be read, if `chars` are behind them. -/
def Readable : List Field → List UInt8 → Prop
  | [], _ => True
  | f :: fields, chars => f.FollowedBy (fields.flatMap Field.chars ++ chars) ∧ Readable fields chars

instance (ch : UInt8) : Decidable (Stops ch) := inferInstanceAs (Decidable (_ ∧ _))

instance (chars : List UInt8) : Decidable (Ends chars) :=
  inferInstanceAs (Decidable (∀ ch ∈ chars.head?, Stops ch))

instance (f : Field) (chars : List UInt8) : Decidable (f.FollowedBy chars) := by
  cases f <;> unfold Field.FollowedBy <;> infer_instance

instance decidableReadable : ∀ fields chars, Decidable (Readable fields chars)
  | [], _ => isTrue trivial
  | _ :: fields, chars => @instDecidableAnd _ _ inferInstance (decidableReadable fields chars)

/-- What the read of a field gives if only `k` of its characters are left in the packet. -/
def Field.truncated : Field → ℕ → Option Field
  | hexString str, k =>
    if k = 0 ∨ k % 2 = 1 then none else some (hexString ((str.takeWhile (· ≠ 0)).take (k / 2)))
  | numberSep val _, k =>
    if k = 0 ∨ val = -1 ∧ k = 1 then none
    else some (numberSep (if val = -1 then -1 else hexValue 0 ((numberChars val).take k)) 0)
  | _, _ => none

theorem word_of_leBytes {w size : ℕ} (hw : 2 ^ w = 256 ^ size) (val : BitVec w) :
    BitVec.ofNat w (Nat.ofDigits 256 ((leBytes size val.toNat).map UInt8.toNat)) = val := by
  rw [ofDigits_leBytes, ← hw, Nat.mod_eq_of_lt val.isLt, BitVec.ofNat_toNat, BitVec.setWidth_eq]

theorem runs_getWord {w size : ℕ} (hw : 2 ^ w = 256 ^ size) {val : BitVec w}
    (h : v.rest = hexChars (leBytes size val.toNat) ++ chars) :
    RunsTo (getWord w size) v (some val) (v.skip (hexChars (leBytes size val.toNat)).length) := by
  have hblock := runs_getBlock h
  rw [length_leBytes] at hblock
  rw [length_hexChars, length_leBytes]
  refine hblock.bind ?_
  simp only [if_true]
  rw [word_of_leBytes hw]
  exact .pure _ _

theorem runs_getWord_truncated {w size val : ℕ} (h : v.rest = (hexChars (leBytes size val)).take k)
    (hk : k < (hexChars (leBytes size val)).length) : RunsTo (getWord w size) v none (v.skip k) := by
  rw [length_hexChars] at hk
  have hblock := runs_getBlock_truncated h hk
  rw [length_leBytes] at hblock
  exact hblock.bind (.pure _ _)

theorem Field.runs_get {f : Field} (h : v.rest = f.chars ++ chars) (hfollowed : f.FollowedBy chars) :
    RunsTo f.get v (some f) (v.skip f.chars.length) := by
  cases f with
  | rawChar ch => exact (runs_getRawChar_cons h hfollowed).bind (.pure _ _)
  | word8 val => exact (runs_getWord8_hexPair h).bind (.pure _ _)
  | word16 val => exact (runs_getWord (by decide) h).bind (.pure _ _)
  | word32 val => exact (runs_getWord (by decide) h).bind (.pure _ _)
  | word64 val => exact (runs_getWord (by decide) h).bind (.pure _ _)
  | block p =>
    rw [Field.chars, length_hexChars]
    exact (runs_getBlock h).bind (.pure _ _)
  | hexString str =>
    obtain ⟨hnul, hend, hempty⟩ := hfollowed
    have hstr : str.takeWhile (· ≠ 0) = str := by
      refine List.takeWhile_eq_self_iff.2 fun ch hch => decide_eq_true ?_
      exact fun hzero => hnul (hzero ▸ hch)
    rw [Field.chars, hstr] at h ⊢
    rw [length_hexChars]
    refine (runs_getHexString h hend fun hnil => ?_).bind (.pure _ _)
    rw [hnil] at h
    obtain ⟨hstr, hchars⟩ := List.append_eq_nil_iff.1 h.symm
    have hlength := congrArg List.length hstr
    rw [length_hexChars, List.length_nil] at hlength
    exact hempty (List.length_eq_zero_iff.1 (by omega)) hchars
  | numberSep val sep =>
    obtain ⟨hstar, hhex, hnul⟩ := hfollowed
    rw [Field.chars, List.append_assoc] at h
    by_cases hsep : sep = 0
    · rw [if_pos hsep, hnul hsep] at h
      rw [Field.chars, if_pos hsep, List.append_nil, hsep]
      have hend : Ends [] := fun ch hch => by cases hch
      exact (runs_getNumberSep h nofun (Or.inr hend)).bind (.pure _ _)
    · rw [if_neg hsep] at h
      rw [Field.chars, if_neg hsep, List.length_append]
      have hne : ([sep] ++ chars).head? ≠ some star := fun h => hstar (Option.some.inj h)
      have hend : val = -1 ∨ Ends ([sep] ++ chars) := hhex.imp_right fun hnone ch hch => by
        cases hch
        exact ⟨hnone, hstar⟩
      exact (runs_getNumberSep h hne hend).bind (.pure _ _)

theorem take_hexChars (p : List UInt8) (m : ℕ) : (hexChars p).take (2 * m) = hexChars (p.take m) := by
  induction p generalizing m with
  | nil => simp [hexChars]
  | cons ch p ih =>
    cases m with
    | zero => rfl
    | succ m =>
      rw [List.take_succ_cons, hexChars_cons, hexChars_cons, Nat.mul_succ, Nat.add_comm, ← ih]
      exact @List.take_length_add_append _ (hexPair ch) _ _

theorem take_hexChars_half (p : List UInt8) {m : ℕ} (h : m < p.length) :
    (hexChars p).take (2 * m + 1) = hexChars (p.take m) ++ [intToNibble (p[m].toNat / 16)] := by
  have hsplit : hexChars p = hexChars (p.take m) ++ hexChars (p.drop m) := by
    rw [hexChars, hexChars, hexChars, ← List.flatMap_append, List.take_append_drop]
  have hlength : (hexChars (p.take m)).length = 2 * m := by
    rw [length_hexChars, List.length_take, Nat.min_eq_left (Nat.le_of_lt h)]
  rw [hsplit, ← hlength, List.take_length_add_append, List.drop_eq_getElem_cons h, hexChars_cons]
  rfl

theorem runs_getHexString_truncated (h : v.rest = (hexChars str).take k)
    (hk : k < (hexChars str).length) : RunsTo getHexString v
      (if k = 0 ∨ k % 2 = 1 then none else some (str.take (k / 2))) (v.skip k) := by
  rw [length_hexChars] at hk
  rcases Nat.eq_zero_or_pos k with rfl | hpos
  · exact runs_getHexString_nil h
  · rcases Nat.mod_two_eq_zero_or_one k with heven | hodd
    · have hhalf : 2 * (k / 2) = k := by omega
      have hlength : (str.take (k / 2)).length = k / 2 := by
        rw [List.length_take]
        omega
      rw [← hhalf, take_hexChars, ← List.append_nil (hexChars _)] at h
      have hne : v.rest ≠ [] := fun hnil => by
        have hzero := congrArg List.length (h.symm.trans hnil)
        rw [List.length_append, length_hexChars, hlength, List.length_nil] at hzero
        omega
      have hread := runs_getHexString h (fun ch hch => by cases hch) hne
      rw [hlength, hhalf] at hread
      rwa [if_neg (by omega)]
    · have hhalf : 2 * (k / 2) + 1 = k := by omega
      have hlt : k / 2 < str.length := by omega
      have hlength : (str.take (k / 2)).length = k / 2 := by
        rw [List.length_take]
        omega
      rw [← hhalf, take_hexChars_half str hlt] at h
      have hread := runs_getHexString_half h (nibble_hi _)
      rw [hlength, hhalf] at hread
      rwa [if_pos (Or.inr hodd)]

theorem runs_getNumberSep_truncated {val : BitVec 64} (h : v.rest = (numberChars val).take k)
    (hk : k ≤ (numberChars val).length) : RunsTo getNumberSep v
      (if k = 0 ∨ val = -1 ∧ k = 1 then none
        else some (if val = -1 then -1 else hexValue 0 ((numberChars val).take k), 0)) (v.skip k) := by
  rcases Nat.eq_zero_or_pos k with rfl | hpos
  · exact runs_getNumberSep_nil h
  · by_cases hminus : val = -1
    · have hchars : numberChars val = [minus, digitOne] := if_pos hminus
      rw [hchars] at h hk
      obtain rfl | rfl : k = 1 ∨ k = 2 := by
        simp only [List.length_cons, List.length_nil] at hk
        omega
      · rw [if_pos (Or.inr ⟨hminus, rfl⟩)]
        exact runs_getNumberSep_minus h
      · rw [if_neg (by omega), if_pos hminus]
        exact runs_getNumberSep_minusOne h nofun
    · obtain ⟨ch, digits, hchars, hhex, -⟩ := numberChars_ne val hminus
      obtain ⟨k, rfl⟩ := Nat.exists_eq_add_one_of_ne_zero (Nat.ne_of_gt hpos)
      rw [hchars, List.take_succ_cons] at h
      rw [hchars, List.length_cons] at hk
      have hdigits : HexDigits (ch :: digits.take k) := fun digit hdigit => hhex digit <| by
        rw [← List.take_succ_cons] at hdigit
        exact List.mem_of_mem_take hdigit
      rw [← List.append_nil (ch :: _)] at h
      have hread := runs_getNumberSep_digits hdigits h (fun ch hch => by cases hch)
      have hlength : (ch :: digits.take k).length = k + 1 := by
        rw [List.length_cons, List.length_take]
        omega
      rw [hlength] at hread
      have hsucceeds : ¬ (k + 1 = 0 ∨ val = -1 ∧ k + 1 = 1) :=
        not_or.2 ⟨Nat.succ_ne_zero k, fun h => hminus h.1⟩
      rw [if_neg hsucceeds, if_neg hminus, hchars, List.take_succ_cons]
      exact hread

theorem Field.runs_truncated {f : Field} (h : v.rest = f.chars.take k) (hk : k < f.chars.length) :
    RunsTo f.get v (f.truncated k) (v.skip k) := by
  cases f with
  | rawChar ch =>
    obtain rfl : k = 0 := Nat.lt_one_iff.1 hk
    exact (runs_getRawChar_nil h).bind (.pure _ v)
  | word8 val => exact (runs_getWord8_truncated h hk).bind (.pure _ _)
  | word16 val => exact (runs_getWord_truncated h hk).bind (.pure _ _)
  | word32 val => exact (runs_getWord_truncated h hk).bind (.pure _ _)
  | word64 val => exact (runs_getWord_truncated h hk).bind (.pure _ _)
  | block p =>
    rw [Field.chars, length_hexChars] at hk
    exact (runs_getBlock_truncated h hk).bind (.pure _ _)
  | hexString str =>
    have hread := runs_getHexString_truncated h hk
    dsimp only [Field.truncated]
    split_ifs at hread ⊢ <;> exact hread.bind (.pure _ _)
  | numberSep val sep =>
    have hle : k ≤ (numberChars val).length := by
      rw [Field.chars, List.length_append] at hk
      split_ifs at hk
      · exact Nat.le_of_lt hk
      · exact Nat.le_of_lt_succ hk
    rw [Field.chars, List.take_append_of_le_length hle] at h
    have hread := runs_getNumberSep_truncated h hle
    dsimp only [Field.truncated]
    generalize (if val = -1 then -1 else hexValue 0 ((numberChars val).take k)) = number at hread ⊢
    split_ifs at hread ⊢ <;> exact hread.bind (.pure _ _)

theorem runs_gets {fields : List Field} (h : v.rest = fields.flatMap Field.chars ++ chars)
    (hreadable : Readable fields chars) : RunsTo (fields.mapM Field.get) v (fields.map some)
      (v.skip (fields.flatMap Field.chars).length) := by
  induction fields generalizing v with
  | nil =>
    rw [List.mapM_nil]
    exact .pure _ v
  | cons f fields ih =>
    rw [List.flatMap_cons, List.append_assoc] at h
    have hrest : (v.skip f.chars.length).rest = fields.flatMap Field.chars ++ chars := by
      rw [rest_skip, h, List.drop_left]
    rw [List.mapM_cons, List.flatMap_cons, List.length_append, ← skip_skip]
    exact (Field.runs_get h hreadable.1).bind ((ih hrest hreadable.2).bind (.pure _ _))

theorem roundTrips_of_readable {fields : List Field} (h : Readable fields []) :
    Field.RoundTrips fields := by
  intro p v hp
  have hwritten := runs_adds fields ⟨[], 0, v.seq⟩
  have hrewound : RunsTo (modify Packet.rewind) (adds ⟨[], 0, v.seq⟩ (fields.flatMap Field.chars)) ()
      (adds ⟨[], 0, v.seq⟩ (fields.flatMap Field.chars)) := fun p hp => ⟨p.rewind, rfl, hp.rewind⟩
  have hread : (adds ⟨[], 0, v.seq⟩ (fields.flatMap Field.chars)).rest =
      fields.flatMap Field.chars ++ [] := (List.append_nil _).symm
  obtain ⟨p', hrun, hshows⟩ := (hwritten.seq (hrewound.seq (runs_gets hread h))) p.clear hp.clear
  refine ⟨p', hrun, (endOfPacket_iff hshows).2 ?_⟩
  rw [rest_skip]
  exact List.drop_length

theorem runs_readThen {fields : List Field} {f : Field} (hk : k < f.chars.length)
    (hreadable : Readable fields (f.chars.take k))
    (h : v.rest = fields.flatMap Field.chars ++ f.chars.take k) :
    ∃ v', RunsTo (Field.readThen fields f) v (fields.map some, f.truncated k) v' := by
  have hrest : (v.skip (fields.flatMap Field.chars).length).rest = f.chars.take k := by
    rw [rest_skip, h, List.drop_left]
  exact ⟨_, (runs_gets h hreadable).bind ((Field.runs_truncated hrest hk).bind (.pure _ _))⟩

end

/-- Fields that are written are read back, if each is followed by characters that let it be; in a packet
that ends within a field, the reads up to it give the fields, and its own gives what is there or fails;
and no read leaves the packet. -/
theorem Field.roundTrips (fields : List Field) :
    (Readable fields [] → RoundTrips fields) ∧
      (∀ (f : Field) (k : ℕ) (v : PacketView), k < f.chars.length →
        Readable fields (f.chars.take k) → v.rest = fields.flatMap chars ++ f.chars.take k →
        ∃ v', RunsTo (readThen fields f) v (fields.map some, f.truncated k) v') ∧
      ∀ (f : Field) (v : PacketView), ∃ r v', RunsTo f.get v r v' :=
  ⟨roundTrips_of_readable, fun _ _ _ hk hreadable h => runs_readThen hk hreadable h,
    fun f v => f.returns_get v⟩

/-- A hex string before its separator, a number with its separator, a word, and a last number; and a
packet that ends within a word. -/
theorem roundTrips_hexString_number : Field.RoundTrips [.hexString [0x61, 0x62], .rawChar 0x2c,
      .numberSep 0x123 0x3a, .word16 0x1234, .numberSep 0xffffffffffffffff 0] ∧
    ∃ v', RunsTo (Field.readThen [.word8 0xab] (.word16 0x1234)) ⟨[0x61, 0x62, 0x33, 0x34, 0x31], 0, -1⟩
      ([some (.word8 0xab)], none) v' :=
  ⟨(Field.roundTrips _).1 (by decide +kernel),
    (Field.roundTrips [.word8 0xab]).2.1 (.word16 0x1234) 3 ⟨[0x61, 0x62, 0x33, 0x34, 0x31], 0, -1⟩
      (by decide +kernel) (by decide +kernel) (by decide +kernel)⟩

/-- A hex string takes the byte behind it for one of its own, if there is no separator. -/
theorem not_roundTrips_hexString : ¬ Field.RoundTrips [.hexString [0x61], .word8 0x62] := by
  intro h
  obtain ⟨p', hrun, -⟩ := h _ _ shows_new
  have hread : ((Field.writeAndRead [.hexString [0x61], .word8 0x62] Packet.new.clear).toOption.map
      Prod.fst) = some [some (.hexString [0x61, 0x62]), none] := by decide +kernel
  rw [hrun] at hread
  change some [some (Field.hexString [0x61]), some (.word8 0x62)] = _ at hread
  exact absurd hread (by decide)

end SandboxingNaCl
