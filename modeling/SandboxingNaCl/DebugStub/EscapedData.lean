import SandboxingNaCl.DebugStub.PacketReader

/-!
# Escaped binary data

`AddEscapedData` of `packet.cc`, and the decoding that the remote protocol prescribes for it: runs are
expanded first, then escapes are undone.  A run stands for copies of the last character that was
sent, which is not the character of the data if that was escaped.
-/

namespace SandboxingNaCl

open RunLength

/-- `'}'`. -/
def brace : UInt8 := 0x7d

/-- `'#'`. -/
def hash : UInt8 := 0x23

/-- `'$'`. -/
def dollar : UInt8 := 0x24

def Special (ch : UInt8) : Prop := ch = brace ∨ ch = hash ∨ ch = dollar ∨ ch = star

instance (ch : UInt8) : Decidable (Special ch) := inferInstanceAs (Decidable (_ ∨ _))

def escapeChar (ch : UInt8) : List UInt8 := if Special ch then [brace, ch ^^^ 0x20] else [ch]

/-- The `while` loop of `AddEscapedData`. -/
def repeatCount (ch : UInt8) (data : List UInt8) : ℕ := ((data.take 97).takeWhile (· = ch)).length

/-- The copies behind a character that a run stands for, or none. -/
def runOf (ch : UInt8) (data : List UInt8) : ℕ :=
  let count := repeatCount ch data
  if 3 ≤ count then if count = 6 ∨ count = 7 then 5 else count else 0

/-- The character with its escape. -/
def addEscapedChar (ch : UInt8) : PacketM Unit :=
  if Special ch then do
    addRawChar brace
    addRawChar (ch ^^^ 0x20)
  else
    addRawChar ch

/-- The run behind it. -/
def addRun (count : ℕ) : PacketM Unit :=
  if count ≠ 0 then do
    addRawChar star
    addRawChar (.ofNat (count + 29))
  else return ()

def addEscapedData : List UInt8 → PacketM Unit
  | [] => return ()
  | ch :: data => do
    addEscapedChar ch
    addRun (runOf ch data)
    addEscapedData (data.drop (runOf ch data))
termination_by data => data.length

/-! ## The protocol -/

/-- The further copies that a count stands for.  The protocol allows the printable characters but
`#` and `$`. -/
def rspCount (count : UInt8) : Option ℕ :=
  if 32 ≤ count.toNat ∧ count.toNat ≤ 126 ∧ count ≠ hash ∧ count ≠ dollar then
    some (count.toNat - 29)
  else none

/-- The characters with their escapes undone. -/
def unescape : List UInt8 → Option (List UInt8)
  | [] => some []
  | ch :: rest =>
    if ch = brace then
      match rest with
      | [] => none
      | escaped :: rest => (unescape rest).map ((escaped ^^^ 0x20) :: ·)
    else (unescape rest).map (ch :: ·)

def decodeData (body : List UInt8) : Option (List UInt8) := (decode star rspCount body).bind unescape

/-- The body that is written for the data is decoded to it, and has only characters and counts that
the protocol allows. -/
def EncodesData (data : List UInt8) : Prop :=
  ∃ p body, addEscapedData data .new = .ok ((), p) ∧ p.Shows ⟨body, 0, -1⟩ ∧
    decodeData body = some data ∧ hash ∉ body ∧ dollar ∉ body ∧
    validAfter star rspCount none body = true

/-! ## What is written -/

def runMark (n : ℕ) : List UInt8 := if n ≠ 0 then [star, .ofNat (n + 29)] else []

def escapedBody : List UInt8 → List UInt8
  | [] => []
  | ch :: data => escapeChar ch ++ runMark (runOf ch data) ++ escapedBody (data.drop (runOf ch data))
termination_by data => data.length

section

variable {ch : UInt8} {data : List UInt8}

theorem runs_addEscapedChar (ch : UInt8) (v : PacketView) :
    RunsTo (addEscapedChar ch) v () { v with payload := v.payload ++ escapeChar ch } := by
  unfold addEscapedChar escapeChar
  split_ifs
  · have h := (runs_addRawChar brace v).seq (runs_addRawChar (ch ^^^ 0x20) _)
    simp only [PacketView.add, List.append_assoc] at h
    exact h
  · exact runs_addRawChar ch v

theorem runs_addRun (n : ℕ) (v : PacketView) :
    RunsTo (addRun n) v () { v with payload := v.payload ++ runMark n } := by
  unfold addRun runMark
  split_ifs
  · have h := (runs_addRawChar star v).seq (runs_addRawChar (.ofNat (n + 29)) _)
    simp only [PacketView.add, List.append_assoc] at h
    exact h
  · rw [List.append_nil]
    exact RunsTo.pure () v

theorem runs_addEscapedData (data : List UInt8) (v : PacketView) :
    RunsTo (addEscapedData data) v () { v with payload := v.payload ++ escapedBody data } := by
  induction data using escapedBody.induct generalizing v with
  | case1 =>
    rw [addEscapedData, escapedBody, List.append_nil]
    exact RunsTo.pure () v
  | case2 ch data ih =>
    rw [addEscapedData, escapedBody]
    have h := (runs_addEscapedChar ch v).seq ((runs_addRun (runOf ch data) _).seq (ih _))
    simp only [List.append_assoc] at h ⊢
    exact h

theorem repeatCount_le (ch : UInt8) (data : List UInt8) : repeatCount ch data ≤ 97 :=
  (List.takeWhile_sublist _).length_le.trans (List.length_take_le 97 data)

theorem replicate_isPrefix {n : ℕ} (h : n ≤ repeatCount ch data) : List.replicate n ch <+: data := by
  have hcount : (data.take 97).takeWhile (· = ch) = List.replicate (repeatCount ch data) ch :=
    List.eq_replicate_iff.2 ⟨rfl, fun c hc => by simpa using List.mem_takeWhile_imp hc⟩
  have hstart : List.replicate (repeatCount ch data) ch <+: data := by
    rw [← hcount]
    exact (List.takeWhile_prefix _).trans (List.take_prefix 97 data)
  refine List.IsPrefix.trans ?_ hstart
  exact ⟨List.replicate (repeatCount ch data - n) ch, by
    rw [List.replicate_append_replicate, Nat.add_sub_cancel' h]⟩

theorem le_repeatCount {n : ℕ} (hn : n ≤ 97) (h : List.replicate n ch <+: data) :
    n ≤ repeatCount ch data := by
  obtain ⟨rest, rfl⟩ := h
  have htake : (List.replicate n ch ++ rest).take 97 = List.replicate n ch ++ rest.take (97 - n) := by
    rw [List.take_append, List.length_replicate, List.take_of_length_le (by simpa using hn)]
  rw [repeatCount, htake, List.takeWhile_append_of_pos (by simp), List.length_append,
    List.length_replicate]
  exact Nat.le_add_right n _

theorem runOf_le (ch : UInt8) (data : List UInt8) : runOf ch data ≤ repeatCount ch data := by
  simp only [runOf]
  split_ifs <;> omega

theorem eq_append_drop_runOf (ch : UInt8) (data : List UInt8) :
    List.replicate (runOf ch data) ch ++ data.drop (runOf ch data) = data := by
  have h := List.prefix_iff_eq_append.1 (replicate_isPrefix (runOf_le ch data))
  rwa [List.length_replicate] at h

theorem runOf_bounds (h : runOf ch data ≠ 0) :
    3 ≤ runOf ch data ∧ runOf ch data ≤ 97 ∧ runOf ch data ≠ 6 ∧ runOf ch data ≠ 7 := by
  have := repeatCount_le ch data
  simp only [runOf] at h ⊢
  split_ifs at h ⊢ <;> omega

theorem runOf_ne_zero_iff : runOf ch data ≠ 0 ↔ List.replicate 3 ch <+: data := by
  constructor
  · intro h
    exact replicate_isPrefix ((runOf_bounds h).1.trans (runOf_le ch data))
  · intro h
    have hle := le_repeatCount (by omega) h
    simp only [runOf]
    split_ifs <;> omega

/-! ## What is received -/

def lastSent (ch : UInt8) : UInt8 := if Special ch then ch ^^^ 0x20 else ch

/-- The characters with the runs expanded. -/
def expandedBody : List UInt8 → List UInt8
  | [] => []
  | ch :: data => escapeChar ch ++ (List.replicate (runOf ch data) (lastSent ch) ++
      expandedBody (data.drop (runOf ch data)))
termination_by data => data.length

/-- The data that are decoded: in a run the last character that was sent is repeated. -/
def received : List UInt8 → List UInt8
  | [] => []
  | ch :: data => ch :: (List.replicate (runOf ch data) (lastSent ch) ++
      received (data.drop (runOf ch data)))
termination_by data => data.length

theorem getLast?_escapeChar (ch : UInt8) (last : Option UInt8) :
    (escapeChar ch).getLast?.or last = some (lastSent ch) := by
  unfold escapeChar lastSent
  split_ifs <;> rfl

theorem not_mem_escapeChar {c : UInt8} (hc : c = star ∨ c = hash ∨ c = dollar) (ch : UInt8) :
    c ∉ escapeChar ch := by
  unfold escapeChar
  split_ifs with h
  · rcases h with rfl | rfl | rfl | rfl <;> rcases hc with rfl | rfl | rfl <;> decide
  · rw [List.mem_singleton]
    rintro rfl
    exact h (Or.inr (by tauto))

theorem toNat_count {n : ℕ} (h : n ≤ 97) : (UInt8.ofNat (n + 29)).toNat = n + 29 := by
  rw [UInt8.toNat_ofNat']
  omega

theorem rspCount_runOf (h : runOf ch data ≠ 0) :
    rspCount (.ofNat (runOf ch data + 29)) = some (runOf ch data) := by
  obtain ⟨hthree, hle, hsix, hseven⟩ := runOf_bounds h
  have hcount := toNat_count hle
  have hhash : UInt8.ofNat (runOf ch data + 29) ≠ hash := fun heq => by
    rw [heq] at hcount
    change 35 = _ at hcount
    omega
  have hdollar : UInt8.ofNat (runOf ch data + 29) ≠ dollar := fun heq => by
    rw [heq] at hcount
    change 36 = _ at hcount
    omega
  rw [rspCount, if_pos ⟨by omega, by omega, hhash, hdollar⟩, hcount, Nat.add_sub_cancel]

theorem expandAfter_escapedBody (data : List UInt8) (last : Option UInt8) :
    expandAfter star rspCount last (escapedBody data) = expandedBody data ∧
      validAfter star rspCount last (escapedBody data) = true := by
  induction data using escapedBody.induct generalizing last with
  | case1 =>
    rw [escapedBody, expandedBody]
    exact ⟨rfl, rfl⟩
  | case2 ch data ih =>
    have hclean := not_mem_escapeChar (Or.inl rfl) ch
    rw [escapedBody, expandedBody, List.append_assoc, expandAfter_append hclean,
      validAfter_append hclean, getLast?_escapeChar, List.append_cancel_left_eq]
    unfold runMark
    split_ifs with hrun
    · have hcount := rspCount_runOf hrun
      rw [List.cons_append, List.cons_append, List.nil_append, expandAfter_run hcount,
        validAfter_run hcount, List.append_cancel_left_eq]
      exact ih _
    · rw [not_not.1 hrun] at ih ⊢
      exact ih _

theorem unescape_cons_of_ne {c : UInt8} (h : c ≠ brace) (rest : List UInt8) :
    unescape (c :: rest) = (unescape rest).map (c :: ·) := by
  cases rest <;> simp [unescape, h]

theorem unescape_replicate {c : UInt8} (h : c ≠ brace) (n : ℕ) (rest : List UInt8) :
    unescape (List.replicate n c ++ rest) = (unescape rest).map (List.replicate n c ++ ·) := by
  induction n with
  | zero => simp
  | succ n ih =>
    rw [List.replicate_succ, List.cons_append, unescape_cons_of_ne h, ih, Option.map_map]
    rfl

theorem unescape_escapeChar (ch : UInt8) (rest : List UInt8) :
    unescape (escapeChar ch ++ rest) = (unescape rest).map (ch :: ·) := by
  unfold escapeChar
  split_ifs with h
  · have hback : ch ^^^ 0x20 ^^^ 0x20 = ch := by
      rw [UInt8.xor_assoc, UInt8.xor_self, UInt8.xor_zero]
    simp only [List.cons_append, List.nil_append, unescape, if_true, hback]
  · exact unescape_cons_of_ne (fun heq => h (Or.inl heq)) rest

theorem lastSent_ne_brace (ch : UInt8) : lastSent ch ≠ brace := by
  unfold lastSent
  split_ifs with h
  · rcases h with rfl | rfl | rfl | rfl <;> decide
  · exact fun heq => h (Or.inl heq)

theorem unescape_expandedBody (data : List UInt8) :
    unescape (expandedBody data) = some (received data) := by
  induction data using escapedBody.induct with
  | case1 =>
    rw [expandedBody, received]
    rfl
  | case2 ch data ih =>
    rw [expandedBody, received, unescape_escapeChar, unescape_replicate (lastSent_ne_brace ch), ih]
    rfl

theorem decodeData_escapedBody (data : List UInt8) :
    decodeData (escapedBody data) = some (received data) := by
  obtain ⟨hexpand, hvalid⟩ := expandAfter_escapedBody data none
  rw [decodeData, decode, if_pos hvalid, expand, hexpand, Option.bind_some, unescape_expandedBody]

theorem not_mem_escapedBody {c : UInt8} (hc : c = hash ∨ c = dollar) (data : List UInt8) :
    c ∉ escapedBody data := by
  induction data using escapedBody.induct with
  | case1 =>
    rw [escapedBody]
    exact List.not_mem_nil
  | case2 ch data ih =>
    rw [escapedBody, List.mem_append, List.mem_append, not_or, not_or]
    refine ⟨⟨not_mem_escapeChar (Or.inr hc) ch, ?_⟩, ih⟩
    unfold runMark
    split_ifs with hrun
    · have hcount := rspCount_runOf hrun
      rw [List.mem_cons, List.mem_singleton, not_or]
      refine ⟨by rcases hc with rfl | rfl <;> decide, ?_⟩
      rintro rfl
      rw [rspCount] at hcount
      split_ifs at hcount with hallowed
      rcases hc with hc | hc
      · exact hallowed.2.2.1 hc
      · exact hallowed.2.2.2 hc
    · exact List.not_mem_nil

/-! ## When it is the data -/

/-- The data have a run of special characters for which a run is sent. -/
def SpecialRun (data : List UInt8) : Prop := ∃ ch, Special ch ∧ List.replicate 4 ch <:+: data

theorem lastSent_eq_iff (ch : UInt8) : lastSent ch = ch ↔ ¬ Special ch := by
  unfold lastSent
  split_ifs with h
  · refine iff_of_false ?_ (not_not.2 h)
    rcases h with rfl | rfl | rfl | rfl <;> decide
  · exact iff_of_true rfl h

theorem replicate_infix_of_ne {s c : UInt8} (h : s ≠ c) {k n : ℕ} {rest : List UInt8} (hk : k ≠ 0)
    (hpart : List.replicate k s <:+: List.replicate n c ++ rest) : List.replicate k s <:+: rest := by
  obtain ⟨k, rfl⟩ := Nat.exists_eq_succ_of_ne_zero hk
  induction n with
  | zero => exact hpart
  | succ n ih =>
    rw [List.replicate_succ (n := n), List.cons_append, List.infix_cons_iff] at hpart
    rcases hpart with hstart | hpart
    · rw [List.replicate_succ, List.cons_prefix_cons] at hstart
      exact absurd hstart.1 h
    · exact ih hpart

theorem specialRun_cons_iff : SpecialRun (ch :: data) ↔
    runOf ch data ≠ 0 ∧ Special ch ∨ SpecialRun (data.drop (runOf ch data)) := by
  have hdata := eq_append_drop_runOf ch data
  constructor
  · rintro ⟨s, hs, hpart⟩
    rcases List.infix_cons_iff.1 hpart with hstart | hpart
    · obtain ⟨rfl, hthree⟩ := List.cons_prefix_cons.1 hstart
      exact Or.inl ⟨runOf_ne_zero_iff.2 hthree, hs⟩
    · by_cases hrun : runOf ch data = 0
      · rw [hrun]
        exact Or.inr ⟨s, hs, hpart⟩
      · by_cases hch : Special ch
        · exact Or.inl ⟨hrun, hch⟩
        · rw [← hdata] at hpart
          have hne : s ≠ ch := fun heq => hch (heq ▸ hs)
          exact Or.inr ⟨s, hs, replicate_infix_of_ne hne (by decide) hpart⟩
  · rintro (⟨hrun, hch⟩ | ⟨s, hs, hpart⟩)
    · exact ⟨ch, hch, (List.cons_prefix_cons.2 ⟨rfl, runOf_ne_zero_iff.1 hrun⟩).isInfix⟩
    · exact ⟨s, hs, (hpart.trans (List.drop_suffix _ data).isInfix).trans
        (List.suffix_cons ch data).isInfix⟩

theorem received_eq_iff (data : List UInt8) : received data = data ↔ ¬ SpecialRun data := by
  induction data using escapedBody.induct with
  | case1 =>
    rw [received]
    refine iff_of_true rfl ?_
    rintro ⟨s, -, hpart⟩
    exact absurd hpart.length_le (by simp)
  | case2 ch data ih =>
    have hdata := eq_append_drop_runOf ch data
    have hlength : (List.replicate (runOf ch data) (lastSent ch)).length =
        (List.replicate (runOf ch data) ch).length := by
      rw [List.length_replicate, List.length_replicate]
    rw [received, List.cons_inj_right, specialRun_cons_iff, not_or, ← ih]
    conv_lhs => rhs; rw [← hdata]
    constructor
    · intro h
      obtain ⟨hrun, hrest⟩ := List.append_inj h hlength
      refine ⟨fun hspecial => ?_, hrest⟩
      have hlast := (List.replicate_inj.1 hrun).2.resolve_left hspecial.1
      exact (lastSent_eq_iff ch).1 hlast hspecial.2
    · rintro ⟨hrun, hrest⟩
      rw [hrest]
      by_cases hzero : runOf ch data = 0
      · rw [hzero]
        rfl
      · rw [(lastSent_eq_iff ch).2 fun hspecial => hrun ⟨hzero, hspecial⟩]

theorem encodesData_iff_received (data : List UInt8) : EncodesData data ↔ received data = data := by
  obtain ⟨p, hp, hshows⟩ := runs_addEscapedData data ⟨[], 0, -1⟩ .new shows_new
  constructor
  · rintro ⟨p', body, hp', hshows', hdecode, -⟩
    obtain rfl : p = p' := congrArg Prod.snd (Except.ok.inj (hp.symm.trans hp'))
    have hbody : escapedBody data = body := congrArg PacketView.payload (hshows.unique hshows')
    rw [← hbody, decodeData_escapedBody] at hdecode
    exact Option.some.inj hdecode
  · intro h
    refine ⟨p, escapedBody data, hp, hshows, ?_, not_mem_escapedBody (Or.inl rfl) data,
      not_mem_escapedBody (Or.inr rfl) data, (expandAfter_escapedBody data none).2⟩
    rw [decodeData_escapedBody, h]

/-- The data come back as they were exactly if they have no four equal special characters in a row. -/
theorem encodesData_iff (data : List UInt8) : EncodesData data ↔ ¬ SpecialRun data :=
  (encodesData_iff_received data).trans (received_eq_iff data)

/-- `}}}}` is sent as `}]*` with the count for three copies. -/
theorem not_encodesData_braces : decodeData [brace, 0x5d, star, 0x20] = some [brace, 0x5d, 0x5d, 0x5d] ∧
    ¬ EncodesData [brace, brace, brace, brace] := by
  refine ⟨by decide, fun h => ?_⟩
  rw [encodesData_iff_received, received_eq_iff] at h
  exact h ⟨brace, Or.inl rfl, List.infix_rfl⟩

end

end SandboxingNaCl
