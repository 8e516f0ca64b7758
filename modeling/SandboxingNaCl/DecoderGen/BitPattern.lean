import Mathlib.Data.List.Basic

/-!
# Bit patterns of the decoder generators

`BitPattern` and `Row` of `validator_arm/dgen_core.py` and of `validator_mips/dgen/dgen_core.py`.  A
pattern is matched by the words that pass the test which the generators write for it.
-/

namespace SandboxingNaCl

namespace DecoderGen

abbrev Word := BitVec 32

def popcount (x : Word) : ℕ := (List.range 32).countP fun bit => x.getLsbD bit

/-- `op` of a `BitPattern`, in the order of Python's strings. -/
inductive PatternOp
  /-- `'!='`. -/
  | ne
  /-- `'=='`. -/
  | eq
deriving DecidableEq, Ord

/-- `BitPattern`.  The generator for MIPS has no `column`. -/
structure BitPattern (κ : Type) where
  mask : Word
  value : Word
  op : PatternOp
  column : Option κ
deriving DecidableEq

namespace BitPattern

variable {κ : Type}

/-- The significant bits that `parse` reads, the highest first. -/
def parseBits : List Char → Word × Word → Option (Word × Word)
  | [], acc => some acc
  | c :: pattern, (mask, value) =>
    if c = '1' then parseBits pattern (mask <<< 1 ||| 1, value <<< 1 ||| 1)
    else if c = '0' then parseBits pattern (mask <<< 1 ||| 1, value <<< 1)
    else if c.isAlpha then parseBits pattern (mask <<< 1, value <<< 1)
    else none

/-- `parse`, for the bits `hi` to `lo` of a column. -/
def parse (pattern : List Char) (hi lo : ℕ) (column : Option κ) : Option (BitPattern κ) :=
  let numBits := hi - lo + 1
  let pattern := if pattern = ['-'] then List.replicate numBits 'x' else pattern
  let (op, pattern) := match pattern with
    | '~' :: pattern => (PatternOp.ne, pattern)
    | pattern => (PatternOp.eq, pattern)
  let pattern := pattern.filter (· ≠ '_')
  if pattern.length ≠ numBits then none
  else (parseBits pattern (0, 0)).map fun (mask, value) => ⟨mask <<< lo, value <<< lo, op, column⟩

def alwaysMatches (column : Option κ) : BitPattern κ := ⟨0, 0, .eq, column⟩

def signifBits (p : BitPattern κ) : ℕ := popcount p.mask

def conflicts (p q : BitPattern κ) : Word := (p.mask &&& p.value) ^^^ (q.mask &&& q.value)

def isComplement (p q : BitPattern κ) : Bool :=
  p.op ≠ q.op ∧ p.mask = q.mask ∧ p.value = q.value

def strictlyOverlaps [DecidableEq κ] (p q : BitPattern κ) : Bool :=
  p.mask &&& q.mask ≠ 0 ∧ p ≠ q

def isStrictlyCompatible (p q : BitPattern κ) : Bool :=
  p.isComplement q || (p.op = q.op ∧ p.mask = q.mask ∧ popcount (p.conflicts q) = 1)

def add (p q : BitPattern κ) : BitPattern κ :=
  if p.op = q.op then
    let c := p.conflicts q
    ⟨(p.mask ||| q.mask) ^^^ c, (p.value ||| q.value) ^^^ c, p.op, p.column⟩
  else alwaysMatches p.column

/-- `__cmp__`, with `compare` for that of the columns. -/
def cmp [Ord κ] (p q : BitPattern κ) : Ordering :=
  (compare q.signifBits p.signifBits).then <| (compare p.mask.toNat q.mask.toNat).then <|
    (compare p.value.toNat q.value.toNat).then <| (compare p.op q.op).then <|
      match p.column, q.column with
      | none, none => .eq
      | none, some _ => .lt
      | some _, none => .gt
      | some c, some d => compare c d

/-- The test that `to_bool` writes, on an instruction. -/
def test (p : BitPattern κ) (w : Word) : Bool :=
  p.mask = 0 ||
    match p.op with
    | .eq => w &&& p.mask = p.value
    | .ne => w &&& p.mask ≠ p.value

def Valid (p : BitPattern κ) : Prop := p.value &&& p.mask = p.value

variable {p q : BitPattern κ} {w : Word}

theorem valid_alwaysMatches (column : Option κ) : (alwaysMatches column).Valid := by
  simp [Valid, alwaysMatches]

theorem Valid.mask_of_value (h : p.Valid) {i : ℕ} (hi : p.value.getLsbD i = true) :
    p.mask.getLsbD i = true := by
  rw [← h, BitVec.getLsbD_and, Bool.and_eq_true] at hi
  exact hi.2

theorem valid_iff : p.Valid ↔ ∀ i, p.value.getLsbD i = true → p.mask.getLsbD i = true := by
  refine ⟨fun h i => h.mask_of_value, fun h => BitVec.eq_of_getLsbD_eq fun i _ => ?_⟩
  rw [BitVec.getLsbD_and]
  cases hv : p.value.getLsbD i with
  | false => rfl
  | true => rw [h i hv]; rfl

theorem sub_shiftLeft {mask value : Word} {n : ℕ}
    (h : ∀ i, value.getLsbD i = true → mask.getLsbD i = true) :
    ∀ i, (value <<< n).getLsbD i = true → (mask <<< n).getLsbD i = true := by
  intro i hi
  rw [BitVec.getLsbD_shiftLeft, Bool.and_eq_true] at hi ⊢
  exact ⟨hi.1, h _ hi.2⟩

theorem parseBits_sub {pattern : List Char} {acc result : Word × Word}
    (hacc : ∀ i, acc.2.getLsbD i = true → acc.1.getLsbD i = true)
    (h : parseBits pattern acc = some result) :
    ∀ i, result.2.getLsbD i = true → result.1.getLsbD i = true := by
  induction pattern generalizing acc with
  | nil => cases h; exact hacc
  | cons c pattern ih =>
    obtain ⟨mask, value⟩ := acc
    have hshift := sub_shiftLeft (n := 1) hacc
    simp only [parseBits] at h
    split_ifs at h
    · refine ih (fun i hi => ?_) h
      rw [BitVec.getLsbD_or, Bool.or_eq_true] at hi ⊢
      exact hi.imp_left (hshift i)
    · refine ih (fun i hi => ?_) h
      rw [BitVec.getLsbD_or, Bool.or_eq_true]
      exact Or.inl (hshift i hi)
    · exact ih hshift h

theorem valid_of_parse {pattern : List Char} {hi lo : ℕ} {column : Option κ}
    (h : parse pattern hi lo column = some p) : p.Valid := by
  unfold parse at h
  dsimp only at h
  split_ifs at h
  all_goals
    obtain ⟨⟨mask, value⟩, hbits, rfl⟩ := Option.map_eq_some_iff.1 h
    exact valid_iff.2 (sub_shiftLeft (parseBits_sub (fun _ h => h) hbits))

theorem popcount_eq_one {x : Word} (h : popcount x = 1) :
    ∃ i < 32, ∀ j, x.getLsbD j = decide (j = i) := by
  rw [popcount, List.countP_eq_length_filter, List.length_eq_one_iff] at h
  obtain ⟨i, hi⟩ := h
  have hmem (j : ℕ) : (j < 32 ∧ x.getLsbD j = true) ↔ j = i := by
    have hj : j ∈ (List.range 32).filter (fun bit => x.getLsbD bit) ↔ _ := List.mem_filter
    rw [hi, List.mem_singleton, List.mem_range] at hj
    exact hj.symm
  refine ⟨i, ((hmem i).2 rfl).1, fun j => ?_⟩
  rw [Bool.eq_iff_iff, decide_eq_true_iff, ← hmem j]
  exact ⟨fun hj => ⟨BitVec.lt_of_getLsbD hj, hj⟩, fun hj => hj.2⟩

/-! ## The sum of two patterns -/

theorem conflicts_of_valid (hp : p.Valid) (hq : q.Valid) : p.conflicts q = p.value ^^^ q.value := by
  rw [conflicts, BitVec.and_comm, hp, BitVec.and_comm, hq]

theorem test_eq (hop : p.op = .eq) (hp : p.Valid) : p.test w ↔ w &&& p.mask = p.value := by
  simp only [test, hop, Bool.or_eq_true, decide_eq_true_eq]
  refine or_iff_right_of_imp fun hmask => ?_
  rw [Valid, hmask] at hp
  rw [hmask]
  exact (BitVec.and_zero).trans (hp.symm.trans BitVec.and_zero).symm

theorem test_ne (hop : p.op = .ne) : p.test w ↔ p.mask = 0 ∨ w &&& p.mask ≠ p.value := by
  simp [test, hop]

/-- Both patterns are negated, they differ, and they have significant bits in common. -/
def blurs (p q : BitPattern κ) : Bool :=
  p.op = .ne ∧ q.op = .ne ∧ p.value ≠ q.value ∧ p.mask ^^^ p.conflicts q ≠ 0

/-- The word has the significant bits that the two patterns have in common. -/
def agrees (p q : BitPattern κ) (w : Word) : Bool :=
  w &&& (p.mask ^^^ p.conflicts q) = p.value &&& (p.mask ^^^ p.conflicts q)

section OneBit

variable {i : ℕ} (hp : p.Valid) (hq : q.Valid) (hmask : p.mask = q.mask)
  (hi : ∀ j, (p.conflicts q).getLsbD j = decide (j = i))

include hp hq hi in
theorem value_of_ne {j : ℕ} (hj : j ≠ i) : q.value.getLsbD j = p.value.getLsbD j := by
  have h := hi j
  rw [conflicts_of_valid hp hq, BitVec.getLsbD_xor, decide_eq_false hj] at h
  exact (by simpa using h : p.value.getLsbD j = q.value.getLsbD j).symm

include hp hq hi in
theorem value_self : q.value.getLsbD i = !p.value.getLsbD i := by
  have h := hi i
  rw [conflicts_of_valid hp hq, BitVec.getLsbD_xor, decide_eq_true rfl] at h
  cases hv : p.value.getLsbD i <;> rw [hv] at h <;> simpa using h

include hp hq hmask hi in
theorem mask_self : p.mask.getLsbD i = true := by
  cases hv : p.value.getLsbD i with
  | true => exact hp.mask_of_value hv
  | false =>
    rw [hmask]
    exact hq.mask_of_value ((value_self hp hq hi).trans (by rw [hv]; rfl))

include hp hq hmask hi in
theorem agrees_iff : p.agrees q w ↔ w &&& p.mask = p.value ∨ w &&& q.mask = q.value := by
  have hbit : p.agrees q w ↔ ∀ j, j ≠ i → (w &&& p.mask).getLsbD j = p.value.getLsbD j := by
    rw [agrees, decide_eq_true_iff]
    refine ⟨fun h j hj => ?_, fun h => BitVec.eq_of_getLsbD_eq fun j _ => ?_⟩
    · have hbit := congrArg (·.getLsbD j) h
      simp only [BitVec.getLsbD_and, BitVec.getLsbD_xor, hi, decide_eq_false hj,
        Bool.xor_false] at hbit
      rw [BitVec.getLsbD_and, hbit, ← BitVec.getLsbD_and, hp]
    · by_cases hj : j = i
      · subst hj
        simp [hi, mask_self hp hq hmask hi]
      · have hvalue := h j hj
        rw [BitVec.getLsbD_and] at hvalue
        simp only [BitVec.getLsbD_and, BitVec.getLsbD_xor, hi, decide_eq_false hj, Bool.xor_false]
        rw [hvalue, ← BitVec.getLsbD_and, hp]
  rw [hbit]
  constructor
  · intro h
    by_cases hself : w.getLsbD i = p.value.getLsbD i
    · refine Or.inl (BitVec.eq_of_getLsbD_eq fun j _ => ?_)
      by_cases hj : j = i
      · subst hj
        rw [BitVec.getLsbD_and, mask_self hp hq hmask hi, Bool.and_true, hself]
      · exact h j hj
    · refine Or.inr (BitVec.eq_of_getLsbD_eq fun j _ => ?_)
      rw [← hmask]
      by_cases hj : j = i
      · subst hj
        rw [BitVec.getLsbD_and, mask_self hp hq hmask hi, Bool.and_true, value_self hp hq hi]
        exact Bool.eq_not_of_ne hself
      · rw [h j hj, value_of_ne hp hq hi hj]
  · rintro (h | h) j hj
    · rw [h]
    · rw [hmask, h, value_of_ne hp hq hi hj]

include hp hq hmask hi in
theorem add_of_oneBit (hop : p.op = q.op) : p.add q = ⟨p.mask ^^^ p.conflicts q,
    p.value &&& (p.mask ^^^ p.conflicts q), p.op, p.column⟩ := by
  have hvalue : (p.value ||| q.value) ^^^ p.conflicts q =
      p.value &&& (p.mask ^^^ p.conflicts q) := by
    refine BitVec.eq_of_getLsbD_eq fun j _ => ?_
    simp only [BitVec.getLsbD_and, BitVec.getLsbD_xor, BitVec.getLsbD_or, hi]
    by_cases hj : j = i
    · subst hj
      rw [value_self hp hq hi, mask_self hp hq hmask hi]
      simp
    · rw [value_of_ne hp hq hi hj, decide_eq_false hj, Bool.or_self, Bool.xor_false, Bool.xor_false,
        ← BitVec.getLsbD_and, hp]
  rw [add, if_pos hop, ← hmask, BitVec.or_self]
  dsimp only
  rw [hvalue]

include hp hq hi in
theorem value_ne_of_oneBit : p.value ≠ q.value := by
  intro h
  have hself := value_self hp hq hi
  rw [h] at hself
  cases hv : q.value.getLsbD i <;> rw [hv] at hself <;> cases hself

end OneBit

theorem add_self (p : BitPattern κ) : p.add p = p := by
  simp [add, conflicts]

theorem isStrictlyCompatible_cases (h : p.isStrictlyCompatible q = true) :
    (p.op ≠ q.op ∧ p.mask = q.mask ∧ p.value = q.value) ∨
      p.op = q.op ∧ p.mask = q.mask ∧ ∃ i, ∀ j, (p.conflicts q).getLsbD j = decide (j = i) := by
  simp only [isStrictlyCompatible, isComplement, Bool.or_eq_true, decide_eq_true_iff] at h
  obtain h | ⟨hop, hmask, hcount⟩ := h
  · exact Or.inl h
  · obtain ⟨i, -, hi⟩ := popcount_eq_one hcount
    exact Or.inr ⟨hop, hmask, i, hi⟩

theorem valid_add (hp : p.Valid) (hq : q.Valid) (h : p = q ∨ p.isStrictlyCompatible q = true) :
    (p.add q).Valid := by
  obtain rfl | h := h
  · rwa [add_self]
  · obtain ⟨hop, -, -⟩ | ⟨hop, hmask, i, hi⟩ := isStrictlyCompatible_cases h
    · rw [add, if_neg hop]
      exact valid_alwaysMatches _
    · rw [add_of_oneBit hp hq hmask hi hop, Valid, BitVec.and_assoc, BitVec.and_self]

theorem test_or_test (hp : p.op = .ne) (hq : q.op = .ne) (hmask : p.mask = q.mask)
    (hne : p.value ≠ q.value) : p.test w ∨ q.test w := by
  rw [test_ne hp, test_ne hq, ← hmask]
  by_cases hw : w &&& p.mask = p.value
  · exact Or.inr (Or.inr fun h => hne (hw.symm.trans h))
  · exact Or.inl (Or.inr hw)

theorem test_or_test_of_blurs (h : p = q ∨ p.isStrictlyCompatible q = true)
    (hblurs : p.blurs q = true) : p.test w ∨ q.test w := by
  obtain ⟨hp, hq, hne, -⟩ := of_decide_eq_true hblurs
  obtain rfl | h := h
  · exact absurd rfl hne
  obtain ⟨hop, -⟩ | ⟨-, hmask, -⟩ := isStrictlyCompatible_cases h
  · exact absurd (hp.trans hq.symm) hop
  · exact test_or_test hp hq hmask hne

/-- The sum of two patterns is matched by the words that match one of them, those apart that have the
common bits of two negated ones. -/
theorem test_add (hp : p.Valid) (hq : q.Valid) (h : p = q ∨ p.isStrictlyCompatible q = true) :
    (p.add q).test w ↔ (p.test w ∨ q.test w) ∧ ¬ (p.blurs q ∧ p.agrees q w) := by
  obtain rfl | h := h
  · simp [add_self, blurs]
  obtain ⟨hop, hmask, hvalue⟩ | ⟨hop, hmask, i, hi⟩ := isStrictlyCompatible_cases h
  · have hsum : (p.add q).test w := by
      rw [add, if_neg hop]
      rfl
    have hone : p.test w ∨ q.test w := by
      simp only [test, hmask, hvalue, Bool.or_eq_true, decide_eq_true_iff]
      cases hpop : p.op <;> cases hqop : q.op
      · exact absurd (hpop.trans hqop.symm) hop
      · simp only [decide_eq_true_iff]
        tauto
      · simp only [decide_eq_true_iff]
        tauto
      · exact absurd (hpop.trans hqop.symm) hop
    have hblurs : p.blurs q = false := by
      simp [blurs, hvalue]
    simp [hsum, hone, hblurs]
  · have hagrees := agrees_iff hp hq hmask hi (w := w)
    have hvalid := valid_add hp hq (Or.inr h)
    have hsum := add_of_oneBit hp hq hmask hi hop
    have hne := value_ne_of_oneBit hp hq hi
    cases hqop : q.op with
    | eq =>
      have hpop := hop.trans hqop
      have hblurs : p.blurs q = false := by
        simp [blurs, hpop]
      rw [test_eq hpop hp, test_eq hqop hq, ← hagrees, test_eq (by rw [hsum]; exact hpop) hvalid,
        hsum, hblurs, agrees, decide_eq_true_iff]
      simp
    | ne =>
      have hpop := hop.trans hqop
      have hone := test_or_test hpop hqop hmask hne (w := w)
      rw [test_ne (by rw [hsum]; exact hpop), hsum, iff_true_intro hone, true_and]
      simp only [blurs, agrees, hpop, hqop, hne, decide_eq_true_iff, ne_eq, not_false_eq_true,
        true_and, not_and]
      tauto

/-- The sum of two patterns is matched by exactly the words that match one of them, unless they are
negated and have bits in common. -/
theorem test_add_iff (hp : p.Valid) (hq : q.Valid) (h : p = q ∨ p.isStrictlyCompatible q = true) :
    (∀ w, (p.add q).test w ↔ p.test w ∨ q.test w) ↔ p.blurs q = false := by
  constructor
  · intro hall
    cases hblurs : p.blurs q with
    | false => rfl
    | true =>
      have hagrees : p.agrees q p.value := by simp [agrees]
      have hone := test_or_test_of_blurs h hblurs (w := p.value)
      exact absurd ⟨hblurs, hagrees⟩ ((test_add hp hq h).1 ((hall p.value).2 hone)).2
  · intro hblurs w
    simp [test_add hp hq h, hblurs]

/-! ## A rule pattern on its way through the tests of the tables -/

/-- The results of `categorize_match`. -/
inductive MatchCategory
  | matches
  | conflicts
  | consistent
deriving DecidableEq

/-- `categorize_match` of a pattern that is not negated. -/
def categorizeEqualOp (p q : BitPattern κ) : MatchCategory :=
  let mask := p.mask &&& q.mask
  match q.op with
  | .eq => if mask &&& (p.value ^^^ q.value) ≠ 0 then .conflicts else .matches
  | .ne => if mask &&& (p.value ^^^ ~~~q.value) ≠ 0 then .matches else .consistent

def categorizeMatch (p q : BitPattern κ) : MatchCategory :=
  match p.op with
  | .eq => p.categorizeEqualOp q
  | .ne =>
    if categorizeEqualOp { p with op := .eq } q = .matches then .matches else .consistent

def removeOverlappingBits (p q : BitPattern κ) : BitPattern κ :=
  let mask := ~~~(p.mask &&& q.mask)
  ⟨mask &&& p.mask, mask &&& p.value, p.op, p.column⟩

def unionMaskAndValue (p q : BitPattern κ) : BitPattern κ :=
  ⟨p.mask ||| q.mask, p.value ||| q.value, p.op, p.column⟩

/-- The pattern has some of the significant bits of the rule. -/
structure PartOf (p rule : BitPattern κ) : Prop where
  op : p.op = rule.op
  mask : ∀ i, p.mask.getLsbD i = true → rule.mask.getLsbD i = true
  value : ∀ i, p.value.getLsbD i = (p.mask.getLsbD i && rule.value.getLsbD i)

variable {rule : BitPattern κ}

theorem partOf_self (h : rule.Valid) : rule.PartOf rule :=
  ⟨rfl, fun _ hi => hi, fun i => by rw [← BitVec.getLsbD_and, BitVec.and_comm, h]⟩

theorem mask_removeOverlappingBits (p q : BitPattern κ) (i : ℕ) :
    (p.removeOverlappingBits q).mask.getLsbD i = (p.mask.getLsbD i && !q.mask.getLsbD i) := by
  simp only [removeOverlappingBits, BitVec.getLsbD_and, BitVec.getLsbD_not]
  cases hi : p.mask.getLsbD i with
  | false => simp
  | true => simp [BitVec.lt_of_getLsbD hi]

theorem PartOf.removeOverlappingBits (h : p.PartOf rule) (q : BitPattern κ) :
    (p.removeOverlappingBits q).PartOf rule where
  op := h.op
  mask i hi := by
    rw [mask_removeOverlappingBits, Bool.and_eq_true] at hi
    exact h.mask i hi.1
  value i := by
    simp only [BitPattern.removeOverlappingBits, BitVec.getLsbD_and, h.value, Bool.and_assoc]

theorem and_mask_eq_iff (hp : p.Valid) : w &&& p.mask = p.value ↔
    ∀ i, p.mask.getLsbD i = true → w.getLsbD i = p.value.getLsbD i := by
  constructor
  · intro hw i hi
    rw [← hw, BitVec.getLsbD_and, hi, Bool.and_true]
  · intro hw
    refine BitVec.eq_of_getLsbD_eq fun i _ => ?_
    rw [← hp, BitVec.getLsbD_and, BitVec.getLsbD_and]
    cases hi : p.mask.getLsbD i with
    | false => rw [Bool.and_false, Bool.and_false]
    | true => rw [hw i hi]

theorem PartOf.test_iff (h : p.PartOf rule) (hop : p.op = .eq) :
    p.test w ↔ ∀ i, p.mask.getLsbD i = true → w.getLsbD i = rule.value.getLsbD i := by
  have hvalid : p.Valid := valid_iff.2 fun i hi => by
    rw [h.value, Bool.and_eq_true] at hi
    exact hi.1
  rw [test_eq hop hvalid, and_mask_eq_iff hvalid]
  refine forall_congr' fun i => imp_congr_right fun hi => ?_
  rw [h.value, hi, Bool.true_and]

theorem test_iff_of_ne (hp : p.Valid) (hop : p.op = .ne) : p.test w ↔ p.mask = 0 ∨
    ∃ i, p.mask.getLsbD i = true ∧ w.getLsbD i ≠ p.value.getLsbD i := by
  rw [test_ne hop, Ne, and_mask_eq_iff hp]
  push Not
  rfl

end BitPattern

/-- `Row`.  For MIPS the action is the pair of `action` and `arch`. -/
structure Row (κ α : Type) where
  patterns : List (BitPattern κ)
  action : α
deriving DecidableEq

namespace Row

variable {κ α : Type}

def test (row : Row κ α) (w : Word) : Bool := row.patterns.all (·.test w)

def addPattern (row : Row κ α) (p : BitPattern κ) : Row κ α :=
  { row with patterns := row.patterns ++ [p] }

end Row

end DecoderGen

end SandboxingNaCl
