import SandboxingNaCl.Lib.Bitmap
import Mathlib.Data.List.Range

/-!
# Address sets

`address_set.cc` of the MIPS and of the ARM validator.  The iterator looks for the next bit that is
set, and the loop over a set goes on until it is equal to `End()`.  On MIPS that is the place of the
last word, so that the loop stops before it, and where the bits fill whole words `Advance` looks at
one word more than there are.
-/

namespace SandboxingNaCl

/-- `AddressSet::Iterator` without its set. -/
structure AddressSetIterator where
  index : ℕ
  shift : ℕ
deriving DecidableEq

/-- In what the two implementations differ. -/
structure AddressSetShape where
  /-- The length of `bits_`. -/
  words : ℕ
  /-- `max_index` of `Advance`. -/
  maxIndex : ℕ
  /-- The arguments of the constructor in `End`. -/
  stop : AddressSetIterator
  /-- What `Advance` does behind its loop. -/
  atEnd : AddressSetIterator → AddressSetIterator

structure AddressSet where
  shape : AddressSetShape
  base : BitVec 32
  size : BitVec 32
  bits : Bitmap 32

namespace MipsAddressSet

/-- `end_ - base_`, with `UP_ALLIGN`. -/
def endOffset (base size : BitVec 32) : ℕ := (base + 4 * ((size + 4 - 1) / 4) - 4 - base).toNat

def stop (base size : BitVec 32) : AddressSetIterator where
  index := endOffset base size / 128
  shift := endOffset base size / 4 % 32

def shape (base size : BitVec 32) : AddressSetShape where
  words := endOffset base size / 128 + 1
  maxIndex := size.toNat / 128 + 1
  stop := stop base size
  atEnd it := if it.index = size.toNat / 128 + 1 then stop base size else it

end MipsAddressSet

namespace ArmAddressSet

def shape (_base size : BitVec 32) : AddressSetShape where
  words := ((size + 3) / 4).toNat
  maxIndex := ((size + 3) / 4).toNat
  stop := ⟨((size + 3) / 4).toNat, 0⟩
  atEnd := id

end ArmAddressSet

/-- The inner loop of `Advance`; it ends with a bit or with no bits left. -/
def skipZeros (word : BitVec 32) (shift : ℕ) : Option ℕ :=
  if word = 0 then none
  else if word &&& 1 ≠ 0 then some shift
  else if word &&& 0xFFFF = 0 then skipZeros (word >>> 16) (shift + 16)
  else if word &&& 0xFF = 0 then skipZeros (word >>> 8) (shift + 8)
  else skipZeros (word >>> 1) (shift + 1)
termination_by word.toNat
decreasing_by
  all_goals
    have hne : ¬ word = 0 := by assumption
    have hpos : 0 < word.toNat := Nat.pos_of_ne_zero fun h => hne (BitVec.eq_of_toNat_eq h)
    rw [BitVec.toNat_ushiftRight, Nat.shiftRight_eq_div_pow]
    exact Nat.div_lt_self hpos (by decide)

namespace AddressSet

/-- The constructor. -/
def make (shape : BitVec 32 → BitVec 32 → AddressSetShape) (base size : BitVec 32) :
    AddressSet where
  shape := shape base size
  base := base
  size := size
  bits := Bitmap.allocate 32 (shape base size).words

/-- `Add`, which fails where there is no such element of the array. -/
def add (set : AddressSet) (address : BitVec 32) : Option AddressSet :=
  if address - set.base < set.size then
    (set.bits.setBit ((address - set.base).toNat / 4)).map fun bits => { set with bits }
  else some set

def contains (set : AddressSet) (address : BitVec 32) : Option Bool :=
  if address - set.base < set.size then set.bits.isBitSet ((address - set.base).toNat / 4)
  else some false

/-- `word` of `Advance`.  Nothing is read where the shift is past the element. -/
def word (set : AddressSet) (index shift : ℕ) : Option (BitVec 32) :=
  if 31 < shift then some 0 else set.bits.words[index]?.map fun (word : BitVec 32) => word >>> shift

/-- `Iterator::Advance`, from the given members. -/
def advance (set : AddressSet) (index shift : ℕ) : Option AddressSetIterator :=
  if index < set.shape.maxIndex then
    match set.word index shift with
    | none => none
    | some word =>
      match skipZeros word shift with
      | some shift => some ⟨index, shift⟩
      | none => set.advance (index + 1) 0
  else some (set.shape.atEnd ⟨index, shift⟩)
termination_by set.shape.maxIndex - index

def «begin» (set : AddressSet) : Option AddressSetIterator := set.advance 0 0

def «end» (set : AddressSet) : Option AddressSetIterator :=
  set.advance set.shape.stop.index set.shape.stop.shift

def next (set : AddressSet) (it : AddressSetIterator) : Option AddressSetIterator :=
  set.advance it.index (it.shift + 1)

def getAddress (set : AddressSet) (it : AddressSetIterator) : BitVec 32 :=
  set.base + 4 * BitVec.ofNat 32 (it.index * 32 + it.shift)

/-- The addresses at which a loop over the set stops from `it` on, if it comes to its end in less
than `fuel` steps. -/
def visits (set : AddressSet) : ℕ → AddressSetIterator → Option (List (BitVec 32))
  | 0, _ => none
  | fuel + 1, it =>
    match set.end with
    | none => none
    | some stop =>
      if it = stop then some []
      else
        match set.next it with
        | none => none
        | some it' => (set.visits fuel it').map (set.getAddress it :: ·)

end AddressSet

section

variable {word : BitVec 32} {shift k : ℕ}

theorem exists_lowest_of_shift {mask : BitVec 32} {n : ℕ} {r : Option ℕ} (hne : word ≠ 0)
    (hand : word &&& mask = 0) (hmask : ∀ k < n, mask.getLsbD k = true)
    (ih : (word >>> n = 0 ∧ r = none) ∨ ∃ k, (word >>> n).getLsbD k = true ∧
      (∀ j < k, (word >>> n).getLsbD j = false) ∧ r = some (shift + n + k)) :
    ∃ k, word.getLsbD k = true ∧ (∀ j < k, word.getLsbD j = false) ∧ r = some (shift + k) := by
  have hlow (k : ℕ) (hk : k < n) : word.getLsbD k = false := by
    have hbit := congrArg (BitVec.getLsbD · k) hand
    rw [BitVec.getLsbD_and, hmask k hk, Bool.and_true] at hbit
    exact hbit.trans BitVec.getLsbD_zero
  obtain ⟨hzero, -⟩ | ⟨k, hk, hfirst, hr⟩ := ih
  · refine absurd (BitVec.eq_of_getLsbD_eq fun i _ => ?_) hne
    refine Eq.trans ?_ BitVec.getLsbD_zero.symm
    rcases Nat.lt_or_ge i n with hlt | hge
    · exact hlow i hlt
    · have hbit := congrArg (BitVec.getLsbD · (i - n)) hzero
      rw [BitVec.getLsbD_ushiftRight, Nat.add_sub_cancel' hge] at hbit
      exact hbit.trans BitVec.getLsbD_zero
  · rw [BitVec.getLsbD_ushiftRight] at hk
    refine ⟨n + k, hk, fun j hj => ?_, by rw [hr, Nat.add_assoc]⟩
    rcases Nat.lt_or_ge j n with hlt | hge
    · exact hlow j hlt
    · have hbit := hfirst (j - n) (by omega)
      rwa [BitVec.getLsbD_ushiftRight, Nat.add_sub_cancel' hge] at hbit

theorem skipZeros_spec (word : BitVec 32) (shift : ℕ) :
    (word = 0 ∧ skipZeros word shift = none) ∨
      ∃ k, word.getLsbD k = true ∧ (∀ j < k, word.getLsbD j = false) ∧
        skipZeros word shift = some (shift + k) := by
  fun_induction skipZeros word shift with
  | case1 shift => exact Or.inl ⟨rfl, rfl⟩
  | case2 word shift hne hone =>
    refine Or.inr ⟨0, ?_, fun j hj => absurd hj (Nat.not_lt_zero j), rfl⟩
    by_contra hbit
    refine hone (BitVec.eq_of_getLsbD_eq fun i _ => ?_)
    rcases Nat.eq_zero_or_pos i with rfl | hi
    · simpa using hbit
    · simp [Nat.pos_iff_ne_zero.1 hi]
  | case3 word shift hne hone hmask ih =>
    exact Or.inr (exists_lowest_of_shift hne hmask (by decide) ih)
  | case4 word shift hne hone hmask hmask' ih =>
    exact Or.inr (exists_lowest_of_shift hne hmask' (by decide) ih)
  | case5 word shift hne hone hmask hmask' ih =>
    exact Or.inr (exists_lowest_of_shift hne (not_not.1 hone) (by decide) ih)

end

namespace AddressSet

section

variable {set : AddressSet} {index shift q : ℕ}

theorem div_lt_of_test (h : set.bits.test q = true) : q / 32 < set.bits.words.length := by
  by_contra hge
  rw [Bitmap.test, List.getElem?_eq_none (by omega)] at h
  simp at h

theorem exists_word (hlen : index < set.bits.words.length ∨ shift = 32) (hshift : shift ≤ 32) :
    ∃ word, set.word index shift = some word ∧ ∀ k, word.getLsbD k =
      (decide (shift + k < 32) && set.bits.test (32 * index + shift + k)) := by
  unfold word
  by_cases hpast : 31 < shift
  · refine ⟨0, if_pos hpast, fun k => ?_⟩
    rw [decide_eq_false (by omega : ¬ shift + k < 32), Bool.false_and]
    exact BitVec.getLsbD_zero
  · have hlt : index < set.bits.words.length := by omega
    refine ⟨set.bits.words[index] >>> shift, ?_, fun k => ?_⟩
    · rw [if_neg hpast, List.getElem?_eq_getElem hlt]
      rfl
    · rw [BitVec.getLsbD_ushiftRight]
      by_cases hk : shift + k < 32
      · have hdiv : (32 * index + shift + k) / 32 = index := by omega
        have hmod : (32 * index + shift + k) % 32 = shift + k := by omega
        rw [decide_eq_true hk, Bool.true_and, Bitmap.test, hdiv, hmod, List.getElem?_eq_getElem hlt]
        rfl
      · rw [decide_eq_false hk, Bool.false_and]
        exact BitVec.getLsbD_of_ge _ _ (by omega)

theorem advance_step (hmax : index < set.shape.maxIndex) (hshift : shift ≤ 32)
    (hlen : index < set.bits.words.length ∨ shift = 32) :
    (∃ q, 32 * index + shift ≤ q ∧ q < 32 * index + 32 ∧ set.bits.test q = true ∧
      (∀ j < q, 32 * index + shift ≤ j → set.bits.test j = false) ∧
      set.advance index shift = some ⟨q / 32, q % 32⟩) ∨
    ((∀ j < 32 * index + 32, 32 * index + shift ≤ j → set.bits.test j = false) ∧
      set.advance index shift = set.advance (index + 1) 0) := by
  obtain ⟨word, hword, hbits⟩ := exists_word hlen hshift
  have hbit (j : ℕ) (hj : j < 32 * index + 32) (hle : 32 * index + shift ≤ j) :
      word.getLsbD (j - (32 * index + shift)) = set.bits.test j := by
    rw [hbits, decide_eq_true (by omega), Bool.true_and, Nat.add_sub_cancel' hle]
  rw [advance, if_pos hmax, hword]
  dsimp only
  obtain ⟨rfl, hskip⟩ | ⟨k, hk, hfirst, hskip⟩ := skipZeros_spec word shift
  · right
    rw [hskip]
    refine ⟨fun j hj hle => ?_, rfl⟩
    rw [← hbit j hj hle]
    exact BitVec.getLsbD_zero
  · left
    rw [hbits, Bool.and_eq_true, decide_eq_true_iff] at hk
    refine ⟨32 * index + shift + k, by omega, by omega, hk.2, fun j hj hle => ?_, ?_⟩
    · rw [← hbit j (by omega) hle]
      exact hfirst _ (by omega)
    · rw [hskip]
      have hdiv : (32 * index + shift + k) / 32 = index := by omega
      have hmod : (32 * index + shift + k) % 32 = shift + k := by omega
      rw [hdiv, hmod]

theorem advance_of_test (hq : set.bits.test q = true) (hle : 32 * index + shift ≤ q)
    (hfirst : ∀ j < q, 32 * index + shift ≤ j → set.bits.test j = false)
    (hmax : q / 32 < set.shape.maxIndex) (hshift : shift ≤ 32) :
    set.advance index shift = some ⟨q / 32, q % 32⟩ := by
  have hlen := div_lt_of_test hq
  induction hn : q / 32 - index using Nat.strong_induction_on generalizing index shift with
  | _ n ih =>
    obtain ⟨q', hle', hlt', hq', hfirst', hadv⟩ | ⟨hclear, hadv⟩ :=
      @advance_step set index shift (by omega) hshift (Or.inl (by omega))
    · rcases Nat.lt_trichotomy q q' with hlt | rfl | hlt
      · simp [hfirst' q hlt hle] at hq
      · exact hadv
      · simp [hfirst q' hlt hle'] at hq'
    · have hge : 32 * index + 32 ≤ q := by
        by_contra hlt
        simp [hclear q (by omega) hle] at hq
      rw [hadv]
      exact ih _ (by omega) (by omega) (fun j hj hle => hfirst j hj (by omega)) (by omega) rfl

theorem advance_of_clear (hclear : ∀ j, 32 * index + shift ≤ j → set.bits.test j = false)
    (hmax : index < set.shape.maxIndex) (hlen : set.shape.maxIndex ≤ set.bits.words.length)
    (hshift : shift ≤ 32) :
    set.advance index shift = some (set.shape.atEnd ⟨set.shape.maxIndex, 0⟩) := by
  induction hn : set.shape.maxIndex - index generalizing index shift with
  | zero => omega
  | succ n ih =>
    obtain ⟨q, hle, -, hq, -, -⟩ | ⟨-, hadv⟩ := advance_step hmax hshift (Or.inl (by omega))
    · simp [hclear q hle] at hq
    · rw [hadv]
      by_cases hlt : index + 1 < set.shape.maxIndex
      · exact ih (fun j hj => hclear j (by omega)) hlt (by omega) (by omega)
      · obtain heq : index + 1 = set.shape.maxIndex := by omega
        rw [advance, if_neg (by omega), heq]

theorem advance_eq_none (hclear : ∀ j, 32 * index + shift ≤ j → set.bits.test j = false)
    (hlen : set.bits.words.length < set.shape.maxIndex) (hindex : index < set.bits.words.length)
    (hshift : shift ≤ 32) : set.advance index shift = none := by
  induction hn : set.bits.words.length - index generalizing index shift with
  | zero => omega
  | succ n ih =>
    obtain ⟨q, hle, -, hq, -, -⟩ | ⟨-, hadv⟩ :=
      @advance_step set index shift (by omega) hshift (Or.inl hindex)
    · simp [hclear q hle] at hq
    · rw [hadv]
      by_cases hlt : index + 1 < set.bits.words.length
      · exact ih (fun j hj => hclear j (by omega)) hlt (by omega) (by omega)
      · have hnone : set.bits.words[index + 1]? = none := List.getElem?_eq_none (by omega)
        rw [advance, if_pos (by omega), word, if_neg (by omega), hnone]
        rfl

theorem visits_eq {stop : AddressSetIterator} (hend : set.end = some stop)
    (hatEnd : set.shape.atEnd ⟨set.shape.maxIndex, 0⟩ = stop)
    (hlen : set.shape.maxIndex = set.bits.words.length)
    (hne : ∀ q, set.bits.test q = true → (⟨q / 32, q % 32⟩ : AddressSetIterator) ≠ stop)
    (hindex : index < set.shape.maxIndex) (hshift : shift ≤ 32) {fuel : ℕ}
    (hfuel : set.bits.capacity - (32 * index + shift) < fuel) :
    ∃ it, set.advance index shift = some it ∧ set.visits fuel it =
      some ((set.bits.elements (32 * index + shift)).map
        fun q => set.getAddress ⟨q / 32, q % 32⟩) := by
  induction fuel generalizing index shift with
  | zero => omega
  | succ fuel ih =>
    obtain ⟨hclear, hnil⟩ | ⟨q, hle, hq, hfirst, hcons⟩ :=
      Bitmap.elements_cases (by decide) set.bits (32 * index + shift)
    · refine ⟨stop, ?_, ?_⟩
      · rw [advance_of_clear hclear hindex (Nat.le_of_eq hlen) hshift, hatEnd]
      · rw [visits, hend, hnil]
        exact if_pos rfl
    · have hdiv := div_lt_of_test hq
      refine ⟨⟨q / 32, q % 32⟩,
        advance_of_test hq hle hfirst (by omega) hshift, ?_⟩
      obtain ⟨it, hadv, hvisits⟩ := @ih (q / 32) (q % 32 + 1) (by omega) (by omega) (by
        have hcapacity : set.bits.capacity = 32 * set.bits.words.length := rfl
        omega)
      have hnext : 32 * (q / 32) + (q % 32 + 1) = q + 1 := by omega
      rw [visits, hend]
      dsimp only
      rw [if_neg (hne q hq), next, hadv]
      dsimp only
      rw [hvisits, hcons, hnext]
      rfl

theorem visits_lt {last fuel : ℕ} {it : AddressSetIterator} {visited : List (BitVec 32)}
    (hlast : set.bits.test last = true) (hend : set.end = some ⟨last / 32, last % 32⟩)
    (hmax : last / 32 < set.shape.maxIndex) (hle : 32 * index + shift ≤ last) (hshift : shift ≤ 32)
    (hadv : set.advance index shift = some it) (h : set.visits fuel it = some visited) :
    ∀ x ∈ visited, ∃ q < last, x = set.getAddress ⟨q / 32, q % 32⟩ := by
  induction fuel generalizing index shift it visited with
  | zero => cases h
  | succ fuel ih =>
    obtain ⟨hclear, -⟩ | ⟨q, hq_le, hq, hfirst, -⟩ :=
      Bitmap.elements_cases (by decide) set.bits (32 * index + shift)
    · simp [hclear last hle] at hlast
    · have hq_last : q ≤ last := by
        by_contra hlt
        simp [hfirst last (by omega) hle] at hlast
      rw [advance_of_test hq hq_le hfirst (by omega) hshift] at hadv
      cases hadv
      rw [visits, hend] at h
      dsimp only at h
      obtain rfl | hlt := Nat.eq_or_lt_of_le hq_last
      · rw [if_pos rfl] at h
        cases h
        simp
      · have hne : (⟨q / 32, q % 32⟩ : AddressSetIterator) ≠ ⟨last / 32, last % 32⟩ := by
          intro heq
          rw [AddressSetIterator.mk.injEq] at heq
          omega
        rw [if_neg hne] at h
        cases hnext : set.next ⟨q / 32, q % 32⟩ with
        | none =>
          rw [hnext] at h
          cases h
        | some it' =>
          rw [hnext] at h
          obtain ⟨rest, hrest, rfl⟩ := Option.map_eq_some_iff.1 h
          intro x hx
          obtain rfl | hx := List.mem_cons.1 hx
          · exact ⟨q, hlt, rfl⟩
          · exact ih (by dsimp only; omega) (by dsimp only; omega) hnext hrest x hx

end

end AddressSet

def InRange (base size address : BitVec 32) : Prop :=
  base.toNat ≤ address.toNat ∧ address.toNat < base.toNat + size.toNat

def wordAddress (address : BitVec 32) : ℕ := address.toNat / 4 * 4

/-- The word of an address of the range that has been added. -/
def IsAdded (base size : BitVec 32) (adds : List (BitVec 32)) (word : ℕ) : Prop :=
  ∃ address ∈ adds, InRange base size address ∧ wordAddress address = word

/-- After these calls of `Add`, a loop over the set stops at the words of the addresses in the
range, in ascending order, `Contains` answers for the word of each address, and no element that is
not there is looked at. -/
def AddressSet.Right (shape : BitVec 32 → BitVec 32 → AddressSetShape) (base size : BitVec 32)
    (adds : List (BitVec 32)) : Prop :=
  ∃ set, adds.foldlM AddressSet.add (.make shape base size) = some set ∧
    (∃ it fuel visited, set.begin = some it ∧ set.visits fuel it = some visited ∧
      (visited.map BitVec.toNat).Pairwise (· < ·) ∧
      ∀ word, word ∈ visited.map BitVec.toNat ↔ IsAdded base size adds word) ∧
    ∀ address, ∃ b, set.contains address = some b ∧
      (b = true ↔ IsAdded base size adds (wordAddress address))

def LastFree (base size : BitVec 32) (adds : List (BitVec 32)) : Prop :=
  ∀ address ∈ adds, address - base < size → (address - base).toNat / 4 ≠ (size.toNat - 1) / 4

/-- No address is added that is in the range because that goes on at zero. -/
def NoWrap (base size : BitVec 32) (adds : List (BitVec 32)) : Prop :=
  ∀ address ∈ adds, address - base < size → base ≤ address

namespace AddressSet

section

variable {shape : BitVec 32 → BitVec 32 → AddressSetShape} {set set' : AddressSet}
  {base size address : BitVec 32} {adds : List (BitVec 32)} {q : ℕ}

/-- What the calls of `Add` leave. -/
structure Filled (shape : BitVec 32 → BitVec 32 → AddressSetShape) (base size : BitVec 32)
    (adds : List (BitVec 32)) (set : AddressSet) : Prop where
  shape_eq : set.shape = shape base size
  base_eq : set.base = base
  size_eq : set.size = size
  length_eq : set.bits.words.length = (shape base size).words
  test_iff : ∀ q, set.bits.test q = true ↔
    ∃ address ∈ adds, address - base < size ∧ (address - base).toNat / 4 = q

theorem filled_make (shape : BitVec 32 → BitVec 32 → AddressSetShape) (base size : BitVec 32) :
    Filled shape base size [] (make shape base size) where
  shape_eq := rfl
  base_eq := rfl
  size_eq := rfl
  length_eq := List.length_replicate
  test_iff q := by simp [make]

theorem Filled.add (h : Filled shape base size adds set) (hadd : set.add address = some set') :
    Filled shape base size (adds ++ [address]) set' := by
  unfold AddressSet.add at hadd
  rw [h.base_eq, h.size_eq] at hadd
  by_cases hin : address - base < size
  · rw [if_pos hin] at hadd
    obtain ⟨bits, hbits, rfl⟩ := Option.map_eq_some_iff.1 hadd
    refine ⟨h.shape_eq, rfl, rfl, (Bitmap.length_update hbits).trans h.length_eq, fun q => ?_⟩
    change bits.test q = true ↔ _
    rw [Bitmap.test_setBit (by decide) hbits, Bool.or_eq_true, decide_eq_true_iff, h.test_iff]
    simp only [List.mem_append, List.mem_singleton, or_and_right, exists_or, exists_eq_left]
    rw [or_comm, eq_comm, and_iff_right hin]
  · rw [if_neg hin] at hadd
    cases hadd
    refine ⟨h.shape_eq, h.base_eq, h.size_eq, h.length_eq, fun q => ?_⟩
    rw [h.test_iff]
    simp only [List.mem_append, List.mem_singleton, or_and_right, exists_or, exists_eq_left]
    simp [hin]

theorem Filled.foldlM {added : List (BitVec 32)} (h : Filled shape base size added set)
    (hadds : adds.foldlM AddressSet.add set = some set') :
    Filled shape base size (added ++ adds) set' := by
  induction adds generalizing set added with
  | nil =>
    cases hadds
    rwa [List.append_nil]
  | cons address adds ih =>
    rw [List.foldlM_cons] at hadds
    cases hadd : set.add address with
    | none =>
      rw [hadd] at hadds
      cases hadds
    | some set₁ =>
      rw [hadd] at hadds
      rw [List.append_cons]
      exact ih (h.add hadd) hadds

theorem filled_of_foldlM (h : adds.foldlM AddressSet.add (make shape base size) = some set) :
    Filled shape base size adds set :=
  (filled_make shape base size).foldlM h

theorem exists_filled (hroom : size.toNat ≤ 128 * (shape base size).words)
    (adds : List (BitVec 32)) :
    ∃ set, adds.foldlM AddressSet.add (make shape base size) = some set := by
  suffices hfrom : ∀ added set, Filled shape base size added set →
      ∃ set', adds.foldlM AddressSet.add set = some set' from
    hfrom [] _ (filled_make shape base size)
  induction adds with
  | nil => exact fun _ set _ => ⟨set, rfl⟩
  | cons address adds ih =>
    intro added set h
    obtain ⟨set₁, hadd⟩ : ∃ set₁, set.add address = some set₁ := by
      unfold AddressSet.add
      rw [h.base_eq, h.size_eq]
      by_cases hin : address - base < size
      · have hlt : (address - base).toNat / 4 < set.bits.capacity := by
          rw [BitVec.lt_def] at hin
          rw [Bitmap.capacity, h.length_eq]
          omega
        obtain ⟨bits, hbits⟩ := Bitmap.exists_setBit hlt
        rw [if_pos hin, hbits]
        exact ⟨_, rfl⟩
      · exact ⟨set, if_neg hin⟩
    rw [List.foldlM_cons, hadd]
    exact ih _ set₁ (h.add hadd)

theorem Filled.contains_eq (h : Filled shape base size adds set) (hin : address - base < size)
    {b : Bool} (hb : set.contains address = some b) :
    b = true ↔ ∃ a ∈ adds, a - base < size ∧
      (a - base).toNat / 4 = (address - base).toNat / 4 := by
  rw [← h.test_iff]
  unfold AddressSet.contains at hb
  rw [h.base_eq, h.size_eq, if_pos hin] at hb
  by_cases hlt : (address - base).toNat / 4 < set.bits.capacity
  · rw [Bitmap.isBitSet_eq (by decide) hlt, Option.some.injEq] at hb
    rw [hb]
  · have hge : set.bits.words.length ≤ (address - base).toNat / 4 / 32 := by
      rw [Bitmap.capacity] at hlt
      omega
    rw [Bitmap.isBitSet, List.getElem?_eq_none hge] at hb
    cases hb

theorem wordAddress_eq (hbase : base.toNat % 4 = 0) (hle : base ≤ address) :
    wordAddress address = base.toNat + 4 * ((address - base).toNat / 4) := by
  rw [BitVec.le_def] at hle
  rw [wordAddress, BitVec.toNat_sub]
  omega

theorem inRange_iff (hle : base ≤ address) : InRange base size address ↔ address - base < size := by
  rw [BitVec.le_def] at hle
  rw [InRange, BitVec.lt_def, BitVec.toNat_sub]
  omega

theorem isAdded_iff (hbase : base.toNat % 4 = 0) (hwrap : NoWrap base size adds) {word : ℕ} :
    IsAdded base size adds word ↔ ∃ address ∈ adds, address - base < size ∧
      base.toNat + 4 * ((address - base).toNat / 4) = word := by
  constructor
  · rintro ⟨address, hmem, hin, hword⟩
    have hle : base ≤ address := BitVec.le_def.2 hin.1
    exact ⟨address, hmem, (inRange_iff hle).1 hin, (wordAddress_eq hbase hle).symm.trans hword⟩
  · rintro ⟨address, hmem, hin, hword⟩
    have hle := hwrap address hmem hin
    exact ⟨address, hmem, (inRange_iff hle).2 hin, (wordAddress_eq hbase hle).trans hword⟩

theorem toNat_getAddress (hlt : set.base.toNat + 4 * q < 2 ^ 32) :
    (set.getAddress ⟨q / 32, q % 32⟩).toNat = set.base.toNat + 4 * q := by
  have hdiv : q / 32 * 32 + q % 32 = q := by omega
  have hfour : (4 : BitVec 32).toNat = 4 := rfl
  rw [getAddress]
  dsimp only
  rw [hdiv, BitVec.toNat_add, BitVec.toNat_mul, BitVec.toNat_ofNat, hfour]
  omega

theorem Filled.toNat_getAddress (h : Filled shape base size adds set)
    (hwrap : NoWrap base size adds) (hq : set.bits.test q = true) :
    (set.getAddress ⟨q / 32, q % 32⟩).toNat = base.toNat + 4 * q := by
  obtain ⟨address, hmem, hin, hword⟩ := (h.test_iff q).1 hq
  have hle := BitVec.le_def.1 (hwrap address hmem hin)
  have hlt := address.isLt
  rw [BitVec.toNat_sub] at hword
  rw [AddressSet.toNat_getAddress (by rw [h.base_eq]; omega), h.base_eq]

theorem Filled.contains_right (h : Filled shape base size adds set) (hbase : base.toNat % 4 = 0)
    (hroom : size.toNat ≤ 128 * (shape base size).words) (hwrap : NoWrap base size adds)
    (hlast : 4 ∣ size.toNat ∨ LastFree base size adds) (address : BitVec 32) :
    ∃ b, set.contains address = some b ∧
      (b = true ↔ IsAdded base size adds (wordAddress address)) := by
  rw [isAdded_iff hbase hwrap]
  by_cases hin : address - base < size
  · have hlt : (address - base).toNat / 4 < set.bits.capacity := by
      rw [BitVec.lt_def] at hin
      rw [Bitmap.capacity, h.length_eq]
      omega
    have hcontains : set.contains address = some (set.bits.test ((address - base).toNat / 4)) := by
      rw [AddressSet.contains, h.base_eq, h.size_eq, if_pos hin]
      exact Bitmap.isBitSet_eq (by decide) hlt
    refine ⟨_, hcontains, (h.contains_eq hin hcontains).trans ?_⟩
    refine exists_congr fun a => and_congr_right fun ha => and_congr_right fun hain => ?_
    have hle := BitVec.le_def.1 (hwrap a ha hain)
    rw [wordAddress, BitVec.toNat_sub, BitVec.toNat_sub]
    have halt := a.isLt
    have hlt := address.isLt
    omega
  · refine ⟨false, ?_, iff_of_false Bool.false_ne_true ?_⟩
    · rw [AddressSet.contains, h.base_eq, h.size_eq, if_neg hin]
    · -- The word is the last one, and the address behind the end of the range.
      rintro ⟨a, ha, hain, hword⟩
      have hle := BitVec.le_def.1 (hwrap a ha hain)
      rw [BitVec.lt_def, BitVec.toNat_sub] at hin hain
      rw [wordAddress, BitVec.toNat_sub] at hword
      have halt := a.isLt
      have hlt := address.isLt
      obtain hfour | hfree := hlast
      · omega
      · refine hfree a ha (BitVec.lt_def.2 (by rw [BitVec.toNat_sub]; exact hain)) ?_
        rw [BitVec.toNat_sub]
        omega

theorem right_of_end (hbase : base.toNat % 4 = 0)
    (hroom : size.toNat ≤ 128 * (shape base size).words) (hpos : 0 < (shape base size).words)
    (hmax : (shape base size).maxIndex = (shape base size).words) (hwrap : NoWrap base size adds)
    (hlast : 4 ∣ size.toNat ∨ LastFree base size adds)
    (hend : ∀ set, Filled shape base size adds set → ∃ stop, set.end = some stop ∧
      (shape base size).atEnd ⟨(shape base size).maxIndex, 0⟩ = stop ∧
      ∀ q, set.bits.test q = true → (⟨q / 32, q % 32⟩ : AddressSetIterator) ≠ stop) :
    Right shape base size adds := by
  obtain ⟨set, hset⟩ := exists_filled hroom adds
  have h := filled_of_foldlM hset
  obtain ⟨stop, hstop, hatEnd, hne⟩ := hend set h
  rw [← h.shape_eq] at hatEnd
  have hlen : set.shape.maxIndex = set.bits.words.length := by
    rw [h.shape_eq, h.length_eq, hmax]
  have hindex : 0 < set.shape.maxIndex := by
    rw [h.shape_eq, hmax]
    exact hpos
  obtain ⟨it, hit, hvisits⟩ := @visits_eq set 0 0 stop hstop hatEnd hlen hne hindex (Nat.zero_le _)
    (set.bits.capacity + 1) (by omega)
  refine ⟨set, hset, ⟨it, _, _, hit, hvisits, ?_, fun word => ?_⟩,
    h.contains_right hbase hroom hwrap hlast⟩
  · rw [List.pairwise_map, List.pairwise_map]
    refine Bitmap.pairwise_elements.imp_of_mem fun {p q} hp hq hlt => ?_
    rw [h.toNat_getAddress hwrap ((Bitmap.mem_elements (by decide)).1 hp).2,
      h.toNat_getAddress hwrap ((Bitmap.mem_elements (by decide)).1 hq).2]
    omega
  · rw [isAdded_iff hbase hwrap, List.mem_map]
    simp only [List.mem_map, Bitmap.mem_elements (by decide : 0 < 32)]
    constructor
    · rintro ⟨x, ⟨q, ⟨-, hq⟩, rfl⟩, hword⟩
      obtain ⟨a, ha, hain, haq⟩ := (h.test_iff q).1 hq
      refine ⟨a, ha, hain, ?_⟩
      rw [haq, ← h.toNat_getAddress hwrap hq]
      exact hword
    · rintro ⟨a, ha, hain, hword⟩
      have hq := (h.test_iff _).2 ⟨a, ha, hain, rfl⟩
      refine ⟨_, ⟨_, ⟨Nat.zero_le _, hq⟩, rfl⟩, ?_⟩
      rw [h.toNat_getAddress hwrap hq]
      exact hword

theorem Right.noWrap (h : Right shape base size adds) (hbase : base.toNat % 4 = 0) :
    NoWrap base size adds := by
  obtain ⟨set, hset, -, hcontains⟩ := h
  have hfilled := filled_of_foldlM hset
  intro address hmem hin
  obtain ⟨b, hb, hiff⟩ := hcontains address
  have htrue : b = true := (hfilled.contains_eq hin hb).2 ⟨address, hmem, hin, rfl⟩
  obtain ⟨a, -, hrange, hword⟩ := hiff.1 htrue
  rw [BitVec.le_def]
  have hle := hrange.1
  rw [wordAddress, wordAddress] at hword
  omega

end

end AddressSet

section

variable {base size : BitVec 32} {adds : List (BitVec 32)}

namespace MipsAddressSet

open AddressSet

theorem endOffset_eq (hsize : 0 < size.toNat) :
    endOffset base size = 4 * ((size.toNat - 1) / 4) := by
  have hone : (1 : BitVec 32).toNat = 1 := rfl
  have hfour : (4 : BitVec 32).toNat = 4 := rfl
  have hlt := size.isLt
  unfold endOffset
  rw [BitVec.toNat_sub, BitVec.toNat_sub, BitVec.toNat_add, BitVec.toNat_mul, BitVec.toNat_udiv,
    BitVec.toNat_sub, BitVec.toNat_add, hone, hfour]
  omega

theorem stop_eq (hsize : 0 < size.toNat) :
    stop base size = ⟨(size.toNat - 1) / 4 / 32, (size.toNat - 1) / 4 % 32⟩ := by
  rw [stop, AddressSetIterator.mk.injEq, endOffset_eq hsize]
  omega

theorem words_eq (hsize : 0 < size.toNat) :
    (shape base size).words = (size.toNat - 1) / 4 / 32 + 1 := by
  change endOffset base size / 128 + 1 = _
  rw [endOffset_eq hsize]
  omega

theorem end_eq {set : AddressSet} (h : Filled shape base size adds set) (hsize : 0 < size.toNat) :
    set.end = set.advance ((size.toNat - 1) / 4 / 32) ((size.toNat - 1) / 4 % 32) := by
  rw [AddressSet.end, h.shape_eq]
  change set.advance (stop base size).index (stop base size).shift = _
  rw [stop_eq hsize]

theorem test_eq_false {set : AddressSet} (h : Filled shape base size adds set)
    (hfree : LastFree base size adds) (j : ℕ) (hj : (size.toNat - 1) / 4 ≤ j) :
    set.bits.test j = false := by
  by_contra htest
  obtain ⟨a, ha, hin, haj⟩ := (h.test_iff j).1 (by simpa using htest)
  refine hfree a ha hin ?_
  rw [BitVec.lt_def] at hin
  omega

theorem lastFree_of_right (h : Right shape base size adds) (hbase : base.toNat % 4 = 0)
    (hsize : 0 < size.toNat) : LastFree base size adds := by
  have hwrap := h.noWrap hbase
  obtain ⟨set, hset, ⟨it, fuel, visited, hbegin, hvisits, -, hvisited⟩, -⟩ := h
  have hfilled := filled_of_foldlM hset
  intro a ha hin hlast
  have htest := (hfilled.test_iff _).2 ⟨a, ha, hin, hlast⟩
  have hmax : (size.toNat - 1) / 4 / 32 < set.shape.maxIndex := by
    rw [hfilled.shape_eq]
    change _ < size.toNat / 128 + 1
    omega
  have hend := (end_eq hfilled hsize).trans
    (advance_of_test htest (by omega) (fun j hj hle => by omega) hmax (by omega))
  have hfront := visits_lt htest hend hmax (Nat.zero_le _) (Nat.zero_le _) hbegin hvisits
  have hword := wordAddress_eq hbase (hwrap a ha hin)
  obtain ⟨x, hx, hxa⟩ := List.mem_map.1
    ((hvisited _).2 ⟨a, ha, (inRange_iff (hwrap a ha hin)).2 hin, rfl⟩)
  obtain ⟨q, hq, rfl⟩ := hfront x hx
  have hlt := a.isLt
  have hle := BitVec.le_def.1 (hwrap a ha hin)
  rw [BitVec.toNat_sub] at hlast hword
  rw [AddressSet.toNat_getAddress (by rw [hfilled.base_eq]; omega), hfilled.base_eq, hword] at hxa
  omega

/-- Over a set whose last word is free, and whose bits do not fill the last element, the loop goes
to the end. -/
theorem right_iff (hbase : base.toNat % 4 = 0) (hsize : 0 < size.toNat) :
    Right shape base size adds ↔
      ¬ 128 ∣ size.toNat ∧ LastFree base size adds ∧ NoWrap base size adds := by
  have hwords := @words_eq base size hsize
  have hmax : (shape base size).maxIndex = size.toNat / 128 + 1 := rfl
  constructor
  · intro h
    have hfree := lastFree_of_right h hbase hsize
    refine ⟨fun hdvd => ?_, hfree, h.noWrap hbase⟩
    obtain ⟨set, hset, ⟨it, fuel, visited, -, hvisits, -⟩, -⟩ := h
    have hfilled := filled_of_foldlM hset
    have hlength := hfilled.length_eq
    have hend : set.end = none := by
      rw [end_eq hfilled hsize]
      refine advance_eq_none (fun j hj => test_eq_false hfilled hfree j (by omega)) ?_ ?_ (by omega)
      · rw [hfilled.shape_eq]
        omega
      · omega
    cases fuel with
    | zero => cases hvisits
    | succ fuel =>
      rw [visits, hend] at hvisits
      cases hvisits
  · rintro ⟨hdvd, hfree, hwrap⟩
    refine right_of_end hbase (by omega) (by omega) (by omega) hwrap (Or.inr hfree) fun set h => ?_
    have hlength := h.length_eq
    refine ⟨stop base size, ?_, if_pos rfl, fun q hq heq => ?_⟩
    · rw [end_eq h hsize, advance_of_clear (fun j hj => test_eq_false h hfree j (by omega))
        (by rw [h.shape_eq]; omega) (by rw [h.shape_eq]; omega) (by omega), h.shape_eq]
      exact congrArg some (if_pos rfl)
    · rw [stop_eq hsize, AddressSetIterator.mk.injEq] at heq
      have hfalse := test_eq_false h hfree q (by omega)
      rw [hq] at hfalse
      cases hfalse

end MipsAddressSet

namespace ArmAddressSet

open AddressSet

theorem words_eq (base size : BitVec 32) :
    (shape base size).words = (size.toNat + 3) % 2 ^ 32 / 4 := by
  have hthree : (3 : BitVec 32).toNat = 3 := rfl
  have hfour : (4 : BitVec 32).toNat = 4 := rfl
  change ((size + 3) / 4).toNat = _
  rw [BitVec.toNat_udiv, BitVec.toNat_add, hthree, hfour]

/-- The array has room for every size that can be rounded up; the end of a range that is not whole
words is not in the range for `Contains`. -/
theorem right_iff (hbase : base.toNat % 4 = 0) (hsize : 0 < size.toNat) :
    Right shape base size adds ↔ size.toNat + 3 < 2 ^ 32 ∧ NoWrap base size adds ∧
      (4 ∣ size.toNat ∨ LastFree base size adds) := by
  have hwords := words_eq base size
  have hlt := size.isLt
  constructor
  · intro h
    have hwrap := h.noWrap hbase
    obtain ⟨set, hset, -, hcontains⟩ := h
    have hfilled := filled_of_foldlM hset
    have hlength := hfilled.length_eq
    refine ⟨?_, hwrap, ?_⟩
    · by_contra hge
      obtain ⟨b, hb, -⟩ := hcontains base
      have hzero : (base - base).toNat = 0 := by rw [BitVec.sub_self]; rfl
      have hin : base - base < size := by
        rw [BitVec.lt_def, hzero]
        exact hsize
      have hnone : set.bits.words[0]? = none := List.getElem?_eq_none (by omega)
      rw [AddressSet.contains, hfilled.base_eq, hfilled.size_eq, if_pos hin, hzero,
        Bitmap.isBitSet, hnone] at hb
      cases hb
    · by_contra hnot
      rw [not_or] at hnot
      obtain ⟨hfour, hfree⟩ := hnot
      refine hfree fun a ha hin hlast => ?_
      have hle := BitVec.le_def.1 (hwrap a ha hin)
      have halt := a.isLt
      have hword := wordAddress_eq hbase (hwrap a ha hin)
      -- The last byte of the word.
      have hbyte : (BitVec.ofNat 32 (wordAddress a + 3)).toNat = wordAddress a + 3 := by
        rw [BitVec.toNat_ofNat, wordAddress]
        omega
      have hsame : wordAddress (BitVec.ofNat 32 (wordAddress a + 3)) = wordAddress a := by
        rw [wordAddress, hbyte, wordAddress]
        omega
      obtain ⟨b, hb, hiff⟩ := hcontains (BitVec.ofNat 32 (wordAddress a + 3))
      have hout : ¬ BitVec.ofNat 32 (wordAddress a + 3) - base < size := by
        rw [BitVec.lt_def, BitVec.toNat_sub, hbyte, hword, hlast]
        rw [BitVec.toNat_sub] at hlast
        omega
      rw [AddressSet.contains, hfilled.base_eq, hfilled.size_eq, if_neg hout,
        Option.some.injEq] at hb
      rw [← hb, hsame] at hiff
      exact Bool.false_ne_true (hiff.2 ⟨a, ha, (inRange_iff (hwrap a ha hin)).2 hin, rfl⟩)
  · rintro ⟨hfits, hwrap, hlast⟩
    refine right_of_end hbase (by omega) (by omega) rfl hwrap hlast fun set h => ?_
    have hlength := h.length_eq
    have hindex : ((size + 3) / 4).toNat = (shape base size).words := rfl
    refine ⟨⟨((size + 3) / 4).toNat, 0⟩, ?_, rfl, fun q hq heq => ?_⟩
    · rw [AddressSet.end, advance, if_neg (by rw [h.shape_eq]; exact lt_irrefl _), h.shape_eq]
      rfl
    · rw [AddressSetIterator.mk.injEq] at heq
      have hq_lt := div_lt_of_test hq
      omega

end ArmAddressSet

/-- Both sets are right for sizes that are not multiples of a bitmap element, as long as nobody adds
the last word or an address behind the end of the address space. -/
theorem addressSets_right_iff (base size : BitVec 32) (adds : List (BitVec 32))
    (hbase : base.toNat % 4 = 0) (hsize : 0 < size.toNat) :
    (AddressSet.Right MipsAddressSet.shape base size adds ∧
        AddressSet.Right ArmAddressSet.shape base size adds) ↔
      ¬ 128 ∣ size.toNat ∧ size.toNat + 3 < 2 ^ 32 ∧ LastFree base size adds ∧
        NoWrap base size adds := by
  rw [MipsAddressSet.right_iff hbase hsize, ArmAddressSet.right_iff hbase hsize]
  constructor
  · rintro ⟨⟨hdvd, hfree, hwrap⟩, hfits, -, -⟩
    exact ⟨hdvd, hfits, hfree, hwrap⟩
  · rintro ⟨hdvd, hfits, hfree, hwrap⟩
    exact ⟨⟨hdvd, hfree, hwrap⟩, hfits, hwrap, Or.inr hfree⟩

/-- One word of two, added by an address inside it. -/
theorem addressSets_right_first : AddressSet.Right MipsAddressSet.shape 0 8 [1] ∧
    AddressSet.Right ArmAddressSet.shape 0 8 [1] := by
  refine (addressSets_right_iff 0 8 [1] (by decide) (by decide)).2 ⟨by decide, by decide, ?_, ?_⟩
  all_goals
    intro address hmem
    obtain rfl := List.mem_singleton.1 hmem
    decide

/-- The second word of two is added, and the loop stops before it. -/
theorem not_addressSets_right_last : ¬ (AddressSet.Right MipsAddressSet.shape 0 8 [4] ∧
    AddressSet.Right ArmAddressSet.shape 0 8 [4]) := by
  rintro ⟨hmips, -⟩
  have hfree := ((MipsAddressSet.right_iff (by decide) (by decide)).1 hmips).2.1
  exact hfree 4 List.mem_cons_self (by decide) (by decide)

end

end SandboxingNaCl
