import Mathlib.Data.List.Basic
import Mathlib.Data.Nat.Bitwise

/-!
# Bitmaps kept in machine words

A bitmap of `w`-bit words.  An operation on an index whose word is not there fails; `test` reads a
bit of the whole map, and each operation is described by what it does to `test`.
-/

structure Bitmap (w : ℕ) where
  words : List (BitVec w)
  deriving DecidableEq

namespace Bitmap

variable {w : ℕ}

/-- `k` words of zeroes. -/
def allocate (w k : ℕ) : Bitmap w := ⟨List.replicate k 0⟩

/-- The number of indexes whose word is there. -/
def capacity (b : Bitmap w) : ℕ := w * b.words.length

def test (b : Bitmap w) (i : ℕ) : Bool := (b.words[i / w]?.getD 0).getLsbD (i % w)

/-- Applies `f` to the word of index `i`. -/
def update (b : Bitmap w) (i : ℕ) (f : BitVec w → BitVec w) : Option (Bitmap w) :=
  if i / w < b.words.length then some ⟨b.words.modify (i / w) f⟩ else none

def isBitSet (b : Bitmap w) (i : ℕ) : Option Bool :=
  b.words[i / w]?.map fun x => decide (x &&& (1#w <<< (i % w)) ≠ 0)

def setBit (b : Bitmap w) (i : ℕ) : Option (Bitmap w) :=
  b.update i fun x => x ||| 1#w <<< (i % w)

def clearBit (b : Bitmap w) (i : ℕ) : Option (Bitmap w) :=
  b.update i fun x => x &&& ~~~(1#w <<< (i % w))

/-- Clears `n` bits from `i` on that all lie in the word of `i`. -/
def clearBits (b : Bitmap w) (i n : ℕ) : Option (Bitmap w) :=
  b.update i fun x => x &&& ~~~((1#w <<< n - 1#w) <<< (i % w))

variable {b b' : Bitmap w} {i j n k : ℕ} {f : BitVec w → BitVec w}

@[simp] theorem test_allocate : (allocate w k).test i = false := by
  unfold test allocate
  rw [List.getElem?_replicate]
  split <;> simp

@[simp] theorem capacity_allocate : (allocate w k).capacity = w * k := by
  simp [capacity, allocate]

theorem div_lt_of_lt_capacity (h : i < b.capacity) : i / w < b.words.length :=
  Nat.div_lt_of_lt_mul h

theorem exists_update (h : i < b.capacity) (f : BitVec w → BitVec w) :
    ∃ b', b.update i f = some b' :=
  ⟨_, if_pos (div_lt_of_lt_capacity h)⟩

theorem exists_setBit (h : i < b.capacity) : ∃ b', b.setBit i = some b' := exists_update h _

theorem exists_clearBit (h : i < b.capacity) : ∃ b', b.clearBit i = some b' := exists_update h _

theorem exists_clearBits (h : i < b.capacity) (n : ℕ) : ∃ b', b.clearBits i n = some b' :=
  exists_update h _

theorem length_update (h : b.update i f = some b') : b'.words.length = b.words.length := by
  unfold update at h
  split at h
  · cases h
    simp
  · cases h

theorem capacity_update (h : b.update i f = some b') : b'.capacity = b.capacity := by
  rw [capacity, capacity, length_update h]

/-- An update changes the word of its index only. -/
theorem test_update (h : b.update i f = some b') :
    b'.test j = if j / w = i / w then (f (b.words[i / w]?.getD 0)).getLsbD (j % w) else b.test j := by
  unfold update at h
  split at h
  case isFalse => cases h
  case isTrue hi =>
    cases h
    unfold test
    rw [List.getElem?_modify]
    split_ifs with hj hj' hj'
    · rw [← hj, List.getElem?_eq_getElem hi]
      rfl
    · exact absurd hj.symm hj'
    · exact absurd hj'.symm hj
    · simp

theorem mod_eq_iff_of_div_eq (hij : j / w = i / w) : j % w = i % w ↔ j = i := by
  constructor
  · intro h
    rw [← Nat.div_add_mod j w, ← Nat.div_add_mod i w, hij, h]
  · rintro rfl
    rfl

theorem getLsbD_one_shiftLeft (hk : k < w) (n : ℕ) : (1#w <<< n).getLsbD k = decide (k = n) := by
  have h1 : (1#w).getLsbD (k - n) = decide (k - n = 0) := by
    simp only [BitVec.getLsbD_one]
    by_cases h : k - n = 0 <;> simp [h]
    omega
  rw [BitVec.getLsbD_shiftLeft, h1]
  by_cases h : k = n
  · simp [h] at hk ⊢
    exact hk
  · by_cases hlt : k < n
    · simp [hlt, h]
    · have : k - n ≠ 0 := by omega
      simp [this, h]

theorem isBitSet_eq (hw : 0 < w) (h : i < b.capacity) : b.isBitSet i = some (b.test i) := by
  have hk := Nat.mod_lt i hw
  have hlt := div_lt_of_lt_capacity h
  unfold isBitSet test
  rw [List.getElem?_eq_getElem hlt]
  simp only [Option.map_some, Option.getD_some, Option.some.injEq]
  generalize b.words[i / w] = x
  cases hx : x.getLsbD (i % w)
  · rw [decide_eq_false_iff_not, not_not]
    ext k hk'
    rw [← BitVec.getLsbD_eq_getElem, BitVec.getLsbD_and, getLsbD_one_shiftLeft hk']
    by_cases hki : k = i % w <;> simp [hki, hx]
  · rw [decide_eq_true_iff]
    intro h0
    have := congrArg (fun y => y.getLsbD (i % w)) h0
    simp [getLsbD_one_shiftLeft hk, hx] at this

/-- No bit of `x` is missing from `y`. -/
theorem and_not_eq_zero_iff {x y : BitVec w} :
    x &&& ~~~y = 0 ↔ ∀ k < w, x.getLsbD k = true → y.getLsbD k = true := by
  constructor
  · intro h k hk hx
    have := congrArg (fun z => z.getLsbD k) h
    simpa [hx, hk] using this
  · intro h
    ext k hk
    rw [← BitVec.getLsbD_eq_getElem, BitVec.getLsbD_and, BitVec.getLsbD_not]
    have := h k hk
    cases hx : x.getLsbD k <;> simp_all

theorem test_setBit (hw : 0 < w) (h : b.setBit i = some b') :
    b'.test j = (decide (j = i) || b.test j) := by
  rw [test_update h]
  split
  case isTrue hj =>
    have hmod := mod_eq_iff_of_div_eq hj
    rw [BitVec.getLsbD_or, getLsbD_one_shiftLeft (Nat.mod_lt _ hw), Bool.or_comm, test, hj]
    simp only [hmod]
  case isFalse hj =>
    have : j ≠ i := fun h => hj (h ▸ rfl)
    simp [this]

theorem test_clearBit (hw : 0 < w) (h : b.clearBit i = some b') :
    b'.test j = (b.test j && !decide (j = i)) := by
  rw [test_update h]
  split
  case isTrue hj =>
    have hmod := mod_eq_iff_of_div_eq hj
    rw [BitVec.getLsbD_and, BitVec.getLsbD_not, getLsbD_one_shiftLeft (Nat.mod_lt _ hw), test, hj]
    simp only [hmod, Nat.mod_lt _ hw, decide_true, Bool.true_and]
  case isFalse hj =>
    have : j ≠ i := fun h => hj (h ▸ rfl)
    simp [this]

/-- The mask of the low `n` bits. -/
theorem getLsbD_mask (hn : n ≤ w) (hk : k < w) :
    (1#w <<< n - 1#w).getLsbD k = decide (k < n) := by
  have hval : (1#w <<< n - 1#w) = BitVec.ofNat w (2 ^ n - 1) := by
    apply BitVec.eq_of_toNat_eq
    have hpos : 0 < 2 ^ n := Nat.two_pow_pos n
    rcases Nat.lt_or_ge n w with h | h
    · have hw : 2 ^ n < 2 ^ w := Nat.pow_lt_pow_right (by decide) h
      have h1 : 1 < 2 ^ w := by omega
      simp only [BitVec.toNat_sub, BitVec.toNat_shiftLeft, BitVec.toNat_ofNat, Nat.shiftLeft_eq,
        Nat.mod_eq_of_lt h1, one_mul, Nat.mod_eq_of_lt hw]
      rw [Nat.mod_eq_of_lt (by omega : 2 ^ n - 1 < 2 ^ w)]
      rw [show 2 ^ w - 1 + 2 ^ n = (2 ^ n - 1) + 2 ^ w from by omega, Nat.add_mod_right]
      exact Nat.mod_eq_of_lt (by omega)
    · obtain rfl : n = w := Nat.le_antisymm hn h
      have h1 : 1 < 2 ^ n := Nat.one_lt_two_pow (by omega)
      simp only [BitVec.toNat_sub, BitVec.toNat_shiftLeft, BitVec.toNat_ofNat, Nat.shiftLeft_eq,
        Nat.mod_eq_of_lt h1, one_mul, Nat.mod_self, add_zero]
  rw [hval, BitVec.getLsbD_ofNat, Nat.testBit_two_pow_sub_one]
  simp [hk]

theorem test_clearBits (hw : 0 < w) (hn : i % w + n ≤ w) (h : b.clearBits i n = some b') :
    b'.test j = (b.test j && !decide (i ≤ j ∧ j < i + n)) := by
  have hidiv := Nat.div_add_mod i w
  have hjdiv := Nat.div_add_mod j w
  rw [test_update h]
  split
  case isTrue hj =>
    have hk := Nat.mod_lt j hw
    rw [hj] at hjdiv
    rw [BitVec.getLsbD_and, BitVec.getLsbD_not, BitVec.getLsbD_shiftLeft,
      getLsbD_mask (by omega) (by omega), test, hj]
    have hiff : (i ≤ j ∧ j < i + n) ↔ (¬ j % w < i % w ∧ j % w - i % w < n) := by omega
    simp only [hk, hiff, decide_true, Bool.true_and, Bool.decide_and, decide_not]
  case isFalse hj =>
    have : ¬ (i ≤ j ∧ j < i + n) := by
      rintro ⟨h1, h2⟩
      apply hj
      apply Nat.div_eq_of_lt_le
      · rw [Nat.mul_comm]
        omega
      · rw [Nat.succ_mul, Nat.mul_comm]
        omega
    simp [this]

/-- The indexes from `i` on whose bits are set. -/
def elements (b : Bitmap w) (i : ℕ) : List ℕ :=
  (List.range' i (b.capacity - i)).filter fun j => b.test j

theorem lt_capacity_of_test (hw : 0 < w) (h : b.test i = true) : i < b.capacity := by
  by_contra hge
  have hlen : b.words.length ≤ i / w := (Nat.le_div_iff_mul_le hw).2 (by
    rw [Nat.mul_comm]
    exact Nat.le_of_not_lt hge)
  rw [test, List.getElem?_eq_none hlen] at h
  simp at h

theorem mem_elements (hw : 0 < w) : j ∈ b.elements i ↔ i ≤ j ∧ b.test j = true := by
  rw [elements, List.mem_filter, List.mem_range'_1]
  constructor
  · rintro ⟨⟨hle, -⟩, hj⟩
    exact ⟨hle, hj⟩
  · rintro ⟨hle, hj⟩
    have hlt := lt_capacity_of_test hw hj
    exact ⟨⟨hle, by omega⟩, hj⟩

theorem pairwise_elements : (b.elements i).Pairwise (· < ·) :=
  List.Pairwise.filter _ List.pairwise_lt_range'

/-- There is no bit from `i` on, or a first one. -/
theorem elements_cases (hw : 0 < w) (b : Bitmap w) (i : ℕ) :
    ((∀ j, i ≤ j → b.test j = false) ∧ b.elements i = []) ∨
      ∃ j, i ≤ j ∧ b.test j = true ∧ (∀ k < j, i ≤ k → b.test k = false) ∧
        b.elements i = j :: b.elements (j + 1) := by
  induction hn : b.capacity - i generalizing i with
  | zero =>
    left
    refine ⟨fun j hj => ?_, by rw [elements, hn]; rfl⟩
    by_contra hset
    have hlt := lt_capacity_of_test hw (Bool.not_eq_false _ ▸ hset)
    omega
  | succ n ih =>
    have hsplit : b.elements i = if b.test i then i :: b.elements (i + 1) else b.elements (i + 1) := by
      have hpred : b.capacity - (i + 1) = n := by omega
      rw [elements, elements, hn, hpred, List.range'_succ, List.filter_cons]
    cases hi : b.test i with
    | true => exact Or.inr ⟨i, le_rfl, hi, fun k hk hle => by omega, by rw [hsplit, hi]; rfl⟩
    | false =>
      have hrest : b.elements i = b.elements (i + 1) := by rw [hsplit, hi]; rfl
      rw [hrest]
      have hstep (k : ℕ) (hk : i ≤ k) (h : i + 1 ≤ k → b.test k = false) : b.test k = false := by
        obtain rfl | hlt := Nat.eq_or_lt_of_le hk
        · exact hi
        · exact h hlt
      obtain ⟨hclear, hnil⟩ | ⟨j, hle, hj, hfirst, hcons⟩ := ih (i + 1) (by omega)
      · exact Or.inl ⟨fun k hk => hstep k hk (hclear k), hnil⟩
      · exact Or.inr ⟨j, by omega, hj, fun k hk hle => hstep k hle (hfirst k hk), hcons⟩

end Bitmap
