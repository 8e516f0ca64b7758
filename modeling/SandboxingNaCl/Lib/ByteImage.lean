import Mathlib.Data.Nat.Digits.Defs
import SandboxingNaCl.Lib.Patches

/-!
# Byte images

A memory that is built by writing blocks one after another.  `Holds` says that a block is in the
memory at an address, `placed` gives the blocks of a list their consecutive addresses, and words are
kept with the least significant byte first.
-/

namespace ByteImage

open Patches

/-! ## Blocks -/

section

variable {α : Type*} {m : ℕ → α} {a b : ℕ} {xs ys : List α}

/-- The block is in the memory at the address. -/
def Holds (m : ℕ → α) (a : ℕ) (xs : List α) : Prop := read m a xs.length = xs

instance [DecidableEq α] (m : ℕ → α) (a : ℕ) (xs : List α) : Decidable (Holds m a xs) :=
  inferInstanceAs (Decidable (_ = _))

theorem holds_iff : Holds m a xs ↔ ∀ i < xs.length, xs[i]? = some (m (a + i)) := by
  constructor
  · intro h i hi
    have hread : (read m a xs.length)[i]? = some (m (a + i)) := getElem?_read hi
    rw [← hread]
    exact congrArg (·[i]?) h.symm
  · intro h
    apply List.ext_getElem?
    intro i
    by_cases hi : i < xs.length
    · rw [getElem?_read hi, h i hi]
    · rw [List.getElem?_eq_none ((length_read m a _).trans_le (by omega)),
        List.getElem?_eq_none (by omega)]

@[simp] theorem holds_nil : Holds m a [] := rfl

theorem holds_append : Holds m a (xs ++ ys) ↔ Holds m a xs ∧ Holds m (a + xs.length) ys := by
  simp only [holds_iff, List.length_append]
  constructor
  · intro h
    constructor
    · intro i hi
      rw [← h i (by omega), List.getElem?_append_left hi]
    · intro i hi
      have hi' := h (xs.length + i) (by omega)
      rw [List.getElem?_append_right (by omega), Nat.add_sub_cancel_left] at hi'
      rw [hi', Nat.add_assoc]
  · rintro ⟨hxs, hys⟩ i hi
    by_cases hlt : i < xs.length
    · rw [List.getElem?_append_left hlt, hxs i hlt]
    · rw [List.getElem?_append_right (by omega), hys (i - xs.length) (by omega)]
      congr 2
      omega

theorem holds_write (m : ℕ → α) (a : ℕ) (xs : List α) : Holds (write m a xs) a xs := by
  apply holds_iff.2
  intro i hi
  have hcovers : Covers (a, xs) (a + i) := ⟨Nat.le_add_right a i, Nat.add_lt_add_left hi a⟩
  rw [write_of_mem hcovers, Nat.add_sub_cancel_left]

theorem write_of_holds (h : Holds m a xs) : write m a xs = m := by
  rw [← show read m a xs.length = xs from h]
  exact write_read m a xs.length

theorem write_append (m : ℕ → α) (a : ℕ) (xs ys : List α) :
    write m a (xs ++ ys) = write (write m a xs) (a + xs.length) ys := by
  induction xs generalizing m a with
  | nil => rw [List.nil_append, List.length_nil, Nat.add_zero, write_of_holds (holds_nil)]
  | cons x xs ih =>
    rw [List.cons_append, ← write_cons, ih, write_cons, List.length_cons]
    congr 1
    omega

theorem Holds.write (h : Holds m a xs) (hapart : Avoids a xs.length (b, ys)) :
    Holds (write m b ys) a xs := by
  apply holds_iff.2
  intro i hi
  rw [holds_iff.1 h i hi, write_of_not_mem (hapart.not_covers (by omega) (by omega))]

theorem Holds.congr {m' : ℕ → α} (h : Holds m a xs)
    (heq : ∀ i, a ≤ i → i < a + xs.length → m' i = m i) : Holds m' a xs := by
  apply holds_iff.2
  intro i hi
  rw [holds_iff.1 h i hi, heq (a + i) (Nat.le_add_right a i) (Nat.add_lt_add_left hi a)]

theorem write_eq_of_out {i : ℕ} (h : i < a ∨ a + xs.length ≤ i) : write m a xs i = m i := by
  apply write_of_not_mem
  rintro ⟨hle, hlt⟩
  dsimp only at hle hlt
  omega

/-- The blocks of a list, each with the address it has when they follow one another. -/
def placed : ℕ → List (List α) → List (Patch α)
  | _, [] => []
  | a, xs :: blocks => (a, xs) :: placed (a + xs.length) blocks

variable {blocks : List (List α)}

@[simp] theorem map_snd_placed (a : ℕ) (blocks : List (List α)) :
    (placed a blocks).map Prod.snd = blocks := by
  induction blocks generalizing a with
  | nil => rfl
  | cons xs blocks ih => simp [placed, ih]

@[simp] theorem length_placed (a : ℕ) (blocks : List (List α)) :
    (placed a blocks).length = blocks.length := by
  rw [← List.length_map Prod.snd, map_snd_placed]

theorem placed_append (a : ℕ) (blocks blocks' : List (List α)) :
    placed a (blocks ++ blocks') = placed a blocks ++ placed (a + blocks.flatten.length) blocks' := by
  induction blocks generalizing a with
  | nil => simp [placed]
  | cons xs blocks ih =>
    simp only [List.cons_append, placed, List.flatten_cons, List.length_append, ih, Nat.add_assoc]

theorem holds_flatten (a : ℕ) (blocks : List (List α)) :
    Holds m a blocks.flatten ↔ ∀ p ∈ placed a blocks, Holds m p.1 p.2 := by
  induction blocks generalizing a with
  | nil => simp [placed]
  | cons xs blocks ih =>
    rw [List.flatten_cons, holds_append, ih, placed, List.forall_mem_cons]

theorem within_of_mem_placed {p : Patch α} (h : p ∈ placed a blocks) :
    a ≤ p.1 ∧ p.1 + p.2.length ≤ a + blocks.flatten.length := by
  induction blocks generalizing a with
  | nil => simp [placed] at h
  | cons xs blocks ih =>
    rw [List.flatten_cons, List.length_append]
    rcases List.mem_cons.1 h with rfl | h
    · exact ⟨le_rfl, by dsimp only; omega⟩
    · have := ih h
      omega

theorem pairwise_apart_placed (a : ℕ) (blocks : List (List α)) :
    (placed a blocks).Pairwise Apart := by
  induction blocks generalizing a with
  | nil => exact List.Pairwise.nil
  | cons xs blocks ih =>
    refine List.Pairwise.cons (fun p hp => ?_) (ih _)
    exact Or.inl (within_of_mem_placed hp).1

end

/-! ## Words -/

/-- The `n` bytes of a word, the least significant first. -/
def leBytes : ℕ → ℕ → List UInt8
  | 0, _ => []
  | n + 1, v => UInt8.ofNat v :: leBytes n (v / 256)

/-- The word of `n` bytes at an address. -/
def wordAt (m : ℕ → UInt8) (n a : ℕ) : ℕ := Nat.ofDigits 256 ((read m a n).map UInt8.toNat)

@[simp] theorem length_leBytes (n v : ℕ) : (leBytes n v).length = n := by
  induction n generalizing v with
  | zero => rfl
  | succ n ih => simp [leBytes, ih]

theorem ofDigits_leBytes (n v : ℕ) :
    Nat.ofDigits 256 ((leBytes n v).map UInt8.toNat) = v % 256 ^ n := by
  induction n generalizing v with
  | zero => simp [leBytes, Nat.mod_one]
  | succ n ih =>
    have hbyte : (UInt8.ofNat v).toNat = v % 256 := UInt8.toNat_ofNat'
    rw [leBytes, List.map_cons, Nat.ofDigits_cons, ih, hbyte, Nat.pow_succ', Nat.mod_mul]

theorem wordAt_of_holds {m : ℕ → UInt8} {n v a : ℕ} (h : Holds m a (leBytes n v))
    (hv : v < 256 ^ n) : wordAt m n a = v := by
  have hread : read m a n = leBytes n v := by
    rw [Holds, length_leBytes] at h
    exact h
  rw [wordAt, hread, ofDigits_leBytes, Nat.mod_eq_of_lt hv]

/-- Words that follow one another are found at the multiples of their size. -/
theorem wordAt_of_holds_flatten {m : ℕ → UInt8} {n a k v : ℕ} {ws : List ℕ}
    (h : Holds m a (ws.map (leBytes n)).flatten) (hk : ws[k]? = some v) (hv : v < 256 ^ n) :
    wordAt m n (a + n * k) = v := by
  induction ws generalizing a k with
  | nil => simp at hk
  | cons w ws ih =>
    rw [List.map_cons, List.flatten_cons, holds_append, length_leBytes] at h
    cases k with
    | zero =>
      obtain rfl : w = v := by simpa using hk
      exact wordAt_of_holds h.1 hv
    | succ k =>
      rw [Nat.mul_succ, Nat.add_comm (n * k), ← Nat.add_assoc]
      exact ih h.2 (by simpa using hk)

/-! ## Strings -/

def ofString (s : String) : List UInt8 := s.toList.map fun c => c.toNat.toUInt8

end ByteImage
