import Mathlib.Data.BitVec

/-!
# Paged memory

Memory whose pages carry a protection and the object mapped there, and the calls by which a process
changes it.  `SameAt` is the frame condition of a page: how it is mapped and the bytes on it.
-/

namespace PagedMemory

/-- How a page is mapped. -/
structure Page (β : Type*) where
  prot : BitVec 32
  object : β

/-- How every page is mapped, and the byte at every address. -/
structure Memory (β : Type*) where
  page : ℕ → Page β
  byte : ℕ → UInt8

variable {β : Type*} {m m' m'' : Memory β} {size s t p a b : ℕ} {prot : BitVec 32}

namespace Memory

/-- Maps an object at the pages of `[s, t)`, whose bytes become those of `contents`. -/
def mmap (size : ℕ) (m : Memory β) (s t : ℕ) (prot : BitVec 32) (object : ℕ → β)
    (contents : ℕ → UInt8) : Memory β where
  page p := if s ≤ p ∧ p < t then ⟨prot, object p⟩ else m.page p
  byte a := if s ≤ a / size ∧ a / size < t then contents a else m.byte a

/-- Changes the protection of the pages of `[s, t)`. -/
def mprotect (m : Memory β) (s t : ℕ) (prot : BitVec 32) : Memory β where
  page p := if s ≤ p ∧ p < t then { m.page p with prot := prot } else m.page p
  byte := m.byte

/-- Writes the bytes of `[a, b)`. -/
def write (m : Memory β) (a b : ℕ) (contents : ℕ → UInt8) : Memory β where
  page := m.page
  byte i := if a ≤ i ∧ i < b then contents i else m.byte i

/-- Every page of `[s, t)` has a protection that meets `allows`. -/
def Permits (m : Memory β) (allows : BitVec 32 → Bool) (s t : ℕ) : Prop :=
  ∀ p ∈ List.range' s (t - s), allows (m.page p).prot = true

instance (m : Memory β) (allows : BitVec 32 → Bool) (s t : ℕ) : Decidable (m.Permits allows s t) :=
  inferInstanceAs (Decidable (∀ _ ∈ _, _))

/-- The page is mapped as before and holds the bytes it held. -/
structure SameAt (size : ℕ) (m m' : Memory β) (p : ℕ) : Prop where
  page_eq : m'.page p = m.page p
  byte_eq : ∀ a, a / size = p → m'.byte a = m.byte a

theorem SameAt.refl (m : Memory β) (p : ℕ) : SameAt size m m p := ⟨rfl, fun _ _ => rfl⟩

theorem SameAt.trans (h : SameAt size m m' p) (h' : SameAt size m' m'' p) : SameAt size m m'' p :=
  ⟨h'.page_eq.trans h.page_eq, fun a ha => (h'.byte_eq a ha).trans (h.byte_eq a ha)⟩

theorem sameAt_mmap (object : ℕ → β) (contents : ℕ → UInt8) (h : p < s ∨ t ≤ p) :
    SameAt size m (m.mmap size s t prot object contents) p where
  page_eq := if_neg (by omega)
  byte_eq a ha := if_neg (by omega)

theorem sameAt_mprotect (h : p < s ∨ t ≤ p) : SameAt size m (m.mprotect s t prot) p where
  page_eq := if_neg (by omega)
  byte_eq _ _ := rfl

theorem mmap_prot (object : ℕ → β) (contents : ℕ → UInt8) (p : ℕ) :
    ((m.mmap size s t prot object contents).page p).prot =
      if s ≤ p ∧ p < t then prot else (m.page p).prot := by
  simp only [mmap]
  split_ifs <;> rfl

theorem mprotect_prot (p : ℕ) :
    ((m.mprotect s t prot).page p).prot = if s ≤ p ∧ p < t then prot else (m.page p).prot := by
  simp only [mprotect]
  split_ifs <;> rfl

@[simp] theorem write_page (contents : ℕ → UInt8) : (m.write a b contents).page = m.page := rfl

end Memory

end PagedMemory
