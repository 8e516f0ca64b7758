import Mathlib.Data.Nat.Bitwise
import SandboxingNaCl.Lib.Grouped

/-!
# The exported symbols of a module

`pll_loader.cc`: how `PLLModule::GetExportedSym` finds a symbol in the tables of a `PLLRoot`.  A
read outside a table is a fault.
-/

namespace SandboxingNaCl

open Grouped

/-- What stops the loader: the step is not possible now, it accesses memory outside what it has, or
the loader gives up with a message. -/
inductive PllStop
  | blocked
  | fault
  | fatal

abbrev CName : Type := { bytes : List UInt8 // 0 ∉ bytes }

/-- The fields of a `PLLRoot` that the lookup and the thread-local storage use; `hasTlsBlockGetter`
says whether `tls_block_getter` is set. -/
structure PLLRoot (π : Type) where
  stringTable : List UInt8
  exportedPtrs : List π
  exportedNames : List ℕ
  exportCount : ℕ
  bucketCount : ℕ
  hashBuckets : List ℤ
  hashChains : List UInt32
  bloomFilterMaskwordsBitmask : UInt32
  bloomFilterShift2 : UInt32
  bloomFilterData : List UInt32
  tlsTemplate : List UInt8
  tlsTemplateDataSize : ℕ
  tlsTemplateTotalSize : ℕ
  tlsTemplateAlignment : ℕ
  hasTlsBlockGetter : Bool

/-- `table[i]`. -/
def readAt {α : Type} (table : List α) (i : ℕ) : Except PllStop α :=
  match table[i]? with
  | some a => .ok a
  | none => .error .fault

/-- Whether `strcmp` of a string and the one at the head of the table gives 0. -/
def strcmpEq : List UInt8 → List UInt8 → Except PllStop Bool
  | [], c :: _ => .ok (c == 0)
  | a :: name, c :: table => if a = c then strcmpEq name table else .ok false
  | _, [] => .error .fault

def hashString (name : CName) : UInt32 := name.val.foldl (fun h c => h * 33 + c.toUInt32) 5381

namespace PLLRoot

variable {π : Type}

def bitmask (root : PLLRoot π) (hash1 : UInt32) : UInt32 :=
  let hash2 := hash1 >>> root.bloomFilterShift2
  (1 <<< (hash1 % 32)) ||| (1 <<< (hash2 % 32))

def wordNum (root : PLLRoot π) (hash1 : UInt32) : ℕ :=
  ((hash1 / 32) &&& root.bloomFilterMaskwordsBitmask).toNat

def isMaybeExported (root : PLLRoot π) (hash1 : UInt32) : Except PllStop Bool := do
  .ok ((← readAt root.bloomFilterData (root.wordNum hash1)) &&& root.bitmask hash1 =
    root.bitmask hash1)

/-- Whether `GetExportedSymbolName(i)` is the name. -/
def isNamed (root : PLLRoot π) (i : ℕ) (name : CName) : Except PllStop Bool := do
  strcmpEq name.val (root.stringTable.drop (← readAt root.exportedNames i))

/-- The loop of `PLLModule::GetExportedSym`, which ends where the table does. -/
def findInChain (root : PLLRoot π) (name : CName) (hash : UInt32) :
    ℕ → ℕ → Except PllStop (Option π)
  | 0, _ => .error .fatal
  | left + 1, chainIndex => do
      let chainValue ← readAt root.hashChains chainIndex
      if ← (if hash &&& ~~~1 = chainValue &&& ~~~1 then root.isNamed chainIndex name else .ok false)
      then .ok (some (← readAt root.exportedPtrs chainIndex))
      else if chainValue &&& 1 = 1 then .ok none
      else root.findInChain name hash left (chainIndex + 1)

def getExportedSym (root : PLLRoot π) (name : CName) : Except PllStop (Option π) := do
  let hash := hashString name
  if ¬ (← root.isMaybeExported hash) then .ok none
  else if root.bucketCount = 0 then .error .fault
  else
    let chainIndex ← readAt root.hashBuckets (hash.toNat % root.bucketCount)
    if chainIndex = -1 then .ok none
    else
      -- The comparison with `export_count` is one of `size_t`.
      let chainIndex := (chainIndex % 2 ^ 32).toNat
      root.findInChain name hash (root.exportCount - chainIndex) chainIndex

def bucket (root : PLLRoot π) (name : CName) : ℕ := (hashString name).toNat % root.bucketCount

/-- The tables of a module that exports these symbols. -/
structure WellFormed (root : PLLRoot π) (names : List CName) : Prop where
  exportCount : names.length = root.exportCount
  exportCount_lt : root.exportCount < 2 ^ 31
  ptrs : root.exportedPtrs.length = root.exportCount
  named : ∀ (i : ℕ) (name : CName), names[i]? = some name →
    ∃ offset rest, root.exportedNames[i]? = some offset ∧
      root.stringTable.drop offset = name.val ++ 0 :: rest
  grouped : IsGrouped root.bucket names
  /-- A chain word carries the hash, and its low bit says that the bucket's chain ends. -/
  chains : ∀ (i : ℕ) (name : CName), names[i]? = some name →
    ∃ word, root.hashChains[i]? = some word ∧
      word &&& ~~~1 = hashString name &&& ~~~1 ∧ (word &&& 1 = 1 ↔ IsLast root.bucket names i)
  /-- A bucket refers to the head of its chain, or is empty. -/
  buckets : ∀ b < root.bucketCount,
    (root.hashBuckets[b]? = some (-1) ∧ ∀ name ∈ names, root.bucket name ≠ b) ∨
      ∃ i : ℕ, root.hashBuckets[b]? = some (i : ℤ) ∧ IsHead root.bucket names b i
  bucketCount : 0 < root.bucketCount ∨ names = [] ∧ ∀ word ∈ root.bloomFilterData, word = 0
  filterWords : root.bloomFilterMaskwordsBitmask.toNat < root.bloomFilterData.length
  shift2 : root.bloomFilterShift2.toNat < 32
  /-- Both bits of the hash of every exported symbol are in the bloom filter. -/
  filter : ∀ name ∈ names, ∃ word,
    root.bloomFilterData[root.wordNum (hashString name)]? = some word ∧
      word.toNat.testBit ((hashString name).toNat % 32) = true ∧
      word.toNat.testBit ((hashString name >>> root.bloomFilterShift2).toNat % 32) = true

/-- What a lookup may return: the pointer of an equally named export, or nothing if there is
none. -/
def Answers (root : PLLRoot π) (names : List CName) (name : CName) : Option π → Prop
  | some ptr => ∃ i : ℕ, names[i]? = some name ∧ root.exportedPtrs[i]? = some ptr
  | none => name ∉ names

end PLLRoot

/-! ## Strings -/

theorem readAt_of_getElem? {α : Type} {table : List α} {i : ℕ} {a : α} (h : table[i]? = some a) :
    readAt table i = .ok a := by
  unfold readAt
  rw [h]

theorem strcmpEq_append (a b rest : List UInt8) (ha : 0 ∉ a) (hb : 0 ∉ b) :
    strcmpEq a (b ++ 0 :: rest) = .ok (decide (a = b)) := by
  induction a generalizing b with
  | nil =>
    cases b with
    | nil => rfl
    | cons c b =>
      have hc : (c == 0) = false := beq_eq_false_iff_ne.2 fun h => hb (h ▸ List.mem_cons_self)
      change Except.ok (c == 0) = _
      rw [hc]
      rfl
  | cons x a ih =>
    have ha' : 0 ∉ a := fun h => ha (List.mem_cons_of_mem x h)
    cases b with
    | nil =>
      have hx : x ≠ 0 := fun h => ha (h ▸ List.mem_cons_self)
      exact if_neg hx
    | cons c b =>
      have hb' : 0 ∉ b := fun h => hb (List.mem_cons_of_mem c h)
      change (if x = c then strcmpEq a (b ++ 0 :: rest) else .ok false) = _
      by_cases hxc : x = c
      · rw [if_pos hxc, ih b ha' hb']
        simp [hxc]
      · rw [if_neg hxc]
        simp [hxc]

/-! ## The bloom filter -/

theorem toNat_bit (a : UInt32) : ((1 : UInt32) <<< (a % 32)).toNat = 2 ^ (a.toNat % 32) := by
  have hlt : a.toNat % 32 < 32 := Nat.mod_lt _ (by decide)
  have hpow : 2 ^ (a.toNat % 32) < 2 ^ 32 := Nat.pow_lt_pow_right (by decide) hlt
  rw [UInt32.toNat_shiftLeft, UInt32.toNat_mod]
  change 1 <<< (a.toNat % 32 % 32) % 2 ^ 32 = _
  rw [Nat.mod_eq_of_lt hlt, Nat.shiftLeft_eq, Nat.one_mul, Nat.mod_eq_of_lt hpow]

theorem and_bits_eq {word : UInt32} {a b : UInt32}
    (ha : word.toNat.testBit (a.toNat % 32) = true)
    (hb : word.toNat.testBit (b.toNat % 32) = true) :
    word &&& ((1 <<< (a % 32)) ||| (1 <<< (b % 32))) = (1 <<< (a % 32)) ||| (1 <<< (b % 32)) := by
  apply UInt32.toNat_inj.1
  rw [UInt32.toNat_and, UInt32.toNat_or, toNat_bit, toNat_bit]
  apply Nat.eq_of_testBit_eq
  intro i
  rw [Nat.testBit_and, Nat.testBit_or, Nat.testBit_two_pow, Nat.testBit_two_pow]
  by_cases hia : a.toNat % 32 = i
  · rw [← hia, ha, Bool.true_and]
  · by_cases hib : b.toNat % 32 = i
    · rw [← hib, hb, Bool.true_and]
    · rw [decide_eq_false hia, decide_eq_false hib, Bool.or_false, Bool.and_false]

namespace PLLRoot

variable {π : Type} {root : PLLRoot π} {names : List CName} {name : CName}

theorem bitmask_ne_zero (root : PLLRoot π) (hash : UInt32) : root.bitmask hash ≠ 0 := by
  intro hzero
  have hbit := congrArg (fun word : UInt32 => word.toNat.testBit (hash.toNat % 32)) hzero
  unfold bitmask at hbit
  dsimp only at hbit
  rw [UInt32.toNat_or, toNat_bit, toNat_bit, Nat.testBit_or, Nat.testBit_two_pow_self,
    Bool.true_or, UInt32.toNat_zero, Nat.zero_testBit] at hbit
  cases hbit

theorem isNamed_eq (h : root.WellFormed names) {i : ℕ} {name' : CName}
    (hi : names[i]? = some name') : root.isNamed i name = .ok (decide (name = name')) := by
  obtain ⟨offset, rest, hoffset, hdrop⟩ := h.named i name' hi
  unfold isNamed
  rw [readAt_of_getElem? hoffset]
  change strcmpEq name.val (root.stringTable.drop offset) = _
  rw [hdrop, strcmpEq_append _ _ _ name.2 name'.2]
  simp only [Subtype.ext_iff]

theorem isMaybeExported_of_mem (h : root.WellFormed names) (hname : name ∈ names) :
    root.isMaybeExported (hashString name) = .ok true := by
  obtain ⟨word, hword, hbit, hbit₂⟩ := h.filter name hname
  unfold isMaybeExported
  rw [readAt_of_getElem? hword]
  exact congrArg Except.ok (decide_eq_true (and_bits_eq hbit hbit₂))

theorem exists_isMaybeExported (h : root.WellFormed names) (hash : UInt32) :
    ∃ word ∈ root.bloomFilterData, root.isMaybeExported hash =
      .ok (decide (word &&& root.bitmask hash = root.bitmask hash)) := by
  have hlt : root.wordNum hash < root.bloomFilterData.length := by
    refine lt_of_le_of_lt ?_ h.filterWords
    unfold wordNum
    rw [UInt32.toNat_and]
    exact Nat.and_le_right
  unfold isMaybeExported
  rw [readAt_of_getElem? (List.getElem?_eq_getElem hlt)]
  exact ⟨_, List.getElem_mem hlt, rfl⟩

/-! ## The chains -/

theorem findInChain_answers (h : root.WellFormed names) {left i : ℕ} {name' : CName}
    (hleft : root.exportCount = i + left) (hi : names[i]? = some name')
    (hbucket : root.bucket name' = root.bucket name)
    (hbefore : ∀ j < i, names[j]? ≠ some name) :
    ∃ r, root.findInChain name (hashString name) left i = .ok r ∧ root.Answers names name r := by
  induction left generalizing i name' with
  | zero =>
    obtain ⟨hlen, -⟩ := List.getElem?_eq_some_iff.1 hi
    have hcount := h.exportCount
    omega
  | succ left ih =>
    obtain ⟨word, hword, hhash, hend⟩ := h.chains i name' hi
    have hptr : ∃ ptr, root.exportedPtrs[i]? = some ptr := by
      obtain ⟨hlen, -⟩ := List.getElem?_eq_some_iff.1 hi
      exact ⟨_, List.getElem?_eq_getElem (by rw [h.ptrs, ← h.exportCount]; exact hlen)⟩
    obtain ⟨ptr, hptr⟩ := hptr
    have hfound : (if hashString name &&& ~~~1 = word &&& ~~~1 then root.isNamed i name
        else .ok false) = .ok (decide (name = name')) := by
      rw [isNamed_eq h hi]
      split_ifs with hsame
      · rfl
      · have hne : name ≠ name' := by
          rintro rfl
          exact hsame hhash.symm
        rw [decide_eq_false hne]
    rw [findInChain, readAt_of_getElem? hword]
    dsimp only [bind, Except.bind]
    rw [hfound]
    dsimp only
    by_cases hname : name = name'
    · rw [if_pos (decide_eq_true hname), readAt_of_getElem? hptr]
      exact ⟨some ptr, rfl, i, hname ▸ hi, hptr⟩
    · have hne : ¬ decide (name = name') = true := by simpa using hname
      rw [if_neg hne]
      by_cases hlast : word &&& 1 = 1
      · rw [if_pos hlast]
        exact ⟨none, rfl, not_mem_of_isLast h.grouped (hend.1 hlast) hi hbucket.symm hbefore
          (Ne.symm hname)⟩
      · rw [if_neg hlast]
        obtain ⟨next, hnext, hsame⟩ := exists_next_of_not_isLast (fun hl => hlast (hend.2 hl)) hi
        refine ih (by omega) hnext (hsame.trans hbucket) fun j hj => ?_
        rcases Nat.lt_or_eq_of_le (Nat.le_of_lt_succ hj) with hlt | rfl
        · exact hbefore j hlt
        · rw [hi]
          exact fun heq => hname (Option.some.inj heq).symm

/-- The lookup returns the pointer of an equally named export exactly if there is one, and reads
nothing outside the tables. -/
theorem getExportedSym_answers (h : root.WellFormed names) (name : CName) :
    ∃ r, root.getExportedSym name = .ok r ∧ root.Answers names name r := by
  obtain ⟨word, hmem, hmaybe⟩ := exists_isMaybeExported h (hashString name)
  unfold getExportedSym
  dsimp only
  by_cases hreject : word &&& root.bitmask (hashString name) = root.bitmask (hashString name)
  · rw [hmaybe, decide_eq_true hreject]
    dsimp only [bind, Except.bind]
    rw [if_neg (fun hne => hne rfl)]
    rcases h.bucketCount with hpos | ⟨-, hzero⟩
    · rw [if_neg (by omega)]
      have hlt : root.bucket name < root.bucketCount := Nat.mod_lt _ hpos
      rcases h.buckets _ hlt with ⟨hempty, hnone⟩ | ⟨i, hhead, hi⟩
      · rw [show readAt root.hashBuckets ((hashString name).toNat % root.bucketCount) = .ok (-1)
          from readAt_of_getElem? hempty]
        exact ⟨none, if_pos rfl, fun hname => hnone name hname rfl⟩
      · obtain ⟨name', hname', hbucket⟩ := hi.mem
        obtain ⟨hlen, -⟩ := List.getElem?_eq_some_iff.1 hname'
        have hcount := h.exportCount
        have hmax := h.exportCount_lt
        rw [show readAt root.hashBuckets ((hashString name).toNat % root.bucketCount) = .ok (i : ℤ)
          from readAt_of_getElem? hhead]
        dsimp only
        have hsize : ((i : ℤ) % 2 ^ 32).toNat = i := by omega
        rw [if_neg (by omega), hsize]
        refine findInChain_answers h (by omega) hname' hbucket fun j hj heq => ?_
        exact hi.first j name hj heq rfl
    · rw [hzero word hmem, UInt32.zero_and] at hreject
      exact absurd hreject.symm (bitmask_ne_zero root _)
  · rw [hmaybe, decide_eq_false hreject]
    refine ⟨none, rfl, fun hname => ?_⟩
    rw [isMaybeExported_of_mem h hname] at hmaybe
    exact hreject (of_decide_eq_true (Except.ok.inj hmaybe).symm)

end PLLRoot

end SandboxingNaCl
