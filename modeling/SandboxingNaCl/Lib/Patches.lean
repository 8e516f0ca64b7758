import Mathlib.Data.List.Sort

/-!
# Patches over a memory

Blocks of a memory that are overwritten, with their earlier contents saved.  `original` is the memory
with the saved blocks put back; `patchCopy` puts back one block in a copy of a part of the memory.
-/

namespace Patches

variable {α : Type*}

/-- The memory after a block has been written. -/
def write (m : ℕ → α) (start : ℕ) (block : List α) (a : ℕ) : α :=
  if start ≤ a then (block[a - start]?).getD (m a) else m a

def read (m : ℕ → α) (start len : ℕ) : List α := (List.range len).map fun i => m (start + i)

/-- A block that has been saved, with its address. -/
abbrev Patch (α : Type*) := ℕ × List α

/-- The block has a byte at the address. -/
def Covers (p : Patch α) (a : ℕ) : Prop := p.1 ≤ a ∧ a < p.1 + p.2.length

instance (p : Patch α) (a : ℕ) : Decidable (Covers p a) := inferInstanceAs (Decidable (_ ∧ _))

/-- The range has no byte of the block. -/
def Avoids (start len : ℕ) (p : Patch α) : Prop := start + len ≤ p.1 ∨ p.1 + p.2.length ≤ start

instance (start len : ℕ) (p : Patch α) : Decidable (Avoids start len p) :=
  inferInstanceAs (Decidable (_ ∨ _))

/-- Two blocks have no byte in common. -/
def Apart (p q : Patch α) : Prop := Avoids p.1 p.2.length q

/-- The memory with the saved blocks in place. -/
def original (patches : List (Patch α)) (m : ℕ → α) (a : ℕ) : α :=
  match patches.find? (Covers · a) with
  | some p => (p.2[a - p.1]?).getD (m a)
  | none => m a

section

variable {m : ℕ → α} {start len a : ℕ} {block : List α} {p q : Patch α} {patches : List (Patch α)}

theorem write_of_mem (h : Covers (start, block) a) :
    some (write m start block a) = block[a - start]? := by
  obtain ⟨hle, hlt⟩ := h
  have hin : a - start < block.length := by
    dsimp only at hlt
    omega
  rw [write, if_pos hle, List.getElem?_eq_getElem hin, Option.getD_some]

theorem write_of_not_mem (h : ¬ Covers (start, block) a) : write m start block a = m a := by
  unfold write
  split_ifs with hle
  · have hout : block.length ≤ a - start := by
      have hlt : ¬ a < start + block.length := fun hlt => h ⟨hle, hlt⟩
      omega
    rw [List.getElem?_eq_none hout, Option.getD_none]
  · rfl

/-- A block is written byte by byte. -/
theorem write_cons (m : ℕ → α) (start : ℕ) (b : α) (bs : List α) :
    write (write m start [b]) (start + 1) bs = write m start (b :: bs) := by
  funext a
  rcases lt_trichotomy a start with hlt | rfl | hgt
  · rw [write, if_neg (by omega), write, if_neg (by omega), write,
      if_neg (by omega)]
  · rw [write, if_neg (by omega), write, if_pos le_rfl, write,
      if_pos le_rfl, Nat.sub_self]
    rfl
  · obtain ⟨i, rfl⟩ := Nat.exists_eq_add_of_lt hgt
    have hone : write m start [b] (start + i + 1) = m (start + i + 1) := by
      rw [write, if_pos (by omega), List.getElem?_eq_none (by rw [List.length_singleton]; omega),
        Option.getD_none]
    rw [write, if_pos (by omega), hone, write, if_pos (by omega)]
    have hi : start + i + 1 - start = start + i + 1 - (start + 1) + 1 := by omega
    rw [hi, List.getElem?_cons_succ]

theorem length_read (m : ℕ → α) (start len : ℕ) : (read m start len).length = len := by simp [read]

theorem getElem?_read {i : ℕ} (h : i < len) : (read m start len)[i]? = some (m (start + i)) := by
  simp [read, h]

theorem write_read (m : ℕ → α) (start len : ℕ) : write m start (read m start len) = m := by
  funext a
  by_cases h : Covers (start, read m start len) a
  · have hlt : a < start + len := length_read m start len ▸ h.2
    have hle : start ≤ a := h.1
    have hread := write_of_mem (m := m) h
    rw [getElem?_read (by omega), Nat.add_sub_cancel' hle, Option.some.injEq] at hread
    exact hread
  · exact write_of_not_mem h

theorem Apart.symm (h : Apart p q) : Apart q p := Or.symm h

theorem Apart.not_covers (h : Apart p q) (hp : Covers p a) : ¬ Covers q a := by
  unfold Apart Avoids at h
  unfold Covers at *
  omega

theorem Avoids.not_covers (h : Avoids start len p) (hle : start ≤ a) (hlt : a < start + len) :
    ¬ Covers p a := by
  unfold Avoids at h
  unfold Covers
  omega

theorem original_of_forall_not (h : ∀ p ∈ patches, ¬ Covers p a) : original patches m a = m a := by
  unfold original
  rw [List.find?_eq_none.2 fun p hp => by simpa using h p hp]

/-- The patch at an address is found: there is no other. -/
theorem find?_of_mem (hpatches : patches.Pairwise Apart) (hp : p ∈ patches) (hcovers : Covers p a) :
    patches.find? (Covers · a) = some p := by
  induction hpatches with
  | nil => cases hp
  | @cons q l hq hl ih =>
    rcases List.mem_cons.1 hp with rfl | hp
    · exact List.find?_cons_of_pos (by simpa using hcovers)
    · have hnot : ¬ Covers q a := (hq p hp).symm.not_covers hcovers
      rw [List.find?_cons_of_neg (by simpa using hnot)]
      exact ih hp

theorem original_of_mem (hpatches : patches.Pairwise Apart) (hp : p ∈ patches)
    (hcovers : Covers p a) : some (original patches m a) = p.2[a - p.1]? := by
  unfold original
  rw [find?_of_mem hpatches hp hcovers]
  have hin : a - p.1 < p.2.length := by
    unfold Covers at hcovers
    omega
  simp only [List.getElem?_eq_getElem hin, Option.getD_some]

/-- The order of the patches makes no difference. -/
theorem original_perm {patches' : List (Patch α)} (h : patches.Perm patches')
    (hpatches : patches.Pairwise Apart) : original patches' m = original patches m := by
  have hpatches' : patches'.Pairwise Apart := (h.pairwise_iff Apart.symm).1 hpatches
  funext a
  by_cases hcovers : ∃ p ∈ patches, Covers p a
  · obtain ⟨p, hp, hpa⟩ := hcovers
    refine Option.some.inj ?_
    rw [original_of_mem hpatches hp hpa, original_of_mem hpatches' (h.mem_iff.1 hp) hpa]
  · have hnot : ∀ p ∈ patches, ¬ Covers p a := fun p hp hpa => hcovers ⟨p, hp, hpa⟩
    rw [original_of_forall_not hnot, original_of_forall_not fun p hp => hnot p (h.mem_iff.2 hp)]

/-- A new patch leaves the original memory as it is. -/
theorem original_cons {code : List α} (hcode : code.length = len)
    (hnew : ∀ q ∈ patches, Apart (start, read m start len) q) :
    original ((start, read m start len) :: patches) (write m start code) = original patches m := by
  funext a
  by_cases h : Covers (start, read m start len) a
  · have hlt : a < start + len := length_read m start len ▸ h.2
    have hle : start ≤ a := h.1
    rw [original_of_forall_not fun q hq => (hnew q hq).not_covers h]
    unfold original
    rw [List.find?_cons_of_pos (by simpa using h)]
    dsimp only
    rw [getElem?_read (by omega), Nat.add_sub_cancel' hle, Option.getD_some]
  · have hwrite : write m start code a = m a := by
      refine write_of_not_mem fun hin => h ⟨hin.1, ?_⟩
      have hlt : a < start + code.length := hin.2
      rw [length_read]
      omega
    unfold original
    rw [List.find?_cons_of_neg (by simpa using h), hwrite]

/-- Writing a part of a saved block back leaves the original memory as it is. -/
theorem original_write_saved (hpatches : patches.Pairwise Apart) (hp : p ∈ patches) (n : ℕ) :
    original patches (write m p.1 (p.2.take n)) = original patches m := by
  funext a
  by_cases hcovers : ∃ q ∈ patches, Covers q a
  · obtain ⟨q, hq, hqa⟩ := hcovers
    refine Option.some.inj ?_
    rw [original_of_mem hpatches hq hqa, original_of_mem hpatches hq hqa]
  · have hnot : ∀ q ∈ patches, ¬ Covers q a := fun q hq hqa => hcovers ⟨q, hq, hqa⟩
    rw [original_of_forall_not hnot, original_of_forall_not hnot]
    refine write_of_not_mem fun hin => hnot p hp ⟨hin.1, ?_⟩
    have hlt : a < p.1 + (p.2.take n).length := hin.2
    rw [List.length_take] at hlt
    omega

/-- A patch whose block is in place again can be forgotten. -/
theorem original_restored (hpatches : (p :: patches).Pairwise Apart) :
    original patches (write m p.1 p.2) = original (p :: patches) m := by
  obtain ⟨hp, hl⟩ := List.pairwise_cons.1 hpatches
  funext a
  by_cases h : Covers p a
  · refine Option.some.inj ?_
    rw [original_of_mem hpatches List.mem_cons_self h,
      original_of_forall_not fun q hq => (hp q hq).not_covers h]
    exact write_of_mem h
  · unfold original
    rw [List.find?_cons_of_neg (by simpa using h), write_of_not_mem h]

/-- A write that avoids the patches is one to the original memory. -/
theorem original_write (h : ∀ p ∈ patches, Avoids start block.length p) :
    original patches (write m start block) = write (original patches m) start block := by
  funext a
  by_cases hin : Covers (start, block) a
  · have hnot : ∀ p ∈ patches, ¬ Covers p a := fun p hp => (h p hp).not_covers hin.1 hin.2
    refine Option.some.inj ?_
    rw [original_of_forall_not hnot, write_of_mem hin, write_of_mem hin]
  · rw [write_of_not_mem hin]
    unfold original
    rw [write_of_not_mem hin]

end

/-! ## Copies -/

/-- A block is put back in a copy: `n` of its elements from `src` on, at `dest`. -/
def patchCopy (data : List α) (dest : ℕ) (saved : List α) (src n : ℕ) : List α :=
  data.take dest ++ (saved.drop src).take n ++ data.drop (dest + n)

section

variable {data saved : List α} {dest src n i : ℕ}

theorem length_patchCopy (hdest : dest + n ≤ data.length) (hsrc : src + n ≤ saved.length) :
    (patchCopy data dest saved src n).length = data.length := by
  simp only [patchCopy, List.length_append, List.length_take, List.length_drop]
  omega

theorem getElem?_patchCopy (hdest : dest + n ≤ data.length) (hsrc : src + n ≤ saved.length) :
    (patchCopy data dest saved src n)[i]? =
      if dest ≤ i ∧ i < dest + n then saved[i - dest + src]? else data[i]? := by
  have htake : (data.take dest).length = dest := by
    rw [List.length_take]
    omega
  have hmid : ((saved.drop src).take n).length = n := by
    rw [List.length_take, List.length_drop]
    omega
  unfold patchCopy
  rw [List.append_assoc]
  by_cases hlow : i < dest
  · rw [List.getElem?_append_left (by omega), List.getElem?_take_of_lt hlow, if_neg (by omega)]
  · rw [List.getElem?_append_right (by omega), htake]
    by_cases hhigh : i < dest + n
    · rw [List.getElem?_append_left (by omega), List.getElem?_take_of_lt (by omega),
        List.getElem?_drop, if_pos ⟨by omega, hhigh⟩, Nat.add_comm]
    · rw [List.getElem?_append_right (by omega), hmid, List.getElem?_drop, if_neg (by omega)]
      congr 1
      omega

/-- A patch has been put back in a copy of the range. -/
def PutBack (start len : ℕ) (p : Patch α) (data data' : List α) : Prop :=
  data'.length = len ∧ ∀ i < len, data'[i]? =
    if Covers p (start + i) then p.2[start + i - p.1]? else data[i]?

/-- Where each patch in turn is put back, the copy is one of the original memory. -/
theorem foldlM_read {m : ℕ → α} {start len : ℕ} {patches : List (Patch α)}
    {step : List α → Patch α → Option (List α)} (hpatches : patches.Pairwise Apart)
    (hstep : ∀ p ∈ patches, ∀ data : List α, data.length = len →
      ∃ data', step data p = some data' ∧ PutBack start len p data data') :
    patches.foldlM step (read m start len) = some (read (original patches m) start len) := by
  suffices h : ∀ data : List α, data.length = len →
      ∃ data', patches.foldlM step data = some data' ∧ data'.length = len ∧
        ∀ i < len, data'[i]? = match patches.find? (Covers · (start + i)) with
          | some p => p.2[start + i - p.1]?
          | none => data[i]? by
    obtain ⟨data', hok, hlen, hdata⟩ := h _ (length_read m start len)
    rw [hok, Option.some.injEq]
    refine List.ext_getElem? fun i => ?_
    by_cases hi : i < len
    · rw [hdata i hi, getElem?_read hi, getElem?_read hi]
      by_cases hcovers : ∃ p ∈ patches, Covers p (start + i)
      · obtain ⟨p, hp, hpi⟩ := hcovers
        rw [find?_of_mem hpatches hp hpi, original_of_mem hpatches hp hpi]
      · have hnot : ∀ p ∈ patches, ¬ Covers p (start + i) := fun p hp hpi => hcovers ⟨p, hp, hpi⟩
        rw [original_of_forall_not hnot, List.find?_eq_none.2 fun p hp => by simpa using hnot p hp]
    · rw [List.getElem?_eq_none (by omega),
        List.getElem?_eq_none ((length_read _ start len).trans_le (by omega))]
  induction hpatches with
  | nil => exact fun data hdata => ⟨data, rfl, hdata, fun i _ => rfl⟩
  | @cons p l hp hl ih =>
    intro data hdata
    obtain ⟨data₁, hok₁, hlen₁, hdata₁⟩ := hstep p List.mem_cons_self data hdata
    obtain ⟨data', hok, hlen, hdata'⟩ :=
      ih (fun q hq => hstep q (List.mem_cons_of_mem p hq)) data₁ hlen₁
    refine ⟨data', ?_, hlen, fun i hi => ?_⟩
    · rw [List.foldlM_cons, hok₁]
      exact hok
    · rw [hdata' i hi]
      by_cases hcovers : Covers p (start + i)
      · have hnot : ∀ q ∈ l, ¬ Covers q (start + i) := fun q hq => (hp q hq).not_covers hcovers
        rw [List.find?_eq_none.2 fun q hq => by simpa using hnot q hq,
          List.find?_cons_of_pos (by simpa using hcovers)]
        exact (hdata₁ i hi).trans (if_pos hcovers)
      · rw [List.find?_cons_of_neg (by simpa using hcovers), hdata₁ i hi, if_neg hcovers]

end

end Patches
