import SandboxingNaCl.Untrusted.DynSegments

/-!
# The relocations of a loaded module

`apply_relocations` adds the bias at the places that a table names, one entry after another, and
reads the table from the memory that it changes.  Where no entry names a place in the table, the
entries are those that the table had at the start.
-/

namespace SandboxingNaCl

open BiasedImage ByteImage KeyedLoop Patches

namespace DynMemory

variable {mem mem' : DynMemory} {a b v x : ℕ} {bytes : List UInt8}

theorem store_of_out (h : x < a ∨ a + bytes.length ≤ x) : mem.store a bytes x = mem x := by
  unfold store overwrite
  rw [if_neg (by omega)]

theorem value_store_of_in (hmapped : (mem x).isSome) (h : a ≤ x) (hlt : x < a + bytes.length) :
    bytes[x - a]? = some ((mem.store a bytes).value x) := by
  have hj : x - a < bytes.length := by omega
  obtain ⟨cell, hcell⟩ := Option.isSome_iff_exists.1 hmapped
  unfold value store overwrite
  rw [if_pos ⟨h, hlt⟩, hcell]
  simp only [Option.map_some, Option.getD_some, List.getElem?_eq_getElem hj]

theorem word_store_of_apart (h : b + 4 ≤ a ∨ a + bytes.length ≤ b) :
    (mem.store a bytes).word b = mem.word b := by
  have hread : read (mem.store a bytes).value b 4 = read mem.value b 4 := by
    apply List.map_congr_left
    intro i hi
    rw [List.mem_range] at hi
    unfold value
    rw [store_of_out (by omega)]
  unfold word wordAt
  rw [hread]

theorem word_store (hmapped : ∀ i < 4, (mem (a + i)).isSome) (hv : v < 2 ^ 32) :
    (mem.store a (leBytes 4 v)).word a = v := by
  apply wordAt_of_holds ?_ hv
  apply holds_iff.2
  intro i hi
  rw [length_leBytes] at hi
  rw [← value_store_of_in (hmapped i hi) (Nat.le_add_right a i) (by rw [length_leBytes]; omega),
    Nat.add_sub_cancel_left]

theorem isSome_store : (mem.store a bytes x).isSome = (mem x).isSome := by
  unfold store overwrite
  split_ifs
  · exact Option.isSome_map ..
  · rfl

theorem Allows.isSome {access : BitVec 32} {len : ℕ} (h : mem.Allows access a len) {i : ℕ}
    (hi : i < len) : (mem (a + i)).isSome := by
  obtain ⟨cell, hcell, -⟩ := h (a + i) (List.mem_range'_1.2 (by omega))
  rw [Option.mem_def.1 hcell]
  rfl

theorem eq_of_readWord (h : mem.readWord a = .ok v) : v = mem.word a := by
  unfold readWord at h
  split_ifs at h
  cases h
  rfl

theorem eq_of_writeWord (h : mem.writeWord a v = .ok mem') :
    mem.Allows protWrite a 4 ∧ mem' = mem.store a (leBytes 4 v) := by
  unfold writeWord at h
  split_ifs at h with hok
  cases h
  exact ⟨hok.2, rfl⟩

end DynMemory

def relocTarget (loadBias rOffset : ℕ) : ℕ := (loadBias + rOffset) % 2 ^ 32

def relocate (loadBias : ℕ) (mem : DynMemory) (rOffset : ℕ) : DynMemory :=
  let addr := relocTarget loadBias rOffset
  mem.store addr (leBytes 4 ((mem.word addr + loadBias) % 2 ^ 32))

/-- The bias has been added once for each entry, and nothing else has changed. -/
structure Relocated (loadBias : ℕ) (offsets : List ℕ) (mem mem' : DynMemory) : Prop where
  each : mem' = offsets.foldl (relocate loadBias) mem
  others : ∀ x, (∀ off ∈ offsets, x < relocTarget loadBias off ∨ relocTarget loadBias off + 4 ≤ x) →
    mem' x = mem x
  /-- The word that one entry names, and no other entry touches. -/
  once : ∀ before off after, offsets = before ++ off :: after →
    (∀ off' ∈ before ++ after, relocTarget loadBias off + 4 ≤ relocTarget loadBias off' ∨
      relocTarget loadBias off' + 4 ≤ relocTarget loadBias off) →
    mem'.word (relocTarget loadBias off) = (mem.word (relocTarget loadBias off) + loadBias) % 2 ^ 32

section

variable {arch : DynArch} {loadBias : ℕ} {mem mem' : DynMemory} {offsets : List ℕ} {off b x : ℕ}

theorem relocate_of_out (h : x < relocTarget loadBias off ∨ relocTarget loadBias off + 4 ≤ x) :
    relocate loadBias mem off x = mem x := by
  apply DynMemory.store_of_out
  rw [length_leBytes]
  exact h

theorem word_relocate_of_apart
    (h : b + 4 ≤ relocTarget loadBias off ∨ relocTarget loadBias off + 4 ≤ b) :
    (relocate loadBias mem off).word b = mem.word b := by
  apply DynMemory.word_store_of_apart
  rw [length_leBytes]
  exact h

theorem foldl_relocate_of_out
    (h : ∀ off ∈ offsets, x < relocTarget loadBias off ∨ relocTarget loadBias off + 4 ≤ x) :
    offsets.foldl (relocate loadBias) mem x = mem x := by
  induction offsets generalizing mem with
  | nil => rfl
  | cons off offsets ih =>
    rw [List.foldl_cons, ih fun off' hoff' => h off' (List.mem_cons_of_mem _ hoff'),
      relocate_of_out (h off List.mem_cons_self)]

theorem word_foldl_relocate_of_apart
    (h : ∀ off ∈ offsets, b + 4 ≤ relocTarget loadBias off ∨ relocTarget loadBias off + 4 ≤ b) :
    (offsets.foldl (relocate loadBias) mem).word b = mem.word b := by
  induction offsets generalizing mem with
  | nil => rfl
  | cons off offsets ih =>
    rw [List.foldl_cons, ih fun off' hoff' => h off' (List.mem_cons_of_mem _ hoff'),
      word_relocate_of_apart (h off List.mem_cons_self)]

theorem isSome_foldl_relocate :
    (offsets.foldl (relocate loadBias) mem x).isSome = (mem x).isSome := by
  induction offsets generalizing mem with
  | nil => rfl
  | cons off offsets ih =>
    rw [List.foldl_cons, ih]
    exact DynMemory.isSome_store

/-- Where the words that the entries name are mapped, applying them one after another is what is
wanted. -/
theorem relocated_foldl
    (hmapped : ∀ off ∈ offsets, ∀ i < 4, (mem (relocTarget loadBias off + i)).isSome) :
    Relocated loadBias offsets mem (offsets.foldl (relocate loadBias) mem) where
  each := rfl
  others _ := foldl_relocate_of_out
  once := by
    rintro before off after rfl hapart
    rw [List.foldl_append, List.foldl_cons]
    rw [word_foldl_relocate_of_apart fun off' hoff' => hapart off' (List.mem_append_right _ hoff')]
    unfold relocate
    rw [DynMemory.word_store (fun i hi => ?_) (Nat.mod_lt _ (by decide))]
    · have hword : (before.foldl (relocate loadBias) mem).word (relocTarget loadBias off) =
          mem.word (relocTarget loadBias off) :=
        word_foldl_relocate_of_apart fun off' hoff' => hapart off' (List.mem_append_left _ hoff')
      rw [← hword]
      rfl
    · have hsome : (before.foldl (relocate loadBias) mem (relocTarget loadBias off + i)).isSome =
          (mem (relocTarget loadBias off + i)).isSome := isSome_foldl_relocate
      exact hsome.trans (hmapped off (by simp) i hi)

theorem eq_of_applyRelocation {rels : ℕ}
    (h : arch.applyRelocation loadBias mem rels = .ok mem') :
    mem.word (rels + 4) % 256 = arch.relative ∧
      (∀ i < 4, (mem (relocTarget loadBias (mem.word rels) + i)).isSome) ∧
      mem' = relocate loadBias mem (mem.word rels) := by
  obtain ⟨rInfo, hinfo, h⟩ := bind_eq_ok.1 h
  obtain ⟨rOffset, hoffset, h⟩ := bind_eq_ok.1 h
  obtain ⟨_, hcheck, h⟩ := bind_eq_ok.1 h
  obtain ⟨old, hold, h⟩ := bind_eq_ok.1 h
  obtain ⟨hallows, rfl⟩ := DynMemory.eq_of_writeWord h
  rw [← DynMemory.eq_of_readWord hinfo, ← DynMemory.eq_of_readWord hoffset]
  refine ⟨dynCheck_eq_ok.1 hcheck, fun i hi => hallows.isSome hi, ?_⟩
  rw [DynMemory.eq_of_readWord hold]
  rfl

def TableApart (loadBias : ℕ) (mem : DynMemory) (entries : List ℕ) : Prop :=
  ∀ r ∈ entries, ∀ r' ∈ entries, r' + 8 ≤ relocTarget loadBias (mem.word r) ∨
    relocTarget loadBias (mem.word r) + 4 ≤ r'

theorem eq_of_applyRelocations {entries todo : List ℕ} {mem₀ : DynMemory}
    (hapart : TableApart loadBias mem₀ entries) (hsub : todo ⊆ entries)
    (hsame : ∀ r ∈ entries, mem.word r = mem₀.word r ∧ mem.word (r + 4) = mem₀.word (r + 4))
    (h : todo.foldlM (arch.applyRelocation loadBias) mem = .ok mem') :
    (∀ r ∈ todo, mem₀.word (r + 4) % 256 = arch.relative ∧
        ∀ i < 4, (mem (relocTarget loadBias (mem₀.word r) + i)).isSome) ∧
      mem' = (todo.map mem₀.word).foldl (relocate loadBias) mem := by
  induction todo generalizing mem with
  | nil =>
    cases h
    exact ⟨nofun, rfl⟩
  | cons r todo ih =>
    have hr : r ∈ entries := hsub List.mem_cons_self
    rw [List.foldlM_cons] at h
    obtain ⟨next, hnext, h⟩ := bind_eq_ok.1 h
    obtain ⟨htype, hmapped, rfl⟩ := eq_of_applyRelocation hnext
    rw [(hsame r hr).1] at hmapped h
    rw [(hsame r hr).2] at htype
    have hkept (r' : ℕ) (hr' : r' ∈ entries) :
        (relocate loadBias mem (mem₀.word r)).word r' = mem₀.word r' ∧
          (relocate loadBias mem (mem₀.word r)).word (r' + 4) = mem₀.word (r' + 4) := by
      have hout := hapart r hr r' hr'
      rw [word_relocate_of_apart (by omega), word_relocate_of_apart (by omega)]
      exact hsame r' hr'
    obtain ⟨hrest, hmem⟩ := ih (fun r' hr' => hsub (List.mem_cons_of_mem _ hr')) hkept h
    refine ⟨fun r' hr' => ?_, hmem⟩
    rcases List.mem_cons.1 hr' with rfl | hr'
    · exact ⟨htype, hmapped⟩
    · refine ⟨(hrest r' hr').1, fun i hi => ?_⟩
      have hsome := (hrest r' hr').2 i hi
      have hstore : (relocate loadBias mem (mem₀.word r)
          (relocTarget loadBias (mem₀.word r') + i)).isSome =
            (mem (relocTarget loadBias (mem₀.word r') + i)).isSome := DynMemory.isSome_store
      exact hstore.symm.trans hsome

end

end SandboxingNaCl
