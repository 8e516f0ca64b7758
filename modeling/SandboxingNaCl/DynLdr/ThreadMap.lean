import SandboxingNaCl.DynLdr.ThreadBinding
import SandboxingNaCl.Lib.Patches

/-!
# The thread map of a sandbox

When `Map_Get` gives what `Map_Put` has put.  `malloc` leaves the arrays of the map as they are and
`Map_Init` resets the number of entries only, but `Map_Get` looks at all of the keys.
-/

namespace SandboxingNaCl

open Patches Function

def mapInit (map : DSMap) : DSMap := { map with currentTop := 0 }

/-- `Map_Put`, of any value. -/
def mapPutValue (map : DSMap) (key : ℕ) (value : Option SandboxThread) : Option DSMap :=
  if map.currentTop = mapArrSize then none
  else some {
    keys := Function.update map.keys map.currentTop key
    values := Function.update map.values map.currentTop value
    currentTop := map.currentTop + 1 }

/-- Calls of `Map_Put`, one after another. -/
def mapPuts (map : DSMap) (puts : List (ℕ × Option SandboxThread)) : Option DSMap :=
  puts.foldlM (fun map put => mapPutValue map put.1 put.2) map

/-- `Map_Get` gives the value that has been put with a key, and null for the other keys. -/
def DSMap.Gives (map : DSMap) (puts : List (ℕ × Option SandboxThread)) : Prop :=
  (∀ put ∈ puts, mapGet map put.1 = put.2) ∧ ∀ key, key ∉ puts.map Prod.fst → mapGet map key = none

/-- Behind the first `n` places there is null at the first place of each key that is not one of these. -/
def DSMap.ClearBehind (memory : DSMap) (n : ℕ) (keys : List ℕ) : Prop :=
  ∀ i < mapArrSize, n ≤ i → memory.keys i ∉ keys →
    (∀ j < i, n ≤ j → memory.keys j ≠ memory.keys i) → memory.values i = none

section

variable {map memory : DSMap} {puts : List (ℕ × Option SandboxThread)} {key i : ℕ}

theorem write_update {α : Type*} (m : ℕ → α) (start : ℕ) (x : α) (xs : List α) :
    write (update m start x) (start + 1) xs = write m start (x :: xs) := by
  funext a
  unfold write
  rcases Nat.lt_trichotomy a start with h | rfl | h
  · rw [if_neg (by omega), if_neg (by omega), update_of_ne (by omega)]
  · rw [if_neg (by omega), if_pos le_rfl, update_self, Nat.sub_self]
    rfl
  · obtain ⟨n, rfl⟩ := Nat.exists_eq_add_of_lt h
    have hsub : start + n + 1 - start = n + 1 := by omega
    rw [if_pos (by omega), if_pos (by omega), update_of_ne (by omega), hsub,
      List.getElem?_cons_succ]
    congr 2
    omega

theorem mapPuts_eq (h : map.currentTop + puts.length ≤ mapArrSize) : mapPuts map puts = some {
    keys := write map.keys map.currentTop (puts.map Prod.fst)
    values := write map.values map.currentTop (puts.map Prod.snd)
    currentTop := map.currentTop + puts.length } := by
  induction puts generalizing map with
  | nil =>
    have hnil {α : Type} (m : ℕ → α) (start : ℕ) : write m start [] = m := by
      funext a
      simp [write]
    rw [mapPuts, List.foldlM_nil, List.map_nil, List.map_nil, hnil, hnil]
    rfl
  | cons put puts ih =>
    rw [List.length_cons] at h
    have hput : mapPutValue map put.1 put.2 = some {
        keys := update map.keys map.currentTop put.1
        values := update map.values map.currentTop put.2
        currentTop := map.currentTop + 1 } := if_neg (by omega)
    have hrest := @ih ⟨update map.keys map.currentTop put.1,
      update map.values map.currentTop put.2, map.currentTop + 1⟩ (by dsimp only; omega)
    rw [write_update, write_update] at hrest
    rw [mapPuts, List.foldlM_cons, hput]
    refine hrest.trans ?_
    rw [List.length_cons, Nat.add_assoc, Nat.add_comm 1]
    rfl

theorem mapGet_of_first (hlt : i < mapArrSize) (hkey : map.keys i = key)
    (hfirst : ∀ j < i, map.keys j ≠ key) : mapGet map key = map.values i := by
  have hfind : (List.range mapArrSize).find? (fun j => map.keys j = key) = some i := by
    rw [List.find?_range_eq_some]
    exact ⟨by simpa using hkey, List.mem_range.2 hlt, fun j hj => by simpa using hfirst j hj⟩
  rw [mapGet, hfind]
  rfl

theorem exists_first_of_mapGet (h : mapGet map key ≠ none) : ∃ i < mapArrSize, map.keys i = key ∧
    (∀ j < i, map.keys j ≠ key) ∧ map.values i ≠ none := by
  unfold mapGet at h
  cases hfind : (List.range mapArrSize).find? (fun j => map.keys j = key) with
  | none =>
    rw [hfind] at h
    exact absurd rfl h
  | some i =>
    rw [hfind] at h
    obtain ⟨hkey, hmem, hfirst⟩ := List.find?_range_eq_some.1 hfind
    exact ⟨i, List.mem_range.1 hmem, by simpa using hkey, fun j hj => by simpa using hfirst j hj, h⟩

/-- The map after the calls, on memory from `malloc`. -/
def DSMap.filled (memory : DSMap) (puts : List (ℕ × Option SandboxThread)) : DSMap where
  keys := write memory.keys 0 (puts.map Prod.fst)
  values := write memory.values 0 (puts.map Prod.snd)
  currentTop := puts.length

theorem mapPuts_mapInit (memory : DSMap) (h : puts.length ≤ mapArrSize) :
    mapPuts (mapInit memory) puts = some (memory.filled puts) := by
  rw [mapPuts_eq (by simpa [mapInit] using h)]
  simp [mapInit, DSMap.filled]

theorem write_zero_of_lt {α β : Type*} (m : ℕ → α) (f : β → α) {xs : List β} (h : i < xs.length) :
    write m 0 (xs.map f) i = f xs[i] := by
  rw [write, if_pos (Nat.zero_le i), Nat.sub_zero, List.getElem?_map, List.getElem?_eq_getElem h]
  rfl

theorem write_zero_of_le {α β : Type*} (m : ℕ → α) (f : β → α) {xs : List β} (h : xs.length ≤ i) :
    write m 0 (xs.map f) i = m i := by
  rw [write, if_pos (Nat.zero_le i), Nat.sub_zero, List.getElem?_map, List.getElem?_eq_none h]
  rfl

namespace DSMap

theorem keys_filled_of_lt (h : i < puts.length) : (memory.filled puts).keys i = puts[i].1 :=
  write_zero_of_lt memory.keys Prod.fst h

theorem keys_filled_of_le (h : puts.length ≤ i) : (memory.filled puts).keys i = memory.keys i :=
  write_zero_of_le memory.keys Prod.fst h

theorem keys_filled_ne (hkey : key ∉ puts.map Prod.fst) (h : i < puts.length) :
    (memory.filled puts).keys i ≠ key := by
  rw [keys_filled_of_lt h]
  exact fun heq => hkey (heq ▸ List.mem_map_of_mem (List.getElem_mem h))

theorem mapGet_filled (memory : DSMap) (hdistinct : (puts.map Prod.fst).Nodup)
    (hfits : puts.length ≤ mapArrSize) {put : ℕ × Option SandboxThread} (hput : put ∈ puts) :
    mapGet (memory.filled puts) put.1 = put.2 := by
  obtain ⟨i, hi, rfl⟩ := List.mem_iff_getElem.1 hput
  have hfirst (j : ℕ) (hj : j < i) : (memory.filled puts).keys j ≠ puts[i].1 := by
    rw [keys_filled_of_lt (by omega)]
    have hne := List.pairwise_iff_getElem.1 hdistinct j i (by simpa using by omega) (by simpa using hi) hj
    simpa using hne
  rw [mapGet_of_first (by omega) (keys_filled_of_lt hi) hfirst]
  exact write_zero_of_lt memory.values Prod.snd hi

theorem gives_filled_iff (memory : DSMap) (hdistinct : (puts.map Prod.fst).Nodup)
    (hfits : puts.length ≤ mapArrSize) :
    (memory.filled puts).Gives puts ↔ memory.ClearBehind puts.length (puts.map Prod.fst) := by
  constructor
  · rintro ⟨-, hother⟩ i hi hle hkey hfirst
    have hfirst' (j : ℕ) (hj : j < i) : (memory.filled puts).keys j ≠ memory.keys i := by
      rcases Nat.lt_or_ge j puts.length with hlt | hge
      · exact keys_filled_ne hkey hlt
      · rw [keys_filled_of_le hge]
        exact hfirst j hj hge
    have hget := mapGet_of_first hi (keys_filled_of_le hle) hfirst'
    rw [hother _ hkey] at hget
    exact (write_zero_of_le memory.values Prod.snd hle).symm.trans hget.symm
  · intro hclear
    refine ⟨fun put hput => mapGet_filled memory hdistinct hfits hput, fun key hkey => ?_⟩
    by_contra hget
    obtain ⟨i, hi, rfl, hfirst, hvalue⟩ := exists_first_of_mapGet hget
    have hle : puts.length ≤ i := by
      by_contra hlt
      exact keys_filled_ne hkey (not_le.1 hlt) rfl
    rw [keys_filled_of_le hle] at hkey hfirst
    refine hvalue ((write_zero_of_le memory.values Prod.snd hle).trans ?_)
    refine hclear i hi hle hkey fun j hj hge => ?_
    rw [← @keys_filled_of_le memory puts j hge]
    exact hfirst j hj

end DSMap

theorem getThreadData_creating_iff {T : Type*} [DecidableEq T] (id : T → ℕ) {s : BindingState T} {t : T}
    (hidle : s.phase t = .idle) :
    (getThreadData id s t).phase t = .creating ↔ mapGet s.threadDataMap (id t) = none := by
  unfold getThreadData
  cases mapGet s.threadDataMap (id t) with
  | none => simp [BindingState.goto]
  | some threadData => simp [BindingState.setResult, hidle]

end

/-- On the memory that `malloc` gives, the calls of `Map_Put` succeed; a lookup then gives what has been
put, and a thread that calls `getThreadData` creates a record exactly when it has none. -/
def ThreadMapRight {T : Type*} [DecidableEq T] (id : T → ℕ) (memory : DSMap)
    (puts : List (ℕ × Option SandboxThread)) : Prop :=
  ∃ map, mapPuts (mapInit memory) puts = some map ∧ map.Gives puts ∧
    ∀ s : BindingState T, s.threadDataMap = map → ∀ t, s.phase t = .idle →
      ((getThreadData id s t).phase t = .creating ↔ ∀ threadData, (id t, some threadData) ∉ puts)

/-- This is so for all distinct keys that fit if and only if the memory has no other key with a value
in the places that have not been filled. -/
theorem threadMapRight_iff {T : Type*} [DecidableEq T] (id : T → ℕ) (memory : DSMap)
    (puts : List (ℕ × Option SandboxThread)) (hdistinct : (puts.map Prod.fst).Nodup)
    (hfits : puts.length ≤ mapArrSize) :
    ThreadMapRight id memory puts ↔ memory.ClearBehind puts.length (puts.map Prod.fst) := by
  rw [← memory.gives_filled_iff hdistinct hfits]
  constructor
  · rintro ⟨map, hmap, hgives, -⟩
    rw [mapPuts_mapInit memory hfits] at hmap
    exact Option.some.inj hmap ▸ hgives
  · intro hgives
    refine ⟨_, mapPuts_mapInit memory hfits, hgives, fun s hs t hidle => ?_⟩
    rw [getThreadData_creating_iff id hidle, hs]
    constructor
    · intro hnone threadData hput
      cases hnone.symm.trans (hgives.1 _ hput)
    · intro hnot
      by_cases hkey : id t ∈ puts.map Prod.fst
      · obtain ⟨⟨key, value⟩, hput, rfl⟩ := List.mem_map.1 hkey
        rw [hgives.1 _ hput]
        cases value with
        | none => rfl
        | some threadData => exact absurd hput (hnot threadData)
      · exact hgives.2 _ hkey

/-- Memory that has held the key 7 at its sixth place. -/
def DSMap.reused : DSMap where
  keys i := if i = 5 then 7 else 0
  values i := if i = 5 then some ⟨3⟩ else none
  currentTop := 0

/-- With the key put, it is found first. -/
theorem threadMapRight_reused :
    ThreadMapRight (T := ℕ) (fun t => t) .reused [(7, some ⟨0⟩), (0, some ⟨1⟩)] :=
  (threadMapRight_iff _ _ _ (by decide) (by decide)).2 fun i _ _ hkey _ => by
    refine absurd ?_ hkey
    by_cases h : i = 5 <;> simp [DSMap.reused, h]

/-- With another key put, the thread 7 gets a record that is none. -/
theorem not_threadMapRight_reused : ¬ ThreadMapRight (T := ℕ) (fun t => t) .reused [(1, some ⟨0⟩)] := by
  rintro ⟨map, hmap, hgives, -⟩
  rw [mapPuts_mapInit DSMap.reused (by decide)] at hmap
  have hget : mapGet (DSMap.reused.filled [(1, some ⟨0⟩)]) 7 = some ⟨3⟩ := by decide
  rw [Option.some.inj hmap, hgives.2 7 (by decide)] at hget
  cases hget

end SandboxingNaCl
