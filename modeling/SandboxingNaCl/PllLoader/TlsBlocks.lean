import Mathlib.Data.List.Nodup
import SandboxingNaCl.Lib.CheckedVector
import SandboxingNaCl.Lib.Lifetime
import SandboxingNaCl.Lib.Runs
import SandboxingNaCl.PllLoader.ExportedSym

/-!
# The thread-local storage of modules

`pll_loader.cc`: `TLSBlockBase` and `InitializeTLS`, for any number of threads.  A step is what a
thread does under `g_modules_mutex`, or with its own variables only.  A call is made through the
closure of a module whose `tls_block_getter` has been filled in; a module is initialized once.
-/

namespace SandboxingNaCl

open Lifetime Runs Function

/-- `sizeof (void *)`. -/
def sizeofVoidPtr : ℕ := 4

/-- A block, as `InstantiateTLSBlock` leaves it. -/
structure TlsBlock where
  alignment : ℕ
  bytes : List UInt8

/-- The template has as many bytes as it says, and not more than a block. -/
def PLLRoot.TemplateFits {π : Type} (root : PLLRoot π) : Prop :=
  root.tlsTemplateDataSize ≤ root.tlsTemplate.length ∧
    root.tlsTemplateDataSize ≤ root.tlsTemplateTotalSize

instance {π : Type} (root : PLLRoot π) : Decidable root.TemplateFits := by
  unfold PLLRoot.TemplateFits
  infer_instance

/-- `PLLModule::InstantiateTLSBlock`, with the memory that `posix_memalign` has returned. -/
def PLLRoot.instantiateTLSBlock {π : Type} (root : PLLRoot π) : Except PllStop TlsBlock :=
  if root.TemplateFits then
    .ok ⟨max root.tlsTemplateAlignment sizeofVoidPtr,
      root.tlsTemplate.take root.tlsTemplateDataSize ++
        List.replicate (root.tlsTemplateTotalSize - root.tlsTemplateDataSize) 0⟩
  else .error .fault

/-- Where a thread is. -/
inductive TlsPoint (μ : Type)
  | idle
  /-- In `InitializeTLS`, after the lock. -/
  | initializing (m : μ) (moduleIndex : ℕ)
  /-- In `TLSBlockBase` for a module, before the lock. -/
  | missed (m : μ) (moduleIndex arraySize : ℕ)
  | sampled (m : μ) (moduleIndex arraySize newSize : ℕ) (pllRoot : μ)
  | instantiating (m : μ) (moduleIndex : ℕ) (pllRoot : μ)

/-- How many steps a call still takes. -/
def TlsPoint.stepsLeft {μ : Type} : TlsPoint μ → ℕ
  | .idle => 0
  | .initializing _ _ | .instantiating _ _ _ => 1
  | .sampled _ _ _ _ _ => 2
  | .missed _ _ _ => 3

/-- The variables of `pll_loader.cc`, and the heap.  `moduleIndex` is the `arg` of a module's
`tls_block_getter`, once `func` and `arg` are set; `array` is a thread's `thread_modules_array`,
with its size.  The last two fields only keep record, of the blocks made and of those returned. -/
structure PllWorld (θ μ β : Type) where
  gModules : Option (List μ)
  moduleIndex : μ → Option ℕ
  array : θ → List (Option β)
  point : θ → TlsPoint μ
  block : β → Cell TlsBlock
  created : List (θ × μ × β)
  returned : List (θ × μ × β)

inductive PllAction (θ μ β : Type)
  | initializeTLS (t : θ) (m : μ)
  | tlsBlockGetter (t : θ) (m : μ)
  /-- What follows, with what `realloc` and `posix_memalign` return. -/
  | next (t : θ) (newArray : Option (List (Option β))) (tlsBlock : Option β)

namespace PllWorld

variable {π θ μ β : Type} [DecidableEq θ] [DecidableEq μ] [DecidableEq β]

def init : PllWorld θ μ β where
  gModules := none
  moduleIndex _ := none
  array _ := []
  point _ := .idle
  block _ := .fresh
  created := []
  returned := []

def goto (w : PllWorld θ μ β) (t : θ) (p : TlsPoint μ) : PllWorld θ μ β :=
  { w with point := Function.update w.point t p }

/-- `TLSBlockBase` returns. -/
def finish (w : PllWorld θ μ β) (t : θ) (m : μ) (tlsBlock : β) : PllWorld θ μ β :=
  { w.goto t .idle with returned := w.returned ++ [(t, m, tlsBlock)] }

/-- `PLLModule::InitializeTLS` up to the end of its section. -/
def initializeTLS (roots : μ → PLLRoot π) (w : PllWorld θ μ β) (t : θ) (m : μ) :
    Except PllStop (PllWorld θ μ β) :=
  let modules := w.gModules.getD []
  if ¬ (roots m).hasTlsBlockGetter then .ok w
  else if m ∈ modules then .error .blocked
  else .ok ({ w with gModules := some (modules ++ [m]) }.goto t (.initializing m modules.length))

/-- `TLSBlockBase` up to the lock. -/
def tlsBlockBase (w : PllWorld θ μ β) (t : θ) (m : μ) (moduleIndex : ℕ) :
    Except PllStop (PllWorld θ μ β) := do
  let arraySize := (w.array t).length
  if moduleIndex < arraySize then
    match ← readAt (w.array t) moduleIndex with
    | some tlsBlock => .ok (w.finish t m tlsBlock)
    | none => .ok (w.goto t (.missed m moduleIndex arraySize))
  else .ok (w.goto t (.missed m moduleIndex arraySize))

/-- The section of `TLSBlockBase` under the lock. -/
def sampleModules (w : PllWorld θ μ β) (t : θ) (m : μ) (moduleIndex arraySize : ℕ) :
    Except PllStop (PllWorld θ μ β) :=
  match w.gModules with
  | none => .error .fault
  | some modules => do
      .ok (w.goto t (.sampled m moduleIndex arraySize modules.length
        (← readAt modules moduleIndex)))

/-- `TLSBlockBase` grows the array: `realloc` keeps what is in it, and `memset` fills the rest. -/
def growArray (w : PllWorld θ μ β) (t : θ) (m : μ) (moduleIndex arraySize newSize : ℕ)
    (pllRoot : μ) : Option (List (Option β)) → Except PllStop (PllWorld θ μ β)
  | none => .error .fatal
  | some newArray =>
    if (w.array t).take newSize <+: newArray ∧ newArray.length = newSize then
      match CheckedVector.fill newArray arraySize none (newSize - arraySize) with
      | some newArray =>
        .ok ({ w with array := Function.update w.array t newArray }.goto t
          (.instantiating m moduleIndex pllRoot))
      | none => .error .fault
    else .error .blocked

/-- The end of `TLSBlockBase`. -/
def instantiate (roots : μ → PLLRoot π) (w : PllWorld θ μ β) (t : θ) (m : μ) (moduleIndex : ℕ)
    (pllRoot : μ) : Option β → Except PllStop (PllWorld θ μ β)
  | none => .error .fatal
  | some tlsBlock =>
    if (w.block tlsBlock).isFresh then do
      let content ← (roots pllRoot).instantiateTLSBlock
      match CheckedVector.store (w.array t) moduleIndex (some tlsBlock) with
      | some array =>
        .ok ({ w with
          block := Function.update w.block tlsBlock (.live content)
          array := Function.update w.array t array
          created := w.created ++ [(t, m, tlsBlock)] }.finish t m tlsBlock)
      | none => .error .fault
    else .error .blocked

def step (roots : μ → PLLRoot π) (w : PllWorld θ μ β) :
    PllAction θ μ β → Except PllStop (PllWorld θ μ β)
  | .initializeTLS t m =>
    match w.point t with
    | .idle => w.initializeTLS roots t m
    | _ => .error .blocked
  | .tlsBlockGetter t m =>
    match w.point t, w.moduleIndex m with
    | .idle, some moduleIndex => w.tlsBlockBase t m moduleIndex
    | _, _ => .error .blocked
  | .next t newArray tlsBlock =>
    match w.point t with
    | .idle => .error .blocked
    | .initializing m moduleIndex =>
      .ok ({ w with moduleIndex := Function.update w.moduleIndex m (some moduleIndex) }.goto t
        .idle)
    | .missed m moduleIndex arraySize => w.sampleModules t m moduleIndex arraySize
    | .sampled m moduleIndex arraySize newSize pllRoot =>
      if arraySize ≤ moduleIndex then
        w.growArray t m moduleIndex arraySize newSize pllRoot newArray
      else .ok (w.goto t (.instantiating m moduleIndex pllRoot))
    | .instantiating m moduleIndex pllRoot => w.instantiate roots t m moduleIndex pllRoot tlsBlock

/-- A step waits, gives up, or ends in a state that meets `P`: it does not fault. -/
def NoFault {σ : Type} (P : σ → Prop) : Except PllStop σ → Prop
  | .ok s => P s
  | .error e => e ≠ .fault

/-- What holds of the blocks in every state that a run reaches. -/
structure Sound (roots : μ → PLLRoot π) (w : PllWorld θ μ β) : Prop where
  /-- All calls of a thread for a module return the same block. -/
  sameBlock : ∀ t m b b', (t, m, b) ∈ w.returned → (t, m, b') ∈ w.returned → b = b'
  made : ∀ t m b, (t, m, b) ∈ w.returned → (t, m, b) ∈ w.created
  once : (w.created.map fun c => (c.1, c.2.1)).Nodup
  notShared : ∀ t m t' m' b, (t, m, b) ∈ w.created → (t', m', b) ∈ w.created → t = t' ∧ m = m'
  initialised : ∀ t m b, (t, m, b) ∈ w.created →
    ∃ content, w.block b = .live content ∧ (roots m).instantiateTLSBlock = .ok content
  later : ∀ t m b i, (t, m, b) ∈ w.created → w.point t = .idle → w.moduleIndex m = some i →
    w.step roots (.tlsBlockGetter t m) = .ok (w.finish t m b)
  /-- As long as there is memory, a call comes nearer to its end with each of its steps. -/
  progress : ∀ t b, (w.block b).isFresh = true → w.point t ≠ .idle → ∃ newArray w',
    w.step roots (.next t newArray (some b)) = .ok w' ∧
      (w'.point t).stepsLeft < (w.point t).stepsLeft

end PllWorld

/-! ## What every step keeps -/

section

variable {μ β : Type} {modules modules' : List μ} {array : List (Option β)}

/-- What a thread's point says of the modules and of its array. -/
def TlsPoint.Ok (modules : List μ) (array : List (Option β)) : TlsPoint μ → Prop
  | .idle => True
  | .initializing m i => modules[i]? = some m
  | .missed m i arraySize =>
    modules[i]? = some m ∧ arraySize = array.length ∧ ∀ b, array[i]? ≠ some (some b)
  | .sampled m i arraySize newSize pllRoot =>
    pllRoot = m ∧ modules[i]? = some m ∧ arraySize = array.length ∧
      (∀ b, array[i]? ≠ some (some b)) ∧ i < newSize ∧ arraySize ≤ newSize ∧
        newSize ≤ modules.length
  | .instantiating m i pllRoot => pllRoot = m ∧ modules[i]? = some m ∧ array[i]? = some none

theorem getElem?_mono {α : Type} {l l' : List α} {i : ℕ} {a : α} (h : l <+: l')
    (hi : l[i]? = some a) : l'[i]? = some a := by
  obtain ⟨r, rfl⟩ := h
  obtain ⟨hlen, -⟩ := List.getElem?_eq_some_iff.1 hi
  rw [List.getElem?_append_left hlen]
  exact hi

theorem TlsPoint.Ok.mono {p : TlsPoint μ} (h : p.Ok modules array) (hm : modules <+: modules') :
    p.Ok modules' array := by
  cases p with
  | idle => trivial
  | initializing m i => exact getElem?_mono hm h
  | missed m i arraySize => exact ⟨getElem?_mono hm h.1, h.2⟩
  | sampled m i arraySize newSize pllRoot =>
    obtain ⟨hroot, hi, hsize, hnone, hlt, hle, hnew⟩ := h
    exact ⟨hroot, getElem?_mono hm hi, hsize, hnone, hlt, hle, hnew.trans hm.length_le⟩
  | instantiating m i pllRoot => exact ⟨h.1, getElem?_mono hm h.2.1, h.2.2⟩

end

namespace PllWorld

variable {π θ μ β : Type} {roots : μ → PLLRoot π} {w w' : PllWorld θ μ β} {t : θ} {m : μ} {i : ℕ}

def modules (w : PllWorld θ μ β) : List μ := w.gModules.getD []

/-- An entry of a thread's array is the block made for it and the module at that place. -/
structure Inv (roots : μ → PLLRoot π) (w : PllWorld θ μ β) : Prop where
  nodup : w.modules.Nodup
  closure : ∀ m i, w.moduleIndex m = some i → w.modules[i]? = some m
  arrays : ∀ t, (w.array t).length ≤ w.modules.length
  point : ∀ t, (w.point t).Ok w.modules (w.array t)
  entry : ∀ t (i : ℕ) b, (w.array t)[i]? = some (some b) →
    ∃ m, w.modules[i]? = some m ∧ (t, m, b) ∈ w.created
  stored : ∀ t m b, (t, m, b) ∈ w.created →
    ∃ i : ℕ, w.modules[i]? = some m ∧ (w.array t)[i]? = some (some b)
  once : (w.created.map fun c => (c.1, c.2.1)).Nodup
  notShared : ∀ t m t' m' b, (t, m, b) ∈ w.created → (t', m', b) ∈ w.created → t = t' ∧ m = m'
  initialised : ∀ t m b, (t, m, b) ∈ w.created →
    ∃ content, w.block b = .live content ∧ (roots m).instantiateTLSBlock = .ok content
  returned : ∀ c ∈ w.returned, c ∈ w.created

theorem Inv.index_unique (h : Inv roots w) {j : ℕ} (hi : w.modules[i]? = some m)
    (hj : w.modules[j]? = some m) : i = j := by
  obtain ⟨hlen, -⟩ := List.getElem?_eq_some_iff.1 hi
  exact (List.getElem?_inj hlen h.nodup).1 (hi.trans hj.symm)

theorem Inv.unique (h : Inv roots w) {b b' : β} (hb : (t, m, b) ∈ w.created)
    (hb' : (t, m, b') ∈ w.created) : b = b' := by
  obtain ⟨i, hi, hentry⟩ := h.stored t m b hb
  obtain ⟨j, hj, hentry'⟩ := h.stored t m b' hb'
  rw [← h.index_unique hi hj, hentry] at hentry'
  exact Option.some.inj (Option.some.inj hentry')

variable [DecidableEq θ]

theorem Inv.move (h : Inv roots w) {p : TlsPoint μ} (gModules : Option (List μ))
    {moduleIndex : μ → Option ℕ} {returned : List (θ × μ × β)}
    (hmodules : w.modules <+: gModules.getD []) (hnodup : (gModules.getD []).Nodup)
    (hclosure : ∀ m i, moduleIndex m = some i → (gModules.getD [])[i]? = some m)
    (hp : p.Ok (gModules.getD []) (w.array t)) (hreturned : ∀ c ∈ returned, c ∈ w.created) :
    Inv roots ({ w with gModules, moduleIndex, returned }.goto t p) where
  nodup := hnodup
  closure := hclosure
  arrays k := (h.arrays k).trans hmodules.length_le
  point k := by
    change TlsPoint.Ok (gModules.getD []) (w.array k) (update w.point t p k)
    rw [update_apply]
    split_ifs with hk
    · rw [hk]
      exact hp
    · exact (h.point k).mono hmodules
  entry k j b hb := by
    obtain ⟨m, hm, hcreated⟩ := h.entry k j b hb
    exact ⟨m, getElem?_mono hmodules hm, hcreated⟩
  stored k m b hb := by
    obtain ⟨j, hj, hentry⟩ := h.stored k m b hb
    exact ⟨j, getElem?_mono hmodules hj, hentry⟩
  once := h.once
  notShared := h.notShared
  initialised := h.initialised
  returned := hreturned

theorem Inv.goto (h : Inv roots w) {p : TlsPoint μ} (hp : p.Ok w.modules (w.array t)) :
    Inv roots (w.goto t p) :=
  h.move w.gModules (List.prefix_refl _) h.nodup h.closure hp h.returned

theorem Inv.finish (h : Inv roots w) {b : β} (hb : (t, m, b) ∈ w.created) :
    Inv roots (w.finish t m b) := by
  have hreturned : ∀ c ∈ w.returned ++ [(t, m, b)], c ∈ w.created := by
    intro c hc
    rcases List.mem_append.1 hc with hc | hc
    · exact h.returned c hc
    · rw [List.mem_singleton.1 hc]
      exact hb
  exact h.move (p := .idle) w.gModules (List.prefix_refl _) h.nodup h.closure trivial hreturned

theorem Inv.initializeTLS [DecidableEq μ] (h : Inv roots w) :
    NoFault (Inv roots) (w.initializeTLS roots t m) := by
  unfold PllWorld.initializeTLS
  dsimp only
  by_cases hgetter : (roots m).hasTlsBlockGetter = true
  · rw [if_neg (not_not_intro hgetter)]
    by_cases hmem : m ∈ w.gModules.getD []
    · rw [if_pos hmem]
      exact nofun
    · rw [if_neg hmem]
      have hnodup : (w.modules ++ [m]).Nodup := by
        refine List.nodup_append.2 ⟨h.nodup, List.nodup_singleton m, fun a ha b hb heq => ?_⟩
        rw [List.mem_singleton.1 hb] at heq
        exact hmem (heq ▸ ha)
      refine h.move (some (w.modules ++ [m])) (List.prefix_append _ _) hnodup
        (fun m' i hi => getElem?_mono (List.prefix_append _ _) (h.closure m' i hi)) ?_ h.returned
      change (w.modules ++ [m])[w.modules.length]? = some m
      rw [List.getElem?_append_right le_rfl, Nat.sub_self]
      rfl
  · rw [if_pos hgetter]
    exact h

theorem Inv.tlsBlockBase (h : Inv roots w) (hi : w.modules[i]? = some m) :
    NoFault (Inv roots) (w.tlsBlockBase t m i) := by
  have hmiss : (∀ b, (w.array t)[i]? ≠ some (some b)) →
      Inv roots (w.goto t (.missed m i (w.array t).length)) := fun hnone =>
    h.goto ⟨hi, rfl, hnone⟩
  unfold PllWorld.tlsBlockBase
  dsimp only
  by_cases hlt : i < (w.array t).length
  · rw [if_pos hlt]
    have hget : (w.array t)[i]? = some (w.array t)[i] := List.getElem?_eq_getElem hlt
    rw [readAt_of_getElem? hget]
    dsimp only [bind, Except.bind]
    cases hentry : (w.array t)[i] with
    | none =>
      rw [hentry] at hget
      refine hmiss fun b hb => ?_
      rw [hget] at hb
      cases hb
    | some b =>
      rw [hentry] at hget
      obtain ⟨m', hm', hcreated⟩ := h.entry t i b hget
      rw [hi] at hm'
      cases hm'
      exact h.finish hcreated
  · rw [if_neg hlt]
    refine hmiss fun b hb => ?_
    obtain ⟨hlen, -⟩ := List.getElem?_eq_some_iff.1 hb
    exact hlt hlen

theorem sampleModules_eq {arraySize : ℕ} (hi : w.modules[i]? = some m) :
    w.sampleModules t m i arraySize =
      .ok (w.goto t (.sampled m i arraySize w.modules.length m)) := by
  unfold PllWorld.sampleModules
  cases hmodules : w.gModules with
  | none =>
    unfold modules at hi
    rw [hmodules] at hi
    cases hi
  | some modules =>
    have heq : w.modules = modules := by
      unfold PllWorld.modules
      rw [hmodules]
      rfl
    rw [heq] at hi ⊢
    dsimp only
    rw [readAt_of_getElem? hi]
    rfl

theorem Inv.sampleModules (h : Inv roots w) {arraySize : ℕ}
    (hp : w.point t = .missed m i arraySize) :
    NoFault (Inv roots) (w.sampleModules t m i arraySize) := by
  have hok := h.point t
  rw [hp] at hok
  obtain ⟨hi, hsize, hnone⟩ := hok
  rw [sampleModules_eq hi]
  obtain ⟨hlen, -⟩ := List.getElem?_eq_some_iff.1 hi
  exact h.goto ⟨rfl, hi, hsize, hnone, hlen, hsize ▸ h.arrays t, le_rfl⟩

theorem Inv.setArray (h : Inv roots w) {p : TlsPoint μ} {array : List (Option β)}
    (hlength : array.length ≤ w.modules.length)
    (hget : ∀ (j : ℕ) (b : β), array[j]? = some (some b) ↔ (w.array t)[j]? = some (some b))
    (hp : p.Ok w.modules array) :
    Inv roots ({ w with array := update w.array t array }.goto t p) := by
  have harray : ∀ k, update w.array t array k = if k = t then array else w.array k :=
    update_apply _ _ _
  have hsame : ∀ k (j : ℕ) b, (update w.array t array k)[j]? = some (some b) ↔
      (w.array k)[j]? = some (some b) := by
    intro k j b
    rw [harray]
    split_ifs with hk
    · rw [hk]
      exact hget j b
    · rfl
  refine ⟨h.nodup, h.closure, fun k => ?_, fun k => ?_,
    fun k j b hb => h.entry k j b ((hsame k j b).1 hb), fun k m b hb => ?_, h.once, h.notShared,
    h.initialised, h.returned⟩
  · change (update w.array t array k).length ≤ _
    rw [harray]
    split_ifs
    · exact hlength
    · exact h.arrays k
  · change TlsPoint.Ok w.modules (update w.array t array k) (update w.point t p k)
    rw [harray, update_apply]
    split_ifs
    · exact hp
    · exact h.point k
  · obtain ⟨j, hj, hentry⟩ := h.stored k m b hb
    exact ⟨j, hj, (hsame k j b).2 hentry⟩

theorem growArray_eq [DecidableEq β] {arraySize newSize : ℕ} (pllRoot : μ)
    (stale : List (Option β)) (hsize : arraySize = (w.array t).length)
    (hstale : (w.array t).length + stale.length = newSize) :
    w.growArray t m i arraySize newSize pllRoot (some (w.array t ++ stale)) =
      .ok ({ w with
        array := update w.array t
          (w.array t ++ List.replicate (newSize - arraySize) none) }.goto t
        (.instantiating m i pllRoot)) := by
  have hrealloc : (w.array t).take newSize <+: w.array t ++ stale ∧
      (w.array t ++ stale).length = newSize := by
    rw [List.take_of_length_le (by omega), List.length_append]
    exact ⟨List.prefix_append _ _, hstale⟩
  have hfill := CheckedVector.fill_append (w.array t) stale [] none
  have hlength : newSize - arraySize = stale.length := by omega
  rw [List.append_nil, List.append_nil, ← hsize, ← hlength] at hfill
  unfold PllWorld.growArray
  dsimp only
  rw [if_pos hrealloc, hfill]

theorem Inv.growArray [DecidableEq β] (h : Inv roots w) {arraySize newSize : ℕ} {pllRoot : μ}
    (hp : w.point t = .sampled m i arraySize newSize pllRoot) (hle : arraySize ≤ i)
    (newArray : Option (List (Option β))) :
    NoFault (Inv roots) (w.growArray t m i arraySize newSize pllRoot newArray) := by
  have hok := h.point t
  rw [hp] at hok
  obtain ⟨hroot, hi, hsize, hnone, hlt, hnew, hmodules⟩ := hok
  cases newArray with
  | none => exact nofun
  | some newArray =>
    by_cases hrealloc : (w.array t).take newSize <+: newArray ∧ newArray.length = newSize
    · obtain ⟨hkept, hlength⟩ := hrealloc
      rw [List.take_of_length_le (hsize ▸ hnew)] at hkept
      obtain ⟨stale, rfl⟩ := hkept
      rw [List.length_append] at hlength
      rw [growArray_eq pllRoot stale hsize hlength]
      have hgrown :
          (w.array t ++ List.replicate (newSize - arraySize) none).length = newSize := by
        rw [List.length_append, List.length_replicate, ← hsize]
        omega
      have hrest : ∀ j, (w.array t).length ≤ j → j < newSize →
          (w.array t ++ List.replicate (newSize - arraySize) none)[j]? = some none := by
        intro j hj hjnew
        rw [List.getElem?_append_right hj, List.getElem?_replicate, if_pos (by omega)]
      refine h.setArray (hgrown.le.trans hmodules) (fun j b => ?_)
        ⟨hroot, hi, hrest i (by omega) hlt⟩
      rcases Nat.lt_or_ge j (w.array t).length with hj | hj
      · rw [List.getElem?_append_left hj]
      · refine iff_of_false (fun hb => ?_) fun hb => ?_
        · obtain ⟨hjlen, -⟩ := List.getElem?_eq_some_iff.1 hb
          rw [hrest j hj (hgrown ▸ hjlen)] at hb
          cases hb
        · obtain ⟨hjlen, -⟩ := List.getElem?_eq_some_iff.1 hb
          omega
    · unfold PllWorld.growArray
      dsimp only
      rw [if_neg hrealloc]
      exact nofun

theorem Inv.make [DecidableEq β] (h : Inv roots w) (hi : w.modules[i]? = some m)
    (hnone : (w.array t)[i]? = some none) {b : β} (hfresh : (w.block b).isFresh = true)
    {content : TlsBlock} (hcontent : (roots m).instantiateTLSBlock = .ok content) :
    Inv roots ({ w with
      block := update w.block b (.live content)
      array := update w.array t ((w.array t).set i (some b))
      created := w.created ++ [(t, m, b)] }.finish t m b) := by
  obtain ⟨hlen, -⟩ := List.getElem?_eq_some_iff.1 hnone
  have harray : ∀ k, update w.array t ((w.array t).set i (some b)) k =
      if k = t then (w.array t).set i (some b) else w.array k := update_apply _ _ _
  have hnew : ∀ c ∈ w.created ++ [(t, m, b)], c ∈ w.created ∨ c = (t, m, b) := by
    intro c hc
    exact (List.mem_append.1 hc).imp_right List.mem_singleton.1
  -- Neither the block nor the pair is one of an earlier block.
  have hblock : ∀ k m' b', (k, m', b') ∈ w.created → b' ≠ b := by
    rintro k m' b' hc rfl
    obtain ⟨content', hlive, -⟩ := h.initialised k m' b' hc
    rw [hlive] at hfresh
    cases hfresh
  have hpair : ∀ b', (t, m, b') ∉ w.created := by
    intro b' hc
    obtain ⟨j, hj, hentry⟩ := h.stored t m b' hc
    rw [h.index_unique hj hi, hnone] at hentry
    cases hentry
  have hold : ∀ k (j : ℕ) b', (w.array k)[j]? = some (some b') →
      (update w.array t ((w.array t).set i (some b)) k)[j]? = some (some b') := by
    intro k j b' hentry
    rw [harray]
    split_ifs with hk
    · rw [hk] at hentry
      rw [List.getElem?_set_ne ?_, hentry]
      rintro rfl
      rw [hnone] at hentry
      cases hentry
    · exact hentry
  refine ⟨h.nodup, h.closure, fun k => ?_, fun k => ?_, fun k j b' hb' => ?_, fun k m' b' hc => ?_,
    ?_, fun k m' k' m'' b' hc hc' => ?_, fun k m' b' hc => ?_, fun c hc => ?_⟩
  · change (update w.array t ((w.array t).set i (some b)) k).length ≤ _
    rw [harray]
    split_ifs
    · rw [List.length_set]
      exact h.arrays t
    · exact h.arrays k
  · change TlsPoint.Ok w.modules (update w.array t ((w.array t).set i (some b)) k)
      (update w.point t .idle k)
    rw [harray, update_apply]
    split_ifs
    · trivial
    · exact h.point k
  · change (update w.array t ((w.array t).set i (some b)) k)[j]? = _ at hb'
    have hkept : (w.array k)[j]? = some (some b') →
        ∃ m', w.modules[j]? = some m' ∧ (k, m', b') ∈ w.created ++ [(t, m, b)] := fun hentry => by
      obtain ⟨m', hm', hc⟩ := h.entry k j b' hentry
      exact ⟨m', hm', List.mem_append_left _ hc⟩
    rw [harray] at hb'
    split_ifs at hb' with hk
    · by_cases hj : j = i
      · rw [hj, List.getElem?_set_self hlen] at hb'
        cases hb'
        rw [hj, hk]
        exact ⟨m, hi, List.mem_append_right _ List.mem_cons_self⟩
      · rw [List.getElem?_set_ne (Ne.symm hj), ← hk] at hb'
        exact hkept hb'
    · exact hkept hb'
  · rcases hnew _ hc with hc | hc
    · obtain ⟨j, hj, hentry⟩ := h.stored k m' b' hc
      exact ⟨j, hj, hold k j b' hentry⟩
    · cases hc
      refine ⟨i, hi, ?_⟩
      change (update w.array t ((w.array t).set i (some b)) t)[i]? = _
      rw [update_self, List.getElem?_set_self hlen]
  · change ((w.created ++ [(t, m, b)]).map fun c => (c.1, c.2.1)).Nodup
    rw [List.map_append]
    refine List.nodup_append.2 ⟨h.once, List.nodup_singleton _, fun p hp q hq heq => ?_⟩
    obtain ⟨⟨k, m', b'⟩, hc, rfl⟩ := List.mem_map.1 hp
    rw [List.mem_singleton.1 hq] at heq
    cases heq
    exact hpair b' hc
  · rcases hnew _ hc with hc | hc
    · rcases hnew _ hc' with hc' | hc'
      · exact h.notShared k m' k' m'' b' hc hc'
      · cases hc'
        exact absurd rfl (hblock _ _ _ hc)
    · cases hc
      rcases hnew _ hc' with hc' | hc'
      · exact absurd rfl (hblock _ _ _ hc')
      · cases hc'
        exact ⟨rfl, rfl⟩
  · change ∃ content', update w.block b (.live content) b' = .live content' ∧ _
    rcases hnew _ hc with hc | hc
    · rw [update_of_ne (hblock _ _ _ hc)]
      exact h.initialised k m' b' hc
    · cases hc
      exact ⟨content, update_self _ _ _, hcontent⟩
  · rcases List.mem_append.1 hc with hc | hc
    · exact List.mem_append_left _ (h.returned c hc)
    · exact List.mem_append_right _ hc

theorem instantiate_eq [DecidableEq β] (hnone : (w.array t)[i]? = some none) {b : β}
    (hfresh : (w.block b).isFresh = true) {content : TlsBlock}
    (hcontent : (roots m).instantiateTLSBlock = .ok content) :
    w.instantiate roots t m i m (some b) = .ok ({ w with
      block := update w.block b (.live content)
      array := update w.array t ((w.array t).set i (some b))
      created := w.created ++ [(t, m, b)] }.finish t m b) := by
  obtain ⟨hlen, -⟩ := List.getElem?_eq_some_iff.1 hnone
  unfold PllWorld.instantiate
  dsimp only
  rw [if_pos hfresh, hcontent]
  dsimp only [bind, Except.bind]
  rw [CheckedVector.store_eq_set hlen]

theorem Inv.instantiate [DecidableEq β] (h : Inv roots w) {pllRoot : μ}
    (hfits : ∀ m, (roots m).TemplateFits) (hp : w.point t = .instantiating m i pllRoot)
    (tlsBlock : Option β) : NoFault (Inv roots) (w.instantiate roots t m i pllRoot tlsBlock) := by
  have hok := h.point t
  rw [hp] at hok
  obtain ⟨rfl, hi, hnone⟩ := hok
  cases tlsBlock with
  | none => exact nofun
  | some b =>
    by_cases hfresh : (w.block b).isFresh = true
    · have hcontent : (roots pllRoot).instantiateTLSBlock = .ok ⟨_, _⟩ := if_pos (hfits pllRoot)
      rw [instantiate_eq hnone hfresh hcontent]
      exact h.make hi hnone hfresh hcontent
    · unfold PllWorld.instantiate
      dsimp only
      rw [if_neg hfresh]
      exact nofun

variable [DecidableEq μ] [DecidableEq β]

theorem Inv.step (h : Inv roots w) (hfits : ∀ m, (roots m).TemplateFits) (a : PllAction θ μ β) :
    NoFault (Inv roots) (w.step roots a) := by
  cases a with
  | initializeTLS t m =>
    rw [PllWorld.step]
    split
    · exact h.initializeTLS
    · exact nofun
  | tlsBlockGetter t m =>
    rw [PllWorld.step]
    split
    · next i hp hclosure => exact h.tlsBlockBase (h.closure m i hclosure)
    · exact nofun
  | next t newArray tlsBlock =>
    rw [PllWorld.step]
    split
    · exact nofun
    · next m i hp =>
      have hok := h.point t
      rw [hp] at hok
      refine h.move w.gModules (List.prefix_refl _) h.nodup (fun m' i' hi' => ?_) trivial
        h.returned
      rw [update_apply] at hi'
      split_ifs at hi' with hm
      · cases hi'
        rw [hm]
        exact hok
      · exact h.closure m' i' hi'
    · next hp => exact h.sampleModules hp
    · next m i arraySize newSize pllRoot hp =>
      split_ifs with hle
      · exact h.growArray hp hle newArray
      · have hok := h.point t
        rw [hp] at hok
        obtain ⟨hroot, hi, hsize, hnone, -⟩ := hok
        refine h.goto ⟨hroot, hi, ?_⟩
        have hlen : i < (w.array t).length := by omega
        rw [List.getElem?_eq_getElem hlen] at hnone ⊢
        cases hentry : (w.array t)[i] with
        | none => rfl
        | some b => exact absurd (congrArg some hentry) (hnone b)
    · next hp => exact h.instantiate hfits hp tlsBlock

omit [DecidableEq θ] [DecidableEq μ] [DecidableEq β] in
theorem inv_init (roots : μ → PLLRoot π) : Inv roots (init : PllWorld θ μ β) :=
  ⟨List.nodup_nil, nofun, fun _ => le_rfl, fun _ => trivial, nofun, nofun, List.nodup_nil, nofun,
    nofun, nofun⟩

omit [DecidableEq μ] [DecidableEq β] in
theorem Inv.later (h : Inv roots w) {b : β} (hb : (t, m, b) ∈ w.created)
    (hi : w.moduleIndex m = some i) : w.tlsBlockBase t m i = .ok (w.finish t m b) := by
  obtain ⟨j, hj, hentry⟩ := h.stored t m b hb
  rw [h.index_unique hj (h.closure m i hi)] at hentry
  obtain ⟨hlen, -⟩ := List.getElem?_eq_some_iff.1 hentry
  unfold PllWorld.tlsBlockBase
  dsimp only
  rw [if_pos hlen, readAt_of_getElem? hentry]
  rfl

theorem Inv.progress (h : Inv roots w) (hfits : ∀ m, (roots m).TemplateFits) {b : β}
    (hb : (w.block b).isFresh = true) (hp : w.point t ≠ .idle) :
    ∃ newArray w', w.step roots (.next t newArray (some b)) = .ok w' ∧
      (w'.point t).stepsLeft < (w.point t).stepsLeft := by
  have hok := h.point t
  -- It is enough to say where the step leads.
  have hleads : ∀ newArray w' p, w.step roots (.next t newArray (some b)) = .ok w' →
      w'.point = update w.point t p → (w.point t).stepsLeft = p.stepsLeft + 1 →
      ∃ newArray w', w.step roots (.next t newArray (some b)) = .ok w' ∧
        (w'.point t).stepsLeft < (w.point t).stepsLeft := by
    intro newArray w' p hstep hpoint hless
    refine ⟨newArray, w', hstep, ?_⟩
    rw [hpoint, update_self, hless]
    exact Nat.lt_succ_self _
  cases hpoint : w.point t with
  | idle => exact absurd hpoint hp
  | initializing m i =>
    rw [← hpoint]
    have hstep : w.step roots (.next t none (some b)) = .ok
        ({ w with moduleIndex := update w.moduleIndex m (some i) }.goto t .idle) := by
      rw [PllWorld.step, hpoint]
    exact hleads none _ .idle hstep rfl (by rw [hpoint]; rfl)
  | missed m i arraySize =>
    rw [hpoint] at hok
    rw [← hpoint]
    have hstep : w.step roots (.next t none (some b)) = w.sampleModules t m i arraySize := by
      rw [PllWorld.step, hpoint]
    exact hleads none _ _ (hstep.trans (sampleModules_eq hok.1)) rfl (by rw [hpoint]; rfl)
  | sampled m i arraySize newSize pllRoot =>
    rw [hpoint] at hok
    obtain ⟨-, -, hsize, -, -, hnew, -⟩ := hok
    rw [← hpoint]
    have hstep : ∀ newArray, w.step roots (.next t newArray (some b)) = if arraySize ≤ i then
        w.growArray t m i arraySize newSize pllRoot newArray
        else .ok (w.goto t (.instantiating m i pllRoot)) := by
      intro newArray
      rw [PllWorld.step, hpoint]
    by_cases hle : arraySize ≤ i
    · have hlength : (w.array t).length + (List.replicate (newSize - arraySize)
          (none : Option β)).length = newSize := by
        rw [List.length_replicate]
        omega
      have hgrow := growArray_eq (m := m) (i := i) pllRoot _ hsize hlength
      exact hleads _ _ _ ((hstep _).trans ((if_pos hle).trans hgrow)) rfl (by rw [hpoint]; rfl)
    · exact hleads none _ _ ((hstep none).trans (if_neg hle)) rfl (by rw [hpoint]; rfl)
  | instantiating m i pllRoot =>
    rw [hpoint] at hok
    obtain ⟨rfl, -, hnone⟩ := hok
    rw [← hpoint]
    have hcontent : (roots pllRoot).instantiateTLSBlock = .ok ⟨_, _⟩ := if_pos (hfits pllRoot)
    have hstep : w.step roots (.next t none (some b)) =
        w.instantiate roots t pllRoot i pllRoot (some b) := by
      rw [PllWorld.step, hpoint]
    exact hleads none _ .idle (hstep.trans (instantiate_eq hnone hb hcontent)) rfl
      (by rw [hpoint]; rfl)

theorem Inv.sound (h : Inv roots w) (hfits : ∀ m, (roots m).TemplateFits) : w.Sound roots where
  sameBlock _ _ _ _ hb hb' := h.unique (h.returned _ hb) (h.returned _ hb')
  made _ _ _ hb := h.returned _ hb
  once := h.once
  notShared := h.notShared
  initialised := h.initialised
  later t m b i hb hp hi := by
    rw [PllWorld.step, hp, hi]
    exact h.later hb hi
  progress _ _ hb hp := h.progress hfits hb hp

theorem noFault_run {roots : μ → PLLRoot π} (hfits : ∀ m, (roots m).TemplateFits)
    (run : List (PllAction θ μ β)) : NoFault (Sound roots) (run.foldlM (step roots) init) := by
  have hall : Guarded (step roots) (fun _ _ => True) (init : PllWorld θ μ β) run :=
    Guarded.of_forall fun _ _ => trivial
  have hinv : NoFault (Inv roots) (run.foldlM (step roots) (init : PllWorld θ μ β)) :=
    hall.result (fun w a (h : Inv roots w) _ => h.step hfits a) (inv_init roots)
  cases hrun : run.foldlM (step roots) (init : PllWorld θ μ β) with
  | ok w =>
    rw [hrun] at hinv
    exact hinv.sound hfits
  | error e =>
    rw [hrun] at hinv
    exact hinv

/-- A module is found to export a symbol exactly if it does, and each thread has one block of its
own for each module. -/
theorem pllLoader_sound {root : PLLRoot π} {names : List CName} (hroot : root.WellFormed names)
    {roots : μ → PLLRoot π} (hfits : ∀ m, (roots m).TemplateFits) (name : CName)
    (run : List (PllAction θ μ β)) :
    (∃ r, root.getExportedSym name = .ok r ∧ root.Answers names name r) ∧
      NoFault (Sound roots) (run.foldlM (step roots) init) :=
  ⟨PLLRoot.getExportedSym_answers hroot name, noFault_run hfits run⟩

end PllWorld

/-! ## A module of two symbols, whose hashes differ in the low bit only -/

theorem zero_notMem_a : (0 : UInt8) ∉ [97] := by decide

theorem zero_notMem_b : (0 : UInt8) ∉ [98] := by decide

/-- The symbols `a` and `b`. -/
def twoNames : List CName := [⟨[97], zero_notMem_a⟩, ⟨[98], zero_notMem_b⟩]

def twoSymbols : PLLRoot ℕ where
  stringTable := [97, 0, 98, 0]
  exportedPtrs := [0x1000, 0x2000]
  exportedNames := [0, 2]
  exportCount := 2
  bucketCount := 1
  hashBuckets := [0]
  hashChains := [177670, 177671]
  bloomFilterMaskwordsBitmask := 0
  bloomFilterShift2 := 5
  bloomFilterData := [65728]
  tlsTemplate := [1, 2]
  tlsTemplateDataSize := 2
  tlsTemplateTotalSize := 4
  tlsTemplateAlignment := 1
  hasTlsBlockGetter := true

theorem twoSymbols_wellFormed : twoSymbols.WellFormed twoNames := by
  have hbucket : ∀ name, twoSymbols.bucket name = 0 := fun name => Nat.mod_one _
  refine ⟨rfl, by decide, rfl, fun i name hi => ?_, fun i j k a b c _ _ _ _ _ _ => ?_,
    fun i name hi => ?_, fun b hb => ?_, Or.inl (by decide), by decide, by decide, ?_⟩
  · match i, hi with
    | 0, hi =>
      cases hi
      exact ⟨0, [98, 0], rfl, rfl⟩
    | 1, hi =>
      cases hi
      exact ⟨2, [], rfl, rfl⟩
  · rw [hbucket, hbucket]
  · match i, hi with
    | 0, hi =>
      cases hi
      refine ⟨_, rfl, by decide +kernel, iff_of_false (by decide) fun hlast => ?_⟩
      exact hlast _ _ rfl rfl ((hbucket _).trans (hbucket _).symm)
    | 1, hi =>
      cases hi
      exact ⟨_, rfl, by decide +kernel, iff_of_true (by decide) nofun⟩
  · have hb0 : b = 0 := Nat.lt_one_iff.1 hb
    rw [hb0]
    exact Or.inr ⟨0, rfl, ⟨_, rfl, hbucket _⟩, nofun⟩
  · intro name hname
    refine ⟨65728, ?_⟩
    revert name
    decide +kernel

local instance neZeroThreads : NeZero 2 := ⟨by decide⟩

/-- A thread makes two calls for a module that another has loaded. -/
def twoCalls : List (PllAction (Fin 2) (Fin 1) (Fin 2)) :=
  [.initializeTLS 0 0, .next 0 none none, .tlsBlockGetter 1 0, .next 1 none none,
    .next 1 (some [some 1]) none, .next 1 none (some 0), .tlsBlockGetter 1 0]

theorem pllLoader_sound_two :
    (∃ r, twoSymbols.getExportedSym ⟨[98], by decide⟩ = .ok r ∧
      twoSymbols.Answers twoNames ⟨[98], by decide⟩ r) ∧
    PllWorld.NoFault (PllWorld.Sound fun _ : Fin 1 => twoSymbols)
      (twoCalls.foldlM (PllWorld.step fun _ : Fin 1 => twoSymbols) PllWorld.init) ∧
    ∃ w, twoCalls.foldlM (PllWorld.step fun _ : Fin 1 => twoSymbols) PllWorld.init = .ok w ∧
      w.returned = [(1, 0, 0), (1, 0, 0)] := by
  have hfits : ∀ _ : Fin 1, twoSymbols.TemplateFits := fun _ => by decide
  obtain ⟨hlookup, hrun⟩ :=
    PllWorld.pllLoader_sound twoSymbols_wellFormed hfits ⟨[98], by decide⟩ twoCalls
  refine ⟨hlookup, hrun, ?_⟩
  exact Runs.exists_ok_of_check (fun w => w.returned = [(1, 0, 0), (1, 0, 0)])
    (fun _ hcheck => of_decide_eq_true hcheck) (by decide +kernel)

end SandboxingNaCl
