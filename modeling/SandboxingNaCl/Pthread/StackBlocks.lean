import SandboxingNaCl.Lib.KeyedLoop
import SandboxingNaCl.Pthread.Thread
import SandboxingNaCl.Service.AddressSpace

/-!
# The stacks of threads

`nc_thread.c`: where `pthread_create` puts the stack in the block it is given.  The size of a block
is kept in an `int`, and the size passed to `malloc` is computed in 32 bits.
-/

namespace SandboxingNaCl

open Lifetime Runs KeyedLoop Function

def pthreadStackMin : ℕ := 1024

def NaClArch.kStackAlignment : NaClArch → ℕ
  | .x8632 | .x8664 => 32
  | .arm | .mips => 1

def NaClArch.kStackPadBelowAlign : NaClArch → ℕ
  | .x8632 => 4
  | .x8664 => 8
  | .arm | .mips => 0

/-- The stack size in a `pthread_attr_t`. -/
structure StackSize where
  val : ℕ
  min_le : pthreadStackMin ≤ val
  lt : val < 2 ^ 32

def pthreadAttrSetstacksize (stacksize : UInt32) : StackSize :=
  if h : pthreadStackMin < stacksize.toNat then ⟨stacksize.toNat, h.le, stacksize.toNat_lt⟩
  else ⟨pthreadStackMin, le_rfl, by decide⟩

/-- `sizeof (nc_thread_memory_block_t)`. -/
def sizeofMemoryBlock : ℕ := 32

/-- An `int` as a `size_t`. -/
def toSize (n : ℤ) : ℕ := (n % 2 ^ 32).toNat

def memoryBlockAllocationSize (realSize : ℤ) : ℕ := (sizeofMemoryBlock + toSize realSize) % 2 ^ 32

/-- What `pthread_create` passes to `nc_allocate_memory_block_mu`. -/
def NaClArch.requiredSize (arch : NaClArch) (stacksize : StackSize) : ℤ :=
  Int.bmod (stacksize.val + (arch.kStackAlignment - 1)) (2 ^ 32)

def ncMemoryBlockToPayload (node : ℕ) : ℕ := node + sizeofMemoryBlock

/-- `align`. -/
def alignStack (offset alignment : ℕ) : ℕ :=
  (offset + alignment - 1) % 2 ^ 32 / alignment * alignment

/-- `thread_stack` in the block at an address. -/
def NaClArch.threadStack (arch : NaClArch) (node : ℕ) : ℕ :=
  alignStack (ncMemoryBlockToPayload node) arch.kStackAlignment

/-- The stack lies in the block that `malloc` has returned for the size, and so does the padding at
its top. -/
def NaClArch.StackFits (arch : NaClArch) (node : ℕ) (size : ℤ) (stacksize : StackSize) : Prop :=
  ncMemoryBlockToPayload node ≤ arch.threadStack node ∧
    arch.kStackPadBelowAlign ≤ stacksize.val ∧
    arch.threadStack node + stacksize.val ≤ node + memoryBlockAllocationSize size

instance (arch : NaClArch) (node : ℕ) (size : ℤ) (stacksize : StackSize) :
    Decidable (arch.StackFits node size stacksize) := by
  unfold NaClArch.StackFits
  infer_instance

def NaClArch.stackNeed (arch : NaClArch) (stacksize : StackSize) : ℕ :=
  stacksize.val + (arch.kStackAlignment - 1)

section

variable {arch : NaClArch} {stacksize : StackSize} {node : ℕ} {size : ℤ}

theorem requiredSize_eq (arch : NaClArch) (stacksize : StackSize) :
    arch.requiredSize stacksize = Int.bmod (arch.stackNeed stacksize) (2 ^ 32) := by
  have hpos : 1 ≤ arch.kStackAlignment := by cases arch <;> decide
  unfold NaClArch.requiredSize NaClArch.stackNeed
  push_cast [hpos]
  rfl

theorem toSize_bmod {n : ℕ} (h : n < 2 ^ 32) : toSize (Int.bmod n (2 ^ 32)) = n := by
  unfold toSize
  have hmod : Int.bmod n (2 ^ 32) % (2 ^ 32 : ℕ) = n % (2 ^ 32 : ℕ) := Int.bmod_emod
  have hlt : (n : ℤ) % (2 ^ 32 : ℕ) = n := Int.emod_eq_of_lt (Int.natCast_nonneg n) (by omega)
  rw [hlt] at hmod
  exact congrArg Int.toNat hmod

/-- The number is one of an `int`. -/
def IsInt (n : ℤ) : Prop := -(2 ^ 31) ≤ n ∧ n < 2 ^ 31

theorem isInt_bmod (n : ℤ) : IsInt (Int.bmod n (2 ^ 32)) := by
  have hle := Int.le_bmod (x := n) (m := 2 ^ 32) (by decide)
  have hlt := Int.bmod_lt (x := n) (m := 2 ^ 32) (by decide)
  unfold IsInt
  omega

theorem le_toSize {n : ℕ} (hn : n < 2 ^ 32) (hsize : IsInt size)
    (hle : Int.bmod n (2 ^ 32) ≤ size) (hsign : 2 ^ 31 ≤ n → size < 0) : n ≤ toSize size := by
  obtain ⟨hge, hlt⟩ := hsize
  have hmod : (n : ℤ) % (2 ^ 32 : ℕ) = n := Int.emod_eq_of_lt (Int.natCast_nonneg n) (by omega)
  rw [Int.bmod_def, hmod] at hle
  unfold toSize
  split_ifs at hle <;> omega

theorem stackFits_of_need (hneed : arch.stackNeed stacksize ≤ toSize size)
    (hsize : sizeofMemoryBlock + toSize size < 2 ^ 32)
    (hnode : node + memoryBlockAllocationSize size ≤ 2 ^ 32) :
    arch.StackFits node size stacksize := by
  have hmin := stacksize.min_le
  rw [memoryBlockAllocationSize, Nat.mod_eq_of_lt hsize] at hnode
  unfold NaClArch.StackFits NaClArch.threadStack alignStack ncMemoryBlockToPayload
  rw [memoryBlockAllocationSize, Nat.mod_eq_of_lt hsize]
  unfold NaClArch.stackNeed at hneed
  unfold pthreadStackMin at hmin
  unfold sizeofMemoryBlock at *
  cases arch <;>
    simp only [NaClArch.kStackAlignment, NaClArch.kStackPadBelowAlign] at hneed ⊢ <;> omega

end

namespace ThreadWorld

/-- The calls of `pthread_create` in a run ask for these stack sizes. -/
def Asks {θ η ν : Type} (arch : NaClArch) (stacksize : θ → StackSize) : ThreadAction θ η ν → Prop
  | .pthreadCreate _ child _ requiredSize _ _ _ =>
    requiredSize = arch.requiredSize (stacksize child)
  | _ => True

/-- The block at the head of the queue is not used, and its size is not negative. -/
def HeadReusable {θ η ν : Type} (w : ThreadWorld θ η ν) : Prop :=
  match w.threadStackBlocks with
  | [] => False
  | node :: _ =>
    match w.stackBlock node with
    | .live block => block.isUsed = false ∧ 0 ≤ block.size
    | _ => False

/-- A call of `pthread_create` does not come to what the code gets wrong: the size of the allocation
does not wrap, and a size that is negative as an `int` does not meet a block that can be used
again. -/
def StackReady {θ η ν : Type} (arch : NaClArch) (stacksize : θ → StackSize)
    (w : ThreadWorld θ η ν) : ThreadAction θ η ν → Prop
  | .pthreadCreate _ child _ _ _ _ _ =>
    sizeofMemoryBlock + arch.stackNeed (stacksize child) < 2 ^ 32 ∧
      (2 ^ 31 ≤ arch.stackNeed (stacksize child) → ¬ w.HeadReusable)
  | _ => True

instance {θ η ν : Type} (arch : NaClArch) (stacksize : θ → StackSize) (a : ThreadAction θ η ν) :
    Decidable (Asks arch stacksize a) :=
  match a with
  | .pthreadCreate .. => inferInstanceAs (Decidable (_ = _))
  | .threadCreate .. | .pthreadExit .. | .pthreadJoin .. | .pthreadDetach .. | .next .. | .wake _ =>
    .isTrue trivial

instance {θ η ν : Type} (w : ThreadWorld θ η ν) : Decidable w.HeadReusable := by
  unfold HeadReusable
  split
  · infer_instance
  · split <;> infer_instance

instance {θ η ν : Type} (arch : NaClArch) (stacksize : θ → StackSize) (w : ThreadWorld θ η ν)
    (a : ThreadAction θ η ν) : Decidable (w.StackReady arch stacksize a) :=
  match a with
  | .pthreadCreate .. => inferInstanceAs (Decidable (_ ∧ (_ → _)))
  | .threadCreate .. | .pthreadExit .. | .pthreadJoin .. | .pthreadDetach .. | .next .. | .wake _ =>
    .isTrue trivial

/-- Each thread that has a stack has it in its block, and the block to itself. -/
structure StacksFit {θ η ν : Type} (arch : NaClArch) (stacksize : θ → StackSize) (addr : η → ℕ)
    (w : ThreadWorld θ η ν) : Prop where
  fits : ∀ k n, (w.record k).usesStack = some n → ∃ size, w.stackBlock n = .live ⟨size, true⟩ ∧
    arch.StackFits (addr n) size (stacksize k)
  own : ∀ j k n, (w.record j).usesStack = some n → (w.record k).usesStack = some n → j = k

/-- `malloc` returns blocks inside the address space. -/
def MallocInside {θ η ν : Type} (addr : η → ℕ) (w : ThreadWorld θ η ν) : Prop :=
  ∀ n b, w.stackBlock n = .live b → addr n + memoryBlockAllocationSize b.size ≤ 2 ^ 32

/-! ## What every step keeps -/

section

variable {θ η ν : Type}

/-- What a thread's point says of its stack. -/
def StackAt (r : ThreadRecord η ν) : ThreadPoint θ η ν → Prop
  | .fresh => r.usesStack = none
  | .starting node | .failing node => r.usesStack = some node
  | .releasing tls _ stackNode => r.usesStack = stackNode ∧ (stackNode ≠ none → tls = true)
  | .leaving node => r.usesStack = some node ∧ r.tls.isLive = false
  | _ => True

/-- The records of the stacks are in order, whatever becomes of the other records; and the blocks
are large enough for those that use them. -/
structure StackInv (need : θ → ℕ) (w : ThreadWorld θ η ν) : Prop where
  blocks : w.StacksInv
  tls : ∀ k d, (w.record k).tls = .live d → d.stackNode = (w.record k).usesStack
  at_ : ∀ k, StackAt (w.record k) (w.point k)
  sized : ∀ n b, w.stackBlock n = .live b →
    IsInt b.size ∧ sizeofMemoryBlock + toSize b.size < 2 ^ 32
  enough : ∀ k n b, (w.record k).usesStack = some n → w.stackBlock n = .live b →
    need k ≤ toSize b.size

/-- A step that leaves the stacks alone. -/
structure Quiet (w w' : ThreadWorld θ η ν) : Prop where
  block : w'.stackBlock = w.stackBlock
  cached : w'.threadStackBlocks = w.threadStackBlocks
  uses : ∀ k, (w'.record k).usesStack = (w.record k).usesStack
  tls : ∀ k d', (w'.record k).tls = .live d' → d'.stackNode = (w.record k).usesStack ∨
    ∃ d, (w.record k).tls = .live d ∧ d.stackNode = d'.stackNode
  at_ : ∀ k, StackAt (w.record k) (w.point k) → StackAt (w'.record k) (w'.point k)
  leaving : ∀ k n, w.point k = .leaving n → w'.point k = .leaving n

variable {w w' w'' : ThreadWorld θ η ν} {t k : θ} {need : θ → ℕ}

theorem Quiet.rfl : Quiet w w :=
  ⟨.refl _, .refl _, fun _ => .refl _, fun _ d h => Or.inr ⟨d, h, .refl _⟩, fun _ => id,
    fun _ _ => id⟩

theorem Quiet.trans (h : Quiet w w') (h' : Quiet w' w'') : Quiet w w'' where
  block := h'.block.trans h.block
  cached := h'.cached.trans h.cached
  uses k := (h'.uses k).trans (h.uses k)
  tls k d'' hd'' := by
    rcases h'.tls k d'' hd'' with heq' | ⟨d', hd', heq'⟩
    · exact Or.inl (heq'.trans (h.uses k))
    · rw [← heq']
      exact h.tls k d' hd'
  at_ k hat := h'.at_ k (h.at_ k hat)
  leaving k n hk := h'.leaving k n (h.leaving k n hk)

theorem StackInv.quiet (h : StackInv need w) (hq : Quiet w w') : StackInv need w' where
  blocks := h.blocks.congr hq.uses hq.block hq.cached hq.leaving
  tls k d' hd' := by
    rw [hq.uses]
    rcases hq.tls k d' hd' with heq | ⟨d, hd, heq⟩
    · exact heq
    · rw [← h.tls k d hd, heq]
  at_ k := hq.at_ k (h.at_ k)
  sized n b hb := h.sized n b (hq.block ▸ hb)
  enough k n b hk hb := h.enough k n b (hq.uses k ▸ hk) (hq.block ▸ hb)

theorem StackInv.stacksFit {arch : NaClArch} {stacksize : θ → StackSize} {addr : η → ℕ}
    (h : StackInv (fun k => arch.stackNeed (stacksize k)) w) (hmalloc : w.MallocInside addr) :
    w.StacksFit arch stacksize addr where
  fits k n hk := by
    obtain ⟨size, hlive⟩ := h.blocks.used k n hk
    exact ⟨size, hlive, stackFits_of_need (h.enough k n _ hk hlive) (h.sized n _ hlive).2
      (hmalloc n _ hlive)⟩
  own := h.blocks.own

variable [DecidableEq θ]

theorem quiet_point {p q : ThreadPoint θ η ν} {w' : ThreadWorld θ η ν} (hp : w.point t = p)
    (hpoint : w'.point = update w.point t q) (hrecord : w'.record = w.record)
    (hblock : w'.stackBlock = w.stackBlock) (hcached : w'.threadStackBlocks = w.threadStackBlocks)
    (hat : ∀ r : ThreadRecord η ν, StackAt r p → StackAt r q) (hleaving : ∀ n, p ≠ .leaving n) :
    Quiet w w' where
  block := hblock
  cached := hcached
  uses k := by rw [hrecord]
  tls k d' hd' := by
    rw [hrecord] at hd'
    exact Or.inr ⟨d', hd', .refl _⟩
  at_ k h := by
    rw [hrecord, hpoint, update_apply]
    split_ifs with hk
    · subst hk
      exact hat _ (hp ▸ h)
    · exact h
  leaving k n hk := by
    rw [hpoint, update_of_ne ?_, hk]
    rintro rfl
    exact hleaving n (hp.symm.trans hk)

theorem quiet_setRecord (r : ThreadRecord η ν) (huses : r.usesStack = (w.record t).usesStack)
    (htls : ∀ d', r.tls = .live d' →
      ∃ d, (w.record t).tls = .live d ∧ d.stackNode = d'.stackNode) :
    Quiet w (w.setRecord t r) := by
  have hrecord : ∀ k, (w.setRecord t r).record k = if k = t then r else w.record k := fun k =>
    update_apply _ _ _ _
  refine ⟨.refl _, .refl _, fun k => ?_, fun k d' hd' => ?_, fun k h => ?_, fun _ _ => id⟩
  · rw [hrecord]
    split_ifs with hk
    · rw [hk, huses]
    · rfl
  · rw [hrecord] at hd'
    split_ifs at hd' with hk
    · rw [hk]
      exact Or.inr (htls d' hd')
    · exact Or.inr ⟨d', hd', .refl _⟩
  · rw [hrecord]
    split_ifs with hk
    · subst hk
      change StackAt r (w.point k)
      cases hpoint : w.point k with
      | fresh | starting | failing =>
        rw [hpoint] at h
        exact huses.trans h
      | releasing tls basicData stackNode =>
        rw [hpoint] at h
        exact ⟨huses.trans h.1, h.2⟩
      | leaving node =>
        rw [hpoint] at h
        refine ⟨huses.trans h.1, ?_⟩
        cases hr : r.tls with
        | live d' =>
          obtain ⟨d, hd, -⟩ := htls d' hr
          have hdead := h.2
          rw [hd] at hdead
          cases hdead
        | _ => rfl
      | _ => trivial
    · exact h

end

/-! ## The allocation -/

section

variable {θ η ν : Type} [DecidableEq η] {w w' : ThreadWorld θ η ν} {requiredSize : ℤ}
  {stack node : Option η} {need : θ → ℕ}

theorem live_of_releaseCached {l l' : List η} {s s' : η → Cell ThreadMemoryBlock}
    (h : releaseCached l s = .ok (l', s')) {n : η} {b : ThreadMemoryBlock} (hb : s' n = .live b) :
    s n = .live b := by
  induction l generalizing s with
  | nil => cases h; exact hb
  | cons tmp rest ih =>
    rw [releaseCached] at h
    by_cases hmany : ncKMaxCachedMemoryBlocks < (tmp :: rest).length
    · rw [if_pos hmany] at h
      obtain ⟨block, -, h⟩ := bind_eq_ok.1 h
      by_cases hused : ¬ block.isUsed = true
      · rw [if_pos hused] at h
        obtain ⟨c, hfree, h⟩ := bind_eq_ok.1 h
        have hn := ih h
        rw [update_apply] at hn
        split_ifs at hn with heq
        · cases hn.symm.trans (Cell.eq_of_free hfree)
        · exact hn
      · rw [if_neg hused] at h
        cases h
        exact hb
    · rw [if_neg hmany] at h
      cases h
      exact hb

/-- The size of the block that is handed out: the one asked for, or that of the first block in the
queue; the others are as they were. -/
structure HandsOut (w : ThreadWorld θ η ν) (requiredSize : ℤ) (w' : ThreadWorld θ η ν)
    (node : Option η) : Prop where
  others : ∀ n b, node ≠ some n → w'.stackBlock n = .live b → w.stackBlock n = .live b
  handed : ∀ n, node = some n → ∃ size, w'.stackBlock n = .live ⟨size, true⟩ ∧
    (size = requiredSize ∨ requiredSize ≤ size ∧ w.stackBlock n = .live ⟨size, false⟩ ∧
      ∃ rest, w.threadStackBlocks = n :: rest)

theorem handsOut_of_mallocBlock {w₀ : ThreadWorld θ η ν}
    (h : w.mallocBlock requiredSize stack = .ok (w', node))
    (hblocks : ∀ n b, w.stackBlock n = .live b → w₀.stackBlock n = .live b) :
    HandsOut w₀ requiredSize w' node := by
  cases stack with
  | none =>
    cases h
    exact ⟨fun n b _ hb => hblocks n b hb, nofun⟩
  | some new =>
    rw [mallocBlock] at h
    split_ifs at h
    cases h
    refine ⟨fun n b hn hb => ?_, fun n hn => ?_⟩
    · have hne : n ≠ new := fun heq => hn (congrArg some heq.symm)
      have hold : update w.stackBlock new _ n = .live b := hb
      rw [update_of_ne hne] at hold
      exact hblocks n b hold
    · cases hn
      exact ⟨requiredSize, update_self _ _ _, Or.inl rfl⟩

theorem ncAllocateMemoryBlockMu_handsOut
    (h : w.ncAllocateMemoryBlockMu requiredSize stack = .ok (w', node)) :
    HandsOut w requiredSize w' node := by
  unfold ncAllocateMemoryBlockMu at h
  split at h
  · exact handsOut_of_mallocBlock h fun _ _ => id
  · next first rest hqueue =>
    obtain ⟨head, hread, h⟩ := bind_eq_ok.1 h
    have hlive := Cell.read_eq_ok.1 hread
    split_ifs at h with hreuse
    · cases h
      obtain ⟨hused, hsize⟩ := hreuse
      refine ⟨fun n b hn hb => ?_, fun n hn => ?_⟩
      · have hne : n ≠ first := fun heq => hn (congrArg some heq.symm)
        have hold : update w.stackBlock first _ n = .live b := hb
        rwa [update_of_ne hne] at hold
      · cases hn
        refine ⟨head.size, update_self _ _ _, Or.inr ⟨hsize, ?_, rest, hqueue⟩⟩
        rw [hlive]
        rw [Bool.not_eq_true] at hused
        rw [← hused]
    · obtain ⟨⟨l, s⟩, hrelease, h⟩ := bind_eq_ok.1 h
      exact handsOut_of_mallocBlock h fun n b hb => live_of_releaseCached hrelease hb

end

/-! ## The steps -/

section

variable {θ η ν : Type} [DecidableEq θ] {w w' : ThreadWorld θ η ν} {t k child : θ} {node : η}
  {need : θ → ℕ}

theorem setRecord_eq (w : ThreadWorld θ η ν) (t : θ) (r : ThreadRecord η ν) (k : θ) :
    (w.setRecord t r).record k = if k = t then r else w.record k := update_apply _ _ _ _

theorem quiet_finish {p : ThreadPoint θ η ν} (hp : w.point t = p)
    (hp' : ∀ r : ThreadRecord η ν, StackAt r p → StackAt r (.running : ThreadPoint θ η ν))
    (hleaving : ∀ n, p ≠ .leaving n) (result : ThreadReturn θ ν) : Quiet w (w.finish t result) :=
  quiet_point hp rfl rfl rfl rfl hp' hleaving

theorem ncReleaseBasicDataMu_quiet (h : w.ncReleaseBasicDataMu t = .ok w') :
    Quiet w w' ∧ w'.point = w.point ∧ (w'.record t).tls = (w.record t).tls := by
  unfold ncReleaseBasicDataMu at h
  obtain ⟨c, -, h⟩ := bind_eq_ok.1 h
  cases h
  refine ⟨quiet_setRecord _ rfl fun d' hd' => ⟨d', hd', rfl⟩, rfl, ?_⟩
  rw [setRecord_record_self]

theorem ncReleaseTlsAllocation_quiet (h : w.ncReleaseTlsAllocation t = .ok w') :
    Quiet w w' ∧ w'.point = w.point ∧ (w'.record t).tls = .freed := by
  have hset : ∀ (basicData : Cell (BasicThreadData ν)),
      ((w.record t).tls.free >>= fun tls =>
        .ok (w.setRecord t { w.record t with basicData, tls })) = .ok w' →
      Quiet w w' ∧ w'.point = w.point ∧ (w'.record t).tls = .freed := by
    intro basicData h
    obtain ⟨tls, hfree, h⟩ := bind_eq_ok.1 h
    cases h
    have hfreed := Cell.eq_of_free hfree
    refine ⟨quiet_setRecord _ rfl fun d' hd' => ?_, rfl, ?_⟩
    · cases hfreed.symm.trans hd'
    · rw [setRecord_record_self]
      exact hfreed
  unfold ncReleaseTlsAllocation at h
  obtain ⟨tdb, hread, h⟩ := bind_eq_ok.1 h
  dsimp only at h
  split_ifs at h with htdb
  · obtain ⟨b, -, h⟩ := bind_eq_ok.1 h
    exact hset _ h
  · exact hset _ h

theorem quiet_call {p q : ThreadPoint θ η ν} (target : θ) (hp : w.point t = p)
    (hp' : p = .running ∨ p = .joinWoken target) (hq : q = .running ∨ q = .joining target)
    {w₀ : ThreadWorld θ η ν} (hquiet : Quiet w w₀) (hpoint : w₀.point = w.point)
    (hw' : w' = { w₀.goto t q with returned := w'.returned }) : Quiet w w' := by
  have hp₀ : w₀.point t = p := (congrFun hpoint t).trans hp
  have hat : ∀ r : ThreadRecord η ν, StackAt r p → StackAt r q := by
    intro r _
    rcases hq with rfl | rfl <;> trivial
  have hleaving : ∀ n, p ≠ .leaving n := by
    rcases hp' with rfl | rfl <;> exact fun _ => nofun
  refine hquiet.trans ?_
  rw [hw']
  exact quiet_point hp₀ rfl rfl rfl rfl hat hleaving

variable {target : θ}

theorem joinComplete_quiet {p : ThreadPoint θ η ν} (hp : w.point t = p)
    (hp' : p = .running ∨ p = .joinWoken target) (h : w.joinComplete t target = .ok w') :
    Quiet w w' := by
  unfold joinComplete at h
  obtain ⟨basicData, -, h⟩ := bind_eq_ok.1 h
  obtain ⟨w₁, hrelease, h⟩ := bind_eq_ok.1 h
  obtain ⟨hquiet, hpoint, -⟩ := ncReleaseBasicDataMu_quiet hrelease
  cases h
  have hset : Quiet w₁ (w₁.setRecord target { w₁.record target with succeeded := true }) :=
    quiet_setRecord _ rfl fun d' hd' => ⟨d', hd', rfl⟩
  exact quiet_call target hp hp' (Or.inl rfl) (hquiet.trans hset) hpoint rfl

theorem joinLoop_quiet {p : ThreadPoint θ η ν} (hp : w.point t = p)
    (hp' : p = .running ∨ p = .joinWoken target) (h : w.joinLoop t target = .ok w') :
    Quiet w w' := by
  unfold joinLoop at h
  obtain ⟨basicData, -, h⟩ := bind_eq_ok.1 h
  split_ifs at h with hterminated
  · exact joinComplete_quiet hp hp' h
  · cases h
    exact quiet_call target hp hp' (Or.inr rfl) .rfl rfl rfl

theorem pthreadJoin_quiet (hp : w.point t = .running) (h : w.pthreadJoin t target = .ok w') :
    Quiet w w' := by
  unfold pthreadJoin at h
  split_ifs at h with ht
  · cases h
    exact quiet_call target hp (Or.inl rfl) (Or.inl rfl) .rfl rfl rfl
  · obtain ⟨basicData, -, h⟩ := bind_eq_ok.1 h
    split_ifs at h with htdb
    · obtain ⟨tdb, hread, h⟩ := bind_eq_ok.1 h
      split_ifs at h with hbusy
      · cases h
        exact quiet_call target hp (Or.inl rfl) (Or.inl rfl) .rfl rfl rfl
      · have hset : Quiet w (w.setRecord target
            { w.record target with tls := .live { tdb with joinWaiting := true } }) :=
          quiet_setRecord _ rfl fun d' hd' => by
            cases hd'
            exact ⟨tdb, Cell.read_eq_ok.1 hread, rfl⟩
        exact hset.trans (joinLoop_quiet hp (Or.inl rfl) h)
    · exact joinComplete_quiet hp (Or.inl rfl) h

theorem pthreadDetach_quiet (hp : w.point t = .running) (h : w.pthreadDetach t target = .ok w') :
    Quiet w w' := by
  have hcall : ∀ {w₀ : ThreadWorld θ η ν}, Quiet w w₀ → w₀.point = w.point →
      ∀ {result}, w₀.finish t result = w' → Quiet w w' := by
    intro w₀ hquiet hpoint result hfinish
    subst hfinish
    exact quiet_call target hp (Or.inl rfl) (Or.inl rfl) hquiet hpoint rfl
  unfold pthreadDetach at h
  obtain ⟨basicData, -, h⟩ := bind_eq_ok.1 h
  have hsucceeded : Quiet w (w.setRecord target { w.record target with succeeded := true }) :=
    quiet_setRecord _ rfl fun d' hd' => ⟨d', hd', rfl⟩
  dsimp only at h
  split_ifs at h with htdb
  · obtain ⟨tdb, hread, h⟩ := bind_eq_ok.1 h
    split_ifs at h with hwaiting hjoinable
    · exact hcall hsucceeded rfl (Except.ok.inj h)
    · refine hcall (quiet_setRecord { w.record target with
        succeeded := true, tls := .live { tdb with joinable := false } } rfl fun d' hd' => ?_) rfl
        (Except.ok.inj h)
      cases hd'
      exact ⟨tdb, Cell.read_eq_ok.1 hread, rfl⟩
    · exact hcall .rfl rfl (Except.ok.inj h)
  · obtain ⟨w₁, hrelease, h⟩ := bind_eq_ok.1 h
    obtain ⟨hquiet, hpoint, -⟩ := ncReleaseBasicDataMu_quiet hrelease
    exact hcall (hsucceeded.trans hquiet) hpoint (Except.ok.inj h)

theorem threadCreate_quiet {started : Bool} (h : w.threadCreate t started = .ok w') :
    Quiet w w' := by
  unfold threadCreate at h
  split at h
  · next child hp =>
    split at h
    · next node hchild =>
      have htc : t ≠ child := fun heq => by
        rw [heq, hchild] at hp
        cases hp
      split_ifs at h with hstarted
      · cases h
        have hrun : Quiet w (w.goto child .running) :=
          quiet_point hchild rfl rfl rfl rfl (fun _ _ => trivial) fun _ => nofun
        refine hrun.trans (quiet_finish (p := .creating child) ?_ (fun _ _ => trivial)
          (fun _ => nofun) _)
        exact (update_of_ne htc _ _).trans hp
      · cases h
        exact quiet_point hchild rfl rfl rfl rfl (fun _ => id) fun _ => nofun
    · cases h
  · cases h

theorem exitDecrement_quiet {retval : ν} (hp : w.point t = .exiting retval) :
    Quiet w (w.exitDecrement t retval) := by
  unfold exitDecrement
  split_ifs
  · exact quiet_point hp rfl rfl rfl rfl (fun _ _ => trivial) fun _ => nofun
  · exact quiet_point hp rfl rfl rfl rfl (fun _ _ => trivial) fun _ => nofun
  · exact quiet_point hp rfl rfl rfl rfl (fun _ _ => trivial) fun _ => nofun

theorem signalLastThread_quiet (w : ThreadWorld θ η ν) : Quiet w w.signalLastThread := by
  unfold signalLastThread
  split
  · next retval hp =>
    exact quiet_point hp rfl rfl rfl rfl (fun _ _ => trivial) fun _ => nofun
  · exact .rfl

theorem signalJoiner_quiet [Fintype θ] {woken : Option θ} (h : w.signalJoiner t woken = .ok w') :
    Quiet w w' ∧ ∀ u, (w.point u).sleepsOn = none → w'.point u = w.point u := by
  cases woken with
  | none =>
    unfold signalJoiner at h
    dsimp only at h
    split_ifs at h
    cases h
    exact ⟨.rfl, fun _ _ => rfl⟩
  | some u =>
    unfold signalJoiner at h
    dsimp only at h
    split_ifs at h with hsleeps
    cases h
    have hu : w.point u = .joining t := by
      cases hpoint : w.point u with
      | joining target =>
        rw [hpoint] at hsleeps
        exact congrArg ThreadPoint.joining (Option.some.inj hsleeps)
      | _ =>
        rw [hpoint] at hsleeps
        cases hsleeps
    refine ⟨quiet_point hu rfl rfl rfl rfl (fun _ _ => trivial) fun _ => nofun, fun v hv => ?_⟩
    refine update_of_ne (fun heq => ?_) _ _
    rw [heq, hsleeps] at hv
    cases hv

end

section

variable {θ η ν : Type} [DecidableEq θ] [DecidableEq η] {w w' : ThreadWorld θ η ν} {t k child : θ}
  {node : η} {need : θ → ℕ}

omit [DecidableEq θ] in
theorem StackInv.giveUp (h : StackInv need w) (huses : (w.record k).usesStack = some node)
    (hrecord : ∀ j ≠ k, w'.record j = w.record j) (hnone : (w'.record k).usesStack = none)
    (htls : (w'.record k).tls.isLive = false) (hat : StackAt (w'.record k) (w'.point k))
    (hpoint : ∀ j ≠ k, w'.point j = w.point j) {block : ThreadMemoryBlock}
    (hold : w.stackBlock node = .live block)
    (hblock : w'.stackBlock =
      update w.stackBlock node (.live { block with isUsed := false }))
    (hmem : ∀ n ∈ w'.threadStackBlocks, n ∈ w.threadStackBlocks ∨ n = node)
    (hnodup : w'.threadStackBlocks.Nodup) : StackInv need w' where
  blocks := h.blocks.giveUp huses hrecord hnone hpoint hblock hmem hnodup
  tls j d hd := by
    by_cases hj : j = k
    · rw [hj] at hd
      rw [hd] at htls
      cases htls
    · rw [hrecord j hj] at hd ⊢
      exact h.tls j d hd
  at_ j := by
    by_cases hj : j = k
    · rw [hj]
      exact hat
    · rw [hrecord j hj, hpoint j hj]
      exact h.at_ j
  sized n b hb := by
    rw [hblock, update_apply] at hb
    split_ifs at hb with hn
    · cases hb
      exact h.sized node block hold
    · exact h.sized n b hb
  enough j n b hj hb := by
    have hjk : j ≠ k := by
      rintro rfl
      rw [hnone] at hj
      cases hj
    rw [hrecord j hjk] at hj
    have hn : n ≠ node := by
      rintro rfl
      exact hjk (h.blocks.own j k n hj huses)
    rw [hblock, update_of_ne hn] at hb
    exact h.enough j n b hj hb

omit [DecidableEq θ] in
theorem clearIsUsed_eq (h : w.clearIsUsed node = .ok w') :
    ∃ block, w.stackBlock node = .live block ∧ w' = { w with
      stackBlock := update w.stackBlock node (.live { block with isUsed := false }) } := by
  unfold clearIsUsed at h
  obtain ⟨block, hread, h⟩ := bind_eq_ok.1 h
  cases h
  exact ⟨block, Cell.read_eq_ok.1 hread, rfl⟩

theorem StackInv.threadExit (h : StackInv need w) (hp : w.point t = .leaving node)
    (hstep : (do
      let w ← w.clearIsUsed node
      .ok ((w.setRecord t { w.record t with usesStack := none }).goto t .gone)) = .ok w') :
    StackInv need w' := by
  have hat := h.at_ t
  rw [hp] at hat
  obtain ⟨w₁, hclear, hstep⟩ := bind_eq_ok.1 hstep
  obtain ⟨block, hold, rfl⟩ := clearIsUsed_eq hclear
  cases hstep
  refine h.giveUp hat.1 (fun j hj => setRecord_record_of_ne hj) ?_ ?_ ?_
    (fun j hj => update_of_ne hj _ _) hold rfl (fun n hn => Or.inl hn) h.blocks.nodup
  · exact congrArg ThreadRecord.usesStack (setRecord_record_self _)
  · refine (congrArg (fun r : ThreadRecord η ν => r.tls.isLive) (setRecord_record_self _)).trans ?_
    exact hat.2
  · change StackAt _ (update w.point t .gone t)
    rw [update_self]
    trivial

omit [DecidableEq θ] [DecidableEq η] in
theorem not_cached (h : StackInv need w) (huses : (w.record k).usesStack = some node)
    (hp : ∀ n, w.point k ≠ .leaving n) : node ∉ w.threadStackBlocks := fun hmem =>
  hp node (h.blocks.cachedBy node hmem k huses)

omit [DecidableEq η] in
theorem StackInv.cache (h : StackInv need w) {retval : ν} (hp : w.point t = .terminating retval)
    (huses : (w.record t).usesStack = some node) (htls : (w.record t).tls.isLive = false) :
    StackInv need ((w.ncFreeMemoryBlockMu node).goto t (.leaving node)) := by
  have hblocks := h.blocks.leave hp huses huses
  rw [setRecord_self] at hblocks
  refine ⟨hblocks, h.tls, fun k => ?_, h.sized, h.enough⟩
  change StackAt (w.record k) (update w.point t (.leaving node) k)
  rw [update_apply]
  split_ifs with hk
  · rw [hk]
    exact ⟨huses, htls⟩
  · exact h.at_ k

omit [DecidableEq η] in
theorem StackInv.leave (h : StackInv need w) {retval : ν} {stackNode : Option η}
    (hp : w.point t = .terminating retval) (huses : stackNode = (w.record t).usesStack)
    (htls : (w.record t).tls.isLive = false)
    (hstep : (match stackNode with
      | some node =>
        let w := (w.ncFreeMemoryBlockMu node).goto t (.leaving node)
        Except.ok (if w.runningThreadsCounter = 1 then w.signalLastThread else w)
      | none => Except.error Stop.useAfterFree) = .ok w') : StackInv need w' := by
  cases stackNode with
  | none => cases hstep
  | some node =>
    have hcache := h.cache hp huses.symm htls
    cases hstep
    split_ifs
    · exact hcache.quiet (signalLastThread_quiet _)
    · exact hcache

omit [DecidableEq η] in
theorem StackInv.exitRelease [Fintype θ] (h : StackInv need w) {retval : ν} {woken : Option θ}
    (hp : w.point t = .terminating retval) (hstep : w.exitRelease t retval woken = .ok w') :
    StackInv need w' := by
  unfold ThreadWorld.exitRelease at hstep
  obtain ⟨tdb, hread, hstep⟩ := bind_eq_ok.1 hstep
  obtain ⟨basicData, -, hstep⟩ := bind_eq_ok.1 hstep
  have hnode := h.tls t tdb (Cell.read_eq_ok.1 hread)
  have hset : ∀ b : BasicThreadData ν,
      Quiet w (w.setRecord t { w.record t with basicData := .live b }) := fun b =>
    quiet_setRecord _ rfl fun d' hd' => ⟨d', hd', rfl⟩
  dsimp only at hstep
  split_ifs at hstep with hjoinable
  · obtain ⟨w₁, hsignal, hstep⟩ := bind_eq_ok.1 hstep
    obtain ⟨hquiet₁, hpoint⟩ := signalJoiner_quiet hsignal
    have hp₁ := (hpoint t (by rw [show (w.setRecord t _).point t = _ from hp]; rfl)).trans hp
    obtain ⟨w₂, hrelease, hstep⟩ := bind_eq_ok.1 hstep
    obtain ⟨hquiet₂, hp₂, hfreed⟩ := ncReleaseTlsAllocation_quiet hrelease
    have hquiet := ((hset _).trans hquiet₁).trans hquiet₂
    exact (h.quiet hquiet).leave ((congrFun hp₂ t).trans hp₁) (hnode.trans (hquiet.uses t).symm)
      (by rw [hfreed]; rfl) hstep
  · obtain ⟨w₁, hw₁, hstep⟩ := bind_eq_ok.1 hstep
    cases hw₁
    obtain ⟨w₂, hrelease, hstep⟩ := bind_eq_ok.1 hstep
    obtain ⟨hquiet₂, hp₂, hfreed⟩ := ncReleaseTlsAllocation_quiet hrelease
    obtain ⟨w₃, hbasic, hstep⟩ := bind_eq_ok.1 hstep
    obtain ⟨hquiet₃, hp₃, htls⟩ := ncReleaseBasicDataMu_quiet hbasic
    have hquiet := ((hset _).trans hquiet₂).trans hquiet₃
    exact (h.quiet hquiet).leave ((congrFun (hp₃.trans hp₂) t).trans hp)
      (hnode.trans (hquiet.uses t).symm) (by rw [htls, hfreed]; rfl) hstep

omit [DecidableEq η] in
theorem releaseFailed_tls_quiet {tls : Bool}
    (h : (if tls = true then w.ncReleaseTlsAllocation k else .ok w) = .ok w') :
    Quiet w w' ∧ w'.point = w.point ∧ (tls = true → (w'.record k).tls = .freed) := by
  split_ifs at h with htls
  · obtain ⟨hquiet, hpoint, hfreed⟩ := ncReleaseTlsAllocation_quiet h
    exact ⟨hquiet, hpoint, fun _ => hfreed⟩
  · cases h
    exact ⟨.rfl, rfl, fun htrue => absurd htrue htls⟩

omit [DecidableEq η] in
theorem releaseFailed_basicData_quiet {basicData : Bool}
    (h : (if basicData = true then w.ncReleaseBasicDataMu k else .ok w) = .ok w') :
    Quiet w w' ∧ w'.point = w.point ∧ (w'.record k).tls = (w.record k).tls := by
  split_ifs at h
  · exact ncReleaseBasicDataMu_quiet h
  · cases h
    exact ⟨.rfl, rfl, rfl⟩

theorem StackInv.releaseFailed (h : StackInv need w) {tls basicData : Bool} {stackNode : Option η}
    (hp : w.point t = .creating child) (hchild : w.point child = .releasing tls basicData stackNode)
    (hstep : w.releaseFailed t child tls basicData stackNode = .ok w') : StackInv need w' := by
  have hat := h.at_ child
  rw [hchild] at hat
  have htc : t ≠ child := fun heq => by
    rw [heq, hchild] at hp
    cases hp
  have heq : w.releaseFailed t child tls basicData stackNode =
      ((if tls = true then w.ncReleaseTlsAllocation child else .ok w) >>= fun w =>
        (if basicData = true then w.ncReleaseBasicDataMu child else .ok w) >>= fun w =>
          (match stackNode with
          | some node => w.clearIsUsed node >>= fun w =>
            .ok ((w.ncFreeMemoryBlockMu node).setRecord child
              { w.record child with usesStack := none })
          | none => .ok w) >>= fun w =>
            .ok ((w.goto child .failed).finish t (.status (.error .eagain)))) := by
    cases tls <;> cases basicData <;> cases stackNode <;> rfl
  rw [heq] at hstep
  obtain ⟨w₁, htls, hstep⟩ := bind_eq_ok.1 hstep
  obtain ⟨hquiet₁, hpoint₁, hfreed⟩ := releaseFailed_tls_quiet htls
  obtain ⟨w₂, hbasic, hstep⟩ := bind_eq_ok.1 hstep
  obtain ⟨hquiet₂, hpoint₂, htls₂⟩ := releaseFailed_basicData_quiet hbasic
  have h₂ := h.quiet (hquiet₁.trans hquiet₂)
  have hpoint := hpoint₂.trans hpoint₁
  have hp₂ := (congrFun hpoint t).trans hp
  have hchild₂ := (congrFun hpoint child).trans hchild
  have huses₂ : (w₂.record child).usesStack = stackNode :=
    ((hquiet₁.trans hquiet₂).uses child).trans hat.1
  obtain ⟨w₃, hstack, hstep⟩ := bind_eq_ok.1 hstep
  cases hstep
  -- The caller returns, whatever has become of the thread that it was to create.
  have hfinish : ∀ w₄ : ThreadWorld θ η ν, w₄.point t = .creating child → StackInv need w₄ →
      StackInv need (w₄.finish t (.status (.error .eagain))) := fun w₄ hp₄ h₄ =>
    h₄.quiet (quiet_finish hp₄ (fun _ _ => trivial) (fun _ => nofun) _)
  have hgoto : ∀ w₄ : ThreadWorld θ η ν, w₄.point t = .creating child →
      (w₄.goto child .failed).point t = .creating child := fun w₄ hp₄ =>
    (update_of_ne htc _ _).trans hp₄
  cases stackNode with
  | none =>
    cases hstack
    exact hfinish _ (hgoto w₂ hp₂)
      (h₂.quiet (quiet_point hchild₂ rfl rfl rfl rfl (fun _ _ => trivial) fun _ => nofun))
  | some node =>
    obtain ⟨w₄, hclear, hstack⟩ := bind_eq_ok.1 hstack
    obtain ⟨block, hold, rfl⟩ := clearIsUsed_eq hclear
    cases hstack
    refine hfinish _ (hgoto _ hp₂) ?_
    have hnot := not_cached h₂ huses₂ fun n => by rw [hchild₂]; exact nofun
    refine h₂.giveUp huses₂ (fun j hj => setRecord_record_of_ne hj) ?_ ?_ ?_
      (fun j hj => update_of_ne hj _ _) hold rfl (fun n hn => ?_) ?_
    · exact congrArg ThreadRecord.usesStack (setRecord_record_self _)
    · refine (congrArg (fun r : ThreadRecord η ν => r.tls.isLive)
        (setRecord_record_self _)).trans ?_
      change (w₂.record child).tls.isLive = false
      rw [htls₂, hfreed (hat.2 nofun)]
      rfl
    · change StackAt _ (update w₂.point child .failed child)
      rw [update_self]
      trivial
    · rcases List.mem_append.1 hn with hn | hn
      · exact Or.inl hn
      · exact Or.inr (List.mem_singleton.1 hn)
    · exact List.nodup_append.2 ⟨h₂.blocks.nodup, List.nodup_singleton _, fun n hn m hm heq =>
        hnot (by rw [← List.mem_singleton.1 hm, ← heq]; exact hn)⟩

theorem StackInv.createFailed (h : StackInv need w) (hp : w.point t = .creating child)
    (hstep : w.createFailed t child = .ok w') : StackInv need w' := by
  unfold ThreadWorld.createFailed at hstep
  split at hstep
  · next node hchild =>
    cases hstep
    exact h.quiet (quiet_point hchild rfl rfl rfl rfl (fun _ huses => ⟨huses, fun _ => rfl⟩)
      fun _ => nofun)
  · next tls basicData stackNode hchild => exact h.releaseFailed hp hchild hstep
  · cases hstep

omit [DecidableEq η] in
theorem StackInv.notCreated (h : StackInv need w) (hp : w.point t = .running)
    (hchild : w.point child = .fresh) (r : ThreadRecord η ν) (tls basicData : Bool)
    (huses : r.usesStack = none) (htls : ∀ d, r.tls = .live d → d.stackNode = none) :
    StackInv need (((w.setRecord child r).goto child (.releasing tls basicData none)).goto t
      (.creating child)) := by
  have htc : t ≠ child := fun heq => by
    rw [heq, hchild] at hp
    cases hp
  have hold := h.at_ child
  rw [hchild] at hold
  have hrecord : ∀ k, (w.setRecord child r).record k = if k = child then r else w.record k :=
    setRecord_eq w child r
  have hquiet : Quiet w ((w.setRecord child r).goto child (.releasing tls basicData none)) := by
    refine ⟨rfl, rfl, fun k => ?_, fun k d' hd' => ?_, fun k hat => ?_, fun k n hk => ?_⟩
    · change ((w.setRecord child r).record k).usesStack = _
      rw [hrecord]
      split_ifs with hk
      · rw [hk, huses]
        exact hold.symm
      · rfl
    · change ((w.setRecord child r).record k).tls = _ at hd'
      rw [hrecord] at hd'
      split_ifs at hd' with hk
      · rw [hk]
        exact Or.inl ((htls d' hd').trans hold.symm)
      · exact Or.inr ⟨d', hd', rfl⟩
    · change StackAt ((w.setRecord child r).record k)
        (update w.point child (.releasing tls basicData none) k)
      rw [hrecord, update_apply]
      split_ifs with hk
      · exact ⟨huses, fun hne => absurd rfl hne⟩
      · exact hat
    · refine (update_of_ne ?_ _ _).trans hk
      rintro rfl
      rw [hchild] at hk
      cases hk
  have hp' := (update_of_ne htc (.releasing tls basicData none) w.point).trans hp
  exact (h.quiet hquiet).quiet
    (quiet_point hp' rfl rfl rfl rfl (fun _ _ => trivial) fun _ => nofun)

omit [DecidableEq θ] in
theorem StackInv.allocate (h : StackInv need w) {requiredSize : ℤ} {stack result : Option η}
    (hrequired : IsInt requiredSize ∧ sizeofMemoryBlock + toSize requiredSize < 2 ^ 32)
    (halloc : w.ncAllocateMemoryBlockMu requiredSize stack = .ok (w', result)) :
    StackInv need w' ∧ w.Allocated (w', result) := by
  have hallocated : Fine w.Allocated (w.ncAllocateMemoryBlockMu requiredSize stack) :=
    h.blocks.ncAllocateMemoryBlockMu
  rw [halloc] at hallocated
  have hout := ncAllocateMemoryBlockMu_handsOut halloc
  obtain ⟨⟨l, s, hw'⟩, hblocks, hnode⟩ := hallocated
  dsimp only at hw' hblocks hnode
  subst hw'
  refine ⟨⟨hblocks, h.tls, h.at_, fun n b hb => ?_, fun k n b hk hb => ?_⟩, ⟨l, s, rfl⟩, hblocks,
    hnode⟩
  · by_cases hn : result = some n
    · obtain ⟨size, hlive, hsize⟩ := hout.handed n hn
      rw [hlive] at hb
      cases hb
      rcases hsize with rfl | ⟨-, hold, -⟩
      · exact hrequired
      · have hsized := h.sized n _ hold
        exact hsized
    · exact h.sized n b (hout.others n b hn hb)
  · have hn : result ≠ some n := fun hn => (hnode n hn).2.1 k hk
    exact h.enough k n b hk (hout.others n b hn hb)

omit [DecidableEq η] in
theorem StackInv.created (h : StackInv need w) (hp : w.point t = .running)
    (hchild : w.point child = .fresh) (r : ThreadRecord η ν) (counter : ℤ)
    (huses : r.usesStack = some node) (htls : ∀ d, r.tls = .live d → d.stackNode = some node)
    (hnode : (∃ size, w.stackBlock node = .live ⟨size, true⟩) ∧
      (∀ k, (w.record k).usesStack ≠ some node) ∧ node ∉ w.threadStackBlocks)
    (henough : ∀ b, w.stackBlock node = .live b → need child ≤ toSize b.size) :
    StackInv need (({ w.setRecord child r with runningThreadsCounter := counter }.goto child
      (.starting node)).goto t (.creating child)) := by
  have htc : t ≠ child := fun heq => by
    rw [heq, hchild] at hp
    cases hp
  let w₁ :=
    { w.setRecord child r with runningThreadsCounter := counter }.goto child (.starting node)
  have hrecord : ∀ k, w₁.record k = if k = child then r else w.record k := setRecord_eq w child r
  have hself : w₁.record child = r := setRecord_record_self r
  have h₁ : StackInv need w₁ := by
    refine ⟨?_, fun k d hd => ?_, fun k => ?_, h.sized, fun k n b hk hb => ?_⟩
    · exact h.blocks.take (fun j hj => setRecord_record_of_ne hj)
        ((congrArg ThreadRecord.usesStack hself).trans huses)
        (fun j hj => update_of_ne hj _ _) rfl rfl hnode
    · rw [hrecord] at hd ⊢
      split_ifs at hd ⊢ with hk
      · exact (htls d hd).trans huses.symm
      · exact h.tls k d hd
    · change StackAt (w₁.record k) (update w.point child (.starting node) k)
      rw [hrecord, update_apply]
      split_ifs with hk
      · exact huses
      · exact h.at_ k
    · rw [hrecord] at hk
      split_ifs at hk with hkc
      · rw [huses] at hk
        cases hk
        rw [hkc]
        exact henough b hb
      · exact h.enough k n b hk hb
  have hp₁ : w₁.point t = .running := (update_of_ne htc _ _).trans hp
  exact h₁.quiet (quiet_point hp₁ rfl rfl rfl rfl (fun _ _ => trivial) fun _ => nofun)

variable {arch : NaClArch} {stacksize : θ → StackSize}

theorem StackInv.pthreadCreate (h : StackInv (fun k => arch.stackNeed (stacksize k)) w)
    (hp : w.point t = .running) (hchild : w.point child = .fresh) {joinable tls basicData : Bool}
    {stack : Option η}
    (hwrap : sizeofMemoryBlock + arch.stackNeed (stacksize child) < 2 ^ 32)
    (hsign : 2 ^ 31 ≤ arch.stackNeed (stacksize child) → ¬ w.HeadReusable)
    (hstep : w.pthreadCreate t child joinable (arch.requiredSize (stacksize child)) tls basicData
      stack = .ok w') : StackInv (fun k => arch.stackNeed (stacksize k)) w' := by
  have huses := h.at_ child
  rw [hchild] at huses
  unfold ThreadWorld.pthreadCreate at hstep
  dsimp only at hstep
  split_ifs at hstep with htls hbasic
  · obtain ⟨⟨w₁, result⟩, halloc, hstep⟩ := bind_eq_ok.1 hstep
    rw [requiredSize_eq] at halloc
    have hneed : arch.stackNeed (stacksize child) < 2 ^ 32 := by omega
    have hsize := toSize_bmod hneed
    obtain ⟨h₁, ⟨l, s, hw₁⟩, -, hnode⟩ := h.allocate ⟨isInt_bmod _, by rwa [hsize]⟩ halloc
    dsimp only at hw₁ hnode
    have hout := ncAllocateMemoryBlockMu_handsOut halloc
    have hp₁ : w₁.point t = .running := by rw [hw₁]; exact hp
    have hchild₁ : w₁.point child = .fresh := by rw [hw₁]; exact hchild
    have hrecord₁ : w₁.record = w.record := by rw [hw₁]
    cases result with
    | none =>
      cases hstep
      exact h₁.notCreated hp₁ hchild₁ _ true true huses fun d hd => by cases hd; rfl
    | some node =>
      cases hstep
      have hfree : ∀ k, (w₁.record k).usesStack ≠ some node := by
        rw [hrecord₁]
        exact (hnode node rfl).2.1
      refine h₁.created hp₁ hchild₁ _ _ rfl (fun d hd => by cases hd; rfl)
        ⟨(hnode node rfl).1, hfree, (hnode node rfl).2.2⟩ fun b hb => ?_
      obtain ⟨size, hlive, hcase⟩ := hout.handed node rfl
      rw [hlive] at hb
      cases hb
      rcases hcase with heq | ⟨hle, hold, rest, hqueue⟩
      · dsimp only
        rw [heq, hsize]
      · have hint : IsInt size := (h.sized node _ hold).1
        suffices hsmall : 2 ^ 31 ≤ arch.stackNeed (stacksize child) → size < 0 by
          exact le_toSize hneed hint hle hsmall
        intro hlarge
        by_contra hpos
        apply hsign hlarge
        unfold HeadReusable
        rw [hqueue]
        dsimp only
        rw [hold]
        exact ⟨rfl, not_lt.1 hpos⟩
  · cases hstep
    exact h.notCreated hp hchild _ true false huses fun d hd => by cases hd; rfl
  · cases hstep
    have hnot := h.notCreated hp hchild (w.record child) false false huses fun d hd =>
      (h.tls child d hd).trans huses
    rw [setRecord_self] at hnot
    exact hnot

theorem StackInv.step [Fintype θ] (h : StackInv (fun k => arch.stackNeed (stacksize k)) w)
    {a : ThreadAction θ η ν} (hasks : Asks arch stacksize a)
    (hready : w.StackReady arch stacksize a) (hstep : w.step a = .ok w') :
    StackInv (fun k => arch.stackNeed (stacksize k)) w' := by
  cases a with
  | pthreadCreate t child joinable requiredSize tls basicData stack =>
    rw [ThreadWorld.step] at hstep
    split at hstep
    · next hp hchild =>
      cases hasks
      exact h.pthreadCreate hp hchild hready.1 hready.2 hstep
    · cases hstep
  | threadCreate t started => exact h.quiet (threadCreate_quiet hstep)
  | pthreadExit t retval =>
    rw [ThreadWorld.step] at hstep
    split at hstep
    · next hp =>
      cases hstep
      have hset : Quiet w (w.setRecord t { w.record t with exitValue := some retval }) :=
        quiet_setRecord _ rfl fun d' hd' => ⟨d', hd', rfl⟩
      refine (h.quiet hset).quiet (quiet_point (t := t) (p := .running) hp rfl rfl rfl rfl
        (fun _ _ => trivial) fun _ h => by cases h)
    · cases hstep
  | pthreadJoin t target =>
    rw [ThreadWorld.step] at hstep
    split at hstep
    · next hp => exact h.quiet (pthreadJoin_quiet hp hstep)
    · cases hstep
  | pthreadDetach t target =>
    rw [ThreadWorld.step] at hstep
    split at hstep
    · next hp => exact h.quiet (pthreadDetach_quiet hp hstep)
    · cases hstep
  | next t woken =>
    rw [ThreadWorld.step] at hstep
    split at hstep
    · next child hp => exact h.createFailed hp hstep
    · next target hp => exact h.quiet (joinLoop_quiet hp (Or.inr rfl) hstep)
    · next retval hp =>
      cases hstep
      exact h.quiet (exitDecrement_quiet hp)
    · next retval hp => exact h.exitRelease hp hstep
    · next node hp => exact h.threadExit hp hstep
    · cases hstep
  | wake t =>
    rw [ThreadWorld.step] at hstep
    split at hstep
    · next target hp =>
      cases hstep
      exact h.quiet (quiet_point hp rfl rfl rfl rfl (fun _ _ => trivial) fun _ h => by cases h)
    · next retval hp =>
      cases hstep
      exact h.quiet (quiet_point hp rfl rfl rfl rfl (fun _ _ => trivial) fun _ h => by cases h)
    · cases hstep

omit [DecidableEq η] in
theorem stackInv_init (need : θ → ℕ) (initialThread : θ) :
    StackInv need (init initialThread : ThreadWorld θ η ν) := by
  have huses : ∀ k, ((init initialThread : ThreadWorld θ η ν).record k).usesStack = none := by
    intro k
    unfold init
    dsimp only
    split_ifs <;> rfl
  have hnone : ∀ {k n}, ((init initialThread : ThreadWorld θ η ν).record k).usesStack ≠ some n := by
    intro k n
    rw [huses]
    exact nofun
  refine ⟨⟨fun k n hk => absurd hk hnone, fun j k n hj => absurd hj hnone, List.nodup_nil, nofun,
    nofun⟩, fun k d hd => ?_, fun k => ?_, nofun, fun k n b hk => absurd hk hnone⟩
  · rw [huses]
    unfold init at hd
    dsimp only at hd
    split_ifs at hd
    cases hd
    rfl
  · unfold StackAt init
    dsimp only
    split_ifs with hk
    · trivial
    · rfl

/-- Whatever the threads do, each of them has its stack in a block of its own, as long as no call of
`pthread_create` comes to what the code gets wrong. -/
theorem stacksFit_of_guarded [Fintype θ] {addr : η → ℕ} {initialThread : θ}
    {run : List (ThreadAction θ η ν)}
    (hready : Guarded step (fun w a => Asks arch stacksize a ∧ w.StackReady arch stacksize a)
      (init initialThread) run)
    (hrun : run.foldlM step (init initialThread) = .ok w) (hmalloc : w.MallocInside addr) :
    w.StacksFit arch stacksize addr := by
  have hinv : StackInv (fun k => arch.stackNeed (stacksize k)) w :=
    hready.invariant (fun _ _ _ h hok hstep => h.step hok.1 hok.2 hstep) (stackInv_init _ _) hrun
  exact hinv.stacksFit hmalloc

end

local instance neZeroCreated : NeZero 3 := ⟨by decide⟩

local instance neZeroBlocks : NeZero 2 := ⟨by decide⟩

/-- The stack sizes of two threads: the second asks for half of the address space. -/
def stackSizes (small large : UInt32) (k : Fin 3) : StackSize :=
  pthreadAttrSetstacksize (if k = 2 then large else small)

/-- A thread is created and exits; another one is created after it. -/
def reuseRun (small large : UInt32) : List (ThreadAction (Fin 3) (Fin 2) ℕ) :=
  [.pthreadCreate 0 1 true (NaClArch.x8664.requiredSize (stackSizes small large 1)) true true
      (some 0),
    .threadCreate 0 true, .pthreadExit 1 7, .next 1 none, .next 1 none, .next 1 none,
    .pthreadCreate 0 2 true (NaClArch.x8664.requiredSize (stackSizes small large 2)) true true
      (some 1)]

/-- The blocks of `malloc` are at these addresses. -/
def mallocAddr (n : Fin 2) : ℕ := 0x20000000 + 0x1000000 * n

def isUsedOfSize (size : ℤ) : Cell ThreadMemoryBlock → Bool
  | .live block => block.isUsed && block.size == size
  | _ => false

theorem eq_of_isUsedOfSize {size : ℤ} {c : Cell ThreadMemoryBlock}
    (h : isUsedOfSize size c = true) : c = .live ⟨size, true⟩ := by
  cases c with
  | live block =>
    obtain ⟨hused, hsize⟩ := Bool.and_eq_true_iff.1 h
    rw [← hused, ← eq_of_beq hsize]
  | _ => cases h

/-- The second thread gets the block of the first, and that block is all there is. -/
def Reused (size : ℤ) (w : ThreadWorld (Fin 3) (Fin 2) ℕ) : Prop :=
  (w.record 2).usesStack = some 0 ∧ isUsedOfSize size (w.stackBlock 0) = true ∧
    (w.stackBlock 1).isLive = false

instance (size : ℤ) (w : ThreadWorld (Fin 3) (Fin 2) ℕ) : Decidable (w.Reused size) := by
  unfold Reused
  infer_instance

theorem Reused.mallocInside {size : ℤ} {w : ThreadWorld (Fin 3) (Fin 2) ℕ} (h : w.Reused size)
    (hsize : mallocAddr 0 + memoryBlockAllocationSize size ≤ 2 ^ 32) :
    w.MallocInside mallocAddr := by
  obtain ⟨-, hused, hdead⟩ := h
  refine Fin.forall_fin_two.2 ⟨fun b hb => ?_, fun b hb => ?_⟩
  · cases (eq_of_isUsedOfSize hused).symm.trans hb
    exact hsize
  · rw [hb] at hdead
    cases hdead

theorem stacksFit_reuse : ∃ w, (reuseRun 65536 65536).foldlM step (init 0) = .ok w ∧
    (w.record 2).usesStack = some 0 ∧
    w.StacksFit .x8664 (stackSizes 65536 65536) mallocAddr := by
  obtain ⟨w, hrun, hreused⟩ := Runs.exists_ok_of_check
    (P := Reused 65567) (fun w => w.Reused 65567)
    (fun _ hcheck => of_decide_eq_true hcheck) (x := (reuseRun 65536 65536).foldlM step (init 0))
    (by decide +kernel)
  exact ⟨w, hrun, hreused.1, stacksFit_of_guarded (Guarded.of_check (by decide +kernel)) hrun
    (hreused.mallocInside (by decide))⟩

/-- The block of a thread with a small stack is used again for one of half of the address space: as
an `int` that size is negative. -/
theorem not_stacksFit : ¬ ∀ (run : List (ThreadAction (Fin 3) (Fin 2) ℕ))
    (w : ThreadWorld (Fin 3) (Fin 2) ℕ),
    (∀ a ∈ run, Asks .x8664 (stackSizes 65536 0x80000000) a) →
    run.foldlM step (init 0) = .ok w → w.MallocInside mallocAddr →
    w.StacksFit .x8664 (stackSizes 65536 0x80000000) mallocAddr := by
  intro hclaim
  obtain ⟨w, hrun, hreused⟩ := Runs.exists_ok_of_check
    (P := Reused 65567) (fun w => w.Reused 65567)
    (fun _ hcheck => of_decide_eq_true hcheck)
    (x := (reuseRun 65536 0x80000000).foldlM step (init 0)) (by decide +kernel)
  have hfit := hclaim _ w (by decide +kernel) hrun (hreused.mallocInside (by decide))
  obtain ⟨size, hlive, hfits⟩ := hfit.fits 2 0 hreused.1
  cases (eq_of_isUsedOfSize hreused.2.1).symm.trans hlive
  revert hfits
  decide

end ThreadWorld

end SandboxingNaCl
