import SandboxingNaCl.Lib.ByteImage

/-!
# Replacing an instruction

`nccopycode.c`: an instruction is replaced by one store, or behind a halt that stands for its first
byte.  The stores are those another processor may see one by one.
-/

namespace SandboxingNaCl

open Patches ByteImage

structure CodeStore where
  addr : ℕ
  bytes : List UInt8

/-- The store touches at most 8 bytes, all of them in one aligned unit of 8. -/
def CodeStore.Atomic (s : CodeStore) : Prop :=
  s.bytes.length ≤ 8 ∧ ∀ i < s.bytes.length, (s.addr + i) / 8 = s.addr / 8

def CodeStore.apply (mem : ℕ → UInt8) (s : CodeStore) : ℕ → UInt8 := write mem s.addr s.bytes

/-- The stores of an implementation of `memcpy`, in whatever order and pieces. -/
structure Memcpy where
  stores : ℕ → List UInt8 → List CodeStore
  inside : ∀ dst src, ∀ s ∈ stores dst src,
    dst ≤ s.addr ∧ s.addr + s.bytes.length ≤ dst + src.length
  atomic : ∀ dst src, ∀ s ∈ stores dst src, s.Atomic
  result : ∀ mem dst src, (stores dst src).foldl CodeStore.apply mem = write mem dst src

/-- `kNaClFullStop`. -/
def naClFullStop : UInt8 := 0xf4

/-- `kTrustAligned`. -/
def trustAligned : ℕ := 8

/-- `kTrustUnaligned`. -/
def trustUnaligned : ℕ := 1

/-- `kInstructionFetchSize`. -/
def instructionFetchSize : ℕ := 8

def isAligned (dst size align : ℕ) : Bool :=
  dst - dst % align = (dst + size - 1) - (dst + size - 1) % align

/-- `IsTrustedWrite`, with the offset it puts out. -/
def isTrustedWrite (dst size writesize : ℕ) : Option ℕ :=
  if size > writesize then none
  else if !isAligned dst size instructionFetchSize then none
  else if writesize ≤ trustAligned ∧ isAligned dst size writesize then some (dst % writesize)
  else if writesize ≤ trustUnaligned then some 0
  else none

namespace CopyInstruction

def scroll (mem : ℕ → UInt8) : ℕ → List UInt8 → ℕ × List UInt8
  | dst, [] => (dst, [])
  | dst, b :: src => if mem dst = b then scroll mem (dst + 1) src else (dst, b :: src)

def trim (mem : ℕ → UInt8) (dst : ℕ) (src : List UInt8) : ℕ → ℕ
  | 0 => 0
  | sz + 1 => if src[sz]? = some (mem (dst + sz)) then trim mem dst src sz else sz + 1

/-- `tmp` after the two calls of `memcpy`. -/
def wideStore (mem : ℕ → UInt8) (dst : ℕ) (src : List UInt8) (writesize offset : ℕ) : CodeStore where
  addr := dst - offset
  bytes := patchCopy (read mem (dst - offset) writesize) offset src 0 src.length

def halt (firstbyteP : ℕ) : CodeStore := ⟨firstbyteP, [naClFullStop]⟩

/-- The slow path; the two flags are what `SerializeAllProcessors` returns. -/
def slowPath (memcpy : Memcpy) (serialized serialized' : Bool) (mem : ℕ → UInt8)
    (firstbyteP dst : ℕ) (src : List UInt8) : List CodeStore × ℕ :=
  if !serialized then ([halt firstbyteP], 0)
  else
    let (firstbyte, dst, src) := match src with
      | b :: rest => if dst = firstbyteP then (b, dst + 1, rest) else (mem firstbyteP, dst, src)
      | [] => (mem firstbyteP, dst, src)
    if !serialized' then (halt firstbyteP :: memcpy.stores dst src, 0)
    else (halt firstbyteP :: memcpy.stores dst src ++ [⟨firstbyteP, [firstbyte]⟩], 1)

end CopyInstruction

open CopyInstruction in
/-- The stores `NaClCopyInstruction` makes and what it returns. -/
def naClCopyInstruction (memcpy : Memcpy) (serialized serialized' : Bool) (mem : ℕ → UInt8)
    (firstbyteP : ℕ) (instruction : List UInt8) : List CodeStore × ℕ :=
  let (dst, src) := scroll mem firstbyteP instruction
  if src.length = 0 then ([], 1)
  else
    let src := src.take (trim mem dst src src.length)
    if src.length = 1 then ([⟨dst, src⟩], 1)
    else
      match isTrustedWrite dst src.length 4 with
      | some offset => ([wideStore mem dst src 4 offset], 1)
      | none =>
        match isTrustedWrite dst src.length 8 with
        | some offset => ([wideStore mem dst src 8 offset], 1)
        | none => slowPath memcpy serialized serialized' mem firstbyteP dst src

namespace CopyInstruction

variable {mem m : ℕ → UInt8} {dst fb size w offset : ℕ} {src instruction : List UInt8}

/-! ## Trimming -/

theorem scroll_spec (mem : ℕ → UInt8) (dst : ℕ) (src : List UInt8) :
    ∃ pre, src = pre ++ (scroll mem dst src).2 ∧ (scroll mem dst src).1 = dst + pre.length ∧
      Holds mem dst pre ∧ ∀ b rest, (scroll mem dst src).2 = b :: rest →
        mem (scroll mem dst src).1 ≠ b := by
  induction src generalizing dst with
  | nil => exact ⟨[], rfl, rfl, holds_nil, fun b rest h => by cases h⟩
  | cons b src ih =>
    by_cases hb : mem dst = b
    · obtain ⟨pre, hsrc, hdst, hpre, hne⟩ := ih (dst + 1)
      rw [scroll, if_pos hb]
      refine ⟨b :: pre, ?_, ?_, ?_, hne⟩
      · rw [List.cons_append, ← hsrc]
      · rw [hdst, List.length_cons]
        omega
      · have hone : Holds mem dst [b] := by
          rw [← hb]
          rfl
        exact holds_append.2 ⟨hone, hpre⟩
    · rw [scroll, if_neg hb]
      refine ⟨[], rfl, rfl, holds_nil, fun b' rest h => ?_⟩
      cases h
      exact hb

theorem trim_spec (mem : ℕ → UInt8) (dst : ℕ) (src : List UInt8) (sz : ℕ) :
    trim mem dst src sz ≤ sz ∧
      ∀ i, trim mem dst src sz ≤ i → i < sz → src[i]? = some (mem (dst + i)) := by
  induction sz with
  | zero => exact ⟨le_rfl, fun i _ hi => absurd hi (Nat.not_lt_zero i)⟩
  | succ sz ih =>
    by_cases heq : src[sz]? = some (mem (dst + sz))
    · rw [trim, if_pos heq]
      refine ⟨ih.1.trans (Nat.le_succ sz), fun i hle hi => ?_⟩
      rcases Nat.lt_succ_iff_lt_or_eq.1 hi with hlt | rfl
      · exact ih.2 i hle hlt
      · exact heq
    · rw [trim, if_neg heq]
      exact ⟨le_rfl, fun i hle hi => absurd hi (by omega)⟩

theorem write_trim (mem : ℕ → UInt8) (dst : ℕ) (src : List UInt8) :
    write mem dst (src.take (trim mem dst src src.length)) = write mem dst src := by
  obtain ⟨-, hsame⟩ := trim_spec mem dst src src.length
  funext a
  unfold Patches.write
  by_cases hle : dst ≤ a
  · rw [if_pos hle, if_pos hle]
    by_cases hlt : a - dst < trim mem dst src src.length
    · rw [List.getElem?_take_of_lt hlt]
    · rw [List.getElem?_take_eq_none (by omega), Option.getD_none]
      by_cases hin : a - dst < src.length
      · rw [hsame _ (by omega) hin, Option.getD_some, Nat.add_sub_cancel' hle]
      · rw [List.getElem?_eq_none (by omega), Option.getD_none]
  · rw [if_neg hle, if_neg hle]

/-! ## Wide stores -/

theorem isTrustedWrite_spec (hw : w = 4 ∨ w = 8) (hsize : 0 < size)
    (h : isTrustedWrite dst size w = some offset) :
    offset = dst % w ∧ offset + size ≤ w := by
  have hw1 : ¬ w ≤ trustUnaligned := by
    rcases hw with rfl | rfl
    · decide
    · decide
  unfold isTrustedWrite at h
  by_cases hgt : size > w
  · rw [if_pos hgt] at h
    cases h
  · rw [if_neg hgt] at h
    by_cases hfetch : (!isAligned dst size instructionFetchSize) = true
    · rw [if_pos hfetch] at h
      cases h
    · rw [if_neg hfetch] at h
      by_cases halign : w ≤ trustAligned ∧ isAligned dst size w = true
      · rw [if_pos halign] at h
        obtain rfl := Option.some.inj h
        have heq := decide_eq_true_iff.1 halign.2
        refine ⟨rfl, ?_⟩
        rcases hw with rfl | rfl
        · omega
        · omega
      · rw [if_neg halign, if_neg hw1] at h
        cases h

theorem apply_wideStore (hoffset : offset ≤ dst) (hfit : offset + src.length ≤ w) :
    (wideStore mem dst src w offset).apply mem = write mem dst src := by
  have hlen : (read mem (dst - offset) w).length = w := length_read _ _ _
  funext a
  change write mem (dst - offset) (patchCopy (read mem (dst - offset) w) offset src 0 src.length) a = _
  unfold Patches.write
  by_cases hlow : dst - offset ≤ a
  · rw [if_pos hlow, getElem?_patchCopy (by omega) (by omega)]
    by_cases hin : offset ≤ a - (dst - offset) ∧ a - (dst - offset) < offset + src.length
    · rw [if_pos hin, if_pos (by omega)]
      congr 2
      omega
    · rw [if_neg hin]
      have hold : (read mem (dst - offset) w)[a - (dst - offset)]?.getD (mem a) = mem a := by
        by_cases hw : a - (dst - offset) < w
        · rw [getElem?_read hw, Option.getD_some, Nat.add_sub_cancel' hlow]
        · rw [List.getElem?_eq_none (by omega), Option.getD_none]
      rw [hold]
      by_cases hle : dst ≤ a
      · rw [if_pos hle, List.getElem?_eq_none (by omega), Option.getD_none]
      · rw [if_neg hle]
  · rw [if_neg hlow, if_neg (by omega)]

theorem wideStore_atomic (hw : w = 4 ∨ w = 8) (hoffset : offset = dst % w)
    (hfit : offset + src.length ≤ w) : (wideStore mem dst src w offset).Atomic := by
  have hlen : (wideStore mem dst src w offset).bytes.length = w := by
    change (patchCopy (read mem (dst - offset) w) offset src 0 src.length).length = w
    rw [length_patchCopy (by rw [length_read]; exact hfit) (by omega), length_read]
  constructor
  · rw [hlen]
    omega
  · intro i hi
    rw [hlen] at hi
    change (dst - offset + i) / 8 = (dst - offset) / 8
    rcases hw with rfl | rfl
    · omega
    · omega

theorem atomic_singleton (a : ℕ) (b : UInt8) : (⟨a, [b]⟩ : CodeStore).Atomic := by
  refine ⟨Nat.succ_le_succ (Nat.zero_le 7), fun i hi => ?_⟩
  have hi' : i = 0 := Nat.lt_one_iff.1 hi
  rw [hi', Nat.add_zero]

/-! ## What is seen between the stores -/

/-- The property holds in the memory and after each of the stores. -/
def Throughout (P : (ℕ → UInt8) → Prop) : (ℕ → UInt8) → List CodeStore → Prop
  | m, [] => P m
  | m, s :: stores => P m ∧ Throughout P (s.apply m) stores

theorem throughout_append {P : (ℕ → UInt8) → Prop} {stores stores' : List CodeStore}
    (h : Throughout P m stores) (h' : Throughout P (stores.foldl CodeStore.apply m) stores') :
    Throughout P m (stores ++ stores') := by
  induction stores generalizing m with
  | nil => exact h'
  | cons s stores ih => exact ⟨h.1, ih h.2 h'⟩

theorem Throughout.take {P : (ℕ → UInt8) → Prop} {stores : List CodeStore}
    (h : Throughout P m stores) (n : ℕ) : P ((stores.take n).foldl CodeStore.apply m) := by
  induction stores generalizing m n with
  | nil =>
    rw [List.take_nil]
    exact h
  | cons s stores ih =>
    cases n with
    | zero => exact h.1
    | succ n => exact ih h.2 n

/-- The bytes of the instruction are the old ones, the new ones or begin with a halt, and the bytes
around it are as they were. -/
structure Seen (mem : ℕ → UInt8) (fb : ℕ) (instruction : List UInt8) (m : ℕ → UInt8) : Prop where
  outside : ∀ a, a < fb ∨ fb + instruction.length ≤ a → m a = mem a
  inside : read m fb instruction.length = read mem fb instruction.length ∨
    read m fb instruction.length = instruction ∨ instruction ≠ [] ∧ m fb = naClFullStop

theorem seen_old (mem : ℕ → UInt8) (fb : ℕ) (instruction : List UInt8) :
    Seen mem fb instruction mem := ⟨fun _ _ => rfl, Or.inl rfl⟩

theorem seen_new (mem : ℕ → UInt8) (fb : ℕ) (instruction : List UInt8) :
    Seen mem fb instruction (write mem fb instruction) where
  outside _ ha := write_eq_of_out ha
  inside := Or.inr (Or.inl (holds_write mem fb instruction))

theorem throughout_single {s : CodeStore} (h : s.apply mem = write mem fb instruction) :
    Throughout (Seen mem fb instruction) mem [s] :=
  ⟨seen_old mem fb instruction, show Seen mem fb instruction (s.apply mem) from
    h ▸ seen_new mem fb instruction⟩

theorem apply_eq_of_out {s : CodeStore} {x lo hi : ℕ}
    (hs : lo ≤ s.addr ∧ s.addr + s.bytes.length ≤ hi) (hx : x < lo ∨ hi ≤ x) :
    s.apply m x = m x := write_eq_of_out (by omega)

theorem throughout_halted {stores : List CodeStore} {lo hi : ℕ} (hlo : fb < lo)
    (hhi : hi ≤ fb + instruction.length) (hne : instruction ≠ [])
    (hstores : ∀ s ∈ stores, lo ≤ s.addr ∧ s.addr + s.bytes.length ≤ hi)
    (hout : ∀ a, a < fb ∨ fb + instruction.length ≤ a → m a = mem a) (hhalt : m fb = naClFullStop) :
    Throughout (Seen mem fb instruction) m stores := by
  induction stores generalizing m with
  | nil => exact ⟨hout, Or.inr (Or.inr ⟨hne, hhalt⟩)⟩
  | cons s stores ih =>
    have hs := hstores s List.mem_cons_self
    refine ⟨⟨hout, Or.inr (Or.inr ⟨hne, hhalt⟩)⟩, ih ?_ ?_ ?_⟩
    · exact fun s' h' => hstores s' (List.mem_cons_of_mem s h')
    · exact fun a ha => (apply_eq_of_out hs (by omega)).trans (hout a ha)
    · exact (apply_eq_of_out hs (Or.inl hlo)).trans hhalt

theorem write_first_last (mem : ℕ → UInt8) (halt b : UInt8) (hlo : fb < dst) (src : List UInt8) :
    write (write (write mem fb [halt]) dst src) fb [b] = write (write mem fb [b]) dst src := by
  funext a
  by_cases ha : a = fb
  · subst ha
    have hat : ∀ m : ℕ → UInt8, write m a [b] a = b := fun m => by
      rw [Patches.write, if_pos le_rfl, Nat.sub_self]
      rfl
    rw [write_eq_of_out (Or.inl hlo), hat, hat]
  · have hout : ∀ (m : ℕ → UInt8) (x : UInt8), write m fb [x] a = m a := fun m x =>
      write_eq_of_out (by rw [List.length_singleton]; omega)
    rw [hout]
    unfold Patches.write
    by_cases hle : dst ≤ a
    · rw [if_pos hle, if_pos hle]
      exact congrArg _ ((hout mem halt).trans (hout mem b).symm)
    · rw [if_neg hle, if_neg hle]
      exact (hout mem halt).trans (hout mem b).symm

/-- What is promised of the stores and of the result. -/
structure Replaces (mem : ℕ → UInt8) (fb : ℕ) (instruction : List UInt8)
    (r : List CodeStore × ℕ) : Prop where
  seen : Throughout (Seen mem fb instruction) mem r.1
  atomic : ∀ s ∈ r.1, s.Atomic
  done : r.2 = 1 → r.1.foldl CodeStore.apply mem = write mem fb instruction

theorem Replaces.single {s : CodeStore} (hs : s.Atomic)
    (h : s.apply mem = write mem fb instruction) : Replaces mem fb instruction ([s], 1) where
  seen := throughout_single h
  atomic s' h' := by
    rw [List.mem_singleton.1 h']
    exact hs
  done _ := h

theorem halt_apply_self (mem : ℕ → UInt8) (fb : ℕ) : (halt fb).apply mem fb = naClFullStop := by
  change write mem fb [naClFullStop] fb = naClFullStop
  rw [Patches.write, if_pos le_rfl, Nat.sub_self]
  rfl

theorem halt_apply_of_out {a : ℕ} (hne : instruction ≠ [])
    (ha : a < fb ∨ fb + instruction.length ≤ a) : (halt fb).apply mem a = mem a := by
  have hlen : 0 < instruction.length := List.length_pos_of_ne_nil hne
  apply write_eq_of_out
  change a < fb ∨ fb + 1 ≤ a
  omega

theorem replaces_behind_halt (memcpy : Memcpy) {serialized' : Bool} {firstbyte : UInt8}
    (hne : instruction ≠ []) (hlo : fb < dst) (hhi : dst + src.length ≤ fb + instruction.length)
    (hnew : write (write mem fb [firstbyte]) dst src = write mem fb instruction) :
    Replaces mem fb instruction
      (if !serialized' then (halt fb :: memcpy.stores dst src, 0)
        else (halt fb :: memcpy.stores dst src ++ [⟨fb, [firstbyte]⟩], 1)) := by
  have hcopy : Throughout (Seen mem fb instruction) mem
      (halt fb :: memcpy.stores dst src) :=
    ⟨seen_old mem fb instruction,
      throughout_halted hlo hhi hne (memcpy.inside dst src)
        (fun _ => halt_apply_of_out hne) (halt_apply_self mem fb)⟩
  have hatomic : ∀ s ∈ halt fb :: memcpy.stores dst src, s.Atomic := by
    intro s hs
    rcases List.mem_cons.1 hs with rfl | hs
    · exact atomic_singleton fb naClFullStop
    · exact memcpy.atomic dst src s hs
  cases serialized' with
  | false => exact ⟨hcopy, hatomic, fun h => by cases h⟩
  | true =>
    have hresult : (memcpy.stores dst src).foldl CodeStore.apply (write mem fb [naClFullStop]) =
        write (write mem fb [naClFullStop]) dst src := memcpy.result _ dst src
    have hlast : (CodeStore.mk fb [firstbyte]).apply
        (write (write mem fb [naClFullStop]) dst src) = write mem fb instruction :=
      (write_first_last mem naClFullStop firstbyte hlo src).trans hnew
    have hfold : (halt fb :: memcpy.stores dst src).foldl CodeStore.apply mem =
        write (write mem fb [naClFullStop]) dst src := hresult
    refine ⟨throughout_append hcopy ?_, ?_, fun _ => ?_⟩
    · rw [hfold]
      refine ⟨?_, show Seen mem fb instruction (CodeStore.apply _ _) from ?_⟩
      · have hend := hcopy.take (memcpy.stores dst src).length.succ
        rwa [List.take_of_length_le (by simp), hfold] at hend
      · rw [hlast]
        exact seen_new mem fb instruction
    · intro s hs
      rcases List.mem_append.1 hs with hs | hs
      · exact hatomic s hs
      · rw [List.mem_singleton.1 hs]
        exact atomic_singleton fb firstbyte
    · change ((halt fb :: memcpy.stores dst src) ++ [CodeStore.mk fb [firstbyte]]).foldl
        CodeStore.apply mem = _
      rw [List.foldl_append, hfold]
      exact hlast

theorem slowPath_spec (memcpy : Memcpy) (serialized serialized' : Bool) (hsrc : src ≠ [])
    (hne : instruction ≠ []) (hlo : fb ≤ dst) (hhi : dst + src.length ≤ fb + instruction.length)
    (hnew : write mem dst src = write mem fb instruction) :
    Replaces mem fb instruction (slowPath memcpy serialized serialized' mem fb dst src) := by
  cases serialized with
  | false =>
    refine ⟨⟨seen_old mem fb instruction, fun a => halt_apply_of_out hne, ?_⟩, fun s hs => ?_,
      fun h => by cases h⟩
    · exact Or.inr (Or.inr ⟨hne, halt_apply_self mem fb⟩)
    · rw [List.mem_singleton.1 hs]
      exact atomic_singleton fb naClFullStop
  | true =>
    obtain ⟨b, rest, rfl⟩ := List.exists_cons_of_ne_nil hsrc
    rw [List.length_cons] at hhi
    by_cases heq : dst = fb
    · subst heq
      simp only [slowPath, Bool.not_true, if_true]
      exact replaces_behind_halt memcpy hne (Nat.lt_succ_self dst) (by omega)
        ((write_cons mem dst b rest).trans hnew)
    · simp only [slowPath, Bool.not_true, if_neg heq]
      refine replaces_behind_halt memcpy hne (by omega) ?_ ?_
      · rw [List.length_cons]
        exact hhi
      · -- the first byte is the same in both instructions
        have hfirst : write mem fb [mem fb] = mem := write_of_holds rfl
        rw [hfirst, hnew]

theorem replaces (memcpy : Memcpy) (serialized serialized' : Bool) (mem : ℕ → UInt8) (fb : ℕ)
    (instruction : List UInt8) : Replaces mem fb instruction
      (naClCopyInstruction memcpy serialized serialized' mem fb instruction) := by
  obtain ⟨pre, hpre, hdst, hholds, hfirst⟩ := scroll_spec mem fb instruction
  rw [naClCopyInstruction]
  generalize hscroll : scroll mem fb instruction = scrolled at hpre hdst hfirst ⊢
  obtain ⟨dst, src⟩ := scrolled
  dsimp only at hpre hdst hfirst ⊢
  have hnew : write mem dst src = write mem fb instruction := by
    rw [hpre, write_append, write_of_holds hholds, hdst]
  cases hsrc : src with
  | nil =>
    rw [if_pos List.length_nil]
    refine ⟨seen_old mem fb instruction, fun s hs => absurd hs List.not_mem_nil, fun _ => ?_⟩
    rw [← hnew, hsrc]
    exact (write_of_holds holds_nil).symm
  | cons b rest =>
    rw [if_neg (by rw [List.length_cons]; omega), ← hsrc]
    have hlen : src.length = rest.length + 1 := by rw [hsrc, List.length_cons]
    obtain ⟨hle, hsame⟩ := trim_spec mem dst src src.length
    have hpos : 0 < trim mem dst src src.length := by
      by_contra hzero
      have h0 := hsame 0 (by omega) (by omega)
      rw [hsrc, List.getElem?_cons_zero, Nat.add_zero] at h0
      exact hfirst b rest hsrc (Option.some.inj h0).symm
    have hcore := (write_trim mem dst src).trans hnew
    have hcoreLen : (src.take (trim mem dst src src.length)).length =
        trim mem dst src src.length := List.length_take_of_le hle
    generalize src.take (trim mem dst src src.length) = core at hcore hcoreLen ⊢
    have htotal : instruction.length = pre.length + src.length := by
      rw [hpre, List.length_append]
    by_cases hone : core.length = 1
    · rw [if_pos hone]
      obtain ⟨x, rfl⟩ := List.length_eq_one_iff.1 hone
      exact .single (atomic_singleton dst x) hcore
    · rw [if_neg hone]
      cases h4 : isTrustedWrite dst core.length 4 with
      | some offset =>
        obtain ⟨hoff, hfit⟩ := isTrustedWrite_spec (Or.inl rfl) (by omega) h4
        exact .single (wideStore_atomic (Or.inl rfl) hoff hfit)
          ((apply_wideStore (hoff ▸ Nat.mod_le dst 4) hfit).trans hcore)
      | none =>
        cases h8 : isTrustedWrite dst core.length 8 with
        | some offset =>
          obtain ⟨hoff, hfit⟩ := isTrustedWrite_spec (Or.inr rfl) (by omega) h8
          exact .single (wideStore_atomic (Or.inr rfl) hoff hfit)
            ((apply_wideStore (hoff ▸ Nat.mod_le dst 8) hfit).trans hcore)
        | none =>
          apply slowPath_spec memcpy serialized serialized' _ _ _ _ hcore
          · exact List.ne_nil_of_length_pos (by omega)
          · exact List.ne_nil_of_length_pos (by omega)
          · omega
          · omega

end CopyInstruction

open CopyInstruction in
/-- Whatever the stores of `memcpy` and the results of the serialization are, after each store the
instruction is the old one, the new one or begins with a halt, nothing else is changed, and a result
of 1 means the new one. -/
theorem naClCopyInstruction_atomic (memcpy : Memcpy) (serialized serialized' : Bool)
    (mem : ℕ → UInt8) (dst : ℕ) (instruction : List UInt8) :
    let r := naClCopyInstruction memcpy serialized serialized' mem dst instruction
    (∀ s ∈ r.1, s.Atomic) ∧
      (∀ n, Seen mem dst instruction ((r.1.take n).foldl CodeStore.apply mem)) ∧
      (r.2 = 1 → read (r.1.foldl CodeStore.apply mem) dst instruction.length = instruction) := by
  have h := replaces memcpy serialized serialized' mem dst instruction
  refine ⟨h.atomic, h.seen.take, fun hret => ?_⟩
  rw [h.done hret]
  exact holds_write mem dst instruction

/-- `memcpy` byte by byte. -/
def Memcpy.byBytes : Memcpy where
  stores dst src := src.zipIdx.map fun b => ⟨dst + b.2, [b.1]⟩
  inside dst src s hs := by
    obtain ⟨⟨b, i⟩, hb, rfl⟩ := List.mem_map.1 hs
    have hi := List.snd_lt_of_mem_zipIdx hb
    dsimp only [List.length_singleton] at hi ⊢
    omega
  atomic dst src s hs := by
    obtain ⟨⟨b, i⟩, -, rfl⟩ := List.mem_map.1 hs
    exact CopyInstruction.atomic_singleton (dst + i) b
  result mem dst src := by
    suffices h : ∀ k m, ((src.zipIdx k).map fun b => CodeStore.mk (dst + b.2) [b.1]).foldl
        CodeStore.apply m = write m (dst + k) src from h 0 mem
    induction src with
    | nil => exact fun k m => (write_of_holds holds_nil).symm
    | cons b src ih =>
      intro k m
      rw [List.zipIdx_cons, List.map_cons, List.foldl_cons, ih, ← write_cons]
      rfl

end SandboxingNaCl
