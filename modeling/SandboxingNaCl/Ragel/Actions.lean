import SandboxingNaCl.Ragel.Accepted

/-!
# The actions of the two validators

`amd64_meets` and `ia32_meets`: what `ValidateChunkAMD64` and `ValidateChunkIA32` do on one
instruction, as an instance of `ArchSpec`.
-/

namespace SandboxingNaCl

namespace Ragel

variable {w : ℕ} {δ : Type}

/-! ## Errors -/

theorem clean_flagIf {cond : Bool} {info : Info} (h : ¬ info.Clean) :
    (flagIf cond info).Clean ↔ cond = false := by
  cases cond
  · exact iff_of_true (BitVec.zero_and) rfl
  · exact iff_of_false h nofun

@[simp] theorem clean_flagIf_r15Modified {cond : Bool} :
    (flagIf cond r15Modified).Clean ↔ cond = false := clean_flagIf (by decide)

@[simp] theorem clean_flagIf_bpModified {cond : Bool} :
    (flagIf cond bpModified).Clean ↔ cond = false := clean_flagIf (by decide)

@[simp] theorem clean_flagIf_spModified {cond : Bool} :
    (flagIf cond spModified).Clean ↔ cond = false := clean_flagIf (by decide)

@[simp] theorem clean_flagIf_restrictedRspUnprocessed {cond : Bool} :
    (flagIf cond restrictedRspUnprocessed).Clean ↔ cond = false := clean_flagIf (by decide)

@[simp] theorem clean_flagIf_restrictedRbpUnprocessed {cond : Bool} :
    (flagIf cond restrictedRbpUnprocessed).Clean ↔ cond = false := clean_flagIf (by decide)

@[simp] theorem clean_specialInstruction : Info.Clean specialInstruction := by decide

/-- No register is left that only a special instruction may follow. -/
def RegularAfter (r : OperandName) : Prop := r ≠ .rbp ∧ r ≠ .rsp

@[simp] theorem clean_checkValidityOfRegularInstruction {r : OperandName} :
    (checkValidityOfRegularInstruction r).Clean ↔ RegularAfter r := by
  unfold checkValidityOfRegularInstruction RegularAfter
  split_ifs with h₁ h₂
  · exact iff_of_false (by decide) fun h => h.1 h₁
  · exact iff_of_false (by decide) fun h => h.2 h₂
  · exact iff_of_true (by decide) ⟨h₁, h₂⟩

/-- `base` may be the base of a memory operand. -/
def AllowedBase (base : OperandName) : Prop := base = .rip ∨ base = .r15 ∨ base = .rsp ∨ base = .rbp

/-- `index` is a register that a memory operand adds. -/
def IsIndex (index : OperandName) : Prop := ¬ (index = .noReg ∨ index = .riz)

/-- The memory operand is allowed when `r` is restricted. -/
def MemoryOk (access : Option (OperandName × OperandName)) (r : OperandName) : Prop :=
  ∀ base index, access = some (base, index) → AllowedBase base ∧ (IsIndex index → index = r)

/-- The memory operand is the use of the restricted register. -/
def UsesRestricted (access : Option (OperandName × OperandName)) (r : OperandName) : Prop :=
  ∃ base index, access = some (base, index) ∧ AllowedBase base ∧ IsIndex index ∧ index = r

def RelativeOk (w : ℕ) (code : List UInt8) (size rip : ℕ) (rel : Option Relative) : Prop :=
  ∀ r, rel = some r → r.jumpDest w code rip % kBundleSize = 0 ∨ r.jumpDest w code rip < size

namespace LastAction

/-- The register that is restricted after an instruction. -/
def next (r : OperandName) : LastAction → OperandName
  | process1OperandZeroExtends o => if o.restricted then o.name else .noReg
  | process2OperandsZeroExtends o₀ o₁ =>
    if o₀.restricted then o₀.name else if o₁.restricted then o₁.name else .noReg
  | sandboxedInstruction _ => r
  | naclCallOrJmp _ _ => r
  | _ => .noReg

/-- The checks of the action succeed when `r` is restricted. -/
def Ok (code : List UInt8) (first rip : ℕ) (rexPrefix : Bool) (r : OperandName) :
    LastAction → Prop
  | process0Operands => RegularAfter r
  | process1Operand o => RegularAfter r ∧ o.r15Modified = false ∧
      o.modified .rbp rexPrefix = false ∧ o.modified .rsp rexPrefix = false
  | process1OperandZeroExtends o => RegularAfter r ∧ o.r15Modified = false ∧
      o.invalidModification .rbp rexPrefix = false ∧ o.invalidModification .rsp rexPrefix = false
  | process2Operands o₀ o₁ => RegularAfter r ∧ (o₀.r15Modified || o₁.r15Modified) = false ∧
      (o₀.modified .rbp rexPrefix || o₁.modified .rbp rexPrefix) = false ∧
      (o₀.modified .rsp rexPrefix || o₁.modified .rsp rexPrefix) = false
  | process2OperandsZeroExtends o₀ o₁ =>
    RegularAfter r ∧ (o₀.r15Modified || o₁.r15Modified) = false ∧
    (o₀.invalidModification .rbp rexPrefix || o₁.invalidModification .rbp rexPrefix) = false ∧
    (o₀.invalidModification .rsp rexPrefix || o₁.invalidModification .rsp rexPrefix) = false ∧
    (o₀.restricted && o₁.check .rsp .restricted) = false ∧
    (o₀.restricted && o₁.check .rbp .restricted) = false
  | stackModification _ => RegularAfter r
  | rbpSandboxing _ => r = .rbp
  | rspSandboxing _ => r = .rsp
  | sandboxedInstruction _ => True
  | naclCallOrJmp addTo _ => verifyNaclCallOrJmp addTo code first rip = true

/-- How far before the instruction its superinstruction begins. -/
def sandboxBytes : LastAction → ℕ
  | sandboxedInstruction n => n
  | naclCallOrJmp _ andBytes => andBytes + 3
  | _ => 0

/-- The target `t` is unmarked by the action of the instruction from `first` to `rip`. -/
def Clears (code : List UInt8) (first rip t : ℕ) : LastAction → Prop
  | rbpSandboxing _ => t = first
  | rspSandboxing _ => t = first
  | sandboxedInstruction n => first < t + n ∧ t ≤ first
  | naclCallOrJmp addTo andBytes => verifyNaclCallOrJmp addTo code first rip = true ∧
      first < t + (andBytes + 3) ∧ t ≤ first
  | _ => False

end LastAction

/-! ## The stages of an instruction -/

/-- What a stage of the actions does to the variables of the instruction. -/
structure StageEffect (ok : Prop) (clears dest : ℕ → Prop) (l l' : Locals w) : Prop where
  validCapacity : l'.validTargets.capacity = l.validTargets.capacity
  destCapacity : l'.jumpDests.capacity = l.jumpDests.capacity
  clean : l'.info.Clean ↔ l.info.Clean ∧ ok
  valid : ∀ t, l'.validTargets.test t = true ↔ l.validTargets.test t = true ∧ ¬ clears t
  dest : ∀ t, l'.jumpDests.test t = true ↔ l.jumpDests.test t = true ∨ dest t

theorem StageEffect.flag {ok : Prop} {info : Info} {l l' : Locals w}
    (hvalid : l'.validTargets = l.validTargets) (hdest : l'.jumpDests = l.jumpDests)
    (hinfo : l'.info = l.info ||| info) (hok : info.Clean ↔ ok) :
    StageEffect ok (fun _ => False) (fun _ => False) l l' where
  validCapacity := by rw [hvalid]
  destCapacity := by rw [hdest]
  clean := by rw [hinfo, Info.clean_or, hok]
  valid := by simp [hvalid]
  dest := by simp [hdest]

theorem StageEffect.trans {ok ok' : Prop} {clears clears' dest dest' : ℕ → Prop}
    {l l' l'' : Locals w} (h : StageEffect ok clears dest l l')
    (h' : StageEffect ok' clears' dest' l' l'') :
    StageEffect (ok ∧ ok') (fun t => clears t ∨ clears' t) (fun t => dest t ∨ dest' t) l l'' where
  validCapacity := h'.validCapacity.trans h.validCapacity
  destCapacity := h'.destCapacity.trans h.destCapacity
  clean := by rw [h'.clean, h.clean, and_assoc]
  valid := by
    intro t
    rw [h'.valid, h.valid, and_assoc, not_or]
  dest := by
    intro t
    rw [h'.dest, h.dest, or_assoc]

theorem StageEffect.congr {ok ok' : Prop} {clears clears' dest dest' : ℕ → Prop} {l l' : Locals w}
    (h : StageEffect ok clears dest l l') (hok : ok ↔ ok') (hclears : ∀ t, clears t ↔ clears' t)
    (hdest : ∀ t, dest t ↔ dest' t) : StageEffect ok' clears' dest' l l' where
  validCapacity := h.validCapacity
  destCapacity := h.destCapacity
  clean := by rw [h.clean, hok]
  valid := fun t => by rw [h.valid, hclears]
  dest := fun t => by rw [h.dest, hdest]

theorem memoryAction_spec (hw : 0 < w) (access : Option (OperandName × OperandName))
    (l : Locals w) (hl : l.instructionBegin < l.validTargets.capacity) :
    ∃ l', memoryAction access l = some l' ∧
      l'.instructionBegin = l.instructionBegin ∧ l'.restrictedRegister = l.restrictedRegister ∧
      StageEffect (MemoryOk access l.restrictedRegister)
        (fun t => UsesRestricted access l.restrictedRegister ∧ t = l.instructionBegin)
        (fun _ => False) l l' := by
  rcases access with _ | ⟨base, index⟩
  · refine ⟨l, rfl, rfl, rfl, rfl, rfl, ?_, ?_, by simp⟩
    · simp [MemoryOk]
    · simp [UsesRestricted]
  have hok : MemoryOk (some (base, index)) l.restrictedRegister ↔
      AllowedBase base ∧ (IsIndex index → index = l.restrictedRegister) := by
    simp [MemoryOk]
  have huses : UsesRestricted (some (base, index)) l.restrictedRegister ↔
      AllowedBase base ∧ IsIndex index ∧ index = l.restrictedRegister := by
    constructor
    · rintro ⟨_, _, h, huses⟩
      cases h
      exact huses
    · exact fun h => ⟨base, index, rfl, h⟩
  change ∃ l', checkMemoryAccess base index l = some l' ∧ _
  unfold checkMemoryAccess
  split_ifs with hbase hindex hrestricted
  · refine ⟨l, rfl, rfl, rfl, rfl, rfl, ?_, ?_, by simp⟩
    · rw [hok]
      exact (and_iff_left ⟨hbase, fun h => absurd hindex h⟩).symm
    · intro t
      rw [huses]
      exact (and_iff_left fun h => h.1.2.1 hindex).symm
  · obtain ⟨b, hb⟩ := Bitmap.exists_clearBit hl
    refine ⟨{ l.flag restrictedRegisterUsed with validTargets := b }, by rw [hb]; rfl, rfl, rfl,
      Bitmap.capacity_update hb, rfl, ?_, ?_, ?_⟩
    · rw [hok]
      refine Info.clean_or.trans ?_
      exact and_congr_right fun _ => iff_of_true (by decide) ⟨hbase, fun _ => hrestricted⟩
    · intro t
      have huses' := huses.2 ⟨hbase, hindex, hrestricted⟩
      rw [Bitmap.test_clearBit hw hb, and_iff_right huses']
      simp
    · simp [Locals.flag]
  · refine ⟨_, rfl, rfl, rfl, rfl, rfl, ?_, ?_, by simp [Locals.flag]⟩
    · rw [hok]
      refine Info.clean_or.trans (and_congr_right fun _ => iff_of_false (by decide) fun h => ?_)
      exact hrestricted (h.2 hindex)
    · intro t
      rw [huses]
      exact (and_iff_left fun h => hrestricted h.1.2.2).symm
  · refine ⟨_, rfl, rfl, rfl, rfl, rfl, ?_, ?_, by simp [Locals.flag]⟩
    · rw [hok]
      refine Info.clean_or.trans (and_congr_right fun _ => iff_of_false (by decide) fun h => ?_)
      exact hbase h.1
    · intro t
      rw [huses]
      exact (and_iff_left fun h => hbase h.1.1).symm

/-- The destination of the jump `rel` that ends at `rip`, where it is looked up. -/
def IsDest (w : ℕ) (code : List UInt8) (size rip : ℕ) (rel : Option Relative) (t : ℕ) : Prop :=
  (∃ r, rel = some r ∧ r.jumpDest w code rip = t) ∧ t % kBundleSize ≠ 0 ∧ t < size

theorem relOperand_spec (hw : 0 < w) (code : List UInt8) (size rip : ℕ) (rel : Relative)
    (l : Locals w) (hl : size ≤ l.jumpDests.capacity) :
    ∃ l', relOperand rel code rip size l = some l' ∧
      l'.instructionBegin = l.instructionBegin ∧ l'.restrictedRegister = l.restrictedRegister ∧
      StageEffect (RelativeOk w code size rip (some rel)) (fun _ => False)
        (IsDest w code size rip (some rel)) l l' := by
  have hinfo : Info.Clean rel.info := by cases rel <;> decide
  have hok : RelativeOk w code size rip (some rel) ↔
      rel.jumpDest w code rip % kBundleSize = 0 ∨ rel.jumpDest w code rip < size := by
    simp [RelativeOk]
  have hdest : ∀ t, IsDest w code size rip (some rel) t ↔
      rel.jumpDest w code rip = t ∧ t % kBundleSize ≠ 0 ∧ t < size := by
    simp [IsDest]
  unfold relOperand markJumpTarget
  split_ifs with haligned hsize
  · refine ⟨_, rfl, rfl, rfl, rfl, rfl, ?_, by simp [Locals.flag], ?_⟩
    · rw [hok]
      exact Info.clean_or.trans (and_congr_right fun _ => iff_of_true hinfo (.inl haligned))
    · intro t
      rw [hdest]
      refine (or_iff_left ?_).symm
      rintro ⟨rfl, h, -⟩
      exact h haligned
  · refine ⟨_, rfl, rfl, rfl, rfl, rfl, ?_, by simp [Locals.flag], ?_⟩
    · rw [hok]
      refine Info.clean_or.trans (and_congr_right fun _ => iff_of_false ?_ ?_)
      · rw [Info.clean_or]
        exact fun h => absurd h.2 (by decide)
      · rintro (h | h)
        · exact haligned h
        · omega
    · intro t
      rw [hdest]
      refine (or_iff_left ?_).symm
      rintro ⟨rfl, -, h⟩
      omega
  · obtain ⟨b, hb⟩ := Bitmap.exists_setBit (b := l.jumpDests) (i := rel.jumpDest w code rip)
      (by omega)
    refine ⟨Locals.flag { l with jumpDests := b } rel.info, by rw [hb]; rfl, rfl, rfl, rfl,
      Bitmap.capacity_update hb, ?_, by simp [Locals.flag], ?_⟩
    · rw [hok]
      exact Info.clean_or.trans (and_congr_right fun _ => iff_of_true hinfo (.inr (by omega)))
    · intro t
      rw [hdest]
      refine (Bool.eq_iff_iff.1 (Bitmap.test_setBit hw hb)).trans ?_
      simp only [Bool.or_eq_true, decide_eq_true_eq]
      constructor
      · rintro (rfl | h)
        exacts [.inr ⟨rfl, haligned, by omega⟩, .inl h]
      · rintro (h | ⟨rfl, -⟩)
        exacts [.inr h, .inl rfl]

theorem relativeAction_spec (hw : 0 < w) (code : List UInt8) (size rip : ℕ) (rel : Option Relative)
    (l : Locals w) (hl : size ≤ l.jumpDests.capacity) :
    ∃ l', relativeAction code rip size rel l = some l' ∧
      l'.instructionBegin = l.instructionBegin ∧ l'.restrictedRegister = l.restrictedRegister ∧
      StageEffect (RelativeOk w code size rip rel) (fun _ => False) (IsDest w code size rip rel)
        l l' := by
  rcases rel with _ | _ | _
  · exact ⟨l, rfl, rfl, rfl, rfl, rfl, by simp [RelativeOk], by simp, by simp [IsDest]⟩
  · exact relOperand_spec hw code size rip .rel8 l hl
  · exact relOperand_spec hw code size rip .rel32 l hl

theorem stackSandboxing_spec (hw : 0 < w) (name : OperandName) (error : Info)
    (herror : ¬ error.Clean) (l : Locals w) (hl : l.instructionBegin < l.validTargets.capacity) :
    ∃ l', stackSandboxing name error (l.flag specialInstruction) = some l' ∧
      l'.restrictedRegister = .noReg ∧
      StageEffect (l.restrictedRegister = name) (fun t => t = l.instructionBegin)
        (fun _ => False) l l' := by
  obtain ⟨b, hb⟩ := Bitmap.exists_clearBit hl
  let flag := if l.restrictedRegister = name then restrictedRegisterUsed else error
  let l' : Locals w :=
    { (l.flag specialInstruction).flag flag with restrictedRegister := .noReg, validTargets := b }
  have hrun : stackSandboxing name error (l.flag specialInstruction) = some l' := by
    show (l.validTargets.clearBit l.instructionBegin >>= _) = some l'
    rw [hb]
    rfl
  refine ⟨l', hrun, rfl, Bitmap.capacity_update hb, rfl, ?_, ?_, by simp [l', Locals.flag]⟩
  · refine Info.clean_or.trans (and_congr ?_ ?_)
    · simp [Locals.flag]
    · dsimp only [flag]
      split_ifs with h
      · exact iff_of_true (by decide) h
      · exact iff_of_false herror h
  · intro t
    refine (Bool.eq_iff_iff.1 (Bitmap.test_clearBit hw hb)).trans ?_
    simp

theorem mod_add_le_of_inBundle (hw : 0 < w) (hdvd : kBundleSize ∣ w) {start i n : ℕ}
    (hstart : start % kBundleSize = 0) (hi : start ≤ i) (hn : i + n ≤ start + kBundleSize) :
    i % w + n ≤ w := by
  obtain ⟨m, rfl⟩ := hdvd
  rcases Nat.eq_zero_or_pos n with rfl | hpos
  · exact (Nat.mod_lt i hw).le
  · have hm : i / kBundleSize % m < m := Nat.mod_lt _ (Nat.pos_of_mul_pos_left hw)
    have hword : kBundleSize * (i / kBundleSize % m + 1) ≤ kBundleSize * m := Nat.mul_le_mul_left _ hm
    rw [Nat.mod_mul]
    unfold kBundleSize at *
    omega

theorem expandSuperinstruction_spec (hw : 0 < w) (hdvd : kBundleSize ∣ w) {start n rip : ℕ}
    (hstart : start % kBundleSize = 0) (l : Locals w) (hn : start + n ≤ l.instructionBegin)
    (hlt : l.instructionBegin < rip) (hrip : rip ≤ start + kBundleSize)
    (hcap : rip < l.validTargets.capacity) :
    ∃ l', expandSuperinstructionBySandboxingBytes n l = some l' ∧
      l'.restrictedRegister = l.restrictedRegister ∧
      StageEffect True (fun t => l.instructionBegin < t + n ∧ t ≤ l.instructionBegin)
        (fun _ => False) l l' := by
  obtain ⟨b, hb⟩ := Bitmap.exists_clearBits (b := l.validTargets)
    (i := l.instructionBegin - n + 1) (by omega) n
  let l' : Locals w :=
    { l with instructionBegin := l.instructionBegin - n, validTargets := b }
  have hrun : expandSuperinstructionBySandboxingBytes n l = some l' := by
    rw [expandSuperinstructionBySandboxingBytes, hb]
    rfl
  refine ⟨l', hrun, rfl, Bitmap.capacity_update hb, rfl, by simp [l'], ?_, by simp [l']⟩
  intro t
  have hword : (l.instructionBegin - n + 1) % w + n ≤ w :=
    mod_add_le_of_inBundle hw hdvd hstart (by omega) (by omega)
  refine (Bool.eq_iff_iff.1 (Bitmap.test_clearBits hw hword hb)).trans ?_
  simp only [Bool.and_eq_true, Bool.not_eq_true', decide_eq_false_iff_not]
  refine and_congr_right fun _ => not_congr ?_
  omega

theorem LastAction.run_spec (hw : 0 < w) (hdvd : kBundleSize ∣ w) {start rip : ℕ}
    (hstart : start % kBundleSize = 0) (code : List UInt8) (rexPrefix : Bool) (a : LastAction)
    (l : Locals w) (hn : start + a.sandboxBytes ≤ l.instructionBegin)
    (hlt : l.instructionBegin < rip) (hrip : rip ≤ start + kBundleSize)
    (hcap : rip < l.validTargets.capacity) :
    ∃ l', a.run code rip rexPrefix l = some l' ∧
      l'.restrictedRegister = a.next l.restrictedRegister ∧
      StageEffect (a.Ok code l.instructionBegin rip rexPrefix l.restrictedRegister)
        (fun t => a.Clears code l.instructionBegin rip t) (fun _ => False) l l' := by
  have special : StageEffect True (fun _ => False) (fun _ => False) l (l.flag specialInstruction) :=
    .flag rfl rfl rfl (by simp)
  cases a with
  | process0Operands => exact ⟨_, rfl, rfl, .flag rfl rfl rfl (by simp [Ok])⟩
  | process1Operand o => exact ⟨_, rfl, rfl, .flag rfl rfl rfl (by simp [Ok, and_assoc])⟩
  | process1OperandZeroExtends o => exact ⟨_, rfl, rfl, .flag rfl rfl rfl (by simp [Ok, and_assoc])⟩
  | process2Operands o₀ o₁ => exact ⟨_, rfl, rfl, .flag rfl rfl rfl (by simp [Ok, and_assoc])⟩
  | process2OperandsZeroExtends o₀ o₁ =>
    exact ⟨_, rfl, rfl, .flag rfl rfl rfl (by simp [Ok, and_assoc])⟩
  | stackModification m =>
    exact ⟨_, rfl, rfl, .flag rfl rfl (BitVec.or_assoc _ _ _) (by simp [Ok])⟩
  | rbpSandboxing op =>
    exact stackSandboxing_spec hw .rbp unrestrictedRbpProcessed (by decide) l (by omega)
  | rspSandboxing op =>
    exact stackSandboxing_spec hw .rsp unrestrictedRspProcessed (by decide) l (by omega)
  | sandboxedInstruction n =>
    obtain ⟨l', hrun, hr, heff⟩ := expandSuperinstruction_spec hw hdvd hstart
      (l.flag specialInstruction) hn hlt hrip hcap
    exact ⟨l', hrun, hr, (special.trans heff).congr (by simp [Ok]) (by simp [Clears, sandboxBytes, Locals.flag])
      (by simp)⟩
  | naclCallOrJmp addTo andBytes =>
    change ∃ l', processNaclCallOrJmp addTo andBytes code rip (l.flag specialInstruction) =
      some l' ∧ _
    unfold processNaclCallOrJmp
    split
    case isTrue hverify =>
      obtain ⟨l', hrun, hr, heff⟩ := expandSuperinstruction_spec hw hdvd hstart
        (l.flag specialInstruction) hn hlt hrip hcap
      have hverify' : verifyNaclCallOrJmp addTo code l.instructionBegin rip = true := hverify
      exact ⟨l', hrun, hr, (special.trans heff).congr (by simp [Ok, hverify'])
        (by simp [Clears, sandboxBytes, hverify', Locals.flag]) (by simp)⟩
    case isFalse hverify =>
      have hverify' : ¬ verifyNaclCallOrJmp addTo code l.instructionBegin rip = true := hverify
      have error : StageEffect (Info.Clean unrecognizedInstruction) (fun _ => False)
          (fun _ => False) (l.flag specialInstruction)
          ((l.flag specialInstruction).flag unrecognizedInstruction) :=
        .flag rfl rfl rfl Iff.rfl
      refine ⟨_, rfl, rfl, (special.trans error).congr ?_ ?_ (by simp)⟩
      · exact iff_of_false (fun h => absurd h.2 (by decide)) hverify'
      · simp [Clears, hverify']

/-! ## An instruction -/

/-- The checks of an instruction succeed. -/
structure Amd64Insn.Ok (w : ℕ) (code : List UInt8) (size : ℕ) (x : Located Amd64Insn) : Prop where
  info : x.insn.info.Clean
  memory : MemoryOk x.insn.memoryAccess x.restricted
  relative : RelativeOk w code size x.rip x.insn.relative
  action : x.insn.action.Ok code x.first x.rip x.insn.rexPrefix x.restricted

/-- The target `t` is unmarked by an instruction. -/
def Amd64Insn.Clears (code : List UInt8) (x : Located Amd64Insn) (t : ℕ) : Prop :=
  UsesRestricted x.insn.memoryAccess x.restricted ∧ t = x.first ∨
    x.insn.action.Clears code x.first x.rip t

def amd64Spec (w : ℕ) : ArchSpec w Amd64Insn where
  next r i := i.action.next r
  ok := Amd64Insn.Ok w
  clears := Amd64Insn.Clears
  marks x := x.rip
  relative := Amd64Insn.relative
  sandboxBytes i := i.action.sandboxBytes
  endOk := RegularAfter

theorem callAlignment_spec (isCall : Bool) (rip : ℕ) (l : Locals w) :
    (callAlignment isCall rip l).instructionBegin = l.instructionBegin ∧
      (callAlignment isCall rip l).restrictedRegister = l.restrictedRegister ∧
      StageEffect True (fun _ => False) (fun _ => False) l (callAlignment isCall rip l) := by
  unfold callAlignment
  split_ifs
  · exact ⟨rfl, rfl, .flag rfl rfl rfl (iff_of_true (by decide) trivial)⟩
  · exact ⟨rfl, rfl, rfl, rfl, by simp, by simp, by simp⟩

theorem amd64Actions_spec (hw : 0 < w) (hdvd : kBundleSize ∣ w) {start : ℕ} (size : ℕ)
    (code : List UInt8) (x : Located Amd64Insn) (hx : x.InBundle (amd64Spec w) start)
    (l : Locals w) (hfirst : l.instructionBegin = x.first)
    (hr : l.restrictedRegister = x.restricted) (hv : x.rip < l.validTargets.capacity)
    (hj : size ≤ l.jumpDests.capacity) :
    ∃ l', amd64Actions code size x.rip x.insn l = some l' ∧
      l'.restrictedRegister = x.insn.action.next x.restricted ∧
      StageEffect (MemoryOk x.insn.memoryAccess x.restricted ∧
          RelativeOk w code size x.rip x.insn.relative ∧
          x.insn.action.Ok code x.first x.rip x.insn.rexPrefix x.restricted)
        (Amd64Insn.Clears code x) (IsDest w code size x.rip x.insn.relative) l l' := by
  obtain ⟨l₁, h₁, hfirst₁, hr₁, he₁⟩ := memoryAction_spec hw x.insn.memoryAccess l
    (by rw [hfirst]; exact lt_trans hx.lt hv)
  obtain ⟨l₂, h₂, hfirst₂, hr₂, he₂⟩ := relativeAction_spec hw code size x.rip x.insn.relative l₁
    (by rw [he₁.destCapacity]; exact hj)
  rw [hfirst] at hfirst₁
  rw [hr] at hr₁
  rw [hfirst₁] at hfirst₂
  rw [hr₁] at hr₂
  obtain ⟨l₃, h₃, hr₃, he₃⟩ := LastAction.run_spec hw hdvd hx.aligned code x.insn.rexPrefix
    x.insn.action l₂ (by rw [hfirst₂]; exact hx.begin_le) (by rw [hfirst₂]; exact hx.lt) hx.le
    (by rw [he₂.validCapacity, he₁.validCapacity]; exact hv)
  obtain ⟨-, hr₄, he₄⟩ := callAlignment_spec x.insn.isCall x.rip l₃
  refine ⟨callAlignment x.insn.isCall x.rip l₃, ?_, ?_, ?_⟩
  · unfold amd64Actions
    rw [h₁]
    show (relativeAction code x.rip size x.insn.relative l₁ >>= _) = _
    rw [h₂]
    show (LastAction.run code x.rip x.insn.rexPrefix l₂ x.insn.action >>= _) = _
    rw [h₃]
    rfl
  · rw [hr₄, hr₃, hr₂]
  · rw [hfirst₂, hr₂] at he₃
    rw [hfirst, hr] at he₁
    refine (((he₁.trans he₂).trans he₃).trans he₄).congr ?_ ?_ ?_
    · simp only [and_true, and_assoc]
    · simp [Amd64Insn.Clears]
    · simp

/-- What `end_of_instruction_cleanup` makes of the errors found. -/
structure Reported (options : Options) (callback : Callback δ) (ok : Prop) (p p' : Pass w δ) :
    Prop where
  code : p'.mem.code = p.mem.code
  result : callback.RejectsErrors → p'.result = true → p.result = true ∧ ok
  quiet : options.callUserCallbackOnEachInstruction = false → p.result = true → ok →
    p'.result = true

theorem Pass.reported_endOfInstruction (options : Options) {callback : Callback δ}
    (hread : callback.ReadOnly) (p : Pass w δ) (l : Locals w) (rip : ℕ) (info : Info)
    (hinfo : info.Clean ↔ l.info.Clean) :
    Reported options callback l.info.Clean p (p.endOfInstruction options callback l rip info) := by
  unfold Pass.endOfInstruction
  split_ifs with h
  · refine ⟨hread _ _ _ _, fun hrej hres => ?_, fun heach _ hok => ?_⟩
    · simp only [Pass.report, Bool.and_eq_true] at hres
      refine ⟨hres.1, ?_⟩
      by_contra hclean
      rw [hrej _ _ _ _ (.inl (mt hinfo.1 hclean))] at hres
      exact absurd hres.2 Bool.false_ne_true
    · rcases h with h | h
      · exact absurd hok h
      · rw [heach] at h
        cases h
  · rw [not_or, not_not] at h
    exact ⟨rfl, fun _ hres => ⟨hres, h.1⟩, fun _ hres _ => hres⟩

theorem StageEffect.runEffect {ι : Type} (hw : 0 < w) (spec : ArchSpec w ι) {options : Options}
    {callback : Callback δ} {x : Located ι} {ok : Prop} {p p' : Pass w δ} {l l' : Locals w}
    {valid : Bitmap w}
    (he : StageEffect ok (spec.clears p.mem.code x) (IsDest w p.mem.code p.mem.code.length x.rip
      (spec.relative x.insn)) l l')
    (hv : l.validTargets = p.validTargets) (hj : l.jumpDests = p.jumpDests)
    (hok : l.info.Clean ∧ ok ↔ spec.ok p.mem.code p.mem.code.length x)
    (hmark : l'.validTargets.setBit (spec.marks x) = some valid)
    (hnot : ¬ spec.clears p.mem.code x (spec.marks x))
    (hrep : Reported options callback l'.info.Clean p p') :
    RunEffect spec options callback [x] True p
      { p' with validTargets := valid, jumpDests := l'.jumpDests } where
  code := hrep.code
  validCapacity := by rw [← hv, ← he.validCapacity]; exact Bitmap.capacity_update hmark
  destCapacity := by rw [← hj]; exact he.destCapacity
  valid := by
    intro t
    simp only [Bitmap.test_setBit hw hmark, Bool.or_eq_true, decide_eq_true_eq, he.valid, hv,
      List.mem_singleton, exists_eq_left, forall_eq]
    constructor
    · rintro (rfl | ⟨h, hc⟩)
      exacts [⟨.inr rfl, hnot⟩, ⟨.inl h, hc⟩]
    · rintro ⟨h | rfl, hc⟩
      exacts [.inr ⟨h, hc⟩, .inl rfl]
  dest := by
    intro t
    simp only [he.dest, hj, List.mem_singleton, exists_eq_left]
    exact Iff.rfl
  result := by
    intro hrej hres
    obtain ⟨hp, hclean⟩ := hrep.result hrej hres
    have := hok.1 (he.clean.1 hclean)
    exact ⟨hp, by simpa using this, trivial⟩
  quiet := by
    intro heach hp hoks _
    exact hrep.quiet heach hp (he.clean.2 (hok.2 (hoks x (List.mem_singleton_self x))))

theorem runEffect_endOfSpan {spec : ArchSpec w Amd64Insn} (hspec : spec.endOk = RegularAfter)
    {options : Options} {callback : Callback δ} (hread : callback.ReadOnly) (p : Pass w δ)
    (r : OperandName) (last : ℕ) :
    RunEffect spec options callback [] (spec.endOk r) p (amd64EndOfSpan callback last r p) := by
  rw [hspec]
  unfold amd64EndOfSpan
  split_ifs with hrbp hrsp
  · exact (runEffect_report hread p _ _ _ (by decide)).congr
      (iff_of_false not_false fun h => h.1 hrbp)
  · exact (runEffect_report hread p _ _ _ (by decide)).congr
      (iff_of_false not_false fun h => h.2 hrsp)
  · exact RunEffect.nil.congr (iff_of_true trivial ⟨hrbp, hrsp⟩)

theorem LastAction.Clears.le {code : List UInt8} {first rip t : ℕ} {a : LastAction}
    (h : a.Clears code first rip t) : t ≤ first := by
  cases a <;> simp only [Clears] at h <;> omega

theorem Amd64Insn.Clears.le {code : List UInt8} {x : Located Amd64Insn} {t : ℕ}
    (h : Clears code x t) : t ≤ x.first := by
  rcases h with ⟨-, rfl⟩ | h
  exacts [le_rfl, h.le]

theorem amd64_meets (hw : 0 < w) (hdvd : kBundleSize ∣ w) :
    (amd64 : Arch w δ Amd64Insn).Meets (amd64Spec w) where
  instruction := by
    intro options callback p x start hread hx hlen hv hj
    have hv' : x.rip < p.validTargets.capacity := lt_of_lt_of_le (Nat.lt_succ_of_le hlen) hv
    let l : Locals w := ⟨x.first, x.restricted, x.insn.info, p.validTargets, p.jumpDests⟩
    obtain ⟨l', hrun, hr, he⟩ := amd64Actions_spec hw hdvd p.mem.code.length p.mem.code x
      hx l rfl rfl hv' hj
    obtain ⟨b, hb⟩ := Bitmap.exists_setBit (b := l'.validTargets) (i := x.rip)
      (by rw [he.validCapacity]; exact hv')
    have hrep := p.reported_endOfInstruction options hread l' x.rip
      (l'.info ||| l'.restrictedRegister.report)
      (by rw [Info.clean_or]; exact and_iff_left (OperandName.clean_report _))
    refine ⟨_, ?_, StageEffect.runEffect hw (amd64Spec w) he rfl rfl ?_ hb ?_ hrep⟩
    · show (amd64Actions p.mem.code p.mem.code.length x.rip x.insn l >>= _) = _
      rw [hrun]
      show (l'.validTargets.setBit x.rip >>= _) = _
      rw [hb]
      exact congrArg some (Prod.ext rfl hr)
    · exact ⟨fun h => ⟨h.1, h.2.1, h.2.2.1, h.2.2.2⟩, fun h => ⟨h.1, h.2, h.3, h.4⟩⟩
    · intro h
      have := Amd64Insn.Clears.le h
      exact absurd hx.lt (not_lt.2 this)
  endOfSpan := fun p r last hread => runEffect_endOfSpan rfl hread p r last
  not_clears := by
    intro code x y hy hxy h
    have := Amd64Insn.Clears.le h
    exact absurd (lt_of_le_of_lt hxy hy) (not_lt.2 this)

/-! ## The ia32 validator -/

/-- The checks of an instruction succeed. -/
structure Ia32Insn.Ok (w : ℕ) (code : List UInt8) (size : ℕ) (x : Located Ia32Insn) : Prop where
  info : x.insn.info.Clean
  relative : RelativeOk w code size x.rip x.insn.relative

def Ia32Insn.sandboxBytes (i : Ia32Insn) : ℕ := if i.special then 3 else 0

def ia32Spec (w : ℕ) : ArchSpec w Ia32Insn where
  next r _ := r
  ok := Ia32Insn.Ok w
  clears _ _ _ := False
  marks x := x.first - x.insn.sandboxBytes
  relative := Ia32Insn.relative
  sandboxBytes := Ia32Insn.sandboxBytes
  endOk _ := True

theorem ia32Actions_spec (hw : 0 < w) (size rip : ℕ) (code : List UInt8) (i : Ia32Insn)
    (l : Locals w) (hj : size ≤ l.jumpDests.capacity) :
    ∃ l', ia32Actions code size rip i l = some l' ∧
      l'.instructionBegin = l.instructionBegin - i.sandboxBytes ∧
      StageEffect (RelativeOk w code size rip i.relative) (fun _ => False)
        (IsDest w code size rip i.relative) l l' := by
  obtain ⟨l₁, h₁, hfirst₁, -, he₁⟩ := relativeAction_spec hw code size rip i.relative l hj
  let l₂ : Locals w := if i.special then
    { l₁.flag specialInstruction with instructionBegin := l₁.instructionBegin - 3 } else l₁
  have he₂ : l₂.instructionBegin = l₁.instructionBegin - i.sandboxBytes ∧
      StageEffect True (fun _ => False) (fun _ => False) l₁ l₂ := by
    dsimp only [l₂, Ia32Insn.sandboxBytes]
    split_ifs
    · exact ⟨rfl, .flag rfl rfl rfl (by simp)⟩
    · exact ⟨rfl, rfl, rfl, by simp, by simp, by simp⟩
  obtain ⟨hfirst₃, -, he₃⟩ := callAlignment_spec i.isCall rip l₂
  refine ⟨callAlignment i.isCall rip l₂, ?_, ?_, ?_⟩
  · unfold ia32Actions
    rw [h₁]
    rfl
  · rw [hfirst₃, he₂.1, hfirst₁]
  · exact ((he₁.trans he₂.2).trans he₃).congr (by simp) (by simp) (by simp)

theorem ia32_meets (hw : 0 < w) : (ia32 : Arch w δ Ia32Insn).Meets (ia32Spec w) where
  instruction := by
    intro options callback p x start hread hx hlen hv hj
    have hlt : x.first < p.validTargets.capacity := lt_of_lt_of_le hx.lt (hlen.trans hv)
    let l : Locals w := ⟨x.first, x.restricted, x.insn.info, p.validTargets, p.jumpDests⟩
    obtain ⟨l', hrun, hfirst, he⟩ := ia32Actions_spec hw p.mem.code.length x.rip
      p.mem.code x.insn l hj
    obtain ⟨b, hb⟩ := Bitmap.exists_setBit (b := l'.validTargets)
      (i := x.first - x.insn.sandboxBytes) (by rw [he.validCapacity]; exact lt_of_le_of_lt (Nat.sub_le _ _) hlt)
    have hrep := p.reported_endOfInstruction options hread l' x.rip l'.info Iff.rfl
    refine ⟨_, ?_, StageEffect.runEffect hw (ia32Spec w) he rfl rfl ?_ hb not_false hrep⟩
    · show (ia32Actions p.mem.code p.mem.code.length x.rip x.insn l >>= _) = _
      rw [hrun]
      show (l'.validTargets.setBit l'.instructionBegin >>= _) = _
      rw [hfirst]
      show (l'.validTargets.setBit (x.first - x.insn.sandboxBytes) >>= _) = _
      rw [hb]
      rfl
    · exact ⟨fun h => ⟨h.1, h.2⟩, fun h => ⟨h.1, h.2⟩⟩
  endOfSpan := fun p r last _ => RunEffect.nil
  not_clears := fun _ _ => not_false

end Ragel

end SandboxingNaCl
