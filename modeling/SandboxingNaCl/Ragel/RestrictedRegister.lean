import SandboxingNaCl.Ragel.ControlFlow

/-!
# The restricted register

Execution of an accepted amd64 chunk.  An instruction changes the registers its facts list, as far
as they say; beside these it may change any register but `%rsp`, `%rbp` and `%r15`, and a push, a
pop or a call moves `%rsp` inside the sandbox, beyond which guard pages stop it.  The invariant of
such runs is that the checks of the validator keep their promise: outside the pairs that sandbox
them, `%rsp` and `%rbp` are in the sandbox.
-/

namespace SandboxingNaCl

namespace Ragel

abbrev Regs : Type := OperandName → BitVec 64

/-- `v` is an address in the sandbox at `base`. -/
def Sandboxed (base v : BitVec 64) : Prop :=
  base.toNat ≤ v.toNat ∧ v.toNat < base.toNat + 2 ^ 32

/-- The upper half of `v` is zero. -/
def UpperZero (v : BitVec 64) : Prop := v.toNat < 2 ^ 32

/-! ## What an instruction does -/

/-- The register that operand `o` stands for: without a REX prefix the byte registers with the
numbers of `%spl` to `%dil` are `%ah` to `%bh`. -/
def Operand.register (rexPrefix : Bool) (o : Operand) : OperandName :=
  if o.kind = .bit8 ∧ rexPrefix = false then
    match o.name with
    | .rsp => .rax
    | .rbp => .rcx
    | .rsi => .rdx
    | .rdi => .rbx
    | name => name
  else
    o.name

/-- One of `written` is `r`. -/
def Writes (rexPrefix : Bool) (written : List Operand) (r : OperandName) : Prop :=
  ∃ o ∈ written, o.kind ≠ .irrelevant ∧ o.register rexPrefix = r

/-- Of `%rsp`, `%rbp` and `%r15` only those in `written` change, but for a push or a pop. -/
structure WritesOnly (base : BitVec 64) (rexPrefix : Bool) (written : List Operand)
    (regs regs' : Regs) : Prop where
  r15 : ¬ Writes rexPrefix written .r15 → regs' .r15 = regs .r15
  rbp : ¬ Writes rexPrefix written .rbp → regs' .rbp = regs .rbp
  rsp : ¬ Writes rexPrefix written .rsp → regs' .rsp = regs .rsp ∨ Sandboxed base (regs' .rsp)

def ZeroExtends (written : List Operand) (regs' : Regs) : Prop :=
  ∀ o ∈ written, o.kind = .restricted → UpperZero (regs' o.name)

def Rebase.apply (v base : BitVec 64) : Rebase → BitVec 64
  | .add | .lea => v + base
  | .or => v ||| base

def StackModification.apply (regs : Regs) : StackModification → Regs
  | .movRspRbp => Function.update regs .rbp (regs .rsp)
  | .movRbpRsp => Function.update regs .rsp (regs .rbp)
  | .andRsp mask => Function.update regs .rsp (regs .rsp &&& mask.toBitVec.signExtend 64)

/-- The change of the registers by an instruction with these facts. -/
def LastAction.Effect (base : BitVec 64) (rexPrefix : Bool) (regs regs' : Regs) :
    LastAction → Prop
  | process0Operands => WritesOnly base rexPrefix [] regs regs'
  | process1Operand o => WritesOnly base rexPrefix [o] regs regs'
  | process1OperandZeroExtends o =>
    WritesOnly base rexPrefix [o] regs regs' ∧ ZeroExtends [o] regs'
  | process2Operands o₀ o₁ => WritesOnly base rexPrefix [o₀, o₁] regs regs'
  | process2OperandsZeroExtends o₀ o₁ =>
    WritesOnly base rexPrefix [o₀, o₁] regs regs' ∧ ZeroExtends [o₀, o₁] regs'
  | stackModification m => regs' = m.apply regs
  | rbpSandboxing op => regs' = Function.update regs .rbp (op.apply (regs .rbp) (regs .r15))
  | rspSandboxing op => regs' = Function.update regs .rsp (op.apply (regs .rsp) (regs .r15))
  | sandboxedInstruction _ => WritesOnly base rexPrefix [] regs regs'
  | naclCallOrJmp _ _ => WritesOnly base rexPrefix [] regs regs'

/-- The last action of a superinstruction. -/
def LastAction.EndsSuper : LastAction → Prop
  | sandboxedInstruction _ => True
  | naclCallOrJmp _ _ => True
  | _ => False

/-- What the amd64 machine promises of its instructions beside `Amd64Shaped`: what comes in front of
the last instruction of a superinstruction leaves no register restricted, a direct jump writes no
register, and the mask of an `and` on `%rsp` is negative. -/
structure Machine.Amd64Facts (machine : Machine Amd64Insn) : Prop where
  shaped : machine.Amd64Shaped
  super : ∀ first r bytes,
    ∀ x ∈ (machine.division (fun r i => i.action.next r) first r bytes).insns,
    x.insn.action.EndsSuper → x.restricted = .noReg
  relative : ∀ first r bytes,
    ∀ x ∈ (machine.division (fun r i => i.action.next r) first r bytes).insns,
    ∀ rel, x.insn.relative = some rel → x.insn.action = .process0Operands
  andRsp : ∀ first r bytes,
    ∀ x ∈ (machine.division (fun r i => i.action.next r) first r bytes).insns,
    ∀ mask, x.insn.action = .stackModification (.andRsp mask) → 0x80 ≤ mask

/-! ## Addresses in the sandbox -/

variable {base v : BitVec 64} {code : List UInt8} {first rip : ℕ}

theorem sandboxed_iff_div (hbase : base.toNat % 2 ^ 32 = 0) :
    Sandboxed base v ↔ v.toNat / 2 ^ 32 = base.toNat / 2 ^ 32 := by
  unfold Sandboxed
  omega

theorem sandboxed_add (hbase : base.toNat % 2 ^ 32 = 0) (hv : UpperZero v) :
    Sandboxed base (v + base) := by
  have := base.isLt
  unfold UpperZero at hv
  unfold Sandboxed
  rw [BitVec.toNat_add, Nat.mod_eq_of_lt (by omega)]
  omega

theorem sandboxed_or (hbase : base.toNat % 2 ^ 32 = 0) (hv : UpperZero v) :
    Sandboxed base (v ||| base) := by
  unfold UpperZero at hv
  have hor := Nat.two_pow_add_eq_or_of_lt hv (base.toNat / 2 ^ 32)
  have hdiv : 2 ^ 32 * (base.toNat / 2 ^ 32) = base.toNat :=
    Nat.mul_div_cancel' (Nat.dvd_of_mod_eq_zero hbase)
  rw [hdiv] at hor
  unfold Sandboxed
  rw [BitVec.toNat_or, Nat.or_comm, ← hor]
  omega

theorem Rebase.sandboxed_apply (op : Rebase) (hbase : base.toNat % 2 ^ 32 = 0)
    (hv : UpperZero v) : Sandboxed base (op.apply v base) := by
  cases op
  exacts [sandboxed_add hbase hv, sandboxed_or hbase hv, sandboxed_add hbase hv]

theorem signExtend_div : ∀ b : BitVec 8, 0x80#8 ≤ b →
    (b.signExtend 64).toNat / 2 ^ 32 = 2 ^ 32 - 1 := by
  decide

theorem sandboxed_and (hbase : base.toNat % 2 ^ 32 = 0) (hv : Sandboxed base v) {mask : UInt8}
    (hmask : 0x80 ≤ mask) : Sandboxed base (v &&& mask.toBitVec.signExtend 64) := by
  have hupper : (mask.toBitVec.signExtend 64).toNat / 2 ^ 32 = 2 ^ 32 - 1 :=
    signExtend_div mask.toBitVec (UInt8.le_iff_toBitVec_le.1 hmask)
  rw [sandboxed_iff_div hbase] at hv ⊢
  rw [BitVec.toNat_and, Nat.and_div_two_pow, hupper, Nat.and_two_pow_sub_one_eq_mod, hv]
  have := base.isLt
  omega

/-! ## The checks are enough for one instruction -/

/-- What holds of the registers where `r` is restricted. -/
structure RegsOk (base : BitVec 64) (r : OperandName) (regs : Regs) : Prop where
  r15 : regs .r15 = base
  restricted : r = .rsp ∨ r = .rbp → UpperZero (regs r)
  rsp : r ≠ .rsp → Sandboxed base (regs .rsp)
  rbp : r ≠ .rbp → Sandboxed base (regs .rbp)

theorem RegsOk.of_regularAfter {r r' : OperandName} {regs : Regs} (h : RegsOk base r regs)
    (hr : RegularAfter r) (hr' : RegularAfter r') : RegsOk base r' regs :=
  ⟨h.r15, fun h' => (h'.elim hr'.2 hr'.1).elim, fun _ => h.rsp hr.2, fun _ => h.rbp hr.1⟩

theorem Operand.eq_of_register {rexPrefix : Bool} {o : Operand} {r : OperandName}
    (h : o.register rexPrefix = r) (hr : r = .r15 ∨ r = .rsp ∨ r = .rbp) :
    o.name = r ∧ ¬ (o.kind = .bit8 ∧ rexPrefix = false ∧ r ≠ .r15) := by
  unfold Operand.register at h
  split at h
  case isTrue hk =>
    rcases o with ⟨name, kind⟩
    rcases hr with rfl | rfl | rfl <;> cases name <;> simp_all
  case isFalse hk =>
    exact ⟨h, fun hk' => hk ⟨hk'.1, hk'.2.1⟩⟩

theorem not_writes_nil {rexPrefix : Bool} {r : OperandName} : ¬ Writes rexPrefix [] r := by
  rintro ⟨o, ho, -⟩
  cases ho

theorem Operand.not_r15 {rexPrefix : Bool} {o : Operand} (h : o.r15Modified = false)
    (hk : o.kind ≠ .irrelevant) : o.register rexPrefix ≠ .r15 := by
  intro hr
  have := (o.eq_of_register hr (.inl rfl)).1
  rcases o with ⟨name, kind⟩
  cases kind <;> simp_all [Operand.r15Modified, Operand.check]

theorem Operand.not_modified {rexPrefix : Bool} {o : Operand} {r : OperandName}
    (hr : r = .rsp ∨ r = .rbp) (h : o.modified r rexPrefix = false) (hk : o.kind ≠ .irrelevant) :
    o.register rexPrefix ≠ r := by
  intro hreg
  obtain ⟨hname, hbit⟩ := o.eq_of_register hreg (.inr hr)
  have hr15 : r ≠ .r15 := by rcases hr with rfl | rfl <;> decide
  rcases o with ⟨name, kind⟩
  cases kind <;> cases rexPrefix <;> simp_all [Operand.modified, Operand.check]

theorem Operand.restricted_of_register {rexPrefix : Bool} {o : Operand} {r : OperandName}
    (hr : r = .rsp ∨ r = .rbp) (h : o.invalidModification r rexPrefix = false)
    (hk : o.kind ≠ .irrelevant) (hreg : o.register rexPrefix = r) :
    o.name = r ∧ o.kind = .restricted := by
  obtain ⟨hname, hbit⟩ := o.eq_of_register hreg (.inr hr)
  have hr15 : r ≠ .r15 := by rcases hr with rfl | rfl <;> decide
  rcases o with ⟨name, kind⟩
  cases kind <;> cases rexPrefix <;> simp_all [Operand.invalidModification, Operand.check]

theorem WritesOnly.regsOk {rexPrefix : Bool} {written : List Operand} {regs regs' : Regs}
    {r r' : OperandName} (h : WritesOnly base rexPrefix written regs regs')
    (hregs : RegsOk base r regs) (hr : RegularAfter r)
    (hr15 : ¬ Writes rexPrefix written .r15)
    (hrsp : r' ≠ .rsp → ¬ Writes rexPrefix written .rsp)
    (hrbp : r' ≠ .rbp → ¬ Writes rexPrefix written .rbp)
    (hr' : r' = .rsp ∨ r' = .rbp → UpperZero (regs' r')) : RegsOk base r' regs' where
  r15 := (h.r15 hr15).trans hregs.r15
  restricted := hr'
  rsp := by
    intro hne
    rcases h.rsp (hrsp hne) with heq | hs
    · rw [heq]
      exact hregs.rsp hr.2
    · exact hs
  rbp := by
    intro hne
    rw [h.rbp (hrbp hne)]
    exact hregs.rbp hr.1

theorem writes_cons {rexPrefix : Bool} {o : Operand} {l : List Operand} {r : OperandName} :
    Writes rexPrefix (o :: l) r ↔
      o.kind ≠ .irrelevant ∧ o.register rexPrefix = r ∨ Writes rexPrefix l r := by
  simp [Writes]

theorem writes_pair {rexPrefix : Bool} {o₀ o₁ : Operand} {r : OperandName} :
    Writes rexPrefix [o₀, o₁] r ↔ Writes rexPrefix [o₀] r ∨ Writes rexPrefix [o₁] r := by
  simp only [writes_cons, not_writes_nil, or_false]

theorem Operand.not_writes_r15 {rexPrefix : Bool} {o : Operand} (h : o.r15Modified = false) :
    ¬ Writes rexPrefix [o] .r15 := by
  rw [writes_cons, or_iff_left not_writes_nil]
  exact fun hw => o.not_r15 h hw.1 hw.2

theorem Operand.not_writes {rexPrefix : Bool} {o : Operand} {r : OperandName}
    (hr : r = .rsp ∨ r = .rbp) (h : o.modified r rexPrefix = false) :
    ¬ Writes rexPrefix [o] r := by
  rw [writes_cons, or_iff_left not_writes_nil]
  exact fun hw => o.not_modified hr h hw.1 hw.2

theorem Operand.restricted_of_writes {rexPrefix : Bool} {o : Operand} {r : OperandName}
    (hr : r = .rsp ∨ r = .rbp) (h : o.invalidModification r rexPrefix = false)
    (hw : Writes rexPrefix [o] r) : o.name = r ∧ o.kind = .restricted := by
  rw [writes_cons, or_iff_left not_writes_nil] at hw
  exact o.restricted_of_register hr h hw.1 hw.2

theorem Operand.restricted_iff {o : Operand} : o.restricted = true ↔ o.kind = .restricted :=
  beq_iff_eq

theorem regsOk_process1OperandZeroExtends {rexPrefix : Bool} {o : Operand} {r : OperandName}
    {regs regs' : Regs} (hregs : RegsOk base r regs) (hr : RegularAfter r)
    (hr15 : o.r15Modified = false) (hrbp : o.invalidModification .rbp rexPrefix = false)
    (hrsp : o.invalidModification .rsp rexPrefix = false)
    (heff : WritesOnly base rexPrefix [o] regs regs') (hzero : ZeroExtends [o] regs') :
    RegsOk base (if o.restricted then o.name else .noReg) regs' ∧
      ((if o.restricted then o.name else .noReg) ≠ OperandName.noReg →
        UpperZero (regs' (if o.restricted then o.name else .noReg))) := by
  have hzero' : (if o.restricted then o.name else .noReg) ≠ OperandName.noReg →
      UpperZero (regs' (if o.restricted then o.name else .noReg)) := by
    split_ifs with h
    · exact fun _ => hzero o (List.mem_singleton_self o) (Operand.restricted_iff.1 h)
    · exact fun h => absurd rfl h
  have hstack : ∀ s, s = .rsp ∨ s = .rbp → o.invalidModification s rexPrefix = false →
      (if o.restricted then o.name else .noReg) ≠ s → ¬ Writes rexPrefix [o] s := by
    intro s hs hinv hne hw
    obtain ⟨hname, hkind⟩ := o.restricted_of_writes hs hinv hw
    rw [if_pos (Operand.restricted_iff.2 hkind)] at hne
    exact hne hname
  refine ⟨heff.regsOk hregs hr (o.not_writes_r15 hr15) (hstack _ (.inl rfl) hrsp)
    (hstack _ (.inr rfl) hrbp) fun h => hzero' ?_, hzero'⟩
  rcases h with h | h <;> rw [h] <;> decide

theorem regsOk_process2OperandsZeroExtends {rexPrefix : Bool} {o₀ o₁ : Operand} {r : OperandName}
    {regs regs' : Regs} (hregs : RegsOk base r regs)
    (hok : (LastAction.process2OperandsZeroExtends o₀ o₁).Ok code first rip rexPrefix r)
    (heff : WritesOnly base rexPrefix [o₀, o₁] regs regs') (hzero : ZeroExtends [o₀, o₁] regs') :
    RegsOk base (LastAction.next r (.process2OperandsZeroExtends o₀ o₁)) regs' ∧
      (LastAction.next r (.process2OperandsZeroExtends o₀ o₁) ≠ .noReg →
        UpperZero (regs' (LastAction.next r (.process2OperandsZeroExtends o₀ o₁)))) := by
  obtain ⟨hr, hr15, hrbp, hrsp, hsecondRsp, hsecondRbp⟩ := hok
  rw [Bool.or_eq_false_iff] at hr15 hrbp hrsp
  have hzero' : LastAction.next r (.process2OperandsZeroExtends o₀ o₁) ≠ .noReg →
      UpperZero (regs' (LastAction.next r (.process2OperandsZeroExtends o₀ o₁))) := by
    simp only [LastAction.next]
    split_ifs with h₀ h₁
    · exact fun _ => hzero o₀ (by simp) (Operand.restricted_iff.1 h₀)
    · exact fun _ => hzero o₁ (by simp) (Operand.restricted_iff.1 h₁)
    · exact fun h => absurd rfl h
  have hstack : ∀ s, s = .rsp ∨ s = .rbp → o₀.invalidModification s rexPrefix = false →
      o₁.invalidModification s rexPrefix = false →
      (o₀.restricted && o₁.check s .restricted) = false →
      LastAction.next r (.process2OperandsZeroExtends o₀ o₁) ≠ s →
      ¬ Writes rexPrefix [o₀, o₁] s := by
    intro s hs hinv₀ hinv₁ hsecond hne hw
    simp only [LastAction.next] at hne
    rcases writes_pair.1 hw with hw | hw
    · obtain ⟨hname, hkind⟩ := o₀.restricted_of_writes hs hinv₀ hw
      rw [if_pos (Operand.restricted_iff.2 hkind)] at hne
      exact hne hname
    · -- A second operand that is zero-extended counts only when the first one is not.
      obtain ⟨hname, hkind⟩ := o₁.restricted_of_writes hs hinv₁ hw
      have hcheck : o₁.check s .restricted = true := by
        simp [Operand.check, hname, hkind]
      rw [hcheck, Bool.and_true] at hsecond
      rw [hsecond, if_neg Bool.false_ne_true, if_pos (Operand.restricted_iff.2 hkind)] at hne
      exact hne hname
  refine ⟨heff.regsOk hregs hr ?_ (hstack _ (.inl rfl) hrsp.1 hrsp.2 hsecondRsp)
    (hstack _ (.inr rfl) hrbp.1 hrbp.2 hsecondRbp) fun h => hzero' ?_, hzero'⟩
  · rw [writes_pair]
    exact not_or_intro (o₀.not_writes_r15 hr15.1) (o₁.not_writes_r15 hr15.2)
  · rcases h with h | h <;> rw [h] <;> decide

theorem StackModification.regsOk {m : StackModification} {r : OperandName} {regs : Regs}
    (hbase : base.toNat % 2 ^ 32 = 0) (hregs : RegsOk base r regs) (hr : RegularAfter r)
    (hand : ∀ mask, m = .andRsp mask → 0x80 ≤ mask) : RegsOk base .noReg (m.apply regs) := by
  have hrsp := hregs.rsp hr.2
  have hrbp := hregs.rbp hr.1
  have hnone : ∀ regs' : Regs, .noReg = OperandName.rsp ∨ .noReg = OperandName.rbp →
      UpperZero (regs' .noReg) := by
    rintro regs' (h | h) <;> cases h
  cases m with
  | movRspRbp => exact ⟨hregs.r15, hnone _, fun _ => hrsp, fun _ => hrsp⟩
  | movRbpRsp => exact ⟨hregs.r15, hnone _, fun _ => hrbp, fun _ => hrbp⟩
  | andRsp mask =>
    exact ⟨hregs.r15, hnone _, fun _ => sandboxed_and hbase hrsp (hand mask rfl), fun _ => hrbp⟩

/-- An instruction that passes the checks keeps what holds of the registers, and zero-extends the
register it restricts. -/
theorem LastAction.Effect.regsOk {rexPrefix : Bool} {a : LastAction} {r : OperandName}
    {regs regs' : Regs} (hbase : base.toNat % 2 ^ 32 = 0) (hregs : RegsOk base r regs)
    (hok : a.Ok code first rip rexPrefix r)
    (hand : ∀ mask, a = .stackModification (.andRsp mask) → 0x80 ≤ mask)
    (hsuper : a.EndsSuper → r = .noReg) (heff : a.Effect base rexPrefix regs regs') :
    RegsOk base (a.next r) regs' ∧ (a.next r ≠ .noReg → UpperZero (regs' (a.next r))) := by
  have hregular : RegularAfter .noReg := ⟨nofun, nofun⟩
  have hnone : .noReg = OperandName.rsp ∨ .noReg = OperandName.rbp →
      UpperZero (regs' .noReg) := by
    rintro (h | h) <;> cases h
  have hplain : WritesOnly base rexPrefix [] regs regs' → RegularAfter r →
      RegsOk base .noReg regs' := fun h hr =>
    h.regsOk hregs hr not_writes_nil (fun _ => not_writes_nil) (fun _ => not_writes_nil) hnone
  cases a with
  | process0Operands => exact ⟨hplain heff hok, fun h => absurd rfl h⟩
  | process1Operand o =>
    obtain ⟨hr, hr15, hrbp, hrsp⟩ := hok
    exact ⟨WritesOnly.regsOk heff hregs hr (o.not_writes_r15 hr15)
      (fun _ => o.not_writes (.inl rfl) hrsp) (fun _ => o.not_writes (.inr rfl) hrbp) hnone,
      fun h => absurd rfl h⟩
  | process1OperandZeroExtends o =>
    obtain ⟨hr, hr15, hrbp, hrsp⟩ := hok
    exact regsOk_process1OperandZeroExtends hregs hr hr15 hrbp hrsp heff.1 heff.2
  | process2Operands o₀ o₁ =>
    obtain ⟨hr, hr15, hrbp, hrsp⟩ := hok
    rw [Bool.or_eq_false_iff] at hr15 hrbp hrsp
    refine ⟨WritesOnly.regsOk heff hregs hr ?_ (fun _ => ?_) (fun _ => ?_) hnone,
      fun h => absurd rfl h⟩ <;> rw [writes_pair]
    · exact not_or_intro (o₀.not_writes_r15 hr15.1) (o₁.not_writes_r15 hr15.2)
    · exact not_or_intro (o₀.not_writes (.inl rfl) hrsp.1) (o₁.not_writes (.inl rfl) hrsp.2)
    · exact not_or_intro (o₀.not_writes (.inr rfl) hrbp.1) (o₁.not_writes (.inr rfl) hrbp.2)
  | process2OperandsZeroExtends o₀ o₁ =>
    exact regsOk_process2OperandsZeroExtends hregs hok heff.1 heff.2
  | stackModification m =>
    cases heff
    exact ⟨StackModification.regsOk hbase hregs hok fun mask h => hand mask (h ▸ rfl),
      fun h => absurd rfl h⟩
  | rbpSandboxing op =>
    cases hok
    cases heff
    refine ⟨⟨hregs.r15, hnone, fun _ => hregs.rsp (by decide), fun _ => ?_⟩,
      fun h => absurd rfl h⟩
    rw [Function.update_self, hregs.r15]
    exact op.sandboxed_apply hbase (hregs.restricted (.inr rfl))
  | rspSandboxing op =>
    cases hok
    cases heff
    refine ⟨⟨hregs.r15, hnone, fun _ => ?_, fun _ => hregs.rbp (by decide)⟩,
      fun h => absurd rfl h⟩
    rw [Function.update_self, hregs.r15]
    exact op.sandboxed_apply hbase (hregs.restricted (.inl rfl))
  | sandboxedInstruction n =>
    obtain rfl := hsuper trivial
    exact ⟨hplain heff hregular, fun h => absurd rfl h⟩
  | naclCallOrJmp addTo n =>
    obtain rfl := hsuper trivial
    exact ⟨hplain heff hregular, fun h => absurd rfl h⟩

/-! ## The restricted register along the code -/

section Division

variable {ι : Type} {machine : Machine ι} {next : OperandName → ι → OperandName}
  {r : OperandName} {w : ℕ}

theorem Machine.bundle_tiles (machine : Machine ι) (next : OperandName → ι → OperandName)
    (r : OperandName) {k : ℕ} (hk : k < code.length / kBundleSize) :
    ∃ last, Tiles (kBundleSize * k) (machine.bundle next r code k).insns last ∧
      ((machine.bundle next r code k).stuck = none → last = kBundleSize * k + kBundleSize) := by
  obtain ⟨last, -, htiles, hlast⟩ := machine.divide_tiles next _ machine.start (kBundleSize * k) r
    ((code.take (kBundleSize * k + kBundleSize)).drop (kBundleSize * k)) le_rfl
  refine ⟨last, htiles, fun h => ?_⟩
  have := hlast h
  rwa [bundle_bytes_length hk] at this

theorem Machine.bundle_linked (k : ℕ) : Linked next r (machine.bundle next r code k).insns
    (machine.bundle next r code k).restricted :=
  machine.divide_linked next _ _ _ _ _

/-- At the start of a bundle the initial register is restricted, elsewhere what the instruction in
front leaves. -/
theorem Machine.restricted_cases {x : Located ι} (hx : x ∈ machine.instructions next r code) :
    (x.first % kBundleSize = 0 ∧ x.restricted = r) ∨ (x.first % kBundleSize ≠ 0 ∧
      ∃ y ∈ machine.instructions next r code, y.rip = x.first ∧
        x.restricted = next y.restricted y.insn) := by
  obtain ⟨k, hk, hx⟩ := Machine.exists_bundle hx
  obtain ⟨last, htiles, -⟩ := machine.bundle_tiles next r hk
  rcases (Machine.bundle_linked k).pred htiles hx with ⟨hfirst, hr⟩ | ⟨y, hy, hrip, hr⟩
  · exact .inl ⟨by rw [hfirst, Nat.mul_mod_right], hr⟩
  · refine .inr ⟨?_, y, Machine.bundle_subset hk hy, hrip, hr⟩
    have hx' := Machine.bundle_bounds hk hx
    have hy' := Machine.bundle_bounds hk hy
    unfold kBundleSize at *
    omega

theorem Machine.Accepts.endOk {spec : ArchSpec w ι} (h : machine.Accepts spec r code)
    {x : Located ι} (hx : x ∈ machine.instructions spec.next r code)
    (hrip : x.rip % kBundleSize = 0) : spec.endOk (spec.next x.restricted x.insn) := by
  obtain ⟨k, hk, hx⟩ := Machine.exists_bundle hx
  obtain ⟨hstuck, hend⟩ := h.complete k hk
  obtain ⟨last, htiles, hlast⟩ := machine.bundle_tiles spec.next r hk
  have hlast := hlast hstuck
  have hbounds := Machine.bundle_bounds hk hx
  rw [← (Machine.bundle_linked k).last htiles hx (by unfold kBundleSize at *; omega)]
  exact hend

end Division

/-! ## Execution -/

def Relative.Target (rel : Relative) (code : List UInt8) (rip target : ℕ) : Prop :=
  (target : ℤ) = rip + (rel.offset 64 code rip).toInt

/-- The instruction executed next, where control last came to by a jump or began, and the
registers. -/
structure ExecState where
  pc : ℕ
  entry : ℕ
  regs : Regs

/-- An instruction is executed.  Control may fall through behind any of them.  An indirect jump goes
to the start of a bundle if the whole superinstruction was executed, and else anywhere. -/
inductive Step (base : BitVec 64) (code : List UInt8) (insns : List (Located Amd64Insn)) :
    ExecState → ExecState → Prop
  | fall {s : ExecState} {x : Located Amd64Insn} {regs' : Regs} (hx : x ∈ insns)
      (hpc : x.first = s.pc) (heff : x.insn.action.Effect base x.insn.rexPrefix s.regs regs') :
      Step base code insns s ⟨x.rip, s.entry, regs'⟩
  | jump {s : ExecState} {x : Located Amd64Insn} {regs' : Regs} {rel : Relative} {target : ℕ}
      (hx : x ∈ insns) (hpc : x.first = s.pc)
      (heff : x.insn.action.Effect base x.insn.rexPrefix s.regs regs')
      (hrel : x.insn.relative = some rel) (ht : rel.Target code x.rip target) :
      Step base code insns s ⟨target, target, regs'⟩
  | indirect {s : ExecState} {x : Located Amd64Insn} {regs' : Regs} {addTo : AddTo}
      {andBytes target : ℕ} (hx : x ∈ insns) (hpc : x.first = s.pc)
      (heff : x.insn.action.Effect base x.insn.rexPrefix s.regs regs')
      (haction : x.insn.action = .naclCallOrJmp addTo andBytes)
      (ht : s.entry + x.insn.action.sandboxBytes ≤ s.pc → target % kBundleSize = 0) :
      Step base code insns s ⟨target, target, regs'⟩

def Enterable (valid : ℕ → Prop) (t : ℕ) : Prop := t % kBundleSize = 0 ∨ valid t

/-- Execution begins with the stack and the frame in the sandbox. -/
structure ExecState.Begins (base : BitVec 64) (valid : ℕ → Prop) (s : ExecState) : Prop where
  enterable : Enterable valid s.pc
  entry : s.entry = s.pc
  r15 : s.regs .r15 = base
  rsp : Sandboxed base (s.regs .rsp)
  rbp : Sandboxed base (s.regs .rbp)

/-- The register that is restricted at `pc`. -/
def restrictedAt (insns : List (Located Amd64Insn)) (pc : ℕ) : OperandName :=
  ((insns.find? fun x => x.first == pc).map (·.restricted)).getD .noReg

/-- The instruction zero-extends `r`. -/
def LastAction.ZeroExtended (r : OperandName) : LastAction → Prop
  | process1OperandZeroExtends o => o = ⟨r, .restricted⟩
  | process2OperandsZeroExtends o₀ o₁ => o₀ = ⟨r, .restricted⟩ ∨ o₁ = ⟨r, .restricted⟩
  | _ => False

/-- What the restricted register guarantees where an instruction begins. -/
structure ExecState.Safe (base : BitVec 64) (valid : ℕ → Prop) (insns : List (Located Amd64Insn))
    (s : ExecState) : Prop where
  regs : RegsOk base (restrictedAt insns s.pc) s.regs
  target : Enterable valid s.pc → Sandboxed base (s.regs .rsp) ∧ Sandboxed base (s.regs .rbp)
  memory : ∀ x ∈ insns, x.first = s.pc → ∀ b index, x.insn.memoryAccess = some (b, index) →
    AllowedBase b ∧ (IsIndex index → UpperZero (s.regs index) ∧ ¬ Enterable valid s.pc ∧
      ∃ y ∈ insns, y.rip = s.pc ∧ s.entry ≤ y.first ∧ y.insn.action.ZeroExtended index)

theorem Relative.offset_toInt (rel : Relative) {w : ℕ} (hw : 32 ≤ w) (code : List UInt8) (rip : ℕ) :
    (rel.offset w code rip).toInt = (rel.offset 64 code rip).toInt := by
  cases rel <;>
    simp only [offset, BitVec.toInt_signExtend_of_le (by omega : 8 ≤ w),
      BitVec.toInt_signExtend_of_le (by omega : 8 + 8 + 8 + 8 ≤ w),
      BitVec.toInt_signExtend_of_le (by omega : 8 ≤ 64),
      BitVec.toInt_signExtend_of_le (by omega : 8 + 8 + 8 + 8 ≤ 64)]

theorem Relative.jumpDest_of_target (host : HostWordsize) {rel : Relative} {target : ℕ}
    (h : rel.Target code rip target) :
    rel.jumpDest host.bits code rip = target % 2 ^ host.bits := by
  unfold Target at h
  rw [← rel.offset_toInt (by cases host <;> decide : 32 ≤ host.bits)] at h
  unfold jumpDest
  rw [BitVec.toNat_add, BitVec.toNat_ofNat]
  rw [BitVec.toInt_eq_toNat_cond] at h
  cases host <;> simp only [HostWordsize.bits] at * <;> split_ifs at h <;> push_cast at h <;> omega

section Restricted

variable {insns : List (Located Amd64Insn)} {n : ℕ}

theorem restrictedAt_first (ht : Tiles 0 insns n) {x : Located Amd64Insn} (hx : x ∈ insns) :
    restrictedAt insns x.first = x.restricted := by
  unfold restrictedAt
  cases hfind : insns.find? fun y => y.first == x.first with
  | none =>
    have := List.find?_eq_none.1 hfind x hx
    simp at this
  | some y =>
    have hfirst : y.first = x.first := by simpa using List.find?_some hfind
    have hlt := (ht.bounds (List.mem_of_find?_eq_some hfind)).2.1
    rw [ht.eq_of_first_mem (List.mem_of_find?_eq_some hfind) hx hfirst.le (hfirst ▸ hlt)]
    rfl

theorem restrictedAt_eq_noReg {pc : ℕ} (h : ∀ x ∈ insns, x.first ≠ pc) :
    restrictedAt insns pc = .noReg := by
  unfold restrictedAt
  rw [List.find?_eq_none.2 fun x hx => by simpa using h x hx]
  rfl

end Restricted

section Runs

variable {host : HostWordsize} {machine : Machine Amd64Insn}

/-- The instructions of a chunk at the start of whose bundles no register is restricted. -/
abbrev Machine.amd64Instructions (machine : Machine Amd64Insn) (code : List UInt8) :
    List (Located Amd64Insn) :=
  machine.instructions (fun r i => i.action.next r) .noReg code

abbrev Machine.Amd64Target (machine : Machine Amd64Insn) (host : HostWordsize) (code : List UInt8) :
    ℕ → Prop :=
  machine.ValidTarget (amd64Spec host.bits) .noReg code

theorem Machine.Accepts.amd64Tiles (hsize : code.length % kBundleSize = 0)
    (h : machine.Accepts (amd64Spec host.bits) .noReg code) :
    Tiles 0 (machine.amd64Instructions code) code.length :=
  h.tiles hsize

theorem Machine.Amd64Facts.super_restricted (hfacts : machine.Amd64Facts) {x : Located Amd64Insn}
    (hx : x ∈ machine.amd64Instructions code) (h : x.insn.action.EndsSuper) :
    x.restricted = .noReg := by
  obtain ⟨k, -, hx⟩ := Machine.exists_bundle hx
  exact hfacts.super _ _ _ x hx h

theorem Machine.Accepts.enterable_le (hfacts : machine.Amd64Facts)
    (h : machine.Accepts (amd64Spec host.bits) .noReg code) {x : Located Amd64Insn}
    (hx : x ∈ machine.amd64Instructions code) {t : ℕ}
    (ht : Enterable (machine.Amd64Target host code) t) (hle : t ≤ x.first) :
    t + x.insn.action.sandboxBytes ≤ x.first := by
  have hshaped : machine.Shaped (amd64Spec host.bits) := hfacts.shaped.shaped
  obtain ⟨hbytes, hbundle⟩ := hshaped.bundle hx
  change x.insn.action.sandboxBytes ≤ x.first at hbytes
  change (x.first - x.insn.action.sandboxBytes) / kBundleSize = _ at hbundle
  obtain ⟨k, hk, hxk⟩ := Machine.exists_bundle hx
  have hbounds := Machine.bundle_bounds hk hxk
  by_contra hlt
  rcases ht with haligned | hvalid
  · unfold kBundleSize at *
    omega
  · exact hvalid.2 x hx ((h.ok x hx).clears hbytes (by omega) hle)

theorem Machine.Accepts.regularAfter (hfacts : machine.Amd64Facts)
    (h : machine.Accepts (amd64Spec host.bits) .noReg code) {x : Located Amd64Insn}
    (hx : x ∈ machine.amd64Instructions code)
    (ht : Enterable (machine.Amd64Target host code) x.first) : RegularAfter x.restricted := by
  have hnone : RegularAfter .noReg := ⟨nofun, nofun⟩
  rcases Machine.restricted_cases hx with ⟨-, hr⟩ | ⟨haligned, -⟩
  · rwa [hr]
  have hclears : ¬ Amd64Insn.Clears code x x.first := (ht.resolve_left haligned).2 x hx
  have hsuper := hfacts.super_restricted hx
  have hok := (h.ok x hx).action
  cases haction : x.insn.action <;> rw [haction] at hok hsuper
  case process0Operands => exact hok
  case stackModification => exact hok
  case rbpSandboxing op => exact absurd (.inr (by rw [haction]; rfl)) hclears
  case rspSandboxing op => exact absurd (.inr (by rw [haction]; rfl)) hclears
  case sandboxedInstruction => rwa [hsuper trivial]
  case naclCallOrJmp => rwa [hsuper trivial]
  all_goals exact hok.1

/-- The register restricted behind an instruction is the one it leaves, unless a bundle ends
there. -/
theorem Machine.Accepts.restrictedAt_rip (hsize : code.length % kBundleSize = 0)
    (h : machine.Accepts (amd64Spec host.bits) .noReg code) {x : Located Amd64Insn}
    (hx : x ∈ machine.amd64Instructions code) :
    restrictedAt (machine.amd64Instructions code) x.rip = x.insn.action.next x.restricted ∨
      restrictedAt (machine.amd64Instructions code) x.rip = .noReg ∧
        RegularAfter (x.insn.action.next x.restricted) := by
  have htiles := h.amd64Tiles hsize
  by_cases hend : x.rip = code.length
  · refine .inr ⟨restrictedAt_eq_noReg fun y hy hfirst => ?_, h.endOk hx (by rw [hend, hsize])⟩
    have := htiles.bounds hy
    omega
  obtain ⟨y, hy, hfirst⟩ := htiles.exists_first hend (.inr ⟨x, hx, rfl⟩)
  rw [← hfirst, restrictedAt_first htiles hy]
  rcases Machine.restricted_cases hy with ⟨haligned, hr⟩ | ⟨-, z, hz, hrip, hr⟩
  · exact .inr ⟨hr, h.endOk hx (by rw [← hfirst, haligned])⟩
  · -- One instruction at most ends where `y` begins.
    have hzx : z = x := by
      have := htiles.bounds hz
      have := htiles.bounds hx
      rcases htiles.disjoint hz hx with heq | hlt | hlt
      · exact heq
      · omega
      · omega
    exact .inl (hzx ▸ hr)

end Runs

/-! ## The invariant of executions -/

/-- What holds in every state of an execution. -/
structure ExecState.Inv (base : BitVec 64) (valid : ℕ → Prop) (insns : List (Located Amd64Insn))
    (n : ℕ) (s : ExecState) : Prop where
  regs : RegsOk base (restrictedAt insns s.pc) s.regs
  entry : s.entry < n → Enterable valid s.entry
  le : s.entry ≤ s.pc
  prev : s.entry < s.pc → ∃ y ∈ insns, y.rip = s.pc ∧ s.entry ≤ y.first ∧
    (y.insn.action.next y.restricted ≠ .noReg →
      UpperZero (s.regs (y.insn.action.next y.restricted)))

section Runs

variable {host : HostWordsize} {machine : Machine Amd64Insn} {s s' : ExecState}

theorem Machine.Accepts.inv_of_enterable (hfacts : machine.Amd64Facts)
    (hsize : code.length % kBundleSize = 0)
    (h : machine.Accepts (amd64Spec host.bits) .noReg code) {t : ℕ} {regs : Regs}
    (ht : t < code.length → Enterable (machine.Amd64Target host code) t)
    (hregs : RegsOk base .noReg regs) :
    ExecState.Inv base (machine.Amd64Target host code) (machine.amd64Instructions code) code.length
      ⟨t, t, regs⟩ where
  regs := by
    have htiles := h.amd64Tiles hsize
    by_cases hx : ∃ x ∈ machine.amd64Instructions code, x.first = t
    · obtain ⟨x, hx, rfl⟩ := hx
      have hbounds := htiles.bounds hx
      rw [restrictedAt_first htiles hx]
      exact hregs.of_regularAfter ⟨nofun, nofun⟩ (h.regularAfter hfacts hx (ht (by omega)))
    · rw [restrictedAt_eq_noReg (by simpa using hx)]
      exact hregs
  entry := ht
  le := le_rfl
  prev := fun hlt => absurd hlt (lt_irrefl t)

theorem Machine.Accepts.effect_regsOk (hfacts : machine.Amd64Facts)
    (hsize : code.length % kBundleSize = 0) (hbase : base.toNat % 2 ^ 32 = 0)
    (h : machine.Accepts (amd64Spec host.bits) .noReg code)
    (hinv : s.Inv base (machine.Amd64Target host code) (machine.amd64Instructions code) code.length)
    {x : Located Amd64Insn} {regs' : Regs} (hx : x ∈ machine.amd64Instructions code)
    (hpc : x.first = s.pc) (heff : x.insn.action.Effect base x.insn.rexPrefix s.regs regs') :
    RegsOk base (x.insn.action.next x.restricted) regs' ∧
      (x.insn.action.next x.restricted ≠ .noReg →
        UpperZero (regs' (x.insn.action.next x.restricted))) := by
  have hregs := hinv.regs
  rw [← hpc, restrictedAt_first (h.amd64Tiles hsize) hx] at hregs
  obtain ⟨k, -, hxk⟩ := Machine.exists_bundle hx
  exact heff.regsOk hbase hregs (h.ok x hx).action (hfacts.andRsp _ _ _ x hxk)
    (hfacts.super_restricted hx)

theorem Machine.Accepts.inv_step (hfacts : machine.Amd64Facts)
    (hsize : code.length % kBundleSize = 0) (hfits : code.length < 2 ^ (host.bits - 1))
    (hbase : base.toNat % 2 ^ 32 = 0) (h : machine.Accepts (amd64Spec host.bits) .noReg code)
    (hinv : s.Inv base (machine.Amd64Target host code) (machine.amd64Instructions code) code.length)
    (hstep : Step base code (machine.amd64Instructions code) s s') :
    s'.Inv base (machine.Amd64Target host code) (machine.amd64Instructions code) code.length := by
  have htiles := h.amd64Tiles hsize
  cases hstep with
  | @fall x regs' hx hpc heff =>
    obtain ⟨hregs, hzero⟩ := h.effect_regsOk hfacts hsize hbase hinv hx hpc heff
    have hle := hinv.le
    have hlt := (htiles.bounds hx).2.1
    refine ⟨?_, hinv.entry, ?_, fun _ => ⟨x, hx, rfl, ?_, hzero⟩⟩
    · rcases h.restrictedAt_rip hsize hx with heq | ⟨heq, hregular⟩
      · exact heq ▸ hregs
      · exact heq ▸ hregs.of_regularAfter hregular ⟨nofun, nofun⟩
    · show s.entry ≤ x.rip
      omega
    · show s.entry ≤ x.first
      omega
  | @jump x regs' rel target hx hpc heff hrel ht =>
    obtain ⟨hregs, -⟩ := h.effect_regsOk hfacts hsize hbase hinv hx hpc heff
    obtain ⟨k, -, hxk⟩ := Machine.exists_bundle hx
    rw [hfacts.relative _ _ _ x hxk rel hrel] at hregs
    refine h.inv_of_enterable hfacts hsize (fun hlt => ?_) hregs
    have hdest : rel.jumpDest host.bits code x.rip = target := by
      rw [rel.jumpDest_of_target host ht, Nat.mod_eq_of_lt]
      exact lt_trans hlt (lt_of_lt_of_le hfits (Nat.pow_le_pow_right (by decide) (Nat.sub_le _ _)))
    have hjump := (h.ok x hx).relative.dest (amd64Spec host.bits) hrel
    rw [hdest] at hjump
    exact hjump.imp_right (h.jumps x hx target)
  | @indirect x regs' addTo andBytes target hx hpc heff haction ht =>
    obtain ⟨hregs, -⟩ := h.effect_regsOk hfacts hsize hbase hinv hx hpc heff
    have hr : x.restricted = .noReg := hfacts.super_restricted hx (by rw [haction]; trivial)
    rw [haction, hr] at hregs
    have hlt := htiles.bounds hx
    have hle := hinv.le
    have hbytes := h.enterable_le hfacts hx (hinv.entry (by omega)) (hpc ▸ hle)
    rw [hpc] at hbytes
    exact h.inv_of_enterable hfacts hsize (fun _ => .inl (ht hbytes)) hregs

theorem Machine.Accepts.inv_run (hfacts : machine.Amd64Facts)
    (hsize : code.length % kBundleSize = 0) (hfits : code.length < 2 ^ (host.bits - 1))
    (hbase : base.toNat % 2 ^ 32 = 0) (h : machine.Accepts (amd64Spec host.bits) .noReg code)
    (hs : s.Begins base (machine.Amd64Target host code))
    (hrun : Relation.ReflTransGen (Step base code (machine.amd64Instructions code)) s s') :
    s'.Inv base (machine.Amd64Target host code) (machine.amd64Instructions code) code.length := by
  induction hrun with
  | refl =>
    obtain ⟨pc, entry, regs⟩ := s
    obtain rfl : entry = pc := hs.entry
    exact h.inv_of_enterable hfacts hsize (fun _ => hs.enterable)
      ⟨hs.r15, fun h => h.elim nofun nofun, fun _ => hs.rsp, fun _ => hs.rbp⟩
  | tail _ hstep ih => exact h.inv_step hfacts hsize hfits hbase ih hstep

/-- The register left by an instruction other than the end of a superinstruction is one it
zero-extends. -/
theorem LastAction.zeroExtended_next {a : LastAction} {r : OperandName} (ha : ¬ a.EndsSuper)
    (hnext : a.next r ≠ .noReg) : a.ZeroExtended (a.next r) := by
  cases a with
  | process1OperandZeroExtends o =>
    simp only [next, ZeroExtended] at *
    split_ifs at * with h
    · rw [← Operand.restricted_iff.1 h]
    · exact absurd rfl hnext
  | process2OperandsZeroExtends o₀ o₁ =>
    simp only [next, ZeroExtended] at *
    split_ifs at * with h₀ h₁
    · exact .inl (by rw [← Operand.restricted_iff.1 h₀])
    · exact .inr (by rw [← Operand.restricted_iff.1 h₁])
    · exact absurd rfl hnext
  | sandboxedInstruction n => exact absurd trivial ha
  | naclCallOrJmp addTo n => exact absurd trivial ha
  | _ => exact absurd rfl hnext

theorem Machine.Accepts.safe_of_inv (hfacts : machine.Amd64Facts)
    (hsize : code.length % kBundleSize = 0)
    (h : machine.Accepts (amd64Spec host.bits) .noReg code)
    (hinv : s.Inv base (machine.Amd64Target host code) (machine.amd64Instructions code)
      code.length) :
    s.Safe base (machine.Amd64Target host code) (machine.amd64Instructions code) where
  regs := hinv.regs
  target := by
    intro ht
    have htiles := h.amd64Tiles hsize
    have hregular : RegularAfter (restrictedAt (machine.amd64Instructions code) s.pc) := by
      by_cases hx : ∃ x ∈ machine.amd64Instructions code, x.first = s.pc
      · obtain ⟨x, hx, hpc⟩ := hx
        rw [← hpc] at ht ⊢
        rw [restrictedAt_first htiles hx]
        exact h.regularAfter hfacts hx ht
      · rw [restrictedAt_eq_noReg (by simpa using hx)]
        exact ⟨nofun, nofun⟩
    exact ⟨hinv.regs.rsp hregular.2, hinv.regs.rbp hregular.1⟩
  memory := by
    intro x hx hpc b index haccess
    have htiles := h.amd64Tiles hsize
    have hok := h.ok x hx
    obtain ⟨hbase, hindex⟩ := hok.memory b index haccess
    refine ⟨hbase, fun hisIndex => ?_⟩
    obtain rfl := hindex hisIndex
    have hnone : x.restricted ≠ .noReg := fun hr => hisIndex (.inl hr)
    obtain ⟨haligned, y, hy, hrip, hr⟩ :=
      (Machine.restricted_cases hx).resolve_left fun h => hnone h.2
    have hnot : ¬ Enterable (machine.Amd64Target host code) s.pc := by
      rw [← hpc]
      rintro (h | hvalid)
      · exact haligned h
      · exact hok.not_consumes (hvalid.2 x hx) (.inl ⟨b, _, haccess, hisIndex⟩)
    -- No jump comes here, so the instruction in front was executed.
    have hlt : s.entry < s.pc := by
      refine lt_of_le_of_ne hinv.le fun heq => hnot ?_
      have := htiles.bounds hx
      rw [← heq]
      exact hinv.entry (by omega)
    obtain ⟨z, hz, hzrip, hentry, hzero⟩ := hinv.prev hlt
    have hzy : z = y := by
      have := htiles.bounds hz
      have := htiles.bounds hy
      rcases htiles.disjoint hz hy with heq | hlt | hlt
      · exact heq
      · omega
      · omega
    subst hzy
    rw [← hr] at hzero
    have hsuper : ¬ z.insn.action.EndsSuper := by
      intro hends
      have hznone := hfacts.super_restricted hz hends
      rw [hznone] at hr
      cases haction : z.insn.action <;> rw [haction] at hr hends
      case sandboxedInstruction => exact hnone hr
      case naclCallOrJmp => exact hnone hr
      all_goals exact hends
    refine ⟨hzero hnone, hnot, z, hz, hzrip, hentry, ?_⟩
    rw [hr] at hnone ⊢
    exact LastAction.zeroExtended_next hsuper hnone

end Runs

/-- Soundness of the restricted register.  Every run of an accepted chunk that begins where a jump
may go, with `%rsp` and `%rbp` in the sandbox, keeps the promises of `ExecState.Safe`.  The initial
restricted register is only set by a test of single instructions. -/
theorem restrictedRegister_safe {δ : Type} (host : HostWordsize) (enoughMemory : Bool)
    {options : Options} (hinitial : options.restrictedRegisterInitialValue = .noReg)
    (hstream : options.processChunkAsAContiguousStream = false) {callback : Callback δ}
    (hread : callback.ReadOnly) (hreject : callback.RejectsErrors) {machine : Machine Amd64Insn}
    (hfacts : machine.Amd64Facts) {mem mem' : Memory δ}
    (hfits : mem.code.length < 2 ^ (host.bits - 1))
    (haccept : validateChunkAMD64 host machine enoughMemory options callback mem =
      some (true, mem'))
    {base : BitVec 64} (hbase : base.toNat % 2 ^ 32 = 0) {s s' : ExecState}
    (hs : s.Begins base (machine.Amd64Target host mem.code))
    (hrun : Relation.ReflTransGen (Step base mem.code (machine.amd64Instructions mem.code)) s s') :
    s'.Safe base (machine.Amd64Target host mem.code) (machine.amd64Instructions mem.code) := by
  have hsize : mem.code.length % kBundleSize = 0 := by
    by_contra hsize
    unfold validateChunkAMD64 validateChunk at haccept
    rw [if_pos hsize] at haccept
    cases haccept
  have hbits := host.add_bits_le hfits
  obtain ⟨accepted, mem'', hvalidate, -, haccepts, -⟩ := validateChunk_spec host.bits_pos
    (amd64_meets host.bits_pos host.dvd_bits) hfacts.shaped.shaped enoughMemory hstream hread mem
    hsize hbits (Nat.le_succ _)
  have h : machine.Accepts (amd64Spec host.bits) .noReg mem.code := by
    obtain rfl : accepted = true := by
      have := hvalidate.symm.trans haccept
      simp only [Option.some.injEq, Prod.mk.injEq] at this
      exact this.1
    rw [← hinitial]
    exact haccepts hreject rfl
  exact h.safe_of_inv hfacts hsize (h.inv_run hfacts hsize hfits hbase hs hrun)

theorem smallAmd64_facts : smallAmd64.Amd64Facts := by
  have hinsn : ∀ first r bytes,
      ∀ x ∈ (smallAmd64.division (fun r i => i.action.next r) first r bytes).insns,
      ¬ x.insn.action.EndsSuper ∧ (x.insn.relative ≠ none → x.insn.action = .process0Operands) ∧
        ∀ m, x.insn.action ≠ .stackModification m := by
    intro first r bytes x hx
    obtain ⟨e, he, hinsn⟩ := Machine.exists_encoding hx
    rw [← hinsn]
    simp only [List.mem_cons, List.not_mem_nil, or_false] at he
    rcases he with rfl | rfl | rfl | rfl <;> exact ⟨id, by simp, nofun⟩
  refine ⟨smallAmd64_shaped, ?_, ?_, ?_⟩
  · exact fun first r bytes x hx h => absurd h (hinsn first r bytes x hx).1
  · exact fun first r bytes x hx rel h => (hinsn first r bytes x hx).2.1 (by simp [h])
  · exact fun first r bytes x hx mask h => absurd h ((hinsn first r bytes x hx).2.2 _)

/-- `mov %eax, %eax` and `mov (%r15, %rax, 1), %ecx`, then `nop`s. -/
def loadChunk : Memory Unit :=
  ⟨[0x89, 0xc0, 0x41, 0x8b, 0x0c, 0x07] ++ List.replicate 26 0x90, ()⟩

theorem loadChunk_accepted : validateChunkAMD64 .bits64 smallAmd64 true .none rejectAll loadChunk =
    some (true, loadChunk) := by
  decide +kernel

/-- In front of the load its index is zero-extended. -/
theorem restrictedRegister_safe_loadChunk :
    ExecState.Safe 0 (smallAmd64.Amd64Target .bits64 loadChunk.code)
      (smallAmd64.amd64Instructions loadChunk.code) ⟨2, 0, fun _ => 0⟩ := by
  have hzero : Sandboxed 0 0 := ⟨le_rfl, by decide⟩
  have hbegins : ExecState.Begins 0 (smallAmd64.Amd64Target .bits64 loadChunk.code)
      ⟨0, 0, fun _ => 0⟩ := ⟨.inl rfl, rfl, rfl, hzero, hzero⟩
  have heffect : LastAction.Effect 0 false (fun _ => 0) (fun _ => 0)
      (.process1OperandZeroExtends ⟨.rax, .restricted⟩) :=
    ⟨⟨fun _ => rfl, fun _ => rfl, fun _ => .inl rfl⟩, fun _ _ _ => Nat.two_pow_pos 32⟩
  have hmem : ⟨.noReg, 0, 2, ⟨0, false, none, none,
      .process1OperandZeroExtends ⟨.rax, .restricted⟩, false⟩⟩ ∈
      smallAmd64.amd64Instructions loadChunk.code :=
    List.mem_of_getElem? (show (smallAmd64.amd64Instructions loadChunk.code)[0]? = _ from rfl)
  exact restrictedRegister_safe .bits64 true rfl rfl rejectAll_readOnly rejectAll_rejectsErrors
    smallAmd64_facts (by decide) loadChunk_accepted (by decide) hbegins
    (.single (.fall hmem rfl heffect))

end Ragel

end SandboxingNaCl
