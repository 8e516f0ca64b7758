import SandboxingNaCl.Ragel.Actions

/-!
# Direct jumps

In an accepted chunk no instruction and no superinstruction crosses the end of a bundle, and a
direct jump goes to the start of a bundle or to an instruction that is not inside a superinstruction
and needs nothing of the instruction before it.
-/

namespace SandboxingNaCl

namespace Ragel

variable {w : ℕ} {δ ι : Type}

theorem Machine.bundle_subset {machine : Machine ι} {next : OperandName → ι → OperandName}
    {r : OperandName} {code : List UInt8} {k : ℕ} (hk : k < code.length / kBundleSize)
    {x : Located ι} (hx : x ∈ (machine.bundle next r code k).insns) :
    x ∈ machine.instructions next r code :=
  List.mem_flatMap.2 ⟨k, List.mem_range.2 hk, hx⟩

theorem Machine.exists_bundle {machine : Machine ι} {next : OperandName → ι → OperandName}
    {r : OperandName} {code : List UInt8} {x : Located ι}
    (hx : x ∈ machine.instructions next r code) :
    ∃ k < code.length / kBundleSize, x ∈ (machine.bundle next r code k).insns := by
  obtain ⟨k, hk, hx⟩ := List.mem_flatMap.1 hx
  exact ⟨k, List.mem_range.1 hk, hx⟩

theorem Machine.Accepts.tiles {machine : Machine ι} {spec : ArchSpec w ι} {r : OperandName}
    {code : List UInt8} (h : machine.Accepts spec r code)
    (hsize : code.length % kBundleSize = 0) :
    Tiles 0 (machine.instructions spec.next r code) code.length := by
  have hn : ∀ n ≤ code.length / kBundleSize, Tiles 0
      ((List.range n).flatMap fun k => (machine.bundle spec.next r code k).insns)
      (kBundleSize * n) := by
    intro n
    induction n with
    | zero => exact fun _ => rfl
    | succ n ih =>
      intro hn
      obtain ⟨last, -, htiles, hlast⟩ := machine.divide_tiles spec.next _ machine.start
        (kBundleSize * n) r
        ((code.take (kBundleSize * n + kBundleSize)).drop (kBundleSize * n)) le_rfl
      have hlast := hlast (h.complete n hn).1
      rw [bundle_bytes_length hn] at hlast
      rw [List.range_succ, List.flatMap_append, Nat.mul_succ, ← hlast, List.flatMap_singleton]
      exact (ih (Nat.le_of_succ_le hn)).append htiles
  have hlen : kBundleSize * (code.length / kBundleSize) = code.length :=
    Nat.mul_div_cancel' (Nat.dvd_of_mod_eq_zero hsize)
  have := hn _ le_rfl
  rwa [hlen] at this

theorem Tiles.eq_of_first_mem {a b : ℕ} {l : List (Located ι)} (h : Tiles a l b)
    {x y : Located ι} (hx : x ∈ l) (hy : y ∈ l) (hle : x.first ≤ y.first) (hlt : y.first < x.rip) :
    x = y := by
  have := (h.bounds hy).2.1
  rcases h.disjoint hx hy with h | h | h
  · exact h
  · omega
  · omega

/-- What a chunk's division and its direct jumps satisfy.  `consumes` marks the instructions that
use a register restricted by the one before. -/
structure ControlFlow (w : ℕ) (relative : ι → Option Relative) (sandboxBytes : ι → ℕ)
    (consumes : ι → Prop) (code : List UInt8) (insns : List (Located ι)) : Prop where
  tiles : Tiles 0 insns code.length
  bundle : ∀ x ∈ insns, sandboxBytes x.insn ≤ x.first ∧
    (x.first - sandboxBytes x.insn) / kBundleSize = (x.rip - 1) / kBundleSize
  jump : ∀ x ∈ insns, ∀ rel, relative x.insn = some rel →
    rel.jumpDest w code x.rip % kBundleSize = 0 ∨
      ∃ y ∈ insns, y.first = rel.jumpDest w code x.rip ∧ ¬ consumes y.insn ∧
        ∀ z ∈ insns, ¬ (z.first - sandboxBytes z.insn < y.first ∧ y.first < z.rip)

/-- A superinstruction begins where an instruction of its bundle begins. -/
def Machine.Amd64Shaped (machine : Machine Amd64Insn) : Prop :=
  ∀ first r bytes, ∀ x ∈ (machine.division (fun r i => i.action.next r) first r bytes).insns,
    ∃ y ∈ (machine.division (fun r i => i.action.next r) first r bytes).insns,
      y.first + x.insn.action.sandboxBytes = x.first

/-- A superinstruction is an `and` of three bytes and an indirect jump. -/
def Machine.Ia32Shaped (machine : Machine Ia32Insn) : Prop :=
  ∀ first r bytes, ∀ x ∈ (machine.division (fun r _ => r) first r bytes).insns,
    x.insn.special = true → ∃ y ∈ (machine.division (fun r _ => r) first r bytes).insns,
      y.insn.special = false ∧ y.size = 3 ∧ y.rip = x.first

theorem Machine.first_le_division {machine : Machine ι} {next : OperandName → ι → OperandName}
    {first : ℕ} {r : OperandName} {bytes : List UInt8} {x : Located ι}
    (hx : x ∈ (machine.division next first r bytes).insns) : first ≤ x.first := by
  obtain ⟨last, -, htiles, -⟩ := machine.divide_tiles next _ machine.start first r bytes le_rfl
  exact (htiles.bounds hx).1

theorem Machine.Amd64Shaped.shaped {machine : Machine Amd64Insn} (h : machine.Amd64Shaped) :
    machine.Shaped (amd64Spec w) := by
  intro first r bytes x hx
  obtain ⟨y, hy, hfirst⟩ := h first r bytes x hx
  have := Machine.first_le_division hy
  show first + x.insn.action.sandboxBytes ≤ x.first
  omega

theorem Machine.Ia32Shaped.shaped {machine : Machine Ia32Insn} (h : machine.Ia32Shaped) :
    machine.Shaped (ia32Spec w) := by
  intro first r bytes x hx
  show first + x.insn.sandboxBytes ≤ x.first
  unfold Ia32Insn.sandboxBytes
  split_ifs with hspecial
  · obtain ⟨y, hy, -, hsize, hrip⟩ := h first r bytes x hx hspecial
    have := Machine.first_le_division hy
    unfold Located.rip at hrip
    omega
  · exact Machine.first_le_division hx

theorem Machine.Shaped.bundle {machine : Machine ι} {spec : ArchSpec w ι}
    (h : machine.Shaped spec) {r : OperandName} {code : List UInt8} {x : Located ι}
    (hx : x ∈ machine.instructions spec.next r code) :
    spec.sandboxBytes x.insn ≤ x.first ∧
      (x.first - spec.sandboxBytes x.insn) / kBundleSize = (x.rip - 1) / kBundleSize := by
  obtain ⟨k, hk, hx⟩ := Machine.exists_bundle hx
  have hbounds := Machine.bundle_bounds hk hx
  have hshape := h _ _ _ x hx
  unfold kBundleSize at *
  omega

theorem RelativeOk.dest (spec : ArchSpec w ι) {code : List UInt8} {x : Located ι}
    (h : RelativeOk w code code.length x.rip (spec.relative x.insn)) {rel : Relative}
    (hrel : spec.relative x.insn = some rel) :
    rel.jumpDest w code x.rip % kBundleSize = 0 ∨
      spec.Dest code x (rel.jumpDest w code x.rip) := by
  by_cases haligned : rel.jumpDest w code x.rip % kBundleSize = 0
  · exact .inl haligned
  · exact .inr ⟨⟨rel, hrel, rfl⟩, haligned, (h rel hrel).resolve_left haligned⟩

/-- The instruction uses a register restricted by the one before. -/
def Amd64Insn.Consumes (i : Amd64Insn) : Prop :=
  (∃ base index, i.memoryAccess = some (base, index) ∧ IsIndex index) ∨
    (∃ op, i.action = .rbpSandboxing op) ∨ ∃ op, i.action = .rspSandboxing op

theorem Amd64Insn.Ok.not_consumes {code : List UInt8} {size : ℕ} {x : Located Amd64Insn}
    (h : Ok w code size x) (hc : ¬ Clears code x x.first) : ¬ x.insn.Consumes := by
  rintro (⟨base, index, haccess, hindex⟩ | ⟨op, hop⟩ | ⟨op, hop⟩)
  · obtain ⟨hbase, hr⟩ := h.memory base index haccess
    exact hc (.inl ⟨⟨base, index, haccess, hbase, hindex, hr hindex⟩, rfl⟩)
  · exact hc (.inr (by rw [hop]; rfl))
  · exact hc (.inr (by rw [hop]; rfl))

theorem Amd64Insn.Ok.clears {code : List UInt8} {size t : ℕ} {x : Located Amd64Insn}
    (h : Ok w code size x) (hle : x.insn.action.sandboxBytes ≤ x.first)
    (ht : x.first - x.insn.action.sandboxBytes < t) (ht' : t ≤ x.first) : Clears code x t := by
  refine .inr ?_
  have hok := h.action
  cases haction : x.insn.action <;> rw [haction] at ht hle hok
  case sandboxedInstruction n => exact ⟨by simp only [LastAction.sandboxBytes] at *; omega, ht'⟩
  case naclCallOrJmp addTo andBytes =>
    exact ⟨hok, by simp only [LastAction.sandboxBytes] at *; omega, ht'⟩
  all_goals
    simp only [LastAction.sandboxBytes] at ht
    omega

theorem controlFlow_of_accepts_amd64 {machine : Machine Amd64Insn} (hshape : machine.Amd64Shaped)
    {r : OperandName} {code : List UInt8} (hsize : code.length % kBundleSize = 0)
    (h : machine.Accepts (amd64Spec w) r code) :
    ControlFlow w Amd64Insn.relative (fun i => i.action.sandboxBytes) Amd64Insn.Consumes code
      (machine.instructions (fun r i => i.action.next r) r code) where
  tiles := h.tiles hsize
  bundle := fun x hx => (hshape.shaped : machine.Shaped (amd64Spec w)).bundle hx
  jump := by
    intro x hx rel hrel
    have htiles := h.tiles hsize
    refine ((h.ok x hx).relative.dest (amd64Spec w) hrel).imp_right fun hdest => ?_
    obtain ⟨⟨x', hx', hmark⟩, hclears⟩ := h.jumps x hx _ hdest
    obtain ⟨y, hy, hfirst⟩ := htiles.exists_first (ne_of_lt hdest.2.2) (.inr ⟨x', hx', hmark.symm⟩)
    rw [← hfirst] at hclears
    refine ⟨y, hy, hfirst, (h.ok y hy).not_consumes (hclears y hy), fun z hz hmiddle => ?_⟩
    rcases Nat.lt_or_ge z.first y.first with hlt | hge
    · have := htiles.eq_of_first_mem hz hy hlt.le hmiddle.2
      rw [this] at hlt
      exact lt_irrefl _ hlt
    · have hshaped : machine.Shaped (amd64Spec w) := hshape.shaped
      exact hclears z hz ((h.ok z hz).clears (hshaped.bundle hz).1 hmiddle.1 hge)

theorem Machine.Ia32Shaped.exists_and {machine : Machine Ia32Insn} (h : machine.Ia32Shaped)
    {r : OperandName} {code : List UInt8} {x : Located Ia32Insn}
    (hx : x ∈ machine.instructions (fun r _ => r) r code) (hspecial : x.insn.special = true) :
    ∃ y ∈ machine.instructions (fun r _ => r) r code, y.insn.special = false ∧
      y.first = x.first - 3 ∧ y.rip = x.first := by
  obtain ⟨k, hk, hx⟩ := Machine.exists_bundle hx
  obtain ⟨y, hy, hy', hsize, hrip⟩ := h _ _ _ x hx hspecial
  refine ⟨y, Machine.bundle_subset hk hy, hy', ?_, hrip⟩
  unfold Located.rip at hrip
  omega

theorem controlFlow_of_accepts_ia32 {machine : Machine Ia32Insn} (hshape : machine.Ia32Shaped)
    {r : OperandName} {code : List UInt8} (hsize : code.length % kBundleSize = 0)
    (h : machine.Accepts (ia32Spec w) r code) :
    ControlFlow w Ia32Insn.relative Ia32Insn.sandboxBytes (fun _ => False) code
      (machine.instructions (fun r _ => r) r code) where
  tiles := h.tiles hsize
  bundle := fun x hx => (hshape.shaped : machine.Shaped (ia32Spec w)).bundle hx
  jump := by
    intro x hx rel hrel
    have htiles := h.tiles hsize
    refine ((h.ok x hx).relative.dest (ia32Spec w) hrel).imp_right fun hdest => ?_
    obtain ⟨⟨x', hx', hmark⟩, -⟩ := h.jumps x hx _ hdest
    -- The marked address is where an instruction begins that is not the end of a superinstruction.
    obtain ⟨y, hy, hyspecial, hfirst⟩ : ∃ y ∈ machine.instructions (fun r _ => r) r code,
        y.insn.special = false ∧ y.first = rel.jumpDest w code x.rip := by
      have hmark' : rel.jumpDest w code x.rip = x'.first - x'.insn.sandboxBytes := hmark
      cases hspecial : x'.insn.special with
      | false => exact ⟨x', hx', hspecial, by simp [hmark', Ia32Insn.sandboxBytes, hspecial]⟩
      | true =>
        obtain ⟨y, hy, hyspecial, hfirst, -⟩ := hshape.exists_and hx' hspecial
        exact ⟨y, hy, hyspecial, by simp [hmark', Ia32Insn.sandboxBytes, hspecial, hfirst]⟩
    refine ⟨y, hy, hfirst, not_false, fun z hz hmiddle => ?_⟩
    rcases Nat.lt_or_ge z.first y.first with hlt | hge
    · have := htiles.eq_of_first_mem hz hy hlt.le hmiddle.2
      rw [this] at hlt
      exact lt_irrefl _ hlt
    · cases hspecial : z.insn.special with
      | false =>
        simp only [Ia32Insn.sandboxBytes, hspecial] at hmiddle
        exact absurd hmiddle.1 (not_lt.2 hge)
      | true =>
        simp only [Ia32Insn.sandboxBytes, hspecial, if_true] at hmiddle
        obtain ⟨a, ha, haspecial, hafirst, harip⟩ := hshape.exists_and hz hspecial
        rcases Nat.lt_or_ge y.first z.first with hlt | hge'
        · have := htiles.eq_of_first_mem ha hy (by omega) (by omega)
          rw [this] at hafirst
          omega
        · have := htiles.eq_of_first_mem hz hy hge' hmiddle.2
          rw [this, hyspecial] at hspecial
          cases hspecial

theorem HostWordsize.bits_pos (host : HostWordsize) : 0 < host.bits := by cases host <;> decide

theorem HostWordsize.dvd_bits (host : HostWordsize) : kBundleSize ∣ host.bits := by
  cases host <;> decide

theorem HostWordsize.add_bits_le (host : HostWordsize) {n : ℕ} (hn : n < 2 ^ (host.bits - 1)) :
    n + 1 + host.bits ≤ 2 ^ host.bits := by
  cases host <;> simp only [bits] at * <;> omega

/-- Control-flow integrity of both validators.  They stay inside their bitmaps on every chunk of
whole bundles, and what they accept satisfies `ControlFlow`.  No caller asks for the chunk to be
processed as one stream. -/
theorem controlFlow_validateChunk (host : HostWordsize) (enoughMemory : Bool) {options : Options}
    (hstream : options.processChunkAsAContiguousStream = false) {callback : Callback δ}
    (hread : callback.ReadOnly) (hreject : callback.RejectsErrors)
    {amd64Machine : Machine Amd64Insn} (hamd64 : amd64Machine.Amd64Shaped)
    {ia32Machine : Machine Ia32Insn} (hia32 : ia32Machine.Ia32Shaped) (mem : Memory δ)
    (hsize : mem.code.length % kBundleSize = 0) (hfits : mem.code.length < 2 ^ (host.bits - 1)) :
    (∃ accepted mem', validateChunkAMD64 host amd64Machine enoughMemory options callback mem =
        some (accepted, mem') ∧ (accepted = true →
      ControlFlow host.bits Amd64Insn.relative (fun i => i.action.sandboxBytes) Amd64Insn.Consumes
        mem.code (amd64Machine.instructions (fun r i => i.action.next r)
          options.restrictedRegisterInitialValue mem.code))) ∧
    (∃ accepted mem', validateChunkIA32 host ia32Machine enoughMemory options callback mem =
        some (accepted, mem') ∧ (accepted = true →
      ControlFlow host.bits Ia32Insn.relative Ia32Insn.sandboxBytes (fun _ => False) mem.code
        (ia32Machine.instructions (fun r _ => r) options.restrictedRegisterInitialValue
          mem.code))) := by
  have hbits := host.add_bits_le hfits
  constructor
  · obtain ⟨accepted, mem', hrun, -, haccepts, -⟩ := validateChunk_spec host.bits_pos
      (amd64_meets host.bits_pos host.dvd_bits) hamd64.shaped enoughMemory hstream hread mem hsize
      hbits (Nat.le_succ _)
    exact ⟨accepted, mem', hrun, fun h =>
      controlFlow_of_accepts_amd64 hamd64 hsize (haccepts hreject h)⟩
  · obtain ⟨accepted, mem', hrun, -, haccepts, -⟩ := validateChunk_spec host.bits_pos
      (ia32_meets host.bits_pos) hia32.shaped enoughMemory hstream hread mem hsize
      (show mem.code.length + host.bits ≤ _ by omega) le_rfl
    exact ⟨accepted, mem', hrun, fun h =>
      controlFlow_of_accepts_ia32 hia32 hsize (haccepts hreject h)⟩

/-! ## A machine for a few encodings -/

/-- Instructions by their first bytes, without superinstructions. -/
structure Encoding (ι : Type) where
  opcode : List UInt8
  size : ℕ
  insn : ι

/-- The machine of a table of encodings. -/
def Machine.ofTable (table : List (Encoding ι)) (h : ∀ e ∈ table, 0 < e.size) : Machine ι where
  State := Unit
  start := ()
  next _ bytes :=
    match table.find? fun e => e.opcode.isPrefixOf bytes && e.size ≤ bytes.length with
    | some e => .accepted ⟨e.size, e.insn, ()⟩
    | none => .stuck 0
  size_pos := by
    intro q bytes m hm
    split at hm
    case h_1 e he =>
      cases hm
      exact h e (List.mem_of_find?_eq_some he)
    case h_2 => cases hm
  size_le := by
    intro q bytes m hm
    split at hm
    case h_1 e he =>
      cases hm
      have := List.find?_some he
      simp only [Bool.and_eq_true, decide_eq_true_eq] at this
      exact this.2
    case h_2 => cases hm

theorem Machine.exists_encoding {table : List (Encoding ι)} {h : ∀ e ∈ table, 0 < e.size}
    {next : OperandName → ι → OperandName} {first : ℕ} {r : OperandName} {bytes : List UInt8}
    {x : Located ι} (hx : x ∈ ((Machine.ofTable table h).division next first r bytes).insns) :
    ∃ e ∈ table, e.insn = x.insn := by
  refine Machine.divide_forall (P := fun i => ∃ e ∈ table, e.insn = i) ?_ _ _ _ _ _ x hx
  intro q bytes m hm
  simp only [ofTable] at hm
  split at hm
  case h_1 e he =>
    cases hm
    exact ⟨e, List.mem_of_find?_eq_some he, rfl⟩
  case h_2 => cases hm

/-- `nop`, `jmp rel8`, `mov %eax, %eax` and `mov (%r15, %rax, 1), %ecx`. -/
def smallAmd64 : Machine Amd64Insn :=
  .ofTable [
    ⟨[0x90], 1, ⟨0, false, none, none, .process0Operands, false⟩⟩,
    ⟨[0xeb], 2, ⟨0, false, none, some .rel8, .process0Operands, false⟩⟩,
    ⟨[0x89, 0xc0], 2,
      ⟨0, false, none, none, .process1OperandZeroExtends ⟨.rax, .restricted⟩, false⟩⟩,
    ⟨[0x41, 0x8b, 0x0c, 0x07], 4, ⟨0, true, some (.r15, .rax), none,
      .process1OperandZeroExtends ⟨.rcx, .restricted⟩, false⟩⟩]
  (by simp)

/-- `nop` and `jmp rel8`. -/
def smallIa32 : Machine Ia32Insn :=
  .ofTable [⟨[0x90], 1, ⟨0, none, false, false⟩⟩, ⟨[0xeb], 2, ⟨0, some .rel8, false, false⟩⟩]
    (by simp)

theorem smallAmd64_shaped : smallAmd64.Amd64Shaped := by
  intro first r bytes x hx
  obtain ⟨e, he, hinsn⟩ := Machine.exists_encoding hx
  refine ⟨x, hx, ?_⟩
  rw [← hinsn]
  simp only [List.mem_cons, List.not_mem_nil, or_false] at he
  rcases he with rfl | rfl | rfl | rfl <;> rfl

theorem smallIa32_shaped : smallIa32.Ia32Shaped := by
  intro first r bytes x hx hspecial
  obtain ⟨e, he, hinsn⟩ := Machine.exists_encoding hx
  rw [← hinsn] at hspecial
  simp only [List.mem_cons, List.not_mem_nil, or_false] at he
  rcases he with rfl | rfl <;> cases hspecial

/-- The callback that takes no error, as `NaClDfaProcessValidationError`. -/
def rejectAll : Callback Unit := fun _ _ _ mem => (false, mem)

theorem rejectAll_readOnly : rejectAll.ReadOnly := fun _ _ _ _ => rfl

theorem rejectAll_rejectsErrors : rejectAll.RejectsErrors := fun _ _ _ _ _ => rfl

/-- A jump over a `nop`, in a bundle of them. -/
def smallChunk : Memory Unit := ⟨[0xeb, 0x01] ++ List.replicate 30 0x90, ()⟩

theorem smallChunk_accepted : validateChunkAMD64 .bits64 smallAmd64 true .none rejectAll smallChunk =
    some (true, smallChunk) := by
  decide +kernel

theorem controlFlow_validateChunk_smallChunk :
    ControlFlow 64 Amd64Insn.relative (fun i => i.action.sandboxBytes) Amd64Insn.Consumes
      smallChunk.code (smallAmd64.instructions (fun r i => i.action.next r) .noReg
        smallChunk.code) := by
  obtain ⟨⟨accepted, mem', hrun, hflow⟩, -⟩ := controlFlow_validateChunk .bits64 true
    (show Options.none.processChunkAsAContiguousStream = false from rfl) rejectAll_readOnly rejectAll_rejectsErrors smallAmd64_shaped
    smallIa32_shaped smallChunk rfl (by decide)
  rw [smallChunk_accepted] at hrun
  cases hrun
  exact hflow rfl

end Ragel

end SandboxingNaCl
