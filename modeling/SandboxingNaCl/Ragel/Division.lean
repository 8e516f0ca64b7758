import SandboxingNaCl.Ragel.ValidateChunk

/-!
# The division of a chunk into instructions

With a callback that leaves the code alone, the machine of a validator divides each bundle into
instructions, whatever the checks say.  `ArchSpec` states what a validator does on one of them, and
`validateChunk_spec` what then becomes of a chunk.
-/

namespace SandboxingNaCl

namespace Ragel

variable {w : ℕ} {δ ι : Type}

def Callback.ReadOnly (callback : Callback δ) : Prop :=
  ∀ first last info mem, (callback first last info mem).2.code = mem.code

/-- The callback answers every error with `FALSE`, as the one in the comment on
`ValidationCallbackFunc` does. -/
def Callback.RejectsErrors (callback : Callback δ) : Prop :=
  ∀ first last info mem, ¬ Info.Clean info ∨ info &&& badJumpTarget ≠ 0 →
    (callback first last info mem).1 = false

/-- An instruction of the code, with the register that is restricted where it begins. -/
structure Located (ι : Type) where
  restricted : OperandName
  first : ℕ
  size : ℕ
  insn : ι

def Located.rip (x : Located ι) : ℕ := x.first + x.size

/-- What the machine makes of a span: its instructions, the register restricted after them, and
where the machine is stuck, if it is. -/
structure Division (ι : Type) where
  insns : List (Located ι)
  restricted : OperandName
  stuck : Option (ℕ × ℕ)

/-- The division of the bytes from `first` on, at most `n` instructions. -/
def Machine.divide (machine : Machine ι) (next : OperandName → ι → OperandName) :
    ℕ → machine.State → ℕ → OperandName → List UInt8 → Division ι
  | 0, _, _, r, _ => ⟨[], r, none⟩
  | n + 1, q, first, r, bytes =>
    if bytes = [] then
      ⟨[], r, none⟩
    else
      match machine.next q bytes with
      | .stuck k => ⟨[], r, some (first, first + k)⟩
      | .accepted m =>
        let d := machine.divide next n m.state (first + m.size) (next r m.insn)
          (bytes.drop m.size)
        { d with insns := ⟨r, first, m.size, m.insn⟩ :: d.insns }

/-- The instructions follow each other from `a` to `b`. -/
def Tiles : ℕ → List (Located ι) → ℕ → Prop
  | a, [], b => a = b
  | a, x :: l, b => x.first = a ∧ 0 < x.size ∧ Tiles x.rip l b

theorem Tiles.append {a b c : ℕ} {l l' : List (Located ι)} (h : Tiles a l b) (h' : Tiles b l' c) :
    Tiles a (l ++ l') c := by
  induction l generalizing a with
  | nil => cases h; exact h'
  | cons x l ih => exact ⟨h.1, h.2.1, ih h.2.2⟩

theorem Tiles.le {a b : ℕ} {l : List (Located ι)} (h : Tiles a l b) : a ≤ b := by
  induction l generalizing a with
  | nil => exact le_of_eq h
  | cons x l ih =>
    have := ih h.2.2
    have := h.1
    unfold Located.rip at *
    omega

theorem Tiles.bounds {a b : ℕ} {l : List (Located ι)} (h : Tiles a l b) {x : Located ι}
    (hx : x ∈ l) : a ≤ x.first ∧ x.first < x.rip ∧ x.rip ≤ b := by
  induction l generalizing a with
  | nil => cases hx
  | cons y l ih =>
    obtain ⟨rfl, hpos, ht⟩ := h
    have hy : y.first < y.rip := Nat.lt_add_of_pos_right hpos
    rcases List.mem_cons.1 hx with rfl | hx
    · exact ⟨le_rfl, hy, ht.le⟩
    · have := ih ht hx
      omega

theorem Tiles.disjoint {a b : ℕ} {l : List (Located ι)} (h : Tiles a l b) {x y : Located ι}
    (hx : x ∈ l) (hy : y ∈ l) : x = y ∨ x.rip ≤ y.first ∨ y.rip ≤ x.first := by
  induction l generalizing a with
  | nil => cases hx
  | cons z l ih =>
    rcases List.mem_cons.1 hx with rfl | hx'
    · rcases List.mem_cons.1 hy with rfl | hy'
      · exact .inl rfl
      · exact .inr (.inl (h.2.2.bounds hy').1)
    · rcases List.mem_cons.1 hy with rfl | hy'
      · exact .inr (.inr (h.2.2.bounds hx').1)
      · exact ih h.2.2 hx' hy'

theorem Tiles.exists_first {a b t : ℕ} {l : List (Located ι)} (h : Tiles a l b) (hb : t ≠ b)
    (ht : t = a ∨ ∃ x ∈ l, x.rip = t) : ∃ y ∈ l, y.first = t := by
  induction l generalizing a with
  | nil =>
    rcases ht with rfl | ⟨x, hx, -⟩
    · exact absurd h hb
    · cases hx
  | cons y l ih =>
    obtain ⟨rfl, hpos, ht'⟩ := h
    rcases ht with rfl | ⟨x, hx, hrip⟩
    · exact ⟨y, List.mem_cons_self, rfl⟩
    · have hcases : t = y.rip ∨ ∃ x ∈ l, x.rip = t := by
        rcases List.mem_cons.1 hx with rfl | hx
        · exact .inl hrip.symm
        · exact .inr ⟨x, hx, hrip⟩
      obtain ⟨z, hz, hfirst⟩ := ih ht' hcases
      exact ⟨z, List.mem_cons_of_mem _ hz, hfirst⟩

theorem Machine.divide_tiles (machine : Machine ι) (next : OperandName → ι → OperandName) :
    ∀ (n : ℕ) (q : machine.State) (first : ℕ) (r : OperandName) (bytes : List UInt8),
      bytes.length ≤ n → ∃ last ≤ first + bytes.length,
        Tiles first (machine.divide next n q first r bytes).insns last ∧
        ((machine.divide next n q first r bytes).stuck = none → last = first + bytes.length)
  | 0, _, first, _, bytes, hn =>
    ⟨first, Nat.le_add_right _ _, rfl, fun _ => by omega⟩
  | n + 1, q, first, r, bytes, hn => by
      unfold divide
      split
      case isTrue hnil =>
        subst hnil
        exact ⟨first, le_rfl, rfl, fun _ => rfl⟩
      case isFalse hnil =>
        split
        case h_1 k hk => exact ⟨first, Nat.le_add_right _ _, rfl, nofun⟩
        case h_2 m hm =>
          have hpos := machine.size_pos hm
          have hle := machine.size_le hm
          have hlen : (bytes.drop m.size).length = bytes.length - m.size := List.length_drop
          obtain ⟨last, hlast, htiles, hstuck⟩ := machine.divide_tiles next n m.state
            (first + m.size) (next r m.insn) (bytes.drop m.size) (by omega)
          refine ⟨last, by omega, ⟨rfl, hpos, htiles⟩, fun h => ?_⟩
          have := hstuck h
          omega

theorem Machine.divide_forall {machine : Machine ι} {next : OperandName → ι → OperandName}
    {P : ι → Prop} (h : ∀ q bytes m, machine.next q bytes = .accepted m → P m.insn) :
    ∀ (n : ℕ) (q : machine.State) (first : ℕ) (r : OperandName) (bytes : List UInt8),
      ∀ x ∈ (machine.divide next n q first r bytes).insns, P x.insn
  | 0, _, _, _, _, x, hx => by cases hx
  | n + 1, q, first, r, bytes, x, hx => by
      unfold divide at hx
      split at hx
      · cases hx
      · split at hx
        case h_1 => cases hx
        case h_2 m hm =>
          rcases List.mem_cons.1 hx with rfl | hx
          · exact h _ _ _ hm
          · exact divide_forall h n _ _ _ _ x hx

/-- The register restricted where an instruction begins is what the one in front of it left, from `r`
on to `r'`. -/
def Linked (next : OperandName → ι → OperandName) :
    OperandName → List (Located ι) → OperandName → Prop
  | r, [], r' => r = r'
  | r, x :: l, r' => x.restricted = r ∧ Linked next (next r x.insn) l r'

theorem Machine.divide_linked (machine : Machine ι) (next : OperandName → ι → OperandName) :
    ∀ (n : ℕ) (q : machine.State) (first : ℕ) (r : OperandName) (bytes : List UInt8),
      Linked next r (machine.divide next n q first r bytes).insns
        (machine.divide next n q first r bytes).restricted
  | 0, _, _, _, _ => rfl
  | n + 1, q, first, r, bytes => by
      unfold divide
      split
      · exact rfl
      · split
        · exact rfl
        · exact ⟨rfl, machine.divide_linked next n _ _ _ _⟩

theorem Linked.pred {next : OperandName → ι → OperandName} {a b : ℕ} {r r' : OperandName}
    {l : List (Located ι)} (h : Linked next r l r') (ht : Tiles a l b) {x : Located ι}
    (hx : x ∈ l) : (x.first = a ∧ x.restricted = r) ∨
      ∃ y ∈ l, y.rip = x.first ∧ x.restricted = next y.restricted y.insn := by
  induction l generalizing a r with
  | nil => cases hx
  | cons y l ih =>
    obtain ⟨hy, hl⟩ := h
    rcases List.mem_cons.1 hx with rfl | hx
    · exact .inl ⟨ht.1, hy⟩
    · rcases ih hl ht.2.2 hx with ⟨hfirst, hr⟩ | ⟨z, hz, hrip, hr⟩
      · exact .inr ⟨y, List.mem_cons_self, hfirst.symm, by rw [hr, hy]⟩
      · exact .inr ⟨z, List.mem_cons_of_mem _ hz, hrip, hr⟩

theorem Linked.last {next : OperandName → ι → OperandName} {a b : ℕ} {r r' : OperandName}
    {l : List (Located ι)} (h : Linked next r l r') (ht : Tiles a l b) {x : Located ι}
    (hx : x ∈ l) (hrip : x.rip = b) : r' = next x.restricted x.insn := by
  induction l generalizing a r with
  | nil => cases hx
  | cons y l ih =>
    obtain ⟨rfl, hl⟩ := h
    rcases List.mem_cons.1 hx with rfl | hx
    · -- What follows the last instruction is empty.
      cases l with
      | nil => exact hl.symm
      | cons z l =>
        have := (ht.2.2.bounds (List.mem_cons_self (a := z))).2
        have := ht.2.2.1
        omega
    · exact ih hl ht.2.2 hx

/-! ## What a validator does on an instruction -/

/-- The description of a validator's actions on an instruction: the register restricted after it,
when no error is reported on it, the jump targets it unmarks and the one it marks, its jump, and
how far before it its superinstruction begins. -/
structure ArchSpec (w : ℕ) (ι : Type) where
  next : OperandName → ι → OperandName
  ok : List UInt8 → ℕ → Located ι → Prop
  clears : List UInt8 → Located ι → ℕ → Prop
  marks : Located ι → ℕ
  relative : ι → Option Relative
  sandboxBytes : ι → ℕ
  endOk : OperandName → Prop

/-- `x` jumps to `t`, which is not the start of a bundle. -/
def ArchSpec.Dest (spec : ArchSpec w ι) (code : List UInt8) (x : Located ι) (t : ℕ) : Prop :=
  (∃ rel, spec.relative x.insn = some rel ∧ rel.jumpDest w code x.rip = t) ∧
    t % kBundleSize ≠ 0 ∧ t < code.length

/-- What a run over the instructions `l` does to the variables of the validator.  `fine` is what the
run checks beside the instructions. -/
structure RunEffect (spec : ArchSpec w ι) (options : Options) (callback : Callback δ)
    (l : List (Located ι)) (fine : Prop) (p p' : Pass w δ) : Prop where
  code : p'.mem.code = p.mem.code
  validCapacity : p'.validTargets.capacity = p.validTargets.capacity
  destCapacity : p'.jumpDests.capacity = p.jumpDests.capacity
  valid : ∀ t, p'.validTargets.test t = true ↔
    (p.validTargets.test t = true ∨ ∃ x ∈ l, t = spec.marks x) ∧
      ∀ y ∈ l, ¬ spec.clears p.mem.code y t
  dest : ∀ t, p'.jumpDests.test t = true ↔
    p.jumpDests.test t = true ∨ ∃ x ∈ l, spec.Dest p.mem.code x t
  result : callback.RejectsErrors → p'.result = true →
    p.result = true ∧ (∀ x ∈ l, spec.ok p.mem.code p.mem.code.length x) ∧ fine
  quiet : options.callUserCallbackOnEachInstruction = false → p.result = true →
    (∀ x ∈ l, spec.ok p.mem.code p.mem.code.length x) → fine → p'.result = true

theorem RunEffect.nil {spec : ArchSpec w ι} {options : Options} {callback : Callback δ}
    {p : Pass w δ} : RunEffect spec options callback [] True p p where
  code := rfl
  validCapacity := rfl
  destCapacity := rfl
  valid := by simp
  dest := by simp
  result := fun _ h => ⟨h, by simp, trivial⟩
  quiet := fun _ h _ _ => h

theorem RunEffect.trans {spec : ArchSpec w ι} {options : Options} {callback : Callback δ}
    {l l' : List (Located ι)} {fine fine' : Prop} {p p' p'' : Pass w δ}
    (h : RunEffect spec options callback l fine p p')
    (h' : RunEffect spec options callback l' fine' p' p'')
    (hll : ∀ x ∈ l, ∀ y ∈ l', ¬ spec.clears p.mem.code x (spec.marks y)) :
    RunEffect spec options callback (l ++ l') (fine ∧ fine') p p'' where
  code := h'.code.trans h.code
  validCapacity := h'.validCapacity.trans h.validCapacity
  destCapacity := h'.destCapacity.trans h.destCapacity
  valid := by
    intro t
    rw [h'.valid, h.valid, h.code]
    simp only [List.mem_append]
    constructor
    · rintro ⟨⟨hp | ⟨x, hx, rfl⟩, hl⟩ | ⟨x, hx, rfl⟩, hl'⟩
      · exact ⟨.inl hp, fun y hy => hy.elim (hl y) (hl' y)⟩
      · exact ⟨.inr ⟨x, .inl hx, rfl⟩, fun y hy => hy.elim (hl y) (hl' y)⟩
      · exact ⟨.inr ⟨x, .inr hx, rfl⟩, fun y hy => hy.elim (fun hy => hll y hy x hx) (hl' y)⟩
    · rintro ⟨hp, hl⟩
      refine ⟨?_, fun y hy => hl y (.inr hy)⟩
      rcases hp with hp | ⟨x, hx | hx, rfl⟩
      · exact .inl ⟨.inl hp, fun y hy => hl y (.inl hy)⟩
      · exact .inl ⟨.inr ⟨x, hx, rfl⟩, fun y hy => hl y (.inl hy)⟩
      · exact .inr ⟨x, hx, rfl⟩
  dest := by
    intro t
    rw [h'.dest, h.dest, h.code]
    simp only [List.mem_append, or_and_right, exists_or, or_assoc]
  result := by
    intro hc hres
    obtain ⟨hres', hok', hfine'⟩ := h'.result hc hres
    obtain ⟨hres, hok, hfine⟩ := h.result hc hres'
    rw [h.code] at hok'
    exact ⟨hres, fun x hx => (List.mem_append.1 hx).elim (hok x) (hok' x), hfine, hfine'⟩
  quiet := by
    intro hopt hres hok hfine
    refine h'.quiet hopt (h.quiet hopt hres (fun x hx => hok x (List.mem_append_left _ hx)) hfine.1)
      ?_ hfine.2
    rw [h.code]
    exact fun x hx => hok x (List.mem_append_right _ hx)

/-- The instruction lies in the bundle from `start` on, and so does its superinstruction. -/
structure Located.InBundle (spec : ArchSpec w ι) (start : ℕ) (x : Located ι) : Prop where
  aligned : start % kBundleSize = 0
  begin_le : start + spec.sandboxBytes x.insn ≤ x.first
  lt : x.first < x.rip
  le : x.rip ≤ start + kBundleSize

/-- `spec` describes `arch`. -/
structure Arch.Meets (arch : Arch w δ ι) (spec : ArchSpec w ι) : Prop where
  instruction : ∀ {options : Options} {callback : Callback δ} {p : Pass w δ} {x : Located ι}
    {start : ℕ}, callback.ReadOnly → x.InBundle spec start → x.rip ≤ p.mem.code.length →
    arch.bitmapBits p.mem.code.length ≤ p.validTargets.capacity →
    p.mem.code.length ≤ p.jumpDests.capacity →
    ∃ p', arch.instruction options callback p.mem.code.length p x.restricted x.first x.rip x.insn =
        some (p', spec.next x.restricted x.insn) ∧
      RunEffect spec options callback [x] True p p'
  endOfSpan : ∀ {options : Options} {callback : Callback δ} (p : Pass w δ) (r : OperandName)
    (last : ℕ), callback.ReadOnly →
    RunEffect spec options callback [] (spec.endOk r) p (arch.endOfSpan callback last r p)
  not_clears : ∀ {code : List UInt8} {x y : Located ι}, y.first < y.rip → x.first ≤ y.first →
    ¬ spec.clears code x (spec.marks y)

theorem runEffect_report {spec : ArchSpec w ι} {options : Options} {callback : Callback δ}
    (hread : callback.ReadOnly) (p : Pass w δ) (first last : ℕ) (info : Info)
    (hinfo : ¬ Info.Clean info) :
    RunEffect spec options callback [] False p (p.report callback first last info) where
  code := hread _ _ _ _
  validCapacity := rfl
  destCapacity := rfl
  valid := by simp [Pass.report]
  dest := by simp [Pass.report]
  result := by
    intro hc hres
    simp only [Pass.report, hc _ _ _ _ (.inl hinfo), Bool.and_false, Bool.false_eq_true] at hres
  quiet := fun _ _ _ h => h.elim

end Ragel

end SandboxingNaCl
