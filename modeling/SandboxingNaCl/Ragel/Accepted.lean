import SandboxingNaCl.Ragel.Division

/-!
# Accepted chunks

`validateChunk_spec`: a validator never reaches outside its bitmaps, and it accepts a chunk exactly
when every bundle divides into instructions without an error and every direct jump to an unaligned
address goes to a target that is marked and never unmarked.
-/

namespace SandboxingNaCl

namespace Ragel

variable {w : ℕ} {δ ι : Type}

/-! ## The check of the direct jumps -/

/-- The destinations in `js` are compared with the valid targets. -/
structure JumpsChecked (callback : Callback δ) (js : ℕ → Prop) (p p' : Pass w δ) : Prop where
  code : p'.mem.code = p.mem.code
  valid : p'.validTargets = p.validTargets
  dest : p'.jumpDests = p.jumpDests
  result : callback.RejectsErrors → p'.result = true → p.result = true ∧
    ∀ j, js j → p.jumpDests.test j = true → p.validTargets.test j = true
  quiet : (∀ j, js j → p.jumpDests.test j = true → p.validTargets.test j = true) → p' = p

theorem JumpsChecked.refl {callback : Callback δ} {js : ℕ → Prop} {p : Pass w δ}
    (h : ∀ j, js j → p.jumpDests.test j = true → p.validTargets.test j = true) :
    JumpsChecked callback js p p :=
  ⟨rfl, rfl, rfl, fun _ hres => ⟨hres, h⟩, fun _ => rfl⟩

theorem JumpsChecked.trans {callback : Callback δ} {js js' : ℕ → Prop} {p p' p'' : Pass w δ}
    (h : JumpsChecked callback js p p') (h' : JumpsChecked callback js' p' p'') :
    JumpsChecked callback (fun j => js j ∨ js' j) p p'' where
  code := h'.code.trans h.code
  valid := h'.valid.trans h.valid
  dest := h'.dest.trans h.dest
  result := by
    intro hc hres
    obtain ⟨hres', hjs'⟩ := h'.result hc hres
    obtain ⟨hres, hjs⟩ := h.result hc hres'
    rw [h.dest, h.valid] at hjs'
    exact ⟨hres, fun j hj => hj.elim (hjs j) (hjs' j)⟩
  quiet := by
    intro hjs
    have hp := h.quiet fun j hj => hjs j (.inl hj)
    subst hp
    exact h'.quiet fun j hj => hjs j (.inr hj)

theorem jumpsChecked_report {callback : Callback δ} (hread : callback.ReadOnly) (p : Pass w δ)
    (j : ℕ) (hdest : p.jumpDests.test j = true) (hvalid : p.validTargets.test j = false) :
    JumpsChecked callback (fun k => k = j) p (p.report callback j j badJumpTarget) where
  code := hread _ _ _ _
  valid := rfl
  dest := rfl
  result := by
    intro hc hres
    have : (callback j j badJumpTarget p.mem).1 = false := hc _ _ _ _ (.inr (by decide))
    simp only [Pass.report, this, Bool.and_false, Bool.false_eq_true] at hres
  quiet := by
    intro h
    have := h j rfl hdest
    rw [hvalid] at this
    cases this

theorem exists_foldlM_jumpsChecked {callback : Callback δ} {js : ℕ → ℕ → Prop}
    {f : Pass w δ → ℕ → Option (Pass w δ)} {cap : ℕ} {l : List ℕ}
    (hf : ∀ i ∈ l, ∀ p : Pass w δ, cap ≤ p.jumpDests.capacity → cap ≤ p.validTargets.capacity →
      ∃ p', f p i = some p' ∧ JumpsChecked callback (js i) p p')
    (p : Pass w δ) (hd : cap ≤ p.jumpDests.capacity) (hv : cap ≤ p.validTargets.capacity) :
    ∃ p', l.foldlM f p = some p' ∧ JumpsChecked callback (fun j => ∃ i ∈ l, js i j) p p' := by
  induction l generalizing p with
  | nil => exact ⟨p, rfl, .refl (by simp)⟩
  | cons i l ih =>
    obtain ⟨p₁, h₁, hc₁⟩ := hf i List.mem_cons_self p hd hv
    obtain ⟨p₂, h₂, hc₂⟩ := ih (fun k hk => hf k (List.mem_cons_of_mem _ hk)) p₁
      (by rw [hc₁.dest]; exact hd) (by rw [hc₁.valid]; exact hv)
    refine ⟨p₂, by rw [List.foldlM_cons, h₁]; exact h₂, ?_⟩
    simpa only [List.mem_cons, exists_eq_or_imp] using hc₁.trans hc₂

theorem processInvalidJumpTarget_spec {callback : Callback δ} (hw : 0 < w)
    (hread : callback.ReadOnly) (p : Pass w δ) (j : ℕ) (hd : j < p.jumpDests.capacity)
    (hv : j < p.validTargets.capacity) :
    ∃ p', processInvalidJumpTarget callback p j = some p' ∧
      JumpsChecked callback (fun k => k = j) p p' := by
  unfold processInvalidJumpTarget
  rw [Bitmap.isBitSet_eq hw hd, Bitmap.isBitSet_eq hw hv]
  refine ⟨_, rfl, ?_⟩
  split
  case isTrue h =>
    simp only [Bool.and_eq_true, Bool.not_eq_true'] at h
    exact jumpsChecked_report hread p j h.1 h.2
  case isFalse h =>
    refine .refl ?_
    rintro _ rfl hd
    by_contra hv
    exact h (by simp [hd, hv])

theorem lt_length_of_le_capacity {b : Bitmap w} {i : ℕ} (hw : 0 < w)
    (h : w * (i + 1) ≤ b.capacity) : i < b.words.length :=
  Nat.le_of_mul_le_mul_left h hw

theorem processInvalidJumpTargetsWord_spec {callback : Callback δ} (hw : 0 < w)
    (hread : callback.ReadOnly) (p : Pass w δ) (i : ℕ) (hd : w * (i + 1) ≤ p.jumpDests.capacity)
    (hv : w * (i + 1) ≤ p.validTargets.capacity) :
    ∃ p', processInvalidJumpTargetsWord callback p i = some p' ∧
      JumpsChecked callback (fun j => i * w ≤ j ∧ j < i * w + w) p p' := by
  have hwd := lt_length_of_le_capacity hw hd
  have hwv := lt_length_of_le_capacity hw hv
  have hi : i * w + w = w * (i + 1) := by rw [Nat.mul_succ, Nat.mul_comm]
  simp only [processInvalidJumpTargetsWord, List.getElem?_eq_getElem hwd,
    List.getElem?_eq_getElem hwv, Option.bind_eq_bind, Option.bind_some]
  split
  case isTrue =>
    obtain ⟨p', hp', hc⟩ := @exists_foldlM_jumpsChecked _ _ callback (fun i j => j = i) _ _
      (List.range' (i * w) w) (fun j hj p hd hv => processInvalidJumpTarget_spec hw hread p j
        (lt_of_lt_of_le (by rw [List.mem_range'_1] at hj; omega) hd)
        (lt_of_lt_of_le (by rw [List.mem_range'_1] at hj; omega) hv)) p hd hv
    refine ⟨p', hp', ?_⟩
    simpa only [List.mem_range'_1, exists_eq_right'] using hc
  case isFalse h =>
    refine ⟨p, rfl, .refl fun j hj hd => ?_⟩
    have hdiv : j / w = i := Nat.div_eq_of_lt_le hj.1 (by rw [Nat.succ_mul]; exact hj.2)
    have := Bitmap.and_not_eq_zero_iff.1 (not_not.1 h) (j % w) (Nat.mod_lt _ hw)
    unfold Bitmap.test at hd ⊢
    rw [hdiv, List.getElem?_eq_getElem hwd] at hd
    rw [hdiv, List.getElem?_eq_getElem hwv]
    exact this hd

theorem processInvalidJumpTargets_spec {callback : Callback δ} (hw : 0 < w)
    (hread : callback.ReadOnly) (size : ℕ) (p : Pass w δ)
    (hd : w * ((size + w - 1) / w) ≤ p.jumpDests.capacity)
    (hv : w * ((size + w - 1) / w) ≤ p.validTargets.capacity) :
    ∃ p', processInvalidJumpTargets callback size p = some p' ∧
      JumpsChecked callback (fun j => j < w * ((size + w - 1) / w)) p p' := by
  have hstep : ∀ i ∈ List.range ((size + w - 1) / w), w * (i + 1) ≤ w * ((size + w - 1) / w) :=
    fun i hi => Nat.mul_le_mul_left w (List.mem_range.1 hi)
  obtain ⟨p', hp', hc⟩ := exists_foldlM_jumpsChecked
    (fun i hi p hd hv => processInvalidJumpTargetsWord_spec hw hread p i ((hstep i hi).trans hd)
      ((hstep i hi).trans hv)) p hd hv
  refine ⟨p', hp', ?_⟩
  have hiff : (fun j => j < w * ((size + w - 1) / w)) =
      fun j => ∃ i ∈ List.range ((size + w - 1) / w), i * w ≤ j ∧ j < i * w + w := by
    funext j
    rw [eq_iff_iff]
    constructor
    · intro hj
      exact ⟨j / w, List.mem_range.2 (Nat.div_lt_of_lt_mul hj), Nat.div_mul_le_self _ _,
        Nat.lt_div_mul_add hw⟩
    · rintro ⟨i, hi, -, hj⟩
      rw [Nat.mul_comm, ← Nat.mul_succ] at hj
      exact lt_of_lt_of_le hj (hstep i hi)
  rw [hiff]
  exact hc

/-! ## A bundle -/

theorem RunEffect.congr {spec : ArchSpec w ι} {options : Options} {callback : Callback δ}
    {l : List (Located ι)} {fine fine' : Prop} {p p' : Pass w δ}
    (h : RunEffect spec options callback l fine p p') (hf : fine ↔ fine') :
    RunEffect spec options callback l fine' p p' :=
  propext hf ▸ h

/-- The division of the bytes of a span by a machine just started. -/
def Machine.division (machine : Machine ι) (next : OperandName → ι → OperandName) (first : ℕ)
    (r : OperandName) (bytes : List UInt8) : Division ι :=
  machine.divide next bytes.length machine.start first r bytes

/-- The bytes in front of an instruction that belong to its superinstruction are in its span. -/
def Machine.Shaped (machine : Machine ι) (spec : ArchSpec w ι) : Prop :=
  ∀ first r bytes, ∀ x ∈ (machine.division spec.next first r bytes).insns,
    first + spec.sandboxBytes x.insn ≤ x.first

theorem processSpan_effect {arch : Arch w δ ι} {spec : ArchSpec w ι} (hm : arch.Meets spec)
    (machine : Machine ι) (options : Options) {callback : Callback δ} (hread : callback.ReadOnly)
    {start : ℕ} (hstart : start % kBundleSize = 0) :
    ∀ (n : ℕ) (q : machine.State) (first : ℕ) (r : OperandName) (p : Pass w δ) (d : Division ι),
      d = machine.divide spec.next n q first r ((p.mem.code.take (start + kBundleSize)).drop first) →
      start + kBundleSize ≤ p.mem.code.length → start ≤ first → first ≤ start + kBundleSize →
      start + kBundleSize ≤ first + n →
      arch.bitmapBits p.mem.code.length ≤ p.validTargets.capacity →
      p.mem.code.length ≤ p.jumpDests.capacity →
      (∀ x ∈ d.insns, start + spec.sandboxBytes x.insn ≤ x.first) →
      ∃ p', processSpan arch machine options callback p.mem.code.length (start + kBundleSize) n q
          first r p = some p' ∧
        RunEffect spec options callback d.insns (d.stuck = none ∧ spec.endOk d.restricted) p p'
  | 0, q, first, r, p, d, hd, _, _, _, _, _, _, _ => by
      subst hd
      exact ⟨_, rfl, (hm.endOfSpan p r _ hread).congr (by simp [Machine.divide])⟩
  | n + 1, q, first, r, p, d, hd, hlen, hge, hle, hn, hv, hj, hshape => by
      have hbytes : ((p.mem.code.take (start + kBundleSize)).drop first).length =
          start + kBundleSize - first := by
        rw [List.length_drop, List.length_take, Nat.min_eq_left hlen]
      unfold processSpan
      unfold Machine.divide at hd
      split
      case isTrue hend =>
        have hnil : (p.mem.code.take (start + kBundleSize)).drop first = [] :=
          List.eq_nil_of_length_eq_zero (by omega)
        rw [if_pos hnil] at hd
        subst hd
        exact ⟨_, rfl, (hm.endOfSpan p r _ hread).congr (by simp)⟩
      case isFalse hend =>
        have hnil : (p.mem.code.take (start + kBundleSize)).drop first ≠ [] := by
          intro h
          rw [h, List.length_nil] at hbytes
          omega
        rw [if_neg hnil] at hd
        cases hnext : machine.next q ((p.mem.code.take (start + kBundleSize)).drop first) with
        | stuck k =>
          rw [hnext] at hd
          subst hd
          refine ⟨_, rfl, (runEffect_report hread p _ _ _ ?_).congr (by simp)⟩
          decide
        | accepted m =>
          rw [hnext] at hd
          dsimp only at hd ⊢
          have hpos := machine.size_pos hnext
          have hsize := machine.size_le hnext
          rw [hbytes] at hsize
          rw [List.drop_drop] at hd
          set d' := machine.divide spec.next n m.state (first + m.size) (spec.next r m.insn)
            ((p.mem.code.take (start + kBundleSize)).drop (first + m.size)) with hd'
          subst hd
          let x : Located ι := ⟨r, first, m.size, m.insn⟩
          have hx : x.InBundle spec start :=
            ⟨hstart, hshape x List.mem_cons_self, Nat.lt_add_of_pos_right hpos,
              show first + m.size ≤ _ by omega⟩
          obtain ⟨p₁, h₁, he₁⟩ := @hm.instruction options callback p x start hread hx
            (le_trans hx.le hlen) hv hj
          obtain ⟨p₂, h₂, he₂⟩ := processSpan_effect hm machine options hread hstart n
            m.state (first + m.size) (spec.next r m.insn) p₁ d' (by rw [he₁.code])
            (by rw [he₁.code]; exact hlen) (by omega) (by omega) (by omega)
            (by rw [he₁.code, he₁.validCapacity]; exact hv)
            (by rw [he₁.code, he₁.destCapacity]; exact hj)
            (fun y hy => hshape y (List.mem_cons_of_mem _ hy))
          obtain ⟨last, -, htiles, -⟩ := machine.divide_tiles spec.next n m.state (first + m.size)
            (spec.next r m.insn) ((p.mem.code.take (start + kBundleSize)).drop (first + m.size))
            (by rw [List.length_drop, List.length_take]; omega)
          refine ⟨p₂, ?_, (he₁.trans he₂ ?_).congr (by simp)⟩
          · rw [he₁.code] at h₂
            exact (congrArg (· >>= _) h₁).trans h₂
          · intro y hy z hz
            rw [List.mem_singleton] at hy
            subst hy
            have hz' := htiles.bounds hz
            exact hm.not_clears hz'.2.1 (le_trans (Nat.le_add_right _ _) hz'.1)

/-! ## A chunk -/

/-- The division of the bundle with index `k`. -/
def Machine.bundle (machine : Machine ι) (next : OperandName → ι → OperandName) (r : OperandName)
    (code : List UInt8) (k : ℕ) : Division ι :=
  machine.division next (kBundleSize * k) r
    ((code.take (kBundleSize * k + kBundleSize)).drop (kBundleSize * k))

def Machine.instructions (machine : Machine ι) (next : OperandName → ι → OperandName)
    (r : OperandName) (code : List UInt8) : List (Located ι) :=
  (List.range (code.length / kBundleSize)).flatMap fun k => (machine.bundle next r code k).insns

theorem bundle_le {n k : ℕ} (hk : k < n / kBundleSize) : kBundleSize * k + kBundleSize ≤ n := by
  unfold kBundleSize at *
  omega

theorem bundle_le_of_lt {n k : ℕ} (hk : k < n) :
    kBundleSize * k + kBundleSize ≤ kBundleSize * n := by
  unfold kBundleSize
  omega

theorem bundle_bytes_length {code : List UInt8} {k : ℕ} (hk : k < code.length / kBundleSize) :
    ((code.take (kBundleSize * k + kBundleSize)).drop (kBundleSize * k)).length = kBundleSize := by
  rw [List.length_drop, List.length_take, Nat.min_eq_left (bundle_le hk), Nat.add_sub_cancel_left]

theorem Machine.bundle_bounds {machine : Machine ι} {next : OperandName → ι → OperandName}
    {r : OperandName} {code : List UInt8} {k : ℕ} (hk : k < code.length / kBundleSize)
    {x : Located ι} (hx : x ∈ (machine.bundle next r code k).insns) :
    kBundleSize * k ≤ x.first ∧ x.first < x.rip ∧ x.rip ≤ kBundleSize * k + kBundleSize := by
  obtain ⟨last, hlast, htiles, -⟩ := machine.divide_tiles next _ machine.start (kBundleSize * k) r
    ((code.take (kBundleSize * k + kBundleSize)).drop (kBundleSize * k)) le_rfl
  rw [bundle_bytes_length hk] at hlast
  have := htiles.bounds hx
  omega

/-- A valid target of direct jumps: marked, and unmarked by no instruction. -/
def Machine.ValidTarget (machine : Machine ι) (spec : ArchSpec w ι) (r : OperandName)
    (code : List UInt8) (t : ℕ) : Prop :=
  (∃ x ∈ machine.instructions spec.next r code, t = spec.marks x) ∧
    ∀ y ∈ machine.instructions spec.next r code, ¬ spec.clears code y t

/-- What a validator accepts. -/
structure Machine.Accepts (machine : Machine ι) (spec : ArchSpec w ι) (r : OperandName)
    (code : List UInt8) : Prop where
  complete : ∀ k < code.length / kBundleSize, (machine.bundle spec.next r code k).stuck = none ∧
    spec.endOk (machine.bundle spec.next r code k).restricted
  ok : ∀ x ∈ machine.instructions spec.next r code, spec.ok code code.length x
  jumps : ∀ x ∈ machine.instructions spec.next r code, ∀ t, spec.Dest code x t →
    machine.ValidTarget spec r code t

theorem processBundles_effect {arch : Arch w δ ι} {spec : ArchSpec w ι} (hm : arch.Meets spec)
    {machine : Machine ι} (hshape : machine.Shaped spec) (options : Options)
    {callback : Callback δ} (hread : callback.ReadOnly) (r : OperandName) (p : Pass w δ)
    (hv : arch.bitmapBits p.mem.code.length ≤ p.validTargets.capacity)
    (hj : p.mem.code.length ≤ p.jumpDests.capacity) :
    ∀ n ≤ p.mem.code.length / kBundleSize, ∃ p',
      (List.range n).foldlM (fun p' k => processSpan arch machine options callback
        p.mem.code.length (kBundleSize * k + kBundleSize) kBundleSize machine.start
        (kBundleSize * k) r p') p = some p' ∧
      RunEffect spec options callback
        ((List.range n).flatMap fun k => (machine.bundle spec.next r p.mem.code k).insns)
        (∀ k < n, (machine.bundle spec.next r p.mem.code k).stuck = none ∧
          spec.endOk (machine.bundle spec.next r p.mem.code k).restricted) p p'
  | 0, _ => ⟨p, rfl, RunEffect.nil.congr (by simp)⟩
  | n + 1, hn => by
      obtain ⟨p₁, h₁, he₁⟩ := processBundles_effect hm hshape options hread r p hv hj n
        (by omega)
      have hlen : ((p.mem.code.take (kBundleSize * n + kBundleSize)).drop (kBundleSize * n)).length =
          kBundleSize := bundle_bytes_length (by omega)
      obtain ⟨p₂, h₂, he₂⟩ := processSpan_effect hm machine options hread
        (Nat.mul_mod_right kBundleSize n) kBundleSize machine.start
        (kBundleSize * n) r p₁ (machine.bundle spec.next r p.mem.code n)
        (by rw [he₁.code, Machine.bundle, Machine.division, hlen])
        (by rw [he₁.code]; exact bundle_le hn) le_rfl (Nat.le_add_right _ _) le_rfl (by rw [he₁.code, he₁.validCapacity]; exact hv)
        (by rw [he₁.code, he₁.destCapacity]; exact hj) (hshape _ _ _)
      rw [he₁.code] at h₂
      refine ⟨p₂, ?_, ?_⟩
      · rw [List.range_succ, List.foldlM_append, h₁]
        simpa using h₂
      · rw [List.range_succ, List.flatMap_append]
        refine RunEffect.congr (l := _ ++ _) (he₁.trans (by simpa using he₂) ?_) ?_
        · intro x hx y hy
          obtain ⟨k, hk, hx⟩ := List.mem_flatMap.1 hx
          rw [List.mem_range] at hk
          have hx' := Machine.bundle_bounds (lt_trans hk hn) hx
          have hy' := Machine.bundle_bounds hn (by simpa using hy)
          have := bundle_le_of_lt hk
          exact hm.not_clears hy'.2.1 (by omega)
        · constructor
          · rintro ⟨h, hn⟩ k hk
            rcases Nat.lt_succ_iff_lt_or_eq.1 hk with hk | rfl
            exacts [h k hk, hn]
          · exact fun h => ⟨fun k hk => h k (by omega), h n (Nat.lt_succ_self n)⟩

theorem le_bitmapWords {bits : ℕ} (hw : 0 < w) (hbits : bits + w ≤ 2 ^ w) :
    bits ≤ w * bitmapWords w bits ∧ (bits + w - 1) / w ≤ bitmapWords w bits := by
  unfold bitmapWords
  split
  case isTrue h =>
    refine ⟨by omega, Nat.lt_succ_iff.1 ((Nat.div_lt_iff_lt_mul hw).2 ?_)⟩
    omega
  case isFalse h =>
    rw [Nat.mod_eq_of_lt (by omega)]
    have h1 := Nat.div_add_mod (bits + w - 1) w
    have h2 := Nat.mod_lt (bits + w - 1) hw
    exact ⟨by omega, le_rfl⟩

/-- A validator stays inside its bitmaps, accepts only chunks that `Accepts` describes, and accepts
those. -/
theorem validateChunk_spec {arch : Arch w δ ι} {spec : ArchSpec w ι} (hw : 0 < w)
    (hm : arch.Meets spec) {machine : Machine ι} (hshape : machine.Shaped spec)
    (enoughMemory : Bool) {options : Options}
    (hstream : options.processChunkAsAContiguousStream = false) {callback : Callback δ}
    (hread : callback.ReadOnly) (mem : Memory δ) (hsize : mem.code.length % kBundleSize = 0)
    (hbits : arch.bitmapBits mem.code.length + w ≤ 2 ^ w)
    (hle : mem.code.length ≤ arch.bitmapBits mem.code.length) :
    ∃ ok mem', validateChunk arch machine enoughMemory options callback mem = some (ok, mem') ∧
      mem'.code = mem.code ∧
      (callback.RejectsErrors → ok = true →
        machine.Accepts spec options.restrictedRegisterInitialValue mem.code) ∧
      (enoughMemory = true → options.callUserCallbackOnEachInstruction = false →
        machine.Accepts spec options.restrictedRegisterInitialValue mem.code → ok = true) := by
  unfold validateChunk
  rw [if_neg (not_not.2 hsize)]
  split
  case isTrue hmem =>
    refine ⟨false, mem, rfl, rfl, nofun, fun h => ?_⟩
    exact absurd h hmem.2
  case isFalse hmem =>
    obtain ⟨hcap, hwords⟩ := le_bitmapWords hw hbits
    set bitmap := Bitmap.allocate w (bitmapWords w (arch.bitmapBits mem.code.length)) with hb
    have hbcap : bitmap.capacity = w * bitmapWords w (arch.bitmapBits mem.code.length) :=
      Bitmap.capacity_allocate
    have hdests : w * ((mem.code.length + w - 1) / w) ≤ bitmap.capacity := by
      rw [hbcap]
      exact Nat.mul_le_mul_left w ((Nat.div_le_div_right (by omega)).trans hwords)
    let p : Pass w δ := ⟨mem, bitmap, bitmap, true⟩
    obtain ⟨p₁, h₁, he⟩ := processBundles_effect hm hshape options hread
      options.restrictedRegisterInitialValue p (hbcap ▸ hcap) (le_trans hle (hbcap ▸ hcap)) _ le_rfl
    obtain ⟨p₂, h₂, hc⟩ := processInvalidJumpTargets_spec hw hread mem.code.length p₁
      (by rw [he.destCapacity]; exact hdests) (by rw [he.validCapacity]; exact hdests)
    have hspans : (options.spans mem.code.length).foldlM (fun p span =>
        processSpan arch machine options callback mem.code.length span.2 (span.2 - span.1)
          machine.start span.1 options.restrictedRegisterInitialValue p) p = some p₁ := by
      rw [← h₁, Options.spans, hstream, if_neg Bool.false_ne_true, List.foldlM_map]
      simp only [Nat.mul_succ, Nat.add_sub_cancel_left]
      rfl
    have hvalid : ∀ t, p₁.validTargets.test t = true ↔
        machine.ValidTarget spec options.restrictedRegisterInitialValue mem.code t := by
      intro t
      rw [he.valid]
      simp only [p, bitmap, Bitmap.test_allocate, Bool.false_eq_true, false_or]
      exact Iff.rfl
    have hdest : ∀ t, p₁.jumpDests.test t = true ↔ ∃ x ∈ machine.instructions spec.next
        options.restrictedRegisterInitialValue mem.code, spec.Dest mem.code x t := by
      intro t
      rw [he.dest]
      simp only [p, bitmap, Bitmap.test_allocate, Bool.false_eq_true, false_or]
      exact Iff.rfl
    refine ⟨p₂.result, p₂.mem, ?_, hc.code.trans he.code, ?_, ?_⟩
    · exact (congrArg (· >>= _) hspans).trans ((congrArg (· >>= _) h₂).trans rfl)
    · intro hrej hok
      obtain ⟨hok₁, hjumps⟩ := hc.result hrej hok
      obtain ⟨-, hoks, hfine⟩ := he.result hrej hok₁
      refine ⟨hfine, hoks, fun x hx t ht => (hvalid t).1 (hjumps t ?_ ((hdest t).2 ⟨x, hx, ht⟩))⟩
      have h1 := Nat.div_add_mod (mem.code.length + w - 1) w
      have h2 := Nat.mod_lt (mem.code.length + w - 1) hw
      have h3 := ht.2.2
      omega
    · intro _ heach hacc
      rw [hc.quiet]
      · exact he.quiet heach rfl hacc.ok hacc.complete
      · intro t _ ht
        obtain ⟨x, hx, hd⟩ := (hdest t).1 ht
        exact (hvalid t).2 (hacc.jumps x hx t hd)

end Ragel

end SandboxingNaCl
