import SandboxingNaCl.DebugStub.Breakpoints
import SandboxingNaCl.DebugStub.FieldRoundTrip
import SandboxingNaCl.DebugStub.Registers

/-!
# The packets that write

The cases `M` and `G` of `ProcessPacket`, which decode a block of the packet and do not look at whether
`GetBlock` succeeds.  Where it has stopped midway, the rest of the buffer is what was there before: for
`M` fresh memory, for `G` the registers of an earlier packet.  A buffer gives a fault for a byte whose
use is to be one.
-/

namespace SandboxingNaCl

open ByteImage Patches

/-- A buffer whose first bytes have been stored. -/
def stored (buffer : ℕ → Except Fault UInt8) (p : List UInt8) (i : ℕ) : Except Fault UInt8 :=
  match p[i]? with
  | some ch => .ok ch
  | none => buffer i

def bytesOfBuffer (buffer : ℕ → Except Fault UInt8) (start len : ℕ) : Except Fault (List UInt8) :=
  (List.range len).mapM fun i => buffer (start + i)

/-- The registers that the debugger can write: `ctx_`, and the context of the thread of
`GetRegThread` if there is one. -/
structure RegisterState where
  ctx : ℕ → Except Fault UInt8
  context : Option (ℕ → UInt8)

namespace Target

/-- The checks of `M`: the address that is written to. -/
def writeAddress (t : Target) (userAddr wlen : BitVec 64) : Option ℕ :=
  let addr := t.adjustUserAddr userAddr.toNat
  let sysAddr := naclUserToSysAddrRange t.space (t.uintptr addr) (t.uintptr wlen.toNat)
  if sysAddr = kNaClBadAddress then none
  else if addr < t.dynamicTextEnd then none
  else some sysAddr

/-- The rest of `M`; `fresh` is what is in the block before it is filled. -/
def writeMemory (t : Target) (host : Platform) (fresh : ℕ → Except Fault UInt8)
    (userAddr wlen : BitVec 64) : PacketM (Target × Reply) :=
  match t.writeAddress userAddr wlen with
  | none => return (t, .error .failed)
  | some sysAddr => do
    let len := wlen.toNat % 2 ^ 32
    let (_, p) ← getBlock len
    let block ← bytesOfBuffer (stored fresh p) 0 len
    let (t, succeeded) := t.setMemory host sysAddr block
    return (t, replyOf succeeded)

/-- The case `M` of `ProcessPacket`, after its character has been read. -/
def processWriteMemory (t : Target) (host : Platform) (fresh : ℕ → Except Fault UInt8) :
    PacketM (Target × Reply) := do
  let some (userAddr, _) ← getNumberSep | return (t, .error .badFormat)
  let some (wlen, _) ← getNumberSep | return (t, .error .badFormat)
  t.writeMemory host fresh userAddr wlen

/-- The last part of `G`: the program counter is checked, and the registers are set. -/
def commitRegisters (t : Target) (host : Platform) (ctx : ℕ → Except Fault UInt8)
    (context : ℕ → UInt8) : Except Fault ((ℕ → UInt8) × Reply) := do
  let progCtr ← bytesOfBuffer ctx t.arch.progCtr 4
  match t.isOnValidInstBoundary host (word32 (fun i => progCtr.getD i 0) 0).toNat with
  | none => .error .checkFailed
  | some false => return (context, .error .failed)
  | some true =>
    let src ← bytesOfBuffer ctx 0 t.arch.contextSize
    match setRegisters t.arch (fun i => src.getD i 0) context with
    | none => return (context, .error .failed)
    | some context => return (context, .ok)

/-- The case `G`. -/
def processWriteRegisters (t : Target) (host : Platform) (r : RegisterState) :
    PacketM (RegisterState × Reply) :=
  match r.context with
  | none => return (r, .error .badArgs)
  | some context => do
    let (_, p) ← getBlock t.arch.contextSize
    let ctx := stored r.ctx p
    let (context, reply) ← t.commitRegisters host ctx context
    return (⟨ctx, some context⟩, reply)

end Target

/-! ## What the packets announce -/

/-- The address and the number of bytes that `M` announces, and what is behind them. -/
def PacketView.announced (v : PacketView) : Option (BitVec 64 × BitVec 64 × PacketView) :=
  match v.numberSep with
  | (some (userAddr, _), v) =>
    match v.numberSep with
    | (some (wlen, _), v) => some (userAddr, wlen, v)
    | (none, _) => none
  | (none, _) => none

namespace Target

/-- If all bytes that are announced are in the packet, they are written; otherwise the answer is an error
and nothing changes.  What is refused for its address changes nothing either. -/
def WritesAnnounced (t : Target) (host : Platform) (v : PacketView) (r : Target × Reply) : Prop :=
  match v.announced with
  | none => r = (t, .error .badFormat)
  | some (userAddr, wlen, v) =>
    match v.block wlen.toNat with
    | ((true, data), _) =>
      match t.writeAddress userAddr wlen with
      | none => r = (t, .error .failed)
      | some sysAddr =>
        r = ((t.setMemory host sysAddr data).1, replyOf (t.setMemory host sysAddr data).2)
    | ((false, _), _) => r.1 = t ∧ ∃ err, r.2 = .error err

/-- The registers take the values in the packet, if they are all there and are accepted; otherwise the
answer is an error and no register changes. -/
def SetsRegisters (t : Target) (host : Platform) (context : Option (ℕ → UInt8)) (v : PacketView)
    (r : RegisterState × Reply) : Prop :=
  match context with
  | none => r.1.context = none ∧ r.2 = .error .badArgs
  | some context =>
    match v.block t.arch.contextSize with
    | ((true, data), _) =>
      (∃ context', RegistersWritten t.arch (fun i => data.getD i 0) context context' ∧
        r.1.context = some context' ∧ r.2 = .ok) ∨
      (t.isOnValidInstBoundary host (word32 (fun i => data.getD i 0) t.arch.progCtr).toNat = some false ∨
        setRegisters t.arch (fun i => data.getD i 0) context = none) ∧
        r.1.context = some context ∧ r.2 = .error .failed
    | ((false, _), _) => r.1.context = some context ∧ ∃ err, r.2 = .error err

/-! ## When they keep to it -/

/-- A block of `M`: the bytes that are in the packet, and the fresh memory behind them. -/
def writtenBlock (fresh : ℕ → UInt8) (v : PacketView) (len : ℕ) : List UInt8 :=
  (List.range len).map fun i => (v.block len).1.2.getD i (fresh i)

/-- All bytes that are announced are in the packet, and there are fewer than `2 ^ 32`; unless the address
is refused before, or the host makes up for it: it does the same with the bytes that the length leaves
in 32 bits, or fails without having changed anything. -/
def WriteSupplied (t : Target) (host : Platform) (fresh : ℕ → UInt8) (v : PacketView) : Prop :=
  match v.announced with
  | none => True
  | some (userAddr, wlen, v) =>
    match t.writeAddress userAddr wlen with
    | none => True
    | some sysAddr =>
      match v.block wlen.toNat with
      | ((true, data), _) => wlen.toNat < 2 ^ 32 ∨
          t.setMemory host sysAddr (data.take (wlen.toNat % 2 ^ 32)) = t.setMemory host sysAddr data
      | ((false, _), _) =>
        t.setMemory host sysAddr (writtenBlock fresh v (wlen.toNat % 2 ^ 32)) = (t, false)

/-- `ctx_` after `G` has filled it as far as the packet goes. -/
def registerBytes (t : Target) (ctx : ℕ → UInt8) (v : PacketView) : List UInt8 :=
  writtenBlock ctx v t.arch.contextSize

/-- The packet has the values of all registers; unless there is no thread, or the registers that are in
`ctx_` then are refused. -/
def RegistersSupplied (t : Target) (host : Platform) (ctx : ℕ → UInt8) (context : Option (ℕ → UInt8))
    (v : PacketView) : Prop :=
  match context with
  | none => True
  | some context =>
    let src i := (t.registerBytes ctx v).getD i 0
    match t.isOnValidInstBoundary host (word32 src t.arch.progCtr).toNat with
    | none => False
    | some valid => (v.block t.arch.contextSize).1.1 = true ∨ valid = false ∨
        setRegisters t.arch src context = none

end Target

section

variable {v : PacketView} {t : Target} {host : Platform} {len n : ℕ}

open PacketView Target

theorem bytesOfBuffer_eq {buffer : ℕ → Except Fault UInt8} {f : ℕ → UInt8} (start len : ℕ)
    (h : ∀ i, buffer i = .ok (f i)) :
    bytesOfBuffer buffer start len = .ok ((List.range len).map fun i => f (start + i)) := by
  unfold bytesOfBuffer
  generalize List.range len = l
  induction l with
  | nil => rfl
  | cons i l ih =>
    rw [List.mapM_cons, h, ih]
    rfl

theorem stored_ok (buffer : ℕ → UInt8) (p : List UInt8) (i : ℕ) :
    stored (fun i => .ok (buffer i)) p i = .ok (p.getD i (buffer i)) := by
  rw [stored, List.getD_eq_getElem?_getD]
  cases p[i]? <;> rfl

theorem PacketView.block_complete_iff (len : ℕ) (v : PacketView) :
    ((v.block len).1.1 = true ↔ (v.block len).1.2.length = len) ∧ (v.block len).1.2.length ≤ len := by
  induction len generalizing v with
  | zero => exact ⟨iff_of_true rfl rfl, Nat.le_refl 0⟩
  | succ len ih =>
    unfold PacketView.block
    generalize v.word8 = word
    obtain ⟨word, v'⟩ := word
    cases word with
    | none => exact ⟨iff_of_false (by simp) (by simp), Nat.zero_le _⟩
    | some ch =>
      obtain ⟨hiff, hle⟩ := ih v'
      exact ⟨hiff.trans (Nat.succ_inj).symm, Nat.succ_le_succ hle⟩

theorem PacketView.block_of_le (h : (v.block len).1.1 = true) (hn : n ≤ len) :
    (v.block n).1.2 = (v.block len).1.2.take n := by
  induction n generalizing v len with
  | zero => rfl
  | succ n ih =>
    obtain ⟨len, rfl⟩ := Nat.exists_eq_add_one_of_ne_zero (Nat.ne_zero_of_lt hn)
    unfold PacketView.block at h ⊢
    generalize v.word8 = word at h ⊢
    obtain ⟨word, v'⟩ := word
    cases word with
    | none => cases h
    | some ch => exact congrArg (ch :: ·) (ih h (Nat.le_of_succ_le_succ hn))

theorem map_getD_range {p : List UInt8} (f : ℕ → UInt8) (h : p.length = len) :
    (List.range len).map (fun i => p.getD i (f i)) = p := by
  subst h
  apply List.ext_getElem
  · rw [List.length_map, List.length_range]
  · intro i _ hi
    rw [List.getElem_map, List.getElem_range, List.getD_eq_getElem?_getD, List.getElem?_eq_getElem hi,
      Option.getD_some]

theorem writtenBlock_of_complete (fresh : ℕ → UInt8) (h : (v.block len).1.1 = true) :
    writtenBlock fresh v len = (v.block len).1.2 :=
  map_getD_range fresh ((block_complete_iff len v).1.1 h)

theorem writtenBlock_of_le (fresh : ℕ → UInt8) (h : (v.block len).1.1 = true) (hn : n ≤ len) :
    writtenBlock fresh v n = (v.block len).1.2.take n := by
  have hlength := (block_complete_iff len v).1.1 h
  rw [writtenBlock, block_of_le h hn, map_getD_range]
  rw [List.length_take, hlength, Nat.min_eq_left hn]

/-- What `M` does with a block at an address. -/
def Target.written (t : Target) (host : Platform) (sysAddr : ℕ) (block : List UInt8) : Target × Reply :=
  ((t.setMemory host sysAddr block).1, replyOf (t.setMemory host sysAddr block).2)

/-- What `M` does. -/
def Target.writeResult (t : Target) (host : Platform) (fresh : ℕ → UInt8) (v : PacketView) :
    Target × Reply :=
  match v.announced with
  | none => (t, .error .badFormat)
  | some (userAddr, wlen, v) =>
    match t.writeAddress userAddr wlen with
    | none => (t, .error .failed)
    | some sysAddr => t.written host sysAddr (writtenBlock fresh v (wlen.toNat % 2 ^ 32))

theorem runs_processWriteMemory (fresh : ℕ → UInt8) (v : PacketView) :
    ∃ v', RunsTo (t.processWriteMemory host (fun i => .ok (fresh i))) v (t.writeResult host fresh v) v' := by
  have hfirst := runs_getNumberSep_numberSep v
  unfold writeResult announced
  generalize v.numberSep = number at hfirst ⊢
  obtain ⟨number, v₁⟩ := number
  cases number with
  | none => exact ⟨v₁, hfirst.bind (RunsTo.pure _ v₁)⟩
  | some number =>
    obtain ⟨userAddr, sep⟩ := number
    have hsecond := runs_getNumberSep_numberSep v₁
    simp only
    generalize v₁.numberSep = number at hsecond ⊢
    obtain ⟨number, v₂⟩ := number
    cases number with
    | none => exact ⟨v₂, hfirst.bind (hsecond.bind (RunsTo.pure _ v₂))⟩
    | some number =>
      obtain ⟨wlen, sep'⟩ := number
      have hwrite : ∃ v', RunsTo (t.writeMemory host (fun i => .ok (fresh i)) userAddr wlen) v₂
          (match t.writeAddress userAddr wlen with
            | none => (t, .error .failed)
            | some sysAddr =>
              t.written host sysAddr (writtenBlock fresh v₂ (wlen.toNat % 2 ^ 32))) v' := by
        unfold Target.writeMemory
        cases t.writeAddress userAddr wlen with
        | none => exact ⟨v₂, RunsTo.pure _ v₂⟩
        | some sysAddr =>
          have hbuffer := bytesOfBuffer_eq 0 (wlen.toNat % 2 ^ 32)
            (stored_ok fresh (v₂.block (wlen.toNat % 2 ^ 32)).1.2)
          simp only [Nat.zero_add] at hbuffer
          exact ⟨_, (runs_getBlock_block _ v₂).bind ((RunsTo.lift hbuffer _).bind (RunsTo.pure _ _))⟩
      obtain ⟨v₃, hwrite⟩ := hwrite
      exact ⟨v₃, hfirst.bind (hsecond.bind hwrite)⟩

theorem replyOf_injective : Function.Injective replyOf := by
  intro x y h
  cases x <;> cases y <;> first | rfl | cases h

theorem written_eq_iff {sysAddr : ℕ} {xs : List UInt8} {r : Target × Bool} :
    t.written host sysAddr xs = (r.1, replyOf r.2) ↔ t.setMemory host sysAddr xs = r := by
  rw [written, Prod.ext_iff, Prod.ext_iff]
  exact and_congr_right fun _ => replyOf_injective.eq_iff

theorem written_unchanged_iff {sysAddr : ℕ} {xs : List UInt8} :
    ((t.written host sysAddr xs).1 = t ∧ ∃ err, (t.written host sysAddr xs).2 = .error err) ↔
      t.setMemory host sysAddr xs = (t, false) := by
  have hreply (succeeded : Bool) : (∃ err, replyOf succeeded = .error err) ↔ succeeded = false := by
    cases succeeded with
    | true => exact iff_of_false nofun nofun
    | false => exact iff_of_true ⟨_, rfl⟩ rfl
  rw [written, hreply, Prod.ext_iff]

theorem writesAnnounced_iff (fresh : ℕ → UInt8) :
    t.WritesAnnounced host v (t.writeResult host fresh v) ↔ t.WriteSupplied host fresh v := by
  unfold WritesAnnounced writeResult WriteSupplied
  cases v.announced with
  | none => exact iff_of_true rfl trivial
  | some announced =>
    obtain ⟨userAddr, wlen, v'⟩ := announced
    have hcomplete := @writtenBlock_of_le v' wlen.toNat (wlen.toNat % 2 ^ 32) fresh
    have hlength := (block_complete_iff wlen.toNat v').1.1
    simp only
    generalize v'.block wlen.toNat = block at hcomplete hlength ⊢
    obtain ⟨⟨complete, data⟩, v''⟩ := block
    cases t.writeAddress userAddr wlen with
    | none =>
      cases complete with
      | true => exact iff_of_true rfl trivial
      | false => exact iff_of_true ⟨rfl, _, rfl⟩ trivial
    | some sysAddr =>
      cases complete with
      | true =>
        have hblock := hcomplete rfl (Nat.mod_le _ _)
        simp only at hblock hlength ⊢
        rw [hblock, written_eq_iff]
        refine ⟨Or.inr, fun h => h.elim (fun hlt => ?_) id⟩
        rw [Nat.mod_eq_of_lt hlt, List.take_of_length_le (Nat.le_of_eq (hlength trivial))]
      | false => exact written_unchanged_iff

theorem progCtr_add_le (arch : NaClArch) : arch.progCtr + 4 ≤ arch.contextSize := by
  cases arch <;> decide

/-- What `G` does with the registers that are in `ctx_`. -/
def Target.commitResult (t : Target) (host : Platform) (src context : ℕ → UInt8) :
    Except Fault ((ℕ → UInt8) × Reply) :=
  match t.isOnValidInstBoundary host (word32 src t.arch.progCtr).toNat with
  | none => .error .checkFailed
  | some false => .ok (context, .error .failed)
  | some true =>
    match setRegisters t.arch src context with
    | none => .ok (context, .error .failed)
    | some context => .ok (context, .ok)

theorem getD_map_range {f : ℕ → UInt8} {i : ℕ} (h : i < n) :
    ((List.range n).map f).getD i 0 = f i := by
  simp [h]

theorem commitRegisters_eq (ctx : ℕ → UInt8) (context : ℕ → UInt8) :
    t.commitRegisters host (stored (fun i => .ok (ctx i)) (v.block t.arch.contextSize).1.2) context =
      t.commitResult host (fun i => (t.registerBytes ctx v).getD i 0) context := by
  have hctx := stored_ok ctx (v.block t.arch.contextSize).1.2
  have hle := progCtr_add_le t.arch
  unfold commitRegisters commitResult registerBytes writtenBlock
  rw [bytesOfBuffer_eq t.arch.progCtr 4 hctx, bytesOfBuffer_eq 0 t.arch.contextSize hctx]
  generalize hsrc : (fun i => (v.block t.arch.contextSize).1.2.getD i (ctx i)) = src
  have hword : word32 (fun i => ((List.range 4).map fun i => src (t.arch.progCtr + i)).getD i 0) 0 =
      word32 (fun i => ((List.range t.arch.contextSize).map src).getD i 0) t.arch.progCtr := by
    refine word32_congr fun i hi => ?_
    rw [Nat.zero_add, getD_map_range hi, getD_map_range (by omega)]
  subst hsrc
  simp only [Nat.zero_add] at hword ⊢
  rw [← hword]
  rfl

theorem runs_processWriteRegisters {ctx context : ℕ → UInt8} {q : (ℕ → UInt8) × Reply}
    (h : t.commitResult host (fun i => (t.registerBytes ctx v).getD i 0) context = .ok q) :
    RunsTo (t.processWriteRegisters host ⟨fun i => .ok (ctx i), some context⟩) v
      (⟨stored (fun i => .ok (ctx i)) (v.block t.arch.contextSize).1.2, some q.1⟩, q.2)
      (v.block t.arch.contextSize).2 :=
  (runs_getBlock_block t.arch.contextSize v).bind
    ((RunsTo.lift ((commitRegisters_eq ctx context).trans h) _).bind (RunsTo.pure _ _))

theorem faults_processWriteRegisters {ctx context : ℕ → UInt8} {fault : Fault}
    (h : t.commitResult host (fun i => (t.registerBytes ctx v).getD i 0) context = .error fault) :
    Faults (t.processWriteRegisters host ⟨fun i => .ok (ctx i), some context⟩) v fault :=
  (runs_getBlock_block t.arch.contextSize v).bind_faults
    ((Faults.lift ((commitRegisters_eq ctx context).trans h) _).bind _)

theorem exists_processWriteRegisters_iff {p : Packet} (hp : p.Shows v) (ctx context : ℕ → UInt8)
    {P : RegisterState × Reply → Prop} :
    (∃ r p', t.processWriteRegisters host ⟨fun i => .ok (ctx i), some context⟩ p = .ok (r, p') ∧ P r) ↔
      ∃ q, t.commitResult host (fun i => (t.registerBytes ctx v).getD i 0) context = .ok q ∧
        P (⟨stored (fun i => .ok (ctx i)) (v.block t.arch.contextSize).1.2, some q.1⟩, q.2) := by
  cases h : t.commitResult host (fun i => (t.registerBytes ctx v).getD i 0) context with
  | error fault =>
    rw [faults_processWriteRegisters h p hp]
    exact iff_of_false (fun ⟨_, _, hr, _⟩ => by cases hr) (fun ⟨_, hq, _⟩ => by cases hq)
  | ok q =>
    refine ((runs_processWriteRegisters h).exists_iff hp).trans ⟨fun hP => ⟨q, rfl, hP⟩, ?_⟩
    rintro ⟨q', hq, hP⟩
    cases hq
    exact hP

theorem setsRegisters_iff {p : Packet} (hp : p.Shows v) (ctx : ℕ → UInt8)
    (context : Option (ℕ → UInt8)) :
    (∃ r p', t.processWriteRegisters host ⟨fun i => .ok (ctx i), context⟩ p = .ok (r, p') ∧
      t.SetsRegisters host context v r) ↔ t.RegistersSupplied host ctx context v := by
  cases context with
  | none => exact iff_of_true ⟨_, p, rfl, rfl, rfl⟩ trivial
  | some context =>
    rw [exists_processWriteRegisters_iff hp]
    unfold SetsRegisters RegistersSupplied commitResult registerBytes
    have hcomplete := @writtenBlock_of_complete v t.arch.contextSize ctx
    simp only
    generalize v.block t.arch.contextSize = block at hcomplete ⊢
    generalize writtenBlock ctx v t.arch.contextSize = src at hcomplete ⊢
    obtain ⟨⟨complete, data⟩, v'⟩ := block
    cases hvalid : t.isOnValidInstBoundary host
        (word32 (fun i => src.getD i 0) t.arch.progCtr).toNat with
    | none => exact iff_of_false (fun ⟨_, h, _⟩ => by cases h) id
    | some valid =>
      cases valid with
      | false =>
        refine iff_of_true ⟨_, rfl, ?_⟩ (Or.inr (Or.inl rfl))
        cases complete with
        | true =>
          rw [hcomplete rfl] at hvalid
          exact Or.inr ⟨Or.inl hvalid, rfl, rfl⟩
        | false => exact ⟨rfl, _, rfl⟩
      | true =>
        simp only
        cases hset : setRegisters t.arch (fun i => src.getD i 0) context with
        | none =>
          refine iff_of_true ⟨_, rfl, ?_⟩ (Or.inr (Or.inr rfl))
          cases complete with
          | true =>
            rw [hcomplete rfl] at hset
            exact Or.inr ⟨Or.inr hset, rfl, rfl⟩
          | false => exact ⟨rfl, _, rfl⟩
        | some context' =>
          cases complete with
          | true =>
            rw [hcomplete rfl] at hset
            refine iff_of_true ⟨_, rfl, Or.inl ⟨context', ?_, rfl, rfl⟩⟩ (Or.inl rfl)
            exact registersWritten_of_setRegisters hset
          | false =>
            refine iff_of_false ?_ (by simp)
            rintro ⟨q, hq, -, err, herr⟩
            cases hq
            cases herr

end

/-- `M` and `G` keep to what they announce, and change nothing with an error otherwise, if and only if the
packet supplies what is written. -/
theorem writePackets_iff {p : Packet} {v : PacketView} (hp : p.Shows v) (t : Target) (host : Platform)
    (fresh ctx : ℕ → UInt8) (context : Option (ℕ → UInt8)) :
    ((∃ r p', t.processWriteMemory host (fun i => .ok (fresh i)) p = .ok (r, p') ∧
        t.WritesAnnounced host v r) ↔ t.WriteSupplied host fresh v) ∧
      ((∃ r p', t.processWriteRegisters host ⟨fun i => .ok (ctx i), context⟩ p = .ok (r, p') ∧
        t.SetsRegisters host context v r) ↔ t.RegistersSupplied host ctx context v) := by
  obtain ⟨v', hrun⟩ := @runs_processWriteMemory t host fresh v
  exact ⟨(hrun.exists_iff hp).trans (writesAnnounced_iff fresh), setsRegisters_iff hp ctx context⟩

/-- A packet that holds a payload of which the first character has been read. -/
def Packet.ofPayload (payload : List UInt8) : Packet := ⟨-1, payload ++ [0], 1, payload.length⟩

theorem shows_ofPayload {payload : List UInt8} (h : payload ≠ []) :
    (Packet.ofPayload payload).Shows ⟨payload, 1, -1⟩ :=
  ⟨rfl, rfl, rfl, List.length_pos_of_ne_nil h, [], rfl⟩

/-- `M1000000,2:abcd` writes two bytes. -/
theorem writes_twoBytes : ∃ r p', Target.small.processWriteMemory Target.smallPlatform
    (fun _ => .ok 0) (.ofPayload (ofString "M1000000,2:abcd")) = .ok (r, p') ∧
      Target.small.WritesAnnounced Target.smallPlatform ⟨ofString "M1000000,2:abcd", 1, -1⟩ r := by
  have hp := @shows_ofPayload (ofString "M1000000,2:abcd") (by decide)
  refine (writePackets_iff hp Target.small Target.smallPlatform (fun _ => 0) (fun _ => 0) none).1.2 ?_
  have hannounced : (⟨ofString "M1000000,2:abcd", 1, -1⟩ : PacketView).announced =
      some (0x1000000, 2, ⟨ofString "M1000000,2:abcd", 11, -1⟩) := by decide +kernel
  have hblock : (⟨ofString "M1000000,2:abcd", 11, -1⟩ : PacketView).block (2 : BitVec 64).toNat =
      ((true, [0xab, 0xcd]), ⟨ofString "M1000000,2:abcd", 15, -1⟩) := by decide +kernel
  have haddress : Target.small.writeAddress 0x1000000 2 = some (2 ^ 32 + 0x1000000) := by decide +kernel
  unfold Target.WriteSupplied
  rw [hannounced]
  simp only [haddress, hblock]
  exact Or.inl (by decide)

/-- `M1000000,4:ab` is answered with OK, and what is in the block behind its one byte is written too. -/
theorem not_writes_truncated : ¬ ∃ r p', Target.small.processWriteMemory Target.smallPlatform
    (fun _ => .ok 0) (.ofPayload (ofString "M1000000,4:ab")) = .ok (r, p') ∧
      Target.small.WritesAnnounced Target.smallPlatform ⟨ofString "M1000000,4:ab", 1, -1⟩ r := by
  have hp := @shows_ofPayload (ofString "M1000000,4:ab") (by decide)
  have hannounced : (⟨ofString "M1000000,4:ab", 1, -1⟩ : PacketView).announced =
      some (0x1000000, 4, ⟨ofString "M1000000,4:ab", 11, -1⟩) := by decide +kernel
  have hblock : (⟨ofString "M1000000,4:ab", 11, -1⟩ : PacketView).block (4 : BitVec 64).toNat =
      ((false, [0xab]), ⟨ofString "M1000000,4:ab", 13, -1⟩) := by decide +kernel
  have haddress : Target.small.writeAddress 0x1000000 4 = some (2 ^ 32 + 0x1000000) := by decide +kernel
  obtain ⟨v', hrun⟩ := @runs_processWriteMemory Target.small Target.smallPlatform (fun _ => 0)
    ⟨ofString "M1000000,4:ab", 1, -1⟩
  rw [hrun.exists_iff hp]
  unfold Target.WritesAnnounced Target.writeResult
  rw [hannounced]
  simp only [haddress, hblock]
  rintro ⟨-, err, herr⟩
  cases herr

end SandboxingNaCl
