import SandboxingNaCl.Lib.Patches
import SandboxingNaCl.Lib.RingBuffer

/-!
# The retained tail of the log

`nacl_error_gio.c`: what the stream below has accepted goes round in a buffer of 512 bytes.  The
output is the last bytes accepted, as many of them as there are, fit in the buffer and are asked for.
-/

namespace SandboxingNaCl

/-- `NACL_ERROR_GIO_MAX_BYTES`. -/
abbrev maxErrorGioBytes : ℕ := 512

structure NaClErrorGio where
  /-- `circular_buffer` and `insert_ix`. -/
  ring : RingBuffer (BitVec 8) maxErrorGioBytes
  numBytes : ℕ

/-- What the `Write` of the stream below has returned for a buffer: no more than its length. -/
structure PassThrough where
  buf : List (BitVec 8)
  actual : ℤ
  actual_le : actual ≤ buf.length

def PassThrough.accepted (w : PassThrough) : List (BitVec 8) := w.buf.take w.actual.toNat

theorem PassThrough.length_accepted (w : PassThrough) : w.accepted.length = w.actual.toNat := by
  have hle := w.actual_le
  rw [accepted, List.length_take]
  omega

namespace NaClErrorGio

/-- `NaClErrorGioCtor`. -/
def ctor : NaClErrorGio where
  ring := ⟨Vector.replicate maxErrorGioBytes 0, 0⟩
  numBytes := 0

/-- `NaClErrorGioWrite`. -/
def write (self : NaClErrorGio) (w : PassThrough) : NaClErrorGio × ℤ :=
  if 0 < w.actual then
    ({ ring := w.accepted.foldl RingBuffer.push self.ring
       numBytes := if w.actual.toNat > maxErrorGioBytes - self.numBytes then maxErrorGioBytes
         else self.numBytes + w.actual.toNat },
      w.actual)
  else (self, w.actual)

/-- The loop of `NaClErrorGioGetOutput`, with what is still to be copied. -/
def copyOut (ring : RingBuffer (BitVec 8) maxErrorGioBytes) (ix dest : ℕ) :
    ℕ → (ℕ → BitVec 8) → ℕ → BitVec 8
  | 0, mem => mem
  | left + 1, mem =>
    copyOut ring ((ix + 1) % maxErrorGioBytes) (dest + 1) left (Patches.write mem dest [ring.cell ix])

/-- `NaClErrorGioGetOutput`, with the memory it leaves. -/
def getOutput (self : NaClErrorGio) (buffer bufferSize : ℕ) (mem : ℕ → BitVec 8) :
    ℕ × (ℕ → BitVec 8) :=
  if bufferSize = 0 then (self.numBytes, mem)
  else
    let numCopy := if self.numBytes > bufferSize then bufferSize else self.numBytes
    let ix := (self.ring.insertIx + maxErrorGioBytes - self.numBytes) % maxErrorGioBytes
    (self.numBytes, copyOut self.ring ix buffer numCopy mem)

/-- A call on the object; the memory is that of the callers of `NaClErrorGioGetOutput`. -/
inductive Call where
  | write (w : PassThrough)
  | getOutput (buffer bufferSize : ℕ)

def Call.accepted : Call → List (BitVec 8)
  | .write w => w.accepted
  | .getOutput _ _ => []

def step (s : NaClErrorGio × (ℕ → BitVec 8)) : Call → NaClErrorGio × (ℕ → BitVec 8)
  | .write w => ((s.1.write w).1, s.2)
  | .getOutput buffer bufferSize => (s.1, (s.1.getOutput buffer bufferSize s.2).2)

/-- The object retains the tail of what was accepted. -/
structure Retains (gio : NaClErrorGio) (l : List (BitVec 8)) : Prop where
  ring : gio.ring.Holds l
  numBytes_eq : gio.numBytes = min l.length maxErrorGioBytes

variable {gio : NaClErrorGio} {l : List (BitVec 8)} {mem : ℕ → BitVec 8}

theorem retains_ctor : ctor.Retains [] where
  ring := RingBuffer.holds_nil rfl
  numBytes_eq := rfl

theorem Retains.write (h : gio.Retains l) (w : PassThrough) :
    (gio.write w).1.Retains (l ++ w.accepted) := by
  have hlen := w.length_accepted
  have hnum := h.numBytes_eq
  by_cases hpos : 0 < w.actual
  · rw [NaClErrorGio.write, if_pos hpos]
    constructor
    · exact h.ring.foldl_push w.accepted
    · rw [List.length_append, hlen]
      dsimp only
      by_cases hfull : w.actual.toNat > maxErrorGioBytes - gio.numBytes
      · rw [if_pos hfull]
        omega
      · rw [if_neg hfull]
        omega
  · -- a write that failed or took nothing leaves the object as it is
    have hnone : w.accepted = [] := List.eq_nil_of_length_eq_zero (by omega)
    rw [NaClErrorGio.write, if_neg hpos, hnone, List.append_nil]
    exact h

theorem copyOut_eq (ring : RingBuffer (BitVec 8) maxErrorGioBytes) (ix dest left : ℕ)
    (mem : ℕ → BitVec 8) : copyOut ring ix dest left mem =
      Patches.write mem dest ((List.range left).map fun i => ring.cell (ix + i)) := by
  induction left generalizing ix dest mem with
  | zero =>
    funext a
    simp [copyOut, Patches.write]
  | succ left ih =>
    rw [copyOut, ih, Patches.write_cons, List.range_succ_eq_map, List.map_cons, List.map_map]
    have hcells : ((List.range left).map fun i => ring.cell ((ix + 1) % maxErrorGioBytes + i)) =
        (List.range left).map ((fun i => ring.cell (ix + i)) ∘ Nat.succ) := by
      apply List.map_congr_left
      intro i _
      rw [RingBuffer.cell_mod_add, Function.comp_apply, Nat.succ_eq_add_one]
      congr 1
      omega
    rw [hcells, Nat.add_zero]

theorem Retains.getOutput (h : gio.Retains l) (buffer bufferSize : ℕ) (mem : ℕ → BitVec 8) :
    gio.getOutput buffer bufferSize mem = (min l.length maxErrorGioBytes,
      Patches.write mem buffer ((l.rtake (min l.length maxErrorGioBytes)).take
        (min bufferSize (min l.length maxErrorGioBytes)))) := by
  have hnum := h.numBytes_eq
  have hcells : ∀ k, k ≤ gio.numBytes →
      ((List.range k).map fun i => gio.ring.cell
        ((gio.ring.insertIx + maxErrorGioBytes - gio.numBytes) % maxErrorGioBytes + i)) =
      (l.rtake gio.numBytes).take k := by
    intro k hk
    apply List.ext_getElem?
    intro i
    by_cases hi : i < k
    · rw [List.getElem?_map, List.getElem?_range hi, Option.map_some, List.getElem?_take_of_lt hi]
      exact h.ring.cell_rtake (by omega) (by omega) (by omega)
    · rw [List.getElem?_eq_none (by simp; omega), List.getElem?_eq_none (by simp; omega)]
  rw [← hnum, NaClErrorGio.getOutput]
  by_cases hzero : bufferSize = 0
  · rw [if_pos hzero, hzero, Nat.zero_min, List.take_zero]
    exact congrArg _ (copyOut_eq gio.ring 0 buffer 0 mem)
  · rw [if_neg hzero]
    have hcopy : (if gio.numBytes > bufferSize then bufferSize else gio.numBytes) =
        min bufferSize gio.numBytes := by
      by_cases hlt : gio.numBytes > bufferSize
      · rw [if_pos hlt, min_eq_left (by omega)]
      · rw [if_neg hlt, min_eq_right (by omega)]
    rw [hcopy]
    dsimp only
    rw [copyOut_eq, hcells _ (min_le_right _ _)]

theorem Retains.step {s : NaClErrorGio × (ℕ → BitVec 8)} (h : s.1.Retains l) (call : Call) :
    (step s call).1.Retains (l ++ call.accepted) := by
  cases call with
  | write w => exact h.write w
  | getOutput buffer bufferSize =>
    rw [Call.accepted, List.append_nil]
    exact h

theorem Retains.foldl {s : NaClErrorGio × (ℕ → BitVec 8)} (h : s.1.Retains l)
    (calls : List Call) : (calls.foldl NaClErrorGio.step s).1.Retains
      (l ++ calls.flatMap Call.accepted) := by
  induction calls generalizing s l with
  | nil => rwa [List.flatMap_nil, List.append_nil]
  | cons call calls ih =>
    rw [List.foldl_cons, List.flatMap_cons, ← List.append_assoc]
    exact ih (h.step call)

/-- After any calls the output is the retained tail of all that was accepted. -/
theorem getOutput_of_run (calls : List Call) (start : ℕ → BitVec 8) (buffer bufferSize : ℕ) :
    let s := calls.foldl step (ctor, start)
    let accepted := calls.flatMap Call.accepted
    let numBytes := min accepted.length maxErrorGioBytes
    s.1.getOutput buffer bufferSize s.2 = (numBytes, Patches.write s.2 buffer
      ((accepted.rtake numBytes).take (min bufferSize numBytes))) :=
  (Retains.foldl (s := (ctor, start)) retains_ctor calls).getOutput buffer bufferSize _

/-- A short write, one that fails and one that wraps. -/
example : let s := [Call.write ⟨[1, 2, 3], 2, by decide⟩, .write ⟨[4], -5, by decide⟩,
      .write ⟨[7], 1, by decide⟩].foldl step (ctor, fun _ => 0)
    (s.1.getOutput 10 2 s.2).1 = 3 ∧ (s.1.getOutput 10 2 s.2).2 11 = 2 := by decide

end NaClErrorGio

end SandboxingNaCl
