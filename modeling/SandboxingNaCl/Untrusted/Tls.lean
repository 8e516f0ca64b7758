import Mathlib.Data.BitVec
import SandboxingNaCl.Lib.ByteImage

/-!
# Thread-local storage

Where `__nacl_tls_initialize_memory` of `tls.c` puts the TLS block and the data of the thread library, and
when all of it is in the area that `__nacl_tls_combined_size` asks for.  Pointers of untrusted code have
32 bits.
-/

namespace SandboxingNaCl

open ByteImage Patches

/-- The machines of `tls_params.h` that are modelled. -/
inductive TlsMachine
  | x86
  | arm

/-- `struct tls_info`, with what `tdata_start` points to. -/
structure TlsInfo where
  tdata : List UInt8
  tbssSize : BitVec 32
  alignShift : ℕ
  tdata_lt : tdata.length < 2 ^ 32
  alignShift_lt : alignShift < 32

/-- `aligned_size`, and `aligned_addr`. -/
def alignedSize (size alignment : BitVec 32) : BitVec 32 := (size + alignment - 1) &&& -alignment

/-- `__nacl_tp_tls_offset`. -/
def TlsMachine.tpTlsOffset : TlsMachine → BitVec 32 → BitVec 32
  | x86, tlsSize => -tlsSize
  | arm, _ => 8

/-- `__nacl_tp_tdb_offset`. -/
def TlsMachine.tpTdbOffset : TlsMachine → BitVec 32 → BitVec 32
  | x86, _ => 0
  | arm, tdbSize => -tdbSize

namespace TlsInfo

variable (info : TlsInfo) (machine : TlsMachine)

def tdataSize : BitVec 32 := .ofNat 32 info.tdata.length

def tlsAlignment : BitVec 32 := 1#32 <<< info.alignShift

def tlsSize : BitVec 32 := info.tdataSize + info.tbssSize

/-- `__nacl_tls_combined_size`. -/
def combinedSize (tdbSize : BitVec 32) : BitVec 32 :=
  let tlsoff := machine.tpTlsOffset info.tlsSize
  let combinedSize := info.tlsSize + tdbSize + (info.tlsAlignment - 1)
  if BitVec.slt 0 tlsoff then combinedSize + alignedSize tlsoff info.tlsAlignment else combinedSize

def tpFromCombinedArea (combinedArea tdbSize : BitVec 32) : BitVec 32 :=
  if (machine.tpTdbOffset tdbSize).slt 0 then alignedSize (combinedArea + tdbSize) info.tlsAlignment
  else alignedSize combinedArea info.tlsAlignment + alignedSize info.tlsSize info.tlsAlignment

/-- Where `__nacl_tls_initialize_memory` puts the TLS block, from the thread pointer. -/
def tlsStart (tp : BitVec 32) : BitVec 32 :=
  if BitVec.slt 0 (machine.tpTlsOffset 0) then
    tp + alignedSize (machine.tpTlsOffset info.tlsSize) info.tlsAlignment
  else tp + machine.tpTlsOffset (alignedSize info.tlsSize info.tlsAlignment)

/-- What `__nacl_tls_initialize_memory` copies and clears, and the pointer to itself of the thread
library's data. -/
def tlsWrites (tdbSize tp start : BitVec 32) : List (Patch UInt8) :=
  [(start.toNat, info.tdata),
    ((start + info.tdataSize).toNat, List.replicate info.tbssSize.toNat 0)] ++
    if machine.tpTdbOffset tdbSize = 0 then [(tp.toNat, leBytes 4 tp.toNat)] else []

/-- `__nacl_tls_initialize_memory`: the thread pointer, and what is written, or `none` if the trap
fires. -/
def initializeMemory (combinedArea tdbSize : BitVec 32) : Option (BitVec 32 × List (Patch UInt8)) :=
  let combinedAreaEnd := combinedArea + info.combinedSize machine tdbSize
  let tp := info.tpFromCombinedArea machine combinedArea tdbSize
  let start := info.tlsStart machine tp
  if combinedAreaEnd < start + info.tdataSize + info.tbssSize then none
  else some (tp, info.tlsWrites machine tdbSize tp start)

/-! ## What the thread library relies on -/

/-- The least multiple of `2 ^ k` that is at least `n`. -/
def roundUp (k n : ℕ) : ℕ := (n + 2 ^ k - 1) / 2 ^ k * 2 ^ k

/-- The linker's rule for where the TLS block is. -/
def LinkedAt (tp start : ℕ) : Prop :=
  match machine with
  | .x86 => tp = start + roundUp info.alignShift (info.tdata.length + info.tbssSize.toNat)
  | .arm => start = tp + roundUp info.alignShift 8

/-- The TLS block, the data of the thread library, and the header, with their sizes. -/
def regions (tdbSize tp : BitVec 32) (start : ℕ) : List (ℕ × ℕ) :=
  [(start, info.tdata.length + info.tbssSize.toNat),
    ((tp + machine.tpTdbOffset tdbSize).toNat, tdbSize.toNat)] ++
    match machine with
    | .x86 => []
    | .arm => [(tp.toNat, 8)]

def Disjoint (r r' : ℕ × ℕ) : Prop := r.1 + r.2 ≤ r'.1 ∨ r'.1 + r'.2 ≤ r.1

def InArea (combinedArea tdbSize : BitVec 32) (r : ℕ × ℕ) : Prop :=
  combinedArea.toNat ≤ r.1 ∧ r.1 + r.2 ≤ combinedArea.toNat + (info.combinedSize machine tdbSize).toNat

/-- What has been placed, and written, is right. -/
structure Placed (combinedArea tdbSize tp : BitVec 32) (writes : List (Patch UInt8)) (start : ℕ) : Prop where
  linked : info.LinkedAt machine tp.toNat start
  tp_aligned : 2 ^ info.alignShift ∣ tp.toNat
  start_aligned : 2 ^ info.alignShift ∣ start
  apart : (info.regions machine tdbSize tp start).Pairwise Disjoint
  inArea : ∀ r ∈ info.regions machine tdbSize tp start, info.InArea machine combinedArea tdbSize r
  written : ∀ p ∈ writes, info.InArea machine combinedArea tdbSize (p.1, p.2.length)
  block : ∀ memory : ℕ → UInt8,
    Holds (writes.foldl (fun memory p => write memory p.1 p.2) memory) start
      (info.tdata ++ List.replicate info.tbssSize.toNat 0)

/-- The area is initialized without a trap, and as the thread library and the linker expect. -/
def Initializes (combinedArea tdbSize : BitVec 32) : Prop :=
  ∃ tp writes start, info.initializeMemory machine combinedArea tdbSize = some (tp, writes) ∧
    info.Placed machine combinedArea tdbSize tp writes start

/-- The sizes are those of an area: the exact sum is a `size_t`, and they are no negative `ptrdiff_t`.  On
x86 the paddings of the area and of the TLS block, and what the pointer of the thread library is longer
than its data, are no more than the reserve; on ARM there are data of the thread library if there is a
TLS block. -/
def Fits (combinedArea tdbSize : BitVec 32) : Prop :=
  let tlsSize := info.tdata.length + info.tbssSize.toNat
  match machine with
  | .x86 => tlsSize + tdbSize.toNat + 2 ^ info.alignShift - 1 < 2 ^ 32 ∧ tlsSize ≤ 2 ^ 31 ∧
      (roundUp info.alignShift combinedArea.toNat - combinedArea.toNat) +
        (roundUp info.alignShift tlsSize - tlsSize) + (4 - tdbSize.toNat) < 2 ^ info.alignShift
  | .arm => tlsSize + tdbSize.toNat + 2 ^ info.alignShift - 1 + roundUp info.alignShift 8 < 2 ^ 32 ∧
      tdbSize.toNat ≤ 2 ^ 31 ∧ (tdbSize = 0 → tlsSize = 0)

/-! ## Rounding -/

section

variable {k n m : ℕ}

theorem dvd_roundUp (k n : ℕ) : 2 ^ k ∣ roundUp k n := Nat.dvd_mul_left _ _

theorem le_roundUp (k n : ℕ) : n ≤ roundUp k n := by
  have hpos := Nat.two_pow_pos k
  have hdiv := Nat.div_add_mod (n + 2 ^ k - 1) (2 ^ k)
  have hmod := Nat.mod_lt (n + 2 ^ k - 1) hpos
  rw [roundUp, Nat.mul_comm]
  omega

theorem roundUp_lt (k n : ℕ) : roundUp k n < n + 2 ^ k := by
  have hpos := Nat.two_pow_pos k
  have hle := Nat.div_mul_le_self (n + 2 ^ k - 1) (2 ^ k)
  rw [roundUp]
  omega

theorem roundUp_le (hdvd : 2 ^ k ∣ m) (h : n ≤ m) : roundUp k n ≤ m := by
  obtain ⟨a, ha⟩ := hdvd
  obtain ⟨b, hb⟩ := dvd_roundUp k n
  have hlt := roundUp_lt k n
  rw [hb] at hlt ⊢
  rw [ha] at h ⊢
  refine Nat.mul_le_mul_left _ ?_
  by_contra hab
  have hle := Nat.mul_le_mul_left (2 ^ k) (Nat.succ_le_of_lt (not_le.1 hab))
  rw [Nat.mul_succ] at hle
  omega

theorem and_two_pow_sub (hk : k < 32) (hn : n < 2 ^ 32) : n &&& (2 ^ 32 - 2 ^ k) = n / 2 ^ k * 2 ^ k := by
  have hmask : 2 ^ 32 - 2 ^ k = 2 ^ k * (2 ^ (32 - k) - 1) := by
    rw [Nat.mul_sub, Nat.mul_one, ← pow_add, Nat.add_sub_cancel' hk.le]
  rw [hmask, Nat.mul_comm (n / 2 ^ k)]
  refine Nat.eq_of_testBit_eq fun i => ?_
  rw [Nat.testBit_and, Nat.testBit_two_pow_mul, Nat.testBit_two_pow_mul, Nat.testBit_two_pow_sub_one,
    Nat.testBit_div_two_pow]
  by_cases hi : k ≤ i
  · rw [Nat.sub_add_cancel hi]
    by_cases hi' : i < 32
    · simp [hi, show i - k < 32 - k by omega]
    · have hbit : n.testBit i = false :=
        Nat.testBit_lt_two_pow (hn.trans_le (Nat.pow_le_pow_right (by omega) (not_lt.1 hi')))
      simp [hbit]
  · simp [hi]

theorem toNat_alignedSize (hk : k < 32) (n : BitVec 32) :
    (alignedSize n (1#32 <<< k)).toNat = roundUp k n.toNat % 2 ^ 32 := by
  have hlt : 2 ^ k < 2 ^ 32 := Nat.pow_lt_pow_right (by omega) hk
  have hpos := Nat.two_pow_pos k
  have hone : (1#32 <<< k).toNat = 2 ^ k := by
    rw [BitVec.toNat_shiftLeft, BitVec.toNat_ofNat, Nat.shiftLeft_eq, Nat.mod_eq_of_lt (by simpa using hlt)]
    simp
  have hsum : (n + 1#32 <<< k - 1).toNat = (n.toNat + 2 ^ k - 1) % 2 ^ 32 := by
    rw [BitVec.toNat_sub, BitVec.toNat_add, hone]
    simp
    omega
  rw [alignedSize, BitVec.toNat_and, BitVec.toNat_neg, hone, hsum,
    Nat.mod_eq_of_lt (by omega : 2 ^ 32 - 2 ^ k < 2 ^ 32), and_two_pow_sub hk (Nat.mod_lt _ (by norm_num)), roundUp]
  -- `2 ^ k` divides `2 ^ 32`, so it does not matter whether the sum wraps before it is rounded down
  have hsplit : 2 ^ 32 = 2 ^ k * 2 ^ (32 - k) := by rw [← pow_add, Nat.add_sub_cancel' hk.le]
  rw [hsplit, Nat.mod_mul_right_div_self, Nat.mul_comm (2 ^ k) (2 ^ (32 - k)), Nat.mul_mod_mul_right]

theorem roundUp_le_two_pow {b : ℕ} (hk : k ≤ b) (hn : n ≤ 2 ^ b) : roundUp k n ≤ 2 ^ b :=
  roundUp_le (pow_dvd_pow 2 hk) hn

theorem roundUp_zero (k : ℕ) : roundUp k 0 = 0 := Nat.le_zero.1 (roundUp_le (dvd_zero _) le_rfl)

theorem two_pow_le_roundUp (hn : 0 < n) : 2 ^ k ≤ roundUp k n :=
  Nat.le_of_dvd (hn.trans_le (le_roundUp k n)) (dvd_roundUp k n)

end

/-! ## Signed offsets -/

theorem zero_slt_neg_iff (n : BitVec 32) : BitVec.slt 0 (-n) ↔ 2 ^ 31 < n.toNat := by
  have hlt := n.isLt
  have hzero : BitVec.toNat (0 : BitVec 32) = 0 := rfl
  simp only [BitVec.slt_iff_toInt_lt, BitVec.toInt_eq_toNat_cond, BitVec.toNat_neg, hzero]
  split <;> omega

theorem neg_slt_zero_iff (n : BitVec 32) : (-n).slt 0 ↔ 0 < n.toNat ∧ n.toNat ≤ 2 ^ 31 := by
  have hlt := n.isLt
  have hzero : BitVec.toNat (0 : BitVec 32) = 0 := rfl
  simp only [BitVec.slt_iff_toInt_lt, BitVec.toInt_eq_toNat_cond, BitVec.toNat_neg, hzero]
  split <;> omega

/-! ## The sizes and the addresses, as numbers -/

section

variable {info : TlsInfo}

theorem toNat_tlsSize : info.tlsSize.toNat = (info.tdata.length + info.tbssSize.toNat) % 2 ^ 32 := by
  rw [tlsSize, tdataSize, BitVec.toNat_add, BitVec.toNat_ofNat, Nat.mod_add_mod]

theorem toNat_tlsAlignment : info.tlsAlignment.toNat = 2 ^ info.alignShift := by
  have hlt : 2 ^ info.alignShift < 2 ^ 32 := Nat.pow_lt_pow_right (by omega) info.alignShift_lt
  rw [tlsAlignment, BitVec.toNat_shiftLeft, Nat.shiftLeft_eq]
  simpa using Nat.mod_eq_of_lt hlt

theorem toNat_aligned (n : BitVec 32) :
    (alignedSize n info.tlsAlignment).toNat = roundUp info.alignShift n.toNat % 2 ^ 32 :=
  toNat_alignedSize info.alignShift_lt n

theorem toNat_combinedSize_x86 (tdbSize : BitVec 32) :
    (info.combinedSize .x86 tdbSize).toNat =
      if 2 ^ 31 < info.tlsSize.toNat then
        (info.tlsSize.toNat + tdbSize.toNat + (2 ^ info.alignShift - 1) +
          roundUp info.alignShift (2 ^ 32 - info.tlsSize.toNat)) % 2 ^ 32
      else (info.tlsSize.toNat + tdbSize.toNat + (2 ^ info.alignShift - 1)) % 2 ^ 32 := by
  have hlt : 2 ^ info.alignShift < 2 ^ 32 := Nat.pow_lt_pow_right (by omega) info.alignShift_lt
  have hpos := Nat.two_pow_pos info.alignShift
  have hsize := info.tlsSize.isLt
  have halign : (info.tlsAlignment - 1).toNat = 2 ^ info.alignShift - 1 := by
    rw [BitVec.toNat_sub, toNat_tlsAlignment]
    simp
    omega
  simp only [combinedSize, TlsMachine.tpTlsOffset, zero_slt_neg_iff]
  split <;> rename_i hneg
  · rw [BitVec.toNat_add, BitVec.toNat_add, BitVec.toNat_add, halign, toNat_aligned, BitVec.toNat_neg,
      Nat.mod_eq_of_lt (by omega : 2 ^ 32 - info.tlsSize.toNat < 2 ^ 32)]
    simp
  · rw [BitVec.toNat_add, BitVec.toNat_add, halign, Nat.mod_add_mod]

theorem toNat_combinedSize_arm (tdbSize : BitVec 32) :
    (info.combinedSize .arm tdbSize).toNat =
      (info.tlsSize.toNat + tdbSize.toNat + (2 ^ info.alignShift - 1) +
        roundUp info.alignShift 8) % 2 ^ 32 := by
  have hlt : 2 ^ info.alignShift < 2 ^ 32 := Nat.pow_lt_pow_right (by omega) info.alignShift_lt
  have hpos := Nat.two_pow_pos info.alignShift
  have halign : (info.tlsAlignment - 1).toNat = 2 ^ info.alignShift - 1 := by
    rw [BitVec.toNat_sub, toNat_tlsAlignment]
    simp
    omega
  have height : BitVec.slt 0 (8 : BitVec 32) := by decide
  simp only [combinedSize, TlsMachine.tpTlsOffset, height, if_true]
  rw [BitVec.toNat_add, BitVec.toNat_add, BitVec.toNat_add, halign, toNat_aligned]
  simp

theorem toNat_tp_x86 (combinedArea tdbSize : BitVec 32) :
    (info.tpFromCombinedArea .x86 combinedArea tdbSize).toNat =
      (roundUp info.alignShift combinedArea.toNat + roundUp info.alignShift info.tlsSize.toNat) % 2 ^ 32 := by
  have hzero : ¬ BitVec.slt (0 : BitVec 32) 0 := by decide
  simp only [tpFromCombinedArea, TlsMachine.tpTdbOffset, hzero]
  rw [if_neg (by simp), BitVec.toNat_add, toNat_aligned, toNat_aligned]
  simp

theorem toNat_tp_arm (combinedArea tdbSize : BitVec 32) :
    (info.tpFromCombinedArea .arm combinedArea tdbSize).toNat =
      if 0 < tdbSize.toNat ∧ tdbSize.toNat ≤ 2 ^ 31 then
        roundUp info.alignShift ((combinedArea.toNat + tdbSize.toNat) % 2 ^ 32) % 2 ^ 32
      else
        (roundUp info.alignShift combinedArea.toNat + roundUp info.alignShift info.tlsSize.toNat) % 2 ^ 32 := by
  simp only [tpFromCombinedArea, TlsMachine.tpTdbOffset, neg_slt_zero_iff]
  split
  · rw [toNat_aligned, BitVec.toNat_add]
  · rw [BitVec.toNat_add, toNat_aligned, toNat_aligned]
    simp

theorem toNat_tlsStart_x86 (tp : BitVec 32) :
    (info.tlsStart .x86 tp).toNat =
      (2 ^ 32 - roundUp info.alignShift info.tlsSize.toNat % 2 ^ 32 + tp.toNat) % 2 ^ 32 := by
  have hzero : ¬ BitVec.slt (0 : BitVec 32) (-0) := by decide
  simp only [tlsStart, TlsMachine.tpTlsOffset, hzero]
  rw [if_neg (by simp), ← BitVec.sub_eq_add_neg, BitVec.toNat_sub, toNat_aligned]

theorem toNat_tlsStart_arm (tp : BitVec 32) :
    (info.tlsStart .arm tp).toNat = (tp.toNat + roundUp info.alignShift 8) % 2 ^ 32 := by
  have height : BitVec.slt 0 (8 : BitVec 32) := by decide
  simp only [tlsStart, TlsMachine.tpTlsOffset, height, if_true]
  rw [BitVec.toNat_add, toNat_aligned]
  simp

/-! ## When the area is large enough -/

/-- What is written, when the TLS block is right after `start` and the pointer of the thread library does
not reach into it. -/
theorem holds_block {start : ℕ} {self : List (Patch UInt8)}
    (hself : ∀ p ∈ self, Avoids start (info.tdata.length + info.tbssSize.toNat) p)
    (memory : ℕ → UInt8) :
    Holds (([(start, info.tdata),
      (start + info.tdata.length, List.replicate info.tbssSize.toNat 0)] ++ self).foldl
      (fun memory p => write memory p.1 p.2) memory) start
      (info.tdata ++ List.replicate info.tbssSize.toNat 0) := by
  rw [List.foldl_append]
  have hblock : Holds (write (write memory start info.tdata) (start + info.tdata.length)
      (List.replicate info.tbssSize.toNat 0)) start (info.tdata ++ List.replicate info.tbssSize.toNat 0) := by
    refine holds_append.2 ⟨(holds_write _ _ _).write (Or.inl le_rfl), holds_write _ _ _⟩
  generalize hm : List.foldl _ memory [_, _] = m
  replace hblock : Holds m start (info.tdata ++ List.replicate info.tbssSize.toNat 0) := hm ▸ hblock
  clear hm
  induction self generalizing m with
  | nil => exact hblock
  | cons p self ih =>
    refine ih (fun q hq => hself q (List.mem_cons_of_mem _ hq)) _ (hblock.write ?_)
    rw [List.length_append, List.length_replicate]
    exact hself p List.mem_cons_self

variable {combinedArea tdbSize : BitVec 32}

theorem of_initializeMemory {machine : TlsMachine} {tp : BitVec 32} {writes : List (Patch UInt8)}
    (hrun : info.initializeMemory machine combinedArea tdbSize = some (tp, writes)) :
    tp = info.tpFromCombinedArea machine combinedArea tdbSize ∧
      (machine.tpTdbOffset tdbSize = 0 → (tp.toNat, leBytes 4 tp.toNat) ∈ writes) := by
  unfold initializeMemory at hrun
  dsimp only at hrun
  split_ifs at hrun
  cases hrun
  refine ⟨rfl, fun hself => List.mem_append_right _ ?_⟩
  rw [if_pos hself]
  exact List.mem_singleton_self _

theorem two_pow_alignShift_le : 2 ^ info.alignShift ≤ 2 ^ 31 :=
  Nat.pow_le_pow_right (by omega) (Nat.le_of_lt_succ info.alignShift_lt)

/-- The block is written where it is linked, if it ends in the area and the pointer of the thread library
is clear of it. -/
theorem initializes_of {machine : TlsMachine} {tp start : BitVec 32}
    (h : combinedArea.toNat + (info.combinedSize machine tdbSize).toNat < 2 ^ 32)
    (htp : info.tpFromCombinedArea machine combinedArea tdbSize = tp)
    (hstart : info.tlsStart machine tp = start)
    (hlinked : info.LinkedAt machine tp.toNat start.toNat)
    (haligned : 2 ^ info.alignShift ∣ tp.toNat ∧ 2 ^ info.alignShift ∣ start.toNat)
    (hapart : (info.regions machine tdbSize tp start.toNat).Pairwise Disjoint)
    (hin : ∀ r ∈ info.regions machine tdbSize tp start.toNat, info.InArea machine combinedArea tdbSize r)
    (hself : machine.tpTdbOffset tdbSize = 0 → info.InArea machine combinedArea tdbSize (tp.toNat, 4) ∧
      Avoids start.toNat (info.tdata.length + info.tbssSize.toNat) (tp.toNat, leBytes 4 tp.toNat)) :
    info.Initializes machine combinedArea tdbSize := by
  obtain ⟨hle, hend⟩ : info.InArea machine combinedArea tdbSize (start.toNat, _) := hin _ List.mem_cons_self
  dsimp only at hle hend
  have hdata : (start + info.tdataSize).toNat = start.toNat + info.tdata.length := by
    rw [BitVec.toNat_add, tdataSize, BitVec.toNat_ofNat, Nat.mod_eq_of_lt info.tdata_lt]
    exact Nat.mod_eq_of_lt (by omega)
  have hbss : (start + info.tdataSize + info.tbssSize).toNat =
      start.toNat + info.tdata.length + info.tbssSize.toNat := by
    rw [BitVec.toNat_add, hdata]
    exact Nat.mod_eq_of_lt (by omega)
  have htrap : ¬ combinedArea + info.combinedSize machine tdbSize <
      start + info.tdataSize + info.tbssSize := by
    rw [BitVec.lt_def, hbss, BitVec.toNat_add, Nat.mod_eq_of_lt h]
    omega
  refine ⟨tp, info.tlsWrites machine tdbSize tp start, start.toNat, ?_, hlinked, haligned.1, haligned.2,
    hapart, hin, ?_, ?_⟩
  · unfold initializeMemory
    dsimp only
    rw [htp, hstart, if_neg htrap]
  · intro p hp
    rw [tlsWrites, hdata] at hp
    obtain hp | hp := List.mem_append.1 hp
    · rcases List.mem_cons.1 hp with rfl | hp
      · exact ⟨hle, by dsimp only; omega⟩
      · obtain rfl := List.mem_singleton.1 hp
        refine ⟨by dsimp only; omega, ?_⟩
        rw [List.length_replicate]
        omega
    · split_ifs at hp with hoff
      · obtain rfl := List.mem_singleton.1 hp
        rw [length_leBytes]
        exact (hself hoff).1
      · cases hp
  · rw [tlsWrites, hdata]
    refine holds_block fun p hp => ?_
    split_ifs at hp with hoff
    · obtain rfl := List.mem_singleton.1 hp
      exact (hself hoff).2
    · cases hp

theorem fits_of_initializes_x86
    (h : combinedArea.toNat + (info.combinedSize .x86 tdbSize).toNat < 2 ^ 32)
    (hinit : info.Initializes .x86 combinedArea tdbSize) : info.Fits .x86 combinedArea tdbSize := by
  obtain ⟨tp, writes, start, hrun, hplaced⟩ := hinit
  obtain ⟨htp, hself⟩ := of_initializeMemory hrun
  replace htp : tp.toNat = _ := (congrArg _ htp).trans (toNat_tp_x86 _ _)
  have hlink : tp.toNat = _ := hplaced.linked
  obtain ⟨hstart, hblock⟩ := hplaced.inArea _ List.mem_cons_self
  obtain ⟨-, htdb⟩ := hplaced.inArea _ (List.mem_cons_of_mem _ List.mem_cons_self)
  obtain ⟨-, hself⟩ := hplaced.written _ (hself rfl)
  simp only [length_leBytes] at hstart hblock htdb hself
  have htdbOffset : tp + TlsMachine.x86.tpTdbOffset tdbSize = tp := BitVec.add_zero tp
  have hcombined := @toNat_combinedSize_x86 info tdbSize
  have htls := @toNat_tlsSize info
  rw [Nat.mod_eq_of_lt (by omega)] at htls
  rw [htdbOffset] at htdb
  rw [htls] at htp hcombined
  clear htls
  unfold Fits
  dsimp only
  generalize info.tdata.length + info.tbssSize.toNat = tlsSize at *
  generalize (info.combinedSize .x86 tdbSize).toNat = combined at *
  have hsize := tdbSize.isLt
  have halign := info.two_pow_alignShift_le
  have hshift := Nat.le_of_lt_succ info.alignShift_lt
  have hle := le_roundUp info.alignShift combinedArea.toNat
  have hlt := roundUp_lt info.alignShift combinedArea.toNat
  have htop := roundUp_le_two_pow info.alignShift_lt.le combinedArea.isLt.le
  have hle' := le_roundUp info.alignShift tlsSize
  have hlt' := roundUp_lt info.alignShift tlsSize
  by_cases hneg : 2 ^ 31 < tlsSize
  · -- the size is taken for a positive offset, and the area is too small for the TLS block
    exfalso
    have hle'' := le_roundUp info.alignShift (2 ^ 32 - tlsSize)
    have hlt'' := roundUp_lt info.alignShift (2 ^ 32 - tlsSize)
    rw [if_pos hneg] at hcombined
    obtain hshift | hshift := Nat.lt_or_eq_of_le hshift
    · have halign' : 2 ^ info.alignShift ≤ 2 ^ 30 :=
        Nat.pow_le_pow_right (by omega) (Nat.le_of_lt_succ hshift)
      omega
    · have halign' : 2 ^ info.alignShift = 2 ^ 31 := congrArg _ hshift
      obtain ⟨q, hq⟩ := dvd_roundUp info.alignShift tlsSize
      rw [halign'] at hq
      omega
  · rw [if_neg hneg] at hcombined
    omega

theorem initializes_of_fits_x86
    (h : combinedArea.toNat + (info.combinedSize .x86 tdbSize).toNat < 2 ^ 32)
    (hfits : info.Fits .x86 combinedArea tdbSize) : info.Initializes .x86 combinedArea tdbSize := by
  obtain ⟨hsum, hsize, hslack⟩ := hfits
  have halign := info.two_pow_alignShift_le
  have htls := @toNat_tlsSize info
  rw [Nat.mod_eq_of_lt (by omega)] at htls
  have hcombined := @toNat_combinedSize_x86 info tdbSize
  rw [htls, if_neg (by omega), Nat.mod_eq_of_lt (by omega)] at hcombined
  have hle := le_roundUp info.alignShift combinedArea.toNat
  have hle' := le_roundUp info.alignShift (info.tdata.length + info.tbssSize.toNat)
  have htp := @toNat_tp_x86 info combinedArea tdbSize
  rw [htls, Nat.mod_eq_of_lt (by omega)] at htp
  set tp := info.tpFromCombinedArea .x86 combinedArea tdbSize with htpdef
  have hstart := @toNat_tlsStart_x86 info tp
  rw [htls, htp, Nat.mod_eq_of_lt (by omega : roundUp _ _ < 2 ^ 32)] at hstart
  replace hstart : (info.tlsStart .x86 tp).toNat = roundUp info.alignShift combinedArea.toNat := by omega
  have htdbOffset : tp + TlsMachine.x86.tpTdbOffset tdbSize = tp := BitVec.add_zero tp
  refine @initializes_of info combinedArea tdbSize .x86 tp _ h rfl rfl ?_ ⟨?_, ?_⟩ ?_ ?_ fun _ =>
    ⟨⟨?_, ?_⟩, Or.inl ?_⟩
  · change tp.toNat = _
    rw [htp, hstart]
  · rw [htp]
    exact Nat.dvd_add (dvd_roundUp _ _) (dvd_roundUp _ _)
  · rw [hstart]
    exact dvd_roundUp _ _
  · rw [regions, htdbOffset, hstart, htp]
    refine .cons ?_ (List.pairwise_singleton _ _)
    rintro r hr
    obtain rfl := List.mem_singleton.1 hr
    exact Or.inl (Nat.add_le_add_left hle' _)
  · rw [regions, htdbOffset, hstart, htp]
    rintro r hr
    rcases List.mem_cons.1 hr with rfl | hr
    · exact ⟨hle, by dsimp only; omega⟩
    · obtain rfl := List.mem_singleton.1 hr
      exact ⟨by dsimp only; omega, by dsimp only; omega⟩
  · dsimp only
    omega
  · dsimp only
    omega
  · rw [hstart, htp]
    dsimp only
    omega

theorem fits_of_initializes_arm
    (h : combinedArea.toNat + (info.combinedSize .arm tdbSize).toNat < 2 ^ 32)
    (hinit : info.Initializes .arm combinedArea tdbSize) : info.Fits .arm combinedArea tdbSize := by
  obtain ⟨tp, writes, start, hrun, hplaced⟩ := hinit
  obtain ⟨htp, -⟩ := of_initializeMemory hrun
  replace htp : tp.toNat = _ := (congrArg _ htp).trans (toNat_tp_arm _ _)
  have hlink : start = _ := hplaced.linked
  obtain ⟨-, hblock⟩ := hplaced.inArea _ List.mem_cons_self
  obtain ⟨htdbStart, htdb⟩ := hplaced.inArea _ (List.mem_cons_of_mem _ List.mem_cons_self)
  have htdbOffset : (tp + TlsMachine.arm.tpTdbOffset tdbSize).toNat =
      (2 ^ 32 - tdbSize.toNat + tp.toNat) % 2 ^ 32 := by
    rw [TlsMachine.tpTdbOffset, ← BitVec.sub_eq_add_neg, BitVec.toNat_sub]
  have hcombined := @toNat_combinedSize_arm info tdbSize
  have htls := @toNat_tlsSize info
  dsimp only at hblock htdbStart htdb
  rw [Nat.mod_eq_of_lt (by omega)] at htls
  rw [htdbOffset] at htdb htdbStart
  rw [htls] at htp hcombined
  clear htls htdbOffset
  unfold Fits
  dsimp only
  generalize info.tdata.length + info.tbssSize.toNat = tlsSize at *
  generalize (info.combinedSize .arm tdbSize).toNat = combined at *
  have htpLt := tp.isLt
  have hsize := tdbSize.isLt
  have halign := info.two_pow_alignShift_le
  have hheader : 2 ^ info.alignShift ≤ roundUp info.alignShift 8 := two_pow_le_roundUp (by omega)
  -- the TDB ends at the thread pointer, so it is neither below the area nor across the end of memory
  have htdbLe : combinedArea.toNat + tdbSize.toNat ≤ tp.toNat := by omega
  have hsum : tlsSize + tdbSize.toNat + 2 ^ info.alignShift - 1 + roundUp info.alignShift 8 < 2 ^ 32 := by
    omega
  rw [Nat.mod_eq_of_lt (by omega)] at hcombined
  have hle := le_roundUp info.alignShift combinedArea.toNat
  have hlt := roundUp_lt info.alignShift combinedArea.toNat
  have hlt' := roundUp_lt info.alignShift tlsSize
  refine ⟨hsum, ?_, fun hzero => ?_⟩
  · by_contra hneg
    rw [if_neg (by omega)] at htp
    omega
  · by_contra hne
    have hle' : 2 ^ info.alignShift ≤ roundUp info.alignShift tlsSize :=
      two_pow_le_roundUp (Nat.pos_of_ne_zero hne)
    have htdb : tdbSize.toNat = 0 := congrArg _ hzero
    rw [if_neg (by omega)] at htp
    omega

theorem initializes_of_fits_arm
    (h : combinedArea.toNat + (info.combinedSize .arm tdbSize).toNat < 2 ^ 32)
    (hfits : info.Fits .arm combinedArea tdbSize) : info.Initializes .arm combinedArea tdbSize := by
  obtain ⟨hsum, hsize, hzero⟩ := hfits
  have halign := Nat.two_pow_pos info.alignShift
  have htls := @toNat_tlsSize info
  rw [Nat.mod_eq_of_lt (by omega)] at htls
  have hcombined := @toNat_combinedSize_arm info tdbSize
  rw [htls, Nat.mod_eq_of_lt (by omega)] at hcombined
  have hle := le_roundUp info.alignShift (combinedArea.toNat + tdbSize.toNat)
  have hlt := roundUp_lt info.alignShift (combinedArea.toNat + tdbSize.toNat)
  have hheader := le_roundUp info.alignShift 8
  have htp : (info.tpFromCombinedArea .arm combinedArea tdbSize).toNat =
      roundUp info.alignShift (combinedArea.toNat + tdbSize.toNat) := by
    rw [toNat_tp_arm]
    split_ifs with hpos
    · rw [Nat.mod_eq_of_lt (by omega : combinedArea.toNat + _ < 2 ^ 32), Nat.mod_eq_of_lt (by omega)]
    · have htdb : tdbSize.toNat = 0 := by omega
      rw [htls, hzero (BitVec.eq_of_toNat_eq htdb), roundUp_zero, Nat.add_zero]
      rw [htdb, Nat.add_zero] at hlt ⊢
      exact Nat.mod_eq_of_lt (by omega)
  set tp := info.tpFromCombinedArea .arm combinedArea tdbSize with htpdef
  have hstart := @toNat_tlsStart_arm info tp
  rw [Nat.mod_eq_of_lt (by omega)] at hstart
  have htdbOffset : (tp + TlsMachine.arm.tpTdbOffset tdbSize).toNat = tp.toNat - tdbSize.toNat := by
    rw [TlsMachine.tpTdbOffset, ← BitVec.sub_eq_add_neg, BitVec.toNat_sub]
    omega
  refine @initializes_of info combinedArea tdbSize .arm tp _ h rfl rfl ?_ ⟨?_, ?_⟩ ?_ ?_ fun _ =>
    ⟨⟨?_, ?_⟩, Or.inr ?_⟩
  · exact hstart
  · rw [htp]
    exact dvd_roundUp _ _
  · rw [hstart, htp]
    exact Nat.dvd_add (dvd_roundUp _ _) (dvd_roundUp _ _)
  · rw [regions, htdbOffset, hstart]
    refine .cons ?_ (.cons ?_ (List.pairwise_singleton _ _))
    · rintro r hr
      rcases List.mem_cons.1 hr with rfl | hr
      · exact Or.inr (by dsimp only; omega)
      · obtain rfl := List.mem_singleton.1 hr
        exact Or.inr (by dsimp only; omega)
    · rintro r hr
      obtain rfl := List.mem_singleton.1 hr
      exact Or.inl (by dsimp only; omega)
  · rw [regions, htdbOffset, hstart]
    rintro r hr
    rcases List.mem_cons.1 hr with rfl | hr
    · exact ⟨by dsimp only; omega, by dsimp only; omega⟩
    rcases List.mem_cons.1 hr with rfl | hr
    · exact ⟨by dsimp only; omega, by dsimp only; omega⟩
    · obtain rfl := List.mem_singleton.1 hr
      exact ⟨by dsimp only; omega, by dsimp only; omega⟩
  · dsimp only
    omega
  · dsimp only
    omega
  · rw [hstart, length_leBytes]
    dsimp only
    omega

end

/-- An area of the size asked for, whose end is an address, is initialized right exactly if it fits. -/
theorem initializes_iff (info : TlsInfo) (machine : TlsMachine) (combinedArea tdbSize : BitVec 32)
    (h : combinedArea.toNat + (info.combinedSize machine tdbSize).toNat < 2 ^ 32) :
    info.Initializes machine combinedArea tdbSize ↔ info.Fits machine combinedArea tdbSize :=
  match machine with
  | .x86 => ⟨fits_of_initializes_x86 h, initializes_of_fits_x86 h⟩
  | .arm => ⟨fits_of_initializes_arm h, initializes_of_fits_arm h⟩

/-- One byte of data, at a multiple of 16. -/
def oneByte : TlsInfo where
  tdata := [1]
  tbssSize := 0
  alignShift := 4
  tdata_lt := by decide
  alignShift_lt := by decide

/-- An aligned area only has to pad the TLS block. -/
theorem initializes_aligned : oneByte.Initializes .x86 65536 64 :=
  (initializes_iff oneByte .x86 65536 64 (by decide)).2 ⟨by decide, by decide, by decide⟩

/-- An area that is not aligned needs both paddings, and the data of the thread library end 15 bytes
behind it. -/
theorem not_initializes_unaligned :
    (65537#32).toNat + (oneByte.combinedSize .x86 64).toNat < 2 ^ 32 ∧
      ¬ oneByte.Initializes .x86 65537 64 := by
  refine ⟨by decide, fun hinit => ?_⟩
  obtain ⟨-, -, hslack⟩ := fits_of_initializes_x86 (by decide) hinit
  exact absurd hslack (by decide)

end TlsInfo

end SandboxingNaCl
