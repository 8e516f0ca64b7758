import SandboxingNaCl.Service.SysCalls

/-!
# Host I/O on memory of the sandbox

Threads that do host I/O announce the range of their buffer, and the calls that map, unmap and
protect memory abort when such a range overlaps what they are about to change.  `NaClSysMmapIntern`
only asks about the part of its range that the file backs, and gives the lock up before it copies code
in.
-/

namespace SandboxingNaCl

open MachineInt PagedMemory Runs

def naclVmIoWillStart (nap : NaClApp) (addrFirstUsr addrLastUsr : BitVec 32) : NaClApp :=
  { nap with memIoRegions := (addrFirstUsr.toNat, addrLastUsr.toNat) :: nap.memIoRegions }

local instance lawfulBEqRange : LawfulBEq (ℕ × ℕ) := inferInstance

/-- `NaClVmIoHasEnded`, of I/O that has started. -/
def naclVmIoHasEnded (nap : NaClApp) (addrFirstUsr addrLastUsr : BitVec 32) :
    Except Fault NaClApp :=
  if (addrFirstUsr.toNat, addrLastUsr.toNat) ∈ nap.memIoRegions then
    .ok { nap with
      memIoRegions := nap.memIoRegions.erase (addrFirstUsr.toNat, addrLastUsr.toNat) }
  else
    .error .fatal

/-- Code that a call of `NaClSysMmapIntern` copies in after it has given the lock up. -/
structure CodeCopy where
  usraddr : ℕ
  codeCopy : ℕ → UInt8
  size : ℕ
  ans : DyncodeAnswers

def CodeCopy.Hidden (c : CodeCopy) (nap : NaClApp) (page : ℕ) : Prop :=
  nap.Hidden (shmMapRange nap c.usraddr c.size).1
    ((shmMapRange nap c.usraddr c.size).1 + (shmMapRange nap c.usraddr c.size).2) page

instance (c : CodeCopy) (nap : NaClApp) (page : ℕ) : Decidable (c.Hidden nap page) :=
  inferInstanceAs (Decidable (_ ∧ _ ∧ _))

/-- The state, with the copies that are under way. -/
structure IoState where
  nap : NaClApp
  copies : List CodeCopy

/-- What the threads do: each event happens under the lock, apart from the last two, by which a copy
makes one page visible and comes to its end. -/
inductive IoEvent
  | ioWillStart (addrFirstUsr addrLastUsr : BitVec 32)
  | ioHasEnded (addrFirstUsr addrLastUsr : BitVec 32)
  | mmap (args : MmapArgs) (ans : MmapAnswers)
  | munmap (start length : BitVec 32) (host : Except NaClAbiErrno Unit)
  | mprotect (start : BitVec 32) (length : ℕ) (prot : BitVec 32)
  | copyPage (i page : ℕ)
  | copyEnd (i : ℕ)

/-- One event. -/
def IoState.step (s : IoState) : IoEvent → Except Fault IoState
  | .ioWillStart first last => .ok { s with nap := naclVmIoWillStart s.nap first last }
  | .ioHasEnded first last => (naclVmIoHasEnded s.nap first last).map fun nap => { s with nap }
  | .mmap args ans =>
    match mmapLocked s.nap args ans with
    | .error fault => .error fault
    | .ok (nap, .done _) => .ok { s with nap }
    | .ok (nap, .copy usraddr codeCopy size ans) =>
      .ok ⟨nap, s.copies ++ [⟨usraddr, codeCopy, size, ans⟩]⟩
  | .munmap start length host =>
    (naclSysMunmap s.nap start.toNat length.toNat host).map fun (nap, _) => { s with nap }
  | .mprotect start length prot =>
    (naclSysMprotectInternal s.nap start.toNat length prot).map fun (nap, _) => { s with nap }
  | .copyPage i page =>
    if ∃ c ∈ s.copies[i]?, c.Hidden s.nap page then
      (makeDynamicCodePagesVisible s.nap page (page + 1)).map fun nap => { s with nap }
    else .ok s
  | .copyEnd i =>
    match s.copies[i]? with
    | none => .ok s
    | some c =>
      (mmapCopy s.nap c.usraddr c.codeCopy c.size c.ans).map fun (nap, _) =>
        ⟨nap, s.copies.eraseIdx i⟩

namespace NaClApp

/-- No I/O is in flight on `[a, b)`. -/
def NoIo (nap : NaClApp) (a b : ℕ) : Prop :=
  ∀ range ∈ nap.memIoRegions, ∀ i, range.1 ≤ i → i ≤ range.2 → ¬ (a ≤ i ∧ i < b)

/-- The pages of every buffer of I/O in flight stay mapped as they were. -/
def Undisturbed (nap nap' : NaClApp) : Prop :=
  ∀ range ∈ nap.memIoRegions, ∀ i, range.1 ≤ i → i ≤ range.2 →
    Memory.SameAt naclPageSize nap.mem nap'.mem (i / naclPageSize)

end NaClApp

/-- No I/O is in flight on the part of a mapping that its file does not back, nor on a page that a copy
of code makes visible. -/
def IoEvent.Guard (s : IoState) : IoEvent → Prop
  | .mmap args ans => ∀ req usraddr, mmapCheckArgs s.nap args ans = .ok (.ok req) →
      req.At s.nap usraddr →
      s.nap.NoIo (usraddr + req.length) (usraddr + req.allocRoundedLength)
  | .copyPage i page => ∀ c ∈ s.copies[i]?, c.Hidden s.nap page →
      s.nap.NoIo (s.nap.dynamicTextStart + page * naclMapPageSize)
        (s.nap.dynamicTextStart + (page + 1) * naclMapPageSize)
  | .copyEnd i => ∀ c ∈ s.copies[i]?, ∀ page, c.Hidden s.nap page →
      s.nap.NoIo (s.nap.dynamicTextStart + page * naclMapPageSize)
        (s.nap.dynamicTextStart + (page + 1) * naclMapPageSize)
  | _ => True

/-- What the events keep: the copies are of code in the address space. -/
structure IoState.Sound (s : IoState) : Prop where
  nap : s.nap.Sound
  copies : ∀ c ∈ s.copies, c.usraddr < 2 ^ 32 ∧ c.size < 2 ^ 32

section

variable {nap nap' : NaClApp} {a b : ℕ}

theorem NaClApp.Undisturbed.refl (nap : NaClApp) : nap.Undisturbed nap :=
  fun _ _ _ _ _ => .refl _ _

theorem noIo_of_not_pending {first len : ℕ} (hpos : 0 < len) (hle : first + len ≤ 2 ^ 32)
    (h : naclVmIoPending nap first (usub (uadd first len) 1) = false) :
    nap.NoIo first (first + len) := by
  intro range hrange i hlo hhi hin
  rw [uadd_eq (by omega), usub_eq (by omega) (by omega)] at h
  unfold naclVmIoPending at h
  rw [List.any_eq_false] at h
  refine h range hrange (decide_eq_true ?_)
  omega

theorem NaClApp.NoIo.append {c : ℕ} (h : nap.NoIo a b) (h' : nap.NoIo b c) : nap.NoIo a c := by
  intro range hrange i hlo hhi hin
  by_cases hb : i < b
  · exact h range hrange i hlo hhi ⟨hin.1, hb⟩
  · exact h' range hrange i hlo hhi ⟨not_lt.1 hb, hin.2⟩

theorem undisturbed_of_outside {s t : ℕ}
    (hstep : ∀ p, p < s ∨ t ≤ p → Memory.SameAt naclPageSize nap.mem nap'.mem p)
    (h : nap.NoIo (s * naclPageSize) (t * naclPageSize)) : nap.Undisturbed nap' := by
  intro range hrange i hlo hhi
  refine hstep _ ?_
  by_contra hin
  have hps : 0 < naclPageSize := by decide
  refine h range hrange i hlo hhi ⟨?_, ?_⟩
  · exact (Nat.le_div_iff_mul_le hps).1 (by omega)
  · exact (Nat.div_lt_iff_lt_mul hps).1 (by omega)

/-! ## The events -/

theorem undisturbed_munmap {start length : ℕ} {host : Except NaClAbiErrno Unit} {r : SysResult}
    (h : nap.Sound) (hlt : start < 2 ^ 64)
    (hrun : naclSysMunmap nap start length host = .ok (nap', r)) : nap.Undisturbed nap' := by
  have hbits := addrBits_pow_le nap.space
  rcases naclSysMunmap_spec hlt hrun with ⟨rfl, -⟩ | ⟨s, n, rfl, hpos, hle, -, hio, hrun⟩
  · exact .refl nap'
  · have hmax := hle.trans hbits
    refine undisturbed_of_outside
      (dataStep_munmapInternal h.wellFormed hpos hmax le_rfl hrun).outside ?_
    rw [Nat.add_mul]
    exact noIo_of_not_pending (Nat.mul_pos hpos (by decide)) hmax hio

theorem undisturbed_mprotect {start length : ℕ} {prot : BitVec 32} {r : SysResult}
    (h : nap.Sound) (hlt : start < 2 ^ 32)
    (hrun : naclSysMprotectInternal nap start length prot = .ok (nap', r)) :
    nap.Undisturbed nap' := by
  have hbits := addrBits_pow_le nap.space
  rcases naclSysMprotectInternal_spec h.wellFormed hlt hrun with
    ⟨memMap, rfl, -⟩ | ⟨s, n, rfl, -, -, hdone⟩
  · exact fun _ _ _ _ _ => .refl _ _
  · refine undisturbed_of_outside hdone.dataStep.outside ?_
    rw [Nat.add_mul]
    exact noIo_of_not_pending (Nat.mul_pos hdone.pos (by decide)) (hdone.le.trans hbits)
      hdone.not_pending

theorem undisturbed_mmapCodeDirect {args : MmapArgs} {ans : MmapAnswers} {req : MmapRequest}
    {desc : NaClDesc} {r : SysResult} (hreq : req.Checked nap args)
    (hplace : req.Placed nap args.start) (hcode : req.mappingCode = true)
    (hrun : mmapCodeDirect nap req desc args.start args.offset ans = .ok (nap', r)) :
    nap.Undisturbed nap' := by
  have hbits := addrBits_pow_le nap.space
  have hps : 0 < naclPageSize := by decide
  obtain ⟨-, -, hstart, hlen⟩ := hreq.code_range hplace hcode
  obtain ⟨-, -, -, -, hlength, -⟩ := hreq.code hcode
  obtain ⟨sysaddr, text, free, -, -, rfl, -⟩ := mmapCodeDirect_spec hrun
  obtain ⟨s, hs⟩ := exists_mul_naclPageSize hstart
  obtain ⟨n, hn⟩ := exists_mul_naclPageSize hlen
  refine undisturbed_of_outside (s := s) (t := s + n) (fun p hp => ?_) ?_
  · dsimp only
    split_ifs
    · refine Memory.sameAt_mmap _ _ ?_
      rw [hs, hn, pageEnd_of_dvd, Nat.mul_div_cancel _ hps]
      exact hp
    · exact .refl _ _
  · have hio := hplace.not_pending
    have hle := hplace.le.trans hbits
    rw [← hlength] at hle
    rw [Nat.add_mul, ← hs, ← hn]
    refine noIo_of_not_pending ?_ hle hio
    rw [hlength]
    exact hreq.pos

theorem undisturbed_mmapLocked {args : MmapArgs} {ans : MmapAnswers} {o : MmapOutcome}
    (h : nap.Sound) (hguard : ∀ req usraddr, mmapCheckArgs nap args ans = .ok (.ok req) →
      req.At nap usraddr → nap.NoIo (usraddr + req.length) (usraddr + req.allocRoundedLength))
    (hlocked : mmapLocked nap args ans = .ok (nap', o)) : nap.Undisturbed nap' := by
  cases mmapLocked_spec h.wellFormed hlocked with
  | refused hmap heq =>
    subst heq
    exact fun _ _ _ _ _ => .refl _ _
  | @data req memMap s r hargs hat hreq hmap hplace hdata hrun =>
    have hbits := addrBits_pow_le nap.space
    obtain ⟨n, k, hn, hk, hkn, hpos, -⟩ := hreq.pages
    have hle := hplace.le.trans hbits
    have hio := hplace.not_pending
    have htail := hguard req _ hargs hat
    rw [hn] at hle htail
    rw [hk] at hio htail
    obtain ⟨hstep, -⟩ := mmapData_spec hmap.wellFormed hreq (protExec_and_not args.prot) hn hk
      hkn hpos hle hrun
    refine undisturbed_of_outside (s := s) (t := s + n) hstep.outside ?_
    rw [Nat.add_mul]
    rcases Nat.eq_zero_or_pos k with rfl | hkpos
    · rwa [Nat.zero_mul, Nat.add_zero] at htail
    · have hkle : k * naclPageSize ≤ n * naclPageSize := Nat.mul_le_mul_right _ hkn
      exact (noIo_of_not_pending (Nat.mul_pos hkpos (by decide)) (by omega) hio).append htail
  | direct hreq hplace hcode _ hrun => exact undisturbed_mmapCodeDirect hreq hplace hcode hrun
  | copy hreq hplace hcode heq =>
    subst heq
    exact .refl nap'

/-- Where pages change only by becoming visible, and no I/O is in flight on a hidden page, none is
disturbed. -/
theorem undisturbed_of_hidden {x y : ℕ} (h : nap.TextSound)
    (hbyte : nap'.mem.byte = nap.mem.byte)
    (hpage : ∀ p, nap'.mem.page p = nap.mem.page p ∨ ∃ k, nap.Hidden x y k ∧
      nap.dynamicTextStart / naclPageSize + k * naclPagesPerMap ≤ p ∧
      p < nap.dynamicTextStart / naclPageSize + (k + 1) * naclPagesPerMap)
    (hguard : ∀ k, nap.Hidden x y k → nap.NoIo (nap.dynamicTextStart + k * naclMapPageSize)
      (nap.dynamicTextStart + (k + 1) * naclMapPageSize)) : nap.Undisturbed nap' := by
  intro range hrange i hlo hhi
  refine ⟨?_, fun a _ => by rw [hbyte]⟩
  rcases hpage (i / naclPageSize) with hp | ⟨k, hk, hstart, hend⟩
  · exact hp
  · refine absurd ?_ (hguard k hk range hrange i hlo hhi)
    obtain ⟨q, hq⟩ := naclPageSize_dvd h.layout.dvd_start
    unfold naclPagesPerMap at hstart hend
    unfold naclPageSize at *
    unfold naclMapPageSize
    unfold naclPageShift naclMapPageShift at *
    omega

theorem hidden_naclTextDyncodeCreate {dest size : ℕ} {codeCopy : ℕ → UInt8}
    {ans : DyncodeAnswers} {r : SysResult} (h : nap.TextSound) (hdest : dest < 2 ^ 32)
    (hsize : size < 2 ^ 32)
    (hrun : naclTextDyncodeCreate nap dest codeCopy size ans = .ok (nap', r)) (p : ℕ) :
    nap'.mem.page p = nap.mem.page p ∨ ∃ k, nap.Hidden (shmMapRange nap dest size).1
        ((shmMapRange nap dest size).1 + (shmMapRange nap dest size).2) k ∧
      nap.dynamicTextStart / naclPageSize + k * naclPagesPerMap ≤ p ∧
      p < nap.dynamicTextStart / naclPageSize + (k + 1) * naclPagesPerMap := by
  rcases naclTextDyncodeCreate_cases hdest hsize hrun with
    ⟨rfl, -⟩ | ⟨hlo, hhi, hend, ⟨-, rfl⟩ | ⟨hpos, code, hinstall⟩⟩
  · exact Or.inl rfl
  · exact Or.inl rfl
  · have hhi := hhi.trans (addrBits_pow_le _)
    exact (installDyncode_spec h hlo hpos hhi hend hinstall).2.2.1 p

theorem mmapCopy_create {usraddr size : ℕ} {codeCopy : ℕ → UInt8} {ans : DyncodeAnswers}
    {r : SysResult} (hrun : mmapCopy nap usraddr codeCopy size ans = .ok (nap', r)) :
    ∃ r', naclTextDyncodeCreate nap usraddr codeCopy size ans = .ok (nap', r') := by
  unfold mmapCopy at hrun
  split at hrun
  · cases hrun
  · next errno hcreate =>
    cases hrun
    exact ⟨_, hcreate⟩
  · next v hcreate =>
    unfold mmapCodeResult at hrun
    split_ifs at hrun
    cases hrun
    exact ⟨_, hcreate⟩

end

/-! ## Runs -/

section

variable {s s' : IoState}

theorem IoState.Sound.of_nap {nap : NaClApp} (h : s.Sound) (hnap : nap.Sound) :
    IoState.Sound { s with nap } :=
  ⟨hnap, h.copies⟩

theorem except_map_ok {ε α β : Type*} {f : α → β} {x : Except ε α} {b : β}
    (h : x.map f = .ok b) : ∃ a, x = .ok a ∧ b = f a := by
  cases x with
  | error e => cases h
  | ok a => cases h; exact ⟨a, rfl, rfl⟩

theorem IoState.Sound.step {event : IoEvent} (h : s.Sound) (hguard : event.Guard s)
    (hstep : s.step event = .ok s') : s'.Sound ∧ s.nap.Undisturbed s'.nap := by
  cases event with
  | ioWillStart first last =>
    cases hstep
    obtain ⟨⟨⟨h₁, h₂, h₃, h₄, h₅⟩, hend, hcache⟩, hwf⟩ := h.nap
    exact ⟨h.of_nap ⟨⟨⟨h₁, h₂, h₃, h₄, h₅⟩, hend, hcache⟩, hwf⟩, fun _ _ _ _ _ => .refl _ _⟩
  | ioHasEnded first last =>
    obtain ⟨nap, hrun, rfl⟩ := except_map_ok hstep
    unfold naclVmIoHasEnded at hrun
    split_ifs at hrun
    cases hrun
    obtain ⟨⟨⟨h₁, h₂, h₃, h₄, h₅⟩, hend, hcache⟩, hwf⟩ := h.nap
    exact ⟨h.of_nap ⟨⟨⟨h₁, h₂, h₃, h₄, h₅⟩, hend, hcache⟩, hwf⟩, fun _ _ _ _ _ => .refl _ _⟩
  | mmap args ans =>
    unfold IoState.step at hstep
    dsimp only at hstep
    split at hstep
    · cases hstep
    · next nap r hlocked =>
      cases hstep
      refine ⟨h.of_nap ?_, undisturbed_mmapLocked h.nap hguard hlocked⟩
      have hrun : SysCall.step s.nap (.mem (.mmap args ans)) = .ok nap := by
        unfold SysCall.step SysCall.run MemCall.run naclSysMmapIntern
        simp only [hlocked]
      exact h.nap.step hrun
    · next nap usraddr codeCopy size dyncode hlocked =>
      cases hstep
      refine ⟨?_, undisturbed_mmapLocked h.nap hguard hlocked⟩
      cases mmapLocked_spec h.nap.wellFormed hlocked with
      | copy hreq hplace hcode heq =>
        subst heq
        refine ⟨h.nap, fun c hc => ?_⟩
        rcases List.mem_append.1 hc with hc | hc
        · exact h.copies c hc
        · cases List.mem_singleton.1 hc
          obtain ⟨-, hend, -, -⟩ := hreq.code_range hplace hcode
          obtain ⟨-, -, -, -, hlen, -⟩ := hreq.code hcode
          have hpos := hreq.pos
          have hlt := h.nap.text.end_lt
          dsimp only
          omega
  | munmap start length host =>
    obtain ⟨⟨nap, r⟩, hrun, rfl⟩ := except_map_ok hstep
    have hlt : start.toNat < 2 ^ 64 := start.isLt.trans (by decide)
    have heff : SysEffect s.nap (.mem (.munmap start length host)) nap :=
      sysEffect_munmap h.nap hlt hrun
    exact ⟨h.of_nap (h.nap.effect heff), undisturbed_munmap h.nap hlt hrun⟩
  | mprotect start length prot =>
    obtain ⟨⟨nap, r⟩, hrun, rfl⟩ := except_map_ok hstep
    have heff : SysEffect s.nap (.mem (.mprotect start length prot)) nap :=
      sysEffect_mprotect h.nap start.isLt hrun
    exact ⟨h.of_nap (h.nap.effect heff), undisturbed_mprotect h.nap start.isLt hrun⟩
  | copyPage i page =>
    unfold IoState.step at hstep
    dsimp only at hstep
    split_ifs at hstep with hcopy
    · obtain ⟨nap, hrun, rfl⟩ := except_map_ok hstep
      obtain ⟨c, hc, hhidden⟩ := hcopy
      have htext := textStep_makeDynamicCodePagesVisible hrun
      refine ⟨h.of_nap (h.nap.of_textStep htext
        (mapcacheSound_makeDynamicCodePagesVisible h.nap.text.mapcache hrun)), ?_⟩
      refine undisturbed_of_hidden h.nap.text htext.byte
        (viewStep_makeDynamicCodePagesVisible hrun).page fun k hk => ?_
      obtain rfl : k = page := by
        have hmap : 0 < naclMapPageSize := by decide
        have hlo := (Nat.mul_le_mul_right_iff hmap).1 hk.2.1
        have hhi := (Nat.mul_le_mul_right_iff hmap).1 hk.2.2
        omega
      exact hguard c hc hhidden
    · cases hstep
      exact ⟨h, .refl _⟩
  | copyEnd i =>
    unfold IoState.step at hstep
    dsimp only at hstep
    split at hstep
    · cases hstep
      exact ⟨h, .refl _⟩
    · next c hc =>
      obtain ⟨⟨nap, r⟩, hrun, rfl⟩ := except_map_ok hstep
      obtain ⟨r', hcreate⟩ := mmapCopy_create hrun
      obtain ⟨hdest, hsize⟩ := h.copies c (List.mem_of_getElem? hc)
      refine ⟨⟨?_, fun c' hc' => h.copies c' (List.mem_of_mem_eraseIdx hc')⟩, ?_⟩
      · exact h.nap.of_textStep (textStep_naclTextDyncodeCreate hcreate)
          (mapcacheSound_naclTextDyncodeCreate h.nap.text hdest hsize hcreate)
      · exact undisturbed_of_hidden h.nap.text (textStep_naclTextDyncodeCreate hcreate).byte
          (hidden_naclTextDyncodeCreate h.nap.text hdest hsize hcreate) (hguard c hc)

/-- In a run in which the part of a mapping that its file does not back is free of I/O, and so is each
page that a copy of code makes visible, no event changes how a page of a buffer of I/O in flight is
mapped: an operation that would do so aborts. -/
theorem undisturbed_of_guarded {nap : NaClApp} (h : nap.Sound) {events : List IoEvent}
    {event : IoEvent}
    (hguard : Guarded IoState.step (fun s event => event.Guard s) ⟨nap, []⟩ (events ++ [event]))
    (hrun : events.foldlM IoState.step ⟨nap, []⟩ = .ok s) (hstep : s.step event = .ok s') :
    s.nap.Undisturbed s'.nap := by
  have hsound : s.Sound :=
    (hguard.of_prefix (List.prefix_append events [event])).invariant
      (fun t e t' ht hok he => (ht.step hok he).1) ⟨h, fun c hc => absurd hc List.not_mem_nil⟩
      hrun
  exact (hsound.step (hguard.last hrun) hstep).2

def mapAnonymous128 : IoEvent :=
  .mmap ⟨0x100000, 0x20000, protReadWrite, mapFixed ||| mapPrivate ||| mapAnonymous, 0, 0⟩ smallFile

def ioSecondHalf : IoEvent := .ioWillStart 0x110000 0x110fff

/-- The first half is unmapped while I/O is in flight on the second. -/
theorem undisturbed_of_guarded_munmap : ∃ s s',
    [mapAnonymous128, ioSecondHalf].foldlM IoState.step ⟨smallTraced.nap, []⟩ = .ok s ∧
      s.step (.munmap 0x100000 0x10000 (.ok ())) = .ok s' ∧ s.nap.Undisturbed s'.nap := by
  have hguard : Guarded IoState.step (fun s event => event.Guard s) ⟨smallTraced.nap, []⟩
      ([mapAnonymous128, ioSecondHalf] ++ [.munmap 0x100000 0x10000 (.ok ())]) := by
    refine ⟨fun _ _ _ _ range hrange => ?_, fun _ _ => ⟨trivial, fun _ _ => ⟨trivial, ?_⟩⟩⟩
    · exact absurd hrange List.not_mem_nil
    · exact fun _ _ => trivial
  exact ⟨_, _, rfl, rfl, undisturbed_of_guarded smallTraced_nap_sound hguard rfl rfl⟩

/-- A file of 64 KiB is mapped over both halves: the second half becomes inaccessible under the I/O. -/
theorem not_undisturbed_mmap : smallTraced.nap.Sound ∧ ∃ s s',
    [mapAnonymous128, ioSecondHalf].foldlM IoState.step ⟨smallTraced.nap, []⟩ = .ok s ∧
      s.step (.mmap ⟨0x100000, 0x20000, protReadWrite, mapFixed ||| mapPrivate, 0, 0⟩ smallFile) =
        .ok s' ∧ (0x110000, 0x110fff) ∈ s.nap.memIoRegions ∧
      (s.nap.mem.page 0x110).prot = protReadWrite ∧ (s'.nap.mem.page 0x110).prot = protNone ∧
      ¬ s.nap.Undisturbed s'.nap := by
  refine ⟨smallTraced_nap_sound, _, _, rfl, rfl, List.mem_cons_self, rfl, rfl, fun h => ?_⟩
  have hsame := h (0x110000, 0x110fff) List.mem_cons_self 0x110000 le_rfl (by decide)
  have hprot : protNone = protReadWrite := (congrArg Page.prot hsame.page_eq :)
  exact absurd hprot (by decide)

end

end SandboxingNaCl
