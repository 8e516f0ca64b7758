import SandboxingNaCl.Service.DynamicCode
import SandboxingNaCl.Service.HostProtection

/-!
# Runs of system calls

The calls by which untrusted code changes memory and code, and what any one of them can do: change
pages above the code, map code, create code or delete code.
-/

namespace SandboxingNaCl

open MachineInt PagedMemory Runs

/-- A call, with the answers it gets.  The service runtime itself creates code too, when it loads a
further image. -/
inductive SysCall
  | mem (call : MemCall)
  | dyncodeCreate (dest src size : BitVec 32) (ans : DyncodeAnswers)
  | dyncodeDelete (natp : ℕ) (dest size : BitVec 32) (shmMap : Bool)
  | textDyncodeCreate (dest : BitVec 32) (codeCopy : ℕ → UInt8) (size : BitVec 32)
      (ans : DyncodeAnswers)

namespace SysCall

def run (nap : NaClApp) : SysCall → Except Fault (NaClApp × SysResult)
  | mem call => call.run nap
  | dyncodeCreate dest src size ans => naclSysDyncodeCreate nap dest.toNat src.toNat size.toNat ans
  | dyncodeDelete natp dest size shmMap =>
    naclSysDyncodeDelete nap natp dest.toNat size.toNat shmMap
  | textDyncodeCreate dest codeCopy size ans =>
    naclTextDyncodeCreate nap dest.toNat codeCopy size.toNat ans

/-- The state after a call that returns, whatever its result. -/
def step (nap : NaClApp) (call : SysCall) : Except Fault NaClApp :=
  match call.run nap with
  | .error fault => .error fault
  | .ok (nap, _) => .ok nap

/-- The range in which the call asks for code to be created. -/
def creates : SysCall → Option (ℕ × ℕ)
  | mem _ => none
  | dyncodeCreate dest _ size _ => some (dest.toNat, size.toNat)
  | dyncodeDelete _ _ _ _ => none
  | textDyncodeCreate dest _ size _ => some (dest.toNat, size.toNat)

end SysCall

/-- What the loader establishes and the calls keep. -/
structure NaClApp.Sound (nap : NaClApp) : Prop where
  text : nap.TextSound
  wellFormed : nap.memMap.WellFormed

/-- What a call can do. -/
inductive SysEffect (nap : NaClApp) (call : SysCall) (nap' : NaClApp) : Prop
  | data {s t : ℕ} (hs : nap.dynamicTextEnd / naclPageSize ≤ s) (hstep : DataStep nap nap' s t)
      (hbreak : nap'.dataEnd ≤ nap'.breakAddr)
  | direct {args : MmapArgs} {ans : MmapAnswers} {req : MmapRequest} {desc : NaClDesc}
      {r : SysResult} (hcall : call = .mem (.mmap args ans)) (hreq : req.Checked nap args)
      (hplace : req.Placed nap args.start) (hcode : req.mappingCode = true)
      (hvalid : ans.hostIo = true ∧ ans.validates = true)
      (hrun : mmapCodeDirect nap req desc args.start args.offset ans = .ok (nap', r))
  /-- It creates code, as it was asked to or to copy a mapping. -/
  | create {dest size : ℕ} {codeCopy : ℕ → UInt8} {ans : DyncodeAnswers} {r : SysResult}
      (hdest : dest < 2 ^ 32) (hsize : size < 2 ^ 32)
      (hwhere : call.creates = some (dest, size) ∨ dest + size ≤ nap.dynamicTextEnd)
      (hrun : naclTextDyncodeCreate nap dest codeCopy size ans = .ok (nap', r))
  | delete {natp dest size : ℕ} {shmMap : Bool} {r : SysResult}
      (hrun : naclSysDyncodeDelete nap natp dest size shmMap = .ok (nap', r))

section

variable {nap nap' : NaClApp} {r : SysResult}

/-! ## The break -/

theorem munmapInternal_breakAddr {usraddr length : ℕ} {host : Except NaClAbiErrno Unit}
    (hrun : munmapInternal nap usraddr length host = .ok (nap', r)) :
    nap'.breakAddr = nap.breakAddr ∧ nap'.dataEnd = nap.dataEnd := by
  unfold munmapInternal at hrun
  split at hrun
  · cases hrun
    exact ⟨rfl, rfl⟩
  · split at hrun <;> cases hrun
    exact ⟨rfl, rfl⟩

theorem mmapRecord_breakAddr {req : MmapRequest} {usraddr : ℕ} {prot : BitVec 32} {offset : ℤ}
    {munmap : Except NaClAbiErrno Unit}
    (hrun : mmapRecord nap req usraddr prot offset munmap = .ok (nap', r)) :
    nap'.breakAddr = nap.breakAddr ∧ nap'.dataEnd = nap.dataEnd := by
  have htail : ∀ mid r', (if req.length < req.allocRoundedLength then
      munmapInternal nap (usraddr + req.length) (req.allocRoundedLength - req.length) munmap
      else .ok (nap, .ok 0)) = .ok (mid, r') →
        mid.breakAddr = nap.breakAddr ∧ mid.dataEnd = nap.dataEnd := by
    intro mid r' hmid
    split_ifs at hmid
    · exact munmapInternal_breakAddr hmid
    · cases hmid
      exact ⟨rfl, rfl⟩
  unfold mmapRecord at hrun
  split at hrun
  · cases hrun
  · next hmid =>
    cases hrun
    exact htail _ _ hmid
  · next mid v hmid =>
    split at hrun <;> cases hrun
    exact htail mid (.ok v) hmid

theorem mmapData_breakAddr {req : MmapRequest} {usraddr : ℕ} {prot : BitVec 32} {offset : ℤ}
    {ans : MmapAnswers} (hrun : mmapData nap req usraddr prot offset ans = .ok (nap', r)) :
    nap'.breakAddr = nap.breakAddr ∧ nap'.dataEnd = nap.dataEnd := by
  unfold mmapData at hrun
  split_ifs at hrun
  · split at hrun
    · cases hrun
    · cases hrun
      exact ⟨rfl, rfl⟩
    · exact @mmapRecord_breakAddr { nap with
        mem := mmapBacked nap.mem req usraddr prot offset ans.fileByte } _ _ _ _ _ _ _ hrun
  · exact mmapRecord_breakAddr hrun

/-! ## The effects -/

theorem protExec_and_not (prot : BitVec 32) : prot &&& ~~~protExec &&& protExec = 0 := by
  rw [BitVec.and_assoc, BitVec.and_comm (~~~protExec)]
  simp

theorem sysEffect_munmap {start length : ℕ} {host : Except NaClAbiErrno Unit} {call : SysCall}
    (h : nap.Sound) (hlt : start < 2 ^ 64)
    (hrun : naclSysMunmap nap start length host = .ok (nap', r)) : SysEffect nap call nap' := by
  have hbits := addrBits_pow_le nap.space
  rcases naclSysMunmap_spec hlt hrun with ⟨rfl, -⟩ | ⟨s, n, rfl, hpos, hle, htext, -, hrun⟩
  · exact .data le_rfl (.refl h.wellFormed _ 0) h.text.layout.dataEnd_le
  · refine .data (dynamicTextEnd_div_le htext)
      (dataStep_munmapInternal h.wellFormed hpos (hle.trans hbits) le_rfl hrun) ?_
    obtain ⟨hbreak, hdata⟩ := munmapInternal_breakAddr hrun
    rw [hbreak, hdata]
    exact h.text.layout.dataEnd_le

theorem sysEffect_mprotect {start length : ℕ} {prot : BitVec 32} {call : SysCall}
    (h : nap.Sound) (hlt : start < 2 ^ 32)
    (hrun : naclSysMprotectInternal nap start length prot = .ok (nap', r)) :
    SysEffect nap call nap' := by
  rcases naclSysMprotectInternal_spec h.wellFormed hlt hrun with
    ⟨memMap, rfl, hwf, -, -⟩ | ⟨s, n, rfl, -, -, hdone⟩
  · exact .data le_rfl (.of_memMap hwf _ 0) h.text.layout.dataEnd_le
  · refine .data (dynamicTextEnd_div_le hdone.not_text) hdone.dataStep ?_
    rw [hdone.eq]
    exact h.text.layout.dataEnd_le

theorem sysEffect_brk {newBreak : ℕ} {call : SysCall} (h : nap.Sound)
    (hrun : naclSysBrk nap newBreak = .ok (nap', r)) : SysEffect nap call nap' := by
  have hstep := brkStep_naclSysBrk h.wellFormed hrun
  obtain ⟨t, hdata⟩ := hstep.dataStep
  obtain ⟨-, -, -, hend, hbreak⟩ := h.text.layout
  exact .data (Nat.div_le_div_right (hend.trans hbreak)) hdata (hstep.dataEnd_le hbreak)

theorem sysEffect_mmap {args : MmapArgs} {ans : MmapAnswers} (h : nap.Sound)
    (hrun : naclSysMmapIntern nap args ans = .ok (nap', r)) :
    SysEffect nap (.mem (.mmap args ans)) nap' := by
  unfold naclSysMmapIntern at hrun
  split at hrun
  · cases hrun
  · next hlocked =>
    cases hrun
    cases mmapLocked_spec h.wellFormed hlocked with
    | refused hmap heq =>
      subst heq
      exact .data le_rfl (.of_memMap hmap.wellFormed _ 0) h.text.layout.dataEnd_le
    | @data req memMap s r _ _ hreq hmap hplace hdata hrun =>
      have hbits := addrBits_pow_le nap.space
      obtain ⟨n, k, hn, hk, hkn, hpos, -⟩ := hreq.pages
      have hle := hplace.le.trans hbits
      rw [hn] at hle
      obtain ⟨hstep, -⟩ := mmapData_spec hmap.wellFormed hreq (protExec_and_not args.prot) hn
        hk hkn hpos hle hrun
      have hsorted : DataStep nap { nap with memMap } s (s + n) :=
        .of_memMap hmap.wellFormed _ _
      refine .data (dynamicTextEnd_div_le (hplace.not_text hdata)) (hsorted.trans hstep) ?_
      obtain ⟨hbreak, hdataEnd⟩ := mmapData_breakAddr hrun
      rw [hbreak, hdataEnd]
      exact h.text.layout.dataEnd_le
    | direct hreq hplace hcode hvalid hrun => exact .direct rfl hreq hplace hcode hvalid hrun
  · next hlocked =>
    cases mmapLocked_spec h.wellFormed hlocked with
    | copy hreq hplace hcode heq =>
      subst heq
      obtain ⟨-, hend, -, -⟩ := hreq.code_range hplace hcode
      have hlt := h.text.end_lt
      have hpos := hreq.pos
      obtain ⟨-, -, -, -, hlen, -⟩ := hreq.code hcode
      unfold mmapCopy at hrun
      split at hrun
      · cases hrun
      · next hcreate =>
        cases hrun
        exact .create (by omega) (by omega) (Or.inr hend) hcreate
      · next hcreate =>
        unfold mmapCodeResult at hrun
        split_ifs at hrun
        cases hrun
        exact .create (by omega) (by omega) (Or.inr hend) hcreate

theorem sysEffect_of_step {call : SysCall} (h : nap.Sound) (hstep : call.step nap = .ok nap') :
    SysEffect nap call nap' := by
  unfold SysCall.step at hstep
  split at hstep
  · cases hstep
  · next hrun =>
    cases hstep
    cases call with
    | mem call =>
      cases call with
      | brk newBreak => exact sysEffect_brk h hrun
      | mmap args ans => exact sysEffect_mmap h hrun
      | munmap start length host =>
        exact sysEffect_munmap h (start.isLt.trans (by decide)) hrun
      | mprotect start length prot => exact sysEffect_mprotect h start.isLt hrun
    | dyncodeCreate dest src size ans =>
      have hcreate : naclSysDyncodeCreate nap dest.toNat src.toNat size.toNat ans = _ := hrun
      unfold naclSysDyncodeCreate at hcreate
      split_ifs at hcreate
      · cases hcreate
        exact .data le_rfl (.refl h.wellFormed _ 0) h.text.layout.dataEnd_le
      · cases hcreate
        exact .data le_rfl (.refl h.wellFormed _ 0) h.text.layout.dataEnd_le
      · exact .create dest.isLt size.isLt (Or.inl rfl) hcreate
    | dyncodeDelete natp dest size shmMap => exact .delete hrun
    | textDyncodeCreate dest codeCopy size ans =>
      exact .create dest.isLt size.isLt (Or.inl rfl) hrun

/-! ## What the calls keep -/

theorem NaClApp.TextSound.of_textStep (h : nap.TextSound) (hstep : TextStep nap nap')
    (hcache : nap'.text.MapcacheSound) : nap'.TextSound := by
  obtain ⟨h₁, h₂, h₃, h₄, h₅⟩ := h.layout
  have hbits := hstep.bitmap
  have hend := h.end_lt
  rw [← hbits] at h₃
  rw [hstep.eq]
  exact ⟨⟨h₁, h₂, h₃, h₄, h₅⟩, hend, hcache⟩

theorem NaClApp.Sound.of_textStep (h : nap.Sound) (hstep : TextStep nap nap')
    (hcache : nap'.text.MapcacheSound) : nap'.Sound := by
  refine ⟨h.text.of_textStep hstep hcache, ?_⟩
  rw [hstep.eq]
  exact h.wellFormed

theorem mapcacheSound_naclTextDyncodeCreate {dest size : ℕ} {codeCopy : ℕ → UInt8}
    {ans : DyncodeAnswers} (h : nap.TextSound) (hdest : dest < 2 ^ 32) (hsize : size < 2 ^ 32)
    (hrun : naclTextDyncodeCreate nap dest codeCopy size ans = .ok (nap', r)) :
    nap'.text.MapcacheSound := by
  rcases naclTextDyncodeCreate_cases hdest hsize hrun with
    ⟨rfl, -⟩ | ⟨hlo, hhi, hend, ⟨-, rfl⟩ | ⟨hpos, code, hinstall⟩⟩
  · exact h.mapcache
  · exact h.mapcache
  · have hhi := hhi.trans (addrBits_pow_le _)
    exact (installDyncode_spec h hlo hpos hhi hend hinstall).1

theorem NaClApp.Sound.of_dataStep {s t : ℕ} (h : nap.Sound) (hstep : DataStep nap nap' s t)
    (hbreak : nap'.dataEnd ≤ nap'.breakAddr) : nap'.Sound := by
  obtain ⟨h₁, h₂, h₃, h₄, -⟩ := h.text.layout
  have hend := h.text.end_lt
  have hcache := h.text.mapcache
  have hwf := hstep.wellFormed
  rw [hstep.eq] at hbreak hwf ⊢
  exact ⟨⟨⟨h₁, h₂, h₃, h₄, hbreak⟩, hend, hcache⟩, hwf⟩

theorem NaClApp.Sound.effect {call : SysCall} (h : nap.Sound) (heff : SysEffect nap call nap') :
    nap'.Sound := by
  cases heff with
  | data hs hstep hbreak => exact h.of_dataStep hstep hbreak
  | direct hcall hreq hplace hcode hvalid hrun =>
    obtain ⟨sysaddr, text, free, -, hcreate, rfl, -⟩ := mmapCodeDirect_spec hrun
    obtain ⟨regions, allocated, rfl, -⟩ := naclDynamicRegionCreate_spec hcreate
    obtain ⟨h₁, h₂, h₃, h₄, h₅⟩ := h.text.layout
    exact ⟨⟨⟨h₁, h₂, h₃, h₄, h₅⟩, h.text.end_lt, h.text.mapcache⟩, h.wellFormed⟩
  | create hdest hsize hwhere hrun =>
    exact h.of_textStep (textStep_naclTextDyncodeCreate hrun)
      (mapcacheSound_naclTextDyncodeCreate h.text hdest hsize hrun)
  | delete hrun =>
    exact h.of_textStep (textStep_naclSysDyncodeDelete hrun)
      (codeDeleted_naclSysDyncodeDelete h.text.mapcache hrun).mapcache

theorem NaClApp.Sound.step {call : SysCall} (h : nap.Sound) (hstep : call.step nap = .ok nap') :
    nap'.Sound :=
  h.effect (sysEffect_of_step h hstep)

theorem smallTraced_nap_sound : smallTraced.nap.Sound := by
  obtain ⟨h₁, h₂, h₃, h₄, h₅⟩ := smallApp_layout
  exact ⟨⟨⟨h₁, h₂, h₃, h₄, h₅⟩, smallApp_textSound.end_lt, nofun⟩, smallApp_wellFormed⟩

end

end SandboxingNaCl
