import SandboxingNaCl.Service.SysCalls

/-!
# The last halts of the dynamic text

Creating code stops short of the last `NACL_HALT_SLED_SIZE` bytes of the dynamic text, so that code
cannot run off its end.  Mapping code directly does not: its range is only checked against the end of
the dynamic text.
-/

namespace SandboxingNaCl

open MachineInt PagedMemory Runs

namespace NaClApp

def InSled (nap : NaClApp) (a : ℕ) : Prop :=
  nap.dynamicTextEnd - naclHaltSledSize ≤ a ∧ a < nap.dynamicTextEnd

/-- No region of dynamic code overlaps the last halts. -/
def SledFree (nap : NaClApp) : Prop :=
  ∀ region ∈ nap.text.regions, ∀ a, nap.InSled a →
    ¬ (region.start ≤ nap.space.memStart + a ∧ nap.space.memStart + a < region.start + region.size)

/-- If the last page of the dynamic text shows `text_shm`, it shows the end of it. -/
def SledMapped (nap : NaClApp) : Prop :=
  ∀ offset, (nap.mem.page (nap.dynamicTextEnd / naclPageSize - 1)).object = .textShm offset →
    nap.dynamicTextStart + offset + naclPageSize = nap.dynamicTextEnd

end NaClApp

/-- Code is not mapped directly up to the end of the dynamic text, and code that is created from below
that end on does not end at `2 ^ 32`, which is 0 in 32 bits. -/
def SysCall.LeavesSled (nap : NaClApp) : SysCall → Prop
  | .mem (.mmap args ans) => args.prot &&& protExec ≠ 0 → ans.hostIo = true →
      ans.validates = true → args.start + args.length ≠ nap.dynamicTextEnd
  | call => ∀ dest size, call.creates = some (dest, size) → dest < nap.dynamicTextEnd →
      dest + size ≠ 2 ^ 32

/-- From `nap` to `nap'` the last halts are kept. -/
structure SledStep (nap nap' : NaClApp) : Prop where
  start_eq : nap'.dynamicTextStart = nap.dynamicTextStart
  end_eq : nap'.dynamicTextEnd = nap.dynamicTextEnd
  space_eq : nap'.space = nap.space
  object_eq : (nap'.mem.page (nap.dynamicTextEnd / naclPageSize - 1)).object =
    (nap.mem.page (nap.dynamicTextEnd / naclPageSize - 1)).object
  byte : ∀ a, nap.InSled a → nap'.byteAt a = nap.byteAt a ∨ nap'.byteAt a = naclHaltOpcode
  free : nap.SledFree → nap'.SledFree

section

variable {nap nap' nap'' : NaClApp} {a : ℕ}

theorem SledStep.refl (nap : NaClApp) : SledStep nap nap :=
  ⟨rfl, rfl, rfl, rfl, fun _ _ => Or.inl rfl, id⟩

theorem SledStep.inSled (h : SledStep nap nap') (ha : nap.InSled a) : nap'.InSled a := by
  unfold NaClApp.InSled
  rwa [h.end_eq]

theorem SledStep.trans (h : SledStep nap nap') (h' : SledStep nap' nap'') :
    SledStep nap nap'' := by
  refine ⟨h'.start_eq.trans h.start_eq, h'.end_eq.trans h.end_eq, h'.space_eq.trans h.space_eq,
    ?_, fun a ha => ?_, h'.free ∘ h.free⟩
  · rw [← h.object_eq, ← h.end_eq, h'.object_eq]
  · rcases h'.byte a (h.inSled ha) with hbyte | hbyte
    · rw [hbyte]
      exact h.byte a ha
    · exact Or.inr hbyte

theorem SledStep.mapped (h : SledStep nap nap') (hmapped : nap.SledMapped) : nap'.SledMapped := by
  unfold NaClApp.SledMapped
  rw [h.end_eq, h.start_eq, h.object_eq]
  exact hmapped

theorem NaClApp.TextSound.dvd_mapEnd (h : nap.TextSound) : naclMapPageSize ∣ nap.dynamicTextEnd := by
  rw [← h.layout.end_eq]
  exact Nat.dvd_add h.layout.dvd_start (Nat.dvd_mul_left _ _)

theorem NaClApp.TextSound.dvd_end (h : nap.TextSound) : naclPageSize ∣ nap.dynamicTextEnd :=
  naclPageSize_dvd h.dvd_mapEnd

theorem NaClApp.InSled.page_eq (h : nap.TextSound) (ha : nap.InSled a) :
    a / naclPageSize = nap.dynamicTextEnd / naclPageSize - 1 := by
  obtain ⟨q, hq⟩ := h.dvd_end
  obtain ⟨hlo, hhi⟩ := ha
  obtain ⟨hsled, -⟩ := h.sled_le
  unfold naclHaltSledSize at hlo hsled
  unfold naclPageSize naclPageShift at hq ⊢
  omega

/-! ## The calls -/

theorem sledStep_of_dataStep {s t : ℕ} (h : nap.TextSound)
    (hs : nap.dynamicTextEnd / naclPageSize ≤ s) (hstep : DataStep nap nap' s t) :
    SledStep nap nap' := by
  have heq := hstep.eq
  have hpos : 0 < nap.dynamicTextEnd / naclPageSize := by
    refine Nat.div_pos ?_ (by decide)
    have hstart := h.layout.start_le
    have hend := h.layout.end_eq
    have htrampoline : naclPageSize ≤ naclTrampolineEnd := by decide
    omega
  have hsame := hstep.outside (nap.dynamicTextEnd / naclPageSize - 1) (Or.inl (by omega))
  refine ⟨by rw [heq], by rw [heq], by rw [heq], by rw [hsame.page_eq], fun a ha => Or.inl ?_,
    fun hfree => ?_⟩
  · have hpage := ha.page_eq h
    unfold NaClApp.byteAt
    rw [hpage, hsame.page_eq, hsame.byte_eq a hpage, heq]
  · have htext : nap'.text = nap.text := by rw [heq]
    have hspace : nap'.space = nap.space := by rw [heq]
    have hend : nap'.dynamicTextEnd = nap.dynamicTextEnd := by rw [heq]
    unfold NaClApp.SledFree NaClApp.InSled
    rw [htext, hspace, hend]
    exact hfree

theorem sledStep_of_textStep (h : nap.TextSound) (hmapped : nap.SledMapped)
    (hstep : TextStep nap nap')
    (hbyte : ∀ i, nap.InSled (nap.dynamicTextStart + i) →
      nap'.text.shmByte i = nap.text.shmByte i ∨ nap'.text.shmByte i = naclHaltOpcode)
    (hregions : ∀ region ∈ nap'.text.regions, (∃ old ∈ nap.text.regions,
        region.start = old.start ∧ region.size = old.size) ∨
      ∀ a, nap.InSled a → ¬ (region.start ≤ nap.space.memStart + a ∧
        nap.space.memStart + a < region.start + region.size)) : SledStep nap nap' := by
  have heq := hstep.eq
  have hspace : nap'.space = nap.space := by rw [heq]
  have hend : nap'.dynamicTextEnd = nap.dynamicTextEnd := by rw [heq]
  have hobject : ∀ p, (nap'.mem.page p).object = (nap.mem.page p).object := by
    intro p
    rcases hstep.page p with hp | ⟨-, -, hp⟩ <;> rw [hp]
  refine ⟨by rw [heq], hend, hspace, hobject _, fun a ha => ?_, fun hfree region hmem a ha hin => ?_⟩
  · have hpage := ha.page_eq h
    unfold NaClApp.byteAt
    rw [hpage, hobject, hstep.byte]
    split
    · next offset hoffset =>
      have haddr : nap.dynamicTextStart + (offset + a % naclPageSize) = a := by
        have hoff := hmapped offset hoffset
        obtain ⟨q, hq⟩ := h.dvd_end
        have hps : 0 < naclPageSize := by decide
        have hdiv := Nat.div_add_mod a naclPageSize
        rw [hpage, hq, Nat.mul_div_cancel_left _ hps, Nat.mul_sub_one, ← hq] at hdiv
        omega
      exact hbyte _ (haddr.symm ▸ ha)
    · exact Or.inl rfl
  · rw [hspace] at hin
    have ha : nap.InSled a := by
      unfold NaClApp.InSled at ha ⊢
      rwa [hend] at ha
    rcases hregions region hmem with ⟨old, hold, hstart, hsize⟩ | hnew
    · rw [hstart, hsize] at hin
      exact hfree old hold a ha hin
    · exact hnew a ha hin

theorem sledStep_create {dest size : ℕ} {codeCopy : ℕ → UInt8} {ans : DyncodeAnswers}
    {r : SysResult} (h : nap.TextSound) (hmapped : nap.SledMapped) (hdest : dest < 2 ^ 32)
    (hsize : size < 2 ^ 32) (hguard : dest < nap.dynamicTextEnd → dest + size ≠ 2 ^ 32)
    (hrun : naclTextDyncodeCreate nap dest codeCopy size ans = .ok (nap', r)) :
    SledStep nap nap' := by
  have hstep := textStep_naclTextDyncodeCreate hrun
  obtain ⟨hsled, husub⟩ := h.sled_le
  rcases naclTextDyncodeCreate_cases hdest hsize hrun with
    ⟨rfl, -⟩ | ⟨hlo, hhi, hend, ⟨-, rfl⟩ | ⟨hpos, code, hinstall⟩⟩
  · exact .refl _
  · exact .refl _
  have hhi := hhi.trans (addrBits_pow_le _)
  obtain ⟨-, hregions, -, hok, herror⟩ := installDyncode_spec h hlo hpos hhi hend hinstall
  rw [husub] at hend
  refine sledStep_of_textStep h hmapped hstep (fun i hi => ?_) fun region hmem => ?_
  · cases r with
    | error errno => exact herror ⟨errno, rfl⟩ i
    | ok v =>
      have hcode := hok v rfl
      rcases hcode.byte i with hbyte | ⟨-, -, hhalt | ⟨-, hlt⟩⟩
      · exact Or.inl hbyte
      · exact Or.inr hhalt
      · have := hcode.end_le
        have := hi.1
        omega
  · rcases hregions region hmem with hold | rfl
    · exact Or.inl ⟨region, hold, rfl, rfl⟩
    · refine Or.inr fun a ha hin => ?_
      obtain ⟨hlo', hhi'⟩ := ha
      dsimp only at hin
      by_cases hwrap : dest + size = 2 ^ 32
      · have := mt hguard (not_not.2 hwrap)
        omega
      · rw [Nat.mod_eq_of_lt (lt_of_le_of_ne hhi hwrap)] at hend
        omega

theorem sledStep_delete {natp dest size : ℕ} {shmMap : Bool} {r : SysResult} (h : nap.TextSound)
    (hmapped : nap.SledMapped)
    (hrun : naclSysDyncodeDelete nap natp dest size shmMap = .ok (nap', r)) : SledStep nap nap' := by
  have hdel := codeDeleted_naclSysDyncodeDelete h.mapcache hrun
  exact sledStep_of_textStep h hmapped (textStep_naclSysDyncodeDelete hrun)
    (fun i _ => hdel.byte i) fun region hmem => Or.inl (hdel.regions region hmem)

theorem sledStep_direct {args : MmapArgs} {ans : MmapAnswers} {req : MmapRequest} {desc : NaClDesc}
    {r : SysResult} (h : nap.TextSound) (hreq : req.Checked nap args)
    (hplace : req.Placed nap args.start) (hcode : req.mappingCode = true)
    (hguard : args.start + args.length ≠ nap.dynamicTextEnd)
    (hrun : mmapCodeDirect nap req desc args.start args.offset ans = .ok (nap', r)) :
    SledStep nap nap' := by
  obtain ⟨hlo, hhi, hstart, hlen⟩ := hreq.code_range hplace hcode
  obtain ⟨-, hround, -, hmul, hlength, -⟩ := hreq.code hcode
  obtain ⟨sysaddr, text, free, huser, hcreate, rfl, -⟩ := mmapCodeDirect_spec hrun
  obtain ⟨regions, allocated, rfl, hregions⟩ := naclDynamicRegionCreate_spec hcreate
  have hshort : args.start + req.length + naclMapPageSize ≤ nap.dynamicTextEnd := by
    obtain ⟨m, hm⟩ := h.dvd_mapEnd
    obtain ⟨s, hs⟩ := dvd_of_naclIsAllocPageMultiple hmul
    obtain ⟨n, hn⟩ : naclMapPageSize ∣ req.length := by
      rw [hlength, hreq.allocRoundedLength_eq]
      exact dvd_alignUp _ _
    rw [hlength] at hhi hn ⊢
    rw [hround] at hhi hn ⊢
    unfold naclMapPageSize naclMapPageShift at *
    omega
  have hsame : Memory.SameAt naclPageSize nap.mem (if free = true then
      mmapFile nap.mem desc args.start req.length (protRead ||| protExec) args.offset ans.fileByte
      else nap.mem) (nap.dynamicTextEnd / naclPageSize - 1) := by
    split_ifs
    · refine Memory.sameAt_mmap _ _ (Or.inr ?_)
      unfold naclMapPageSize naclMapPageShift at hshort
      unfold naclPageSize naclPageShift at *
      omega
    · exact .refl _ _
  obtain rfl := eq_of_naclUserToSys huser
  refine ⟨rfl, rfl, rfl, congrArg Page.object hsame.page_eq, fun a ha => Or.inl ?_,
    fun hfree region hmem a ha hin => ?_⟩
  · have hpage := ha.page_eq h
    unfold NaClApp.byteAt
    dsimp only
    rw [hpage, hsame.page_eq, hsame.byte_eq a hpage]
  · rcases hregions region hmem with hold | ⟨-, rfl⟩
    · exact hfree region hold a ha hin
    · have hlow := ha.1
      have hsled : naclHaltSledSize ≤ naclMapPageSize := by decide
      dsimp only at hin hlow
      omega

theorem sledStep_of_step {call : SysCall} (h : nap.Sound) (hmapped : nap.SledMapped)
    (hguard : call.LeavesSled nap) (hstep : call.step nap = .ok nap') : SledStep nap nap' := by
  cases sysEffect_of_step h hstep with
  | data hs hstep hbreak => exact sledStep_of_dataStep h.text hs hstep
  | direct hcall hreq hplace hcode hvalid hrun =>
    subst hcall
    exact sledStep_direct h.text hreq hplace hcode
      (hguard (hreq.exec_iff.1 hcode) hvalid.1 hvalid.2) hrun
  | @create dest size codeCopy ans r hdest hsize hwhere hrun =>
    refine sledStep_create h.text hmapped hdest hsize (fun hlt => ?_) hrun
    rcases hwhere with hcreates | hend
    · cases call with
      | mem call => cases hcreates
      | dyncodeCreate => exact hguard dest size hcreates hlt
      | dyncodeDelete => cases hcreates
      | textDyncodeCreate => exact hguard dest size hcreates hlt
    · have := h.text.end_lt
      omega
  | delete hrun => exact sledStep_delete h.text hmapped hrun

/-! ## Runs -/

/-- What a run from `nap₀` has kept. -/
structure SledRun (nap₀ nap : NaClApp) : Prop where
  sound : nap.Sound
  mapped : nap.SledMapped
  step : SledStep nap₀ nap

/-- In a run in which no code is mapped directly up to the end of the dynamic text and none is created
with an end of `2 ^ 32`, the last halts are only ever overwritten with halts, and no region comes to
overlap them. -/
theorem sledKept_of_guarded (h : nap.Sound) (hmapped : nap.SledMapped) (hfree : nap.SledFree)
    {calls : List SysCall}
    (hguard : Guarded SysCall.step (fun nap call => call.LeavesSled nap) nap calls)
    (hrun : calls.foldlM SysCall.step nap = .ok nap') :
    (∀ a, nap.InSled a → nap'.byteAt a = nap.byteAt a ∨ nap'.byteAt a = naclHaltOpcode) ∧
      nap'.SledFree := by
  have hinv : SledRun nap nap' := by
    refine hguard.invariant (fun t call t' ht hok hstep => ?_) ⟨h, hmapped, .refl nap⟩ hrun
    have hkept := sledStep_of_step ht.sound ht.mapped hok hstep
    exact ⟨ht.sound.step hstep, hkept.mapped ht.mapped, ht.step.trans hkept⟩
  exact ⟨hinv.step.byte, hinv.step.free hfree⟩

def codeFile : MmapAnswers :=
  { smallFile with safeForMmap := true, hostIo := true, validates := true, fileByte := fun _ => 0x90 }

def mapCode (start : ℕ) : SysCall :=
  .mem (.mmap ⟨start, 0x10000, protRead ||| protExec, mapFixed ||| mapPrivate, 0, 0⟩ codeFile)

theorem smallTraced_nap_sledMapped : smallTraced.nap.SledMapped := by
  intro offset hoffset
  cases hoffset
  rfl

/-- Code is mapped at the start of the dynamic text. -/
theorem sledKept_of_guarded_mapCode :
    ∃ nap', [mapCode 0x20000].foldlM SysCall.step smallTraced.nap = .ok nap' ∧
      (∀ a, smallTraced.nap.InSled a → nap'.byteAt a = smallTraced.nap.byteAt a ∨
        nap'.byteAt a = naclHaltOpcode) ∧ nap'.SledFree := by
  have hguard : Guarded SysCall.step (fun nap call => call.LeavesSled nap) smallTraced.nap
      [mapCode 0x20000] := ⟨fun _ _ _ => by decide, fun _ _ => trivial⟩
  exact ⟨_, rfl, sledKept_of_guarded smallTraced_nap_sound smallTraced_nap_sledMapped nofun
    hguard rfl⟩

/-- Code mapped up to the end of the dynamic text replaces the last halts, and its region overlaps
them. -/
theorem not_sledKept_mapCode :
    smallTraced.nap.Sound ∧ smallTraced.nap.SledMapped ∧ smallTraced.nap.SledFree ∧
      ∃ nap', [mapCode 0x30000].foldlM SysCall.step smallTraced.nap = .ok nap' ∧
        smallTraced.nap.InSled 0x3ffff ∧ smallTraced.nap.byteAt 0x3ffff = 0 ∧
        nap'.byteAt 0x3ffff = 0x90 ∧ ¬ nap'.SledFree := by
  refine ⟨smallTraced_nap_sound, smallTraced_nap_sledMapped, nofun, _, rfl, ?_, rfl, rfl, ?_⟩
  · exact ⟨by decide, by decide⟩
  · intro hfree
    have hregion : (⟨2 ^ 32 + 0x30000, 0x10000, -1, true⟩ : NaClDynamicRegion) ∈
        [(⟨2 ^ 32 + 0x30000, 0x10000, -1, true⟩ : NaClDynamicRegion)] := List.mem_singleton_self _
    exact hfree _ hregion 0x3ffff ⟨by decide, by decide⟩ ⟨by decide, by decide⟩

end

end SandboxingNaCl
