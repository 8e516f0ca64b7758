import SandboxingNaCl.Service.DeleteGenerations
import SandboxingNaCl.Service.MappingEntries

/-!
# The memory map and the table of dynamic regions together

One entry of the map stands for the dynamic text, and the dynamic regions lie in it.  The calls keep
it so, except one: the end of code that is created up to `2 ^ 32` is 0 in 32 bits, and 0 is not
behind the dynamic text.
-/

namespace SandboxingNaCl

open MachineInt PagedMemory

def NaClApp.IsTextEntry (nap : NaClApp) (ent : NaClVmmapEntry) : Prop :=
  ent.pageNum * naclPageSize = nap.dynamicTextStart ∧
    (ent.pageNum + ent.npages) * naclPageSize = nap.dynamicTextEnd

instance (nap : NaClApp) (ent : NaClVmmapEntry) : Decidable (nap.IsTextEntry ent) :=
  inferInstanceAs (Decidable (_ ∧ _))

def NaClVmmap.HasNullEntry (map : NaClVmmap) : Prop :=
  ∃ ent ∈ map.vmentry, ent.pageNum = 0 ∧ ent.npages = naclTrampolineStart / naclPageSize

/-- What the loader establishes about the map and the table, and the calls keep. -/
structure NaClApp.MappingsSound (nap : NaClApp) : Prop where
  sound : nap.Sound
  le_pages : ∀ ent ∈ nap.memMap.vmentry, ent.pageNum + ent.npages ≤ nap.space.pages
  nullEntry : nap.memMap.HasNullEntry
  textEntry : nap.dynamicTextStart < nap.dynamicTextEnd →
    nap.dynamicTextEnd < nap.dataEnd ∧ ∃ ent ∈ nap.memMap.vmentry, nap.IsTextEntry ent
  regions : nap.text.RegionsSound
  inside : ∀ region ∈ nap.text.regions,
    nap.space.memStart + nap.dynamicTextStart ≤ region.start ∧
      region.stop ≤ nap.space.memStart + nap.dynamicTextEnd

/-- Creating the code is refused neither for its place, as far as its start and the end of the
address space go, nor by the validator. -/
structure NaClApp.Creates (nap : NaClApp) (dest size : ℕ) (codeCopy : ℕ → UInt8)
    (ans : DyncodeAnswers) : Prop where
  textShm : nap.text.textShm ≠ none
  aligned : dest % nap.bundleSize = 0 ∧ size % nap.bundleSize = 0
  start_le : nap.dynamicTextStart ≤ dest
  le : dest + size ≤ 2 ^ nap.space.addrBits
  valid : nap.skipValidator = true ∨ nap.ignoreValidatorResult = true ∨
    (ans.validate codeCopy).1 = true
  free : ∀ region ∈ nap.text.regions, ¬ region.Overlaps (nap.space.memStart + dest) size

/-- The code is created up to `2 ^ 32`. -/
def NaClApp.CreatesToTop (nap : NaClApp) (dest size : ℕ) (codeCopy : ℕ → UInt8)
    (ans : DyncodeAnswers) : Prop :=
  dest + size = 2 ^ 32 ∧ nap.Creates dest size codeCopy ans

/-- The call creates code up to `2 ^ 32`. -/
def SysCall.CreatesToTop (nap : NaClApp) : SysCall → Prop
  | .dyncodeCreate dest src size ans => nap.enableDyncodeSyscalls = true ∧
      naclUserToSysAddrRange nap.space src.toNat size.toNat ≠ kNaClBadAddress ∧
      nap.CreatesToTop dest.toNat size.toNat (fun i => nap.byteAt (src.toNat + i)) ans
  | .textDyncodeCreate dest codeCopy size ans =>
    nap.CreatesToTop dest.toNat size.toNat codeCopy ans
  | _ => False

section

variable {nap nap' : NaClApp} {r : SysResult}

theorem NaClApp.MappingsSound.table (h : nap.MappingsSound) : nap.TableSound := by
  refine ⟨h.sound.text, h.regions, fun region hregion => ?_⟩
  obtain ⟨hlo, hhi⟩ := h.inside region hregion
  have hend := h.sound.text.end_lt
  exact ⟨hlo, by omega⟩

theorem NaClApp.MappingsSound.null_le (h : nap.MappingsSound) :
    naclTrampolineStart / naclPageSize ≤ nap.dynamicTextEnd / naclPageSize := by
  obtain ⟨hstart, -, hend, -, -⟩ := h.sound.text.layout
  have hlt : naclTrampolineStart ≤ naclTrampolineEnd := by decide
  exact Nat.div_le_div_right (by omega)

theorem NaClApp.MappingsSound.of_map {s : ℕ} (h : nap.MappingsSound)
    (heq : nap' = { nap with
      memMap := nap'.memMap, mem := nap'.mem, breakAddr := nap'.breakAddr })
    (hsound : nap'.Sound) (hkeep : nap.memMap.Keeps s nap.space.pages nap'.memMap)
    (hnull : naclTrampolineStart / naclPageSize ≤ s)
    (hs : nap.dynamicTextStart < nap.dynamicTextEnd → nap.dynamicTextEnd / naclPageSize ≤ s) :
    nap'.MappingsSound := by
  refine ⟨hsound, ?_, ?_, ?_, ?_, ?_⟩
  · rw [show nap'.space = nap.space by rw [heq]]
    exact hkeep.le h.le_pages
  · obtain ⟨ent, he, hstart, hn⟩ := h.nullEntry
    refine ⟨ent, hkeep.below ent he ?_, hstart, hn⟩
    rw [hstart, hn, Nat.zero_add]
    exact hnull
  · unfold NaClApp.IsTextEntry
    rw [show nap'.dynamicTextStart = nap.dynamicTextStart by rw [heq],
      show nap'.dynamicTextEnd = nap.dynamicTextEnd by rw [heq],
      show nap'.dataEnd = nap.dataEnd by rw [heq]]
    intro hlt
    obtain ⟨hdata, ent, he, hstart, hend⟩ := h.textEntry hlt
    refine ⟨hdata, ent, hkeep.below ent he ?_, hstart, hend⟩
    refine le_trans ?_ (hs hlt)
    rw [← hend, Nat.mul_div_cancel _ (by decide)]
  · rw [show nap'.text = nap.text by rw [heq]]
    exact h.regions
  · rw [show nap'.text = nap.text by rw [heq], show nap'.space = nap.space by rw [heq],
      show nap'.dynamicTextStart = nap.dynamicTextStart by rw [heq],
      show nap'.dynamicTextEnd = nap.dynamicTextEnd by rw [heq]]
    exact h.inside

theorem NaClApp.MappingsSound.of_text (h : nap.MappingsSound)
    (heq : nap' = { nap with text := nap'.text, mem := nap'.mem }) (hsound : nap'.Sound)
    (hregions : nap'.text.RegionsSound)
    (hinside : ∀ region ∈ nap'.text.regions,
      (∃ old ∈ nap.text.regions, region.start = old.start ∧ region.size = old.size) ∨
        nap.space.memStart + nap.dynamicTextStart ≤ region.start ∧
          region.stop ≤ nap.space.memStart + nap.dynamicTextEnd) : nap'.MappingsSound := by
  refine ⟨hsound, ?_, ?_, ?_, hregions, fun region hregion => ?_⟩
  · rw [show nap'.memMap = nap.memMap by rw [heq], show nap'.space = nap.space by rw [heq]]
    exact h.le_pages
  · rw [show nap'.memMap = nap.memMap by rw [heq]]
    exact h.nullEntry
  · unfold NaClApp.IsTextEntry
    rw [show nap'.dynamicTextStart = nap.dynamicTextStart by rw [heq],
      show nap'.dynamicTextEnd = nap.dynamicTextEnd by rw [heq],
      show nap'.dataEnd = nap.dataEnd by rw [heq], show nap'.memMap = nap.memMap by rw [heq]]
    exact h.textEntry
  · rw [show nap'.space = nap.space by rw [heq],
      show nap'.dynamicTextStart = nap.dynamicTextStart by rw [heq],
      show nap'.dynamicTextEnd = nap.dynamicTextEnd by rw [heq]]
    rcases hinside region hregion with ⟨old, hold, hstart, hsize⟩ | hnew
    · unfold NaClDynamicRegion.stop
      rw [hstart, hsize]
      exact h.inside old hold
    · exact hnew

/-! ## Deleting code -/

theorem regionsSound_finishDelete {natp ix : ℕ} {generation : ℤ} {region : NaClDynamicRegion}
    (h : nap.text.RegionsSound) (hix : nap.text.regions[ix]? = some region)
    (hrun : finishDelete nap natp ix generation = .ok (nap', r)) : nap'.text.RegionsSound := by
  unfold finishDelete at hrun
  split at hrun
  · cases hrun
  · next text hset =>
    have htext : text.regions = nap.text.regions ∧
        text.regionsAllocated = nap.text.regionsAllocated := by
      unfold naclSetThreadGeneration at hset
      split at hset
      · split_ifs at hset <;> cases hset <;> exact ⟨rfl, rfl⟩
      · cases hset
    have hsound : text.RegionsSound := by
      refine ⟨?_, ?_, ?_⟩
      · rw [htext.1]
        exact h.separated
      · rw [htext.1]
        exact h.stop_lt
      · rw [htext.1, htext.2]
        exact h.allocated
    split_ifs at hrun
    · cases hrun
      exact (hsound.delete_spec (htext.1 ▸ hix)).1
    · cases hrun
      exact hsound

theorem regionsSound_naclSysDyncodeDelete {natp : ℕ} {dest size : BitVec 32} {shmMap : Bool}
    (h : nap.TableSound)
    (hrun : naclSysDyncodeDelete nap natp dest.toNat size.toNat shmMap = .ok (nap', r)) :
    nap'.text.RegionsSound := by
  unfold naclSysDyncodeDelete at hrun
  dsimp only at hrun
  split_ifs at hrun with henable hshm hzero hbad
  · cases hrun
    exact h.regions
  · cases hrun
    exact h.regions
  · split at hrun
    · cases hrun
    · next text hset =>
      cases hrun
      unfold naclSetThreadGeneration at hset
      split at hset
      · split_ifs at hset <;> cases hset
        · exact h.regions
        · exact ⟨h.regions.separated, h.regions.stop_lt, h.regions.allocated⟩
      · cases hset
  · cases hrun
    exact h.regions
  · obtain ⟨-, -, haddr⟩ := naclUserToSysAddrRange_spec (dest.isLt.trans (by decide))
      (size.isLt.trans (by decide)) hbad
    rw [haddr] at hrun
    split at hrun
    · next ix region hfind hbind =>
      rw [hfind, Option.bind_some] at hbind
      split_ifs at hrun with hother hfirst
      · cases hrun
        exact h.regions
      · push Not at hother
        rw [requestDelete_eq] at hrun
        split at hrun
        · cases hrun
        · next hmark =>
          cases hrun
          exact (regionMarked_markDeleted h hbind hother.1 hother.2.1 hmark).sound.regions
        · next hmark =>
          have hmarked := regionMarked_markDeleted h hbind hother.1 hother.2.1 hmark
          exact regionsSound_finishDelete hmarked.sound.regions
            (getElem?_of_markDeleted hbind hmark) hrun
      · exact regionsSound_finishDelete h.regions hbind hrun
    · cases hrun
      exact h.regions

/-! ## Creating code -/

theorem NaClApp.MappingsSound.installDyncode {dest size : ℕ} {code : ℕ → UInt8} {shmMap : Bool}
    (h : nap.MappingsSound) (hlo : nap.dynamicTextStart ≤ dest) (hpos : 0 < size)
    (hhi : dest + size ≤ 2 ^ nap.space.addrBits)
    (hend : (dest + size) % 2 ^ 32 ≤ usub nap.dynamicTextEnd naclHaltSledSize)
    (htop : dest + size = 2 ^ 32 →
      ∃ region ∈ nap.text.regions, region.Overlaps (nap.space.memStart + dest) size)
    (hrun : installDyncode nap dest (nap.space.memStart + dest) code size shmMap =
      .ok (nap', r)) : nap'.MappingsSound := by
  have hbits := addrBits_pow_le nap.space
  have hspace := nap.space.lt
  obtain ⟨-, husub⟩ := h.sound.text.sled_le
  have hstep := textStep_installDyncode hrun
  obtain ⟨htable, -⟩ := sameTable_installDyncode hrun
  obtain ⟨hcache, -⟩ := installDyncode_spec h.sound.text hlo hpos (hhi.trans hbits) hend hrun
  obtain ⟨hcreated, -, hmem⟩ := h.regions.create_spec hpos
    (show nap.space.memStart + dest + size < 2 ^ 64 by omega) false
  refine h.of_text hstep.eq (h.sound.of_textStep hstep hcache) (htable.regionsSound hcreated)
    fun region hregion => ?_
  rw [htable.regions, hmem] at hregion
  rcases hregion with hold | ⟨hfree, rfl⟩
  · exact Or.inl ⟨region, hold, rfl, rfl⟩
  · refine Or.inr ⟨Nat.add_le_add_left hlo _, ?_⟩
    have hlt : dest + size < 2 ^ 32 := lt_of_le_of_ne (hhi.trans hbits) (mt htop hfree)
    rw [husub, Nat.mod_eq_of_lt hlt] at hend
    unfold NaClDynamicRegion.stop
    dsimp only
    omega

theorem NaClApp.MappingsSound.create {dest size : ℕ} {codeCopy : ℕ → UInt8} {ans : DyncodeAnswers}
    (h : nap.MappingsSound) (hdest : dest < 2 ^ 32) (hsize : size < 2 ^ 32)
    (htop : ¬ nap.CreatesToTop dest size codeCopy ans)
    (hrun : naclTextDyncodeCreate nap dest codeCopy size ans = .ok (nap', r)) :
    nap'.MappingsSound := by
  have hrange := @naclUserToSysAddrRange_spec nap.space dest size
    (hdest.trans (by decide : 2 ^ 32 < 2 ^ 64)) (hsize.trans (by decide : 2 ^ 32 < 2 ^ 64))
  have hvalid : ∀ answer, answer = (if nap.skipValidator = true then (true, codeCopy)
      else ans.validate codeCopy) → ¬ (!(answer.1 || nap.ignoreValidatorResult)) = true →
      nap.skipValidator = true ∨ nap.ignoreValidatorResult = true ∨
        (ans.validate codeCopy).1 = true := by
    intro answer hanswer hok
    rcases Bool.eq_false_or_eq_true nap.skipValidator with hskip | hskip
    · exact Or.inl hskip
    · rw [hskip, if_neg (by decide)] at hanswer
      rw [hanswer] at hok
      simp only [Bool.not_eq_true', Bool.not_eq_false, Bool.or_eq_true] at hok
      exact Or.inr hok.symm
  unfold naclTextDyncodeCreate at hrun
  dsimp only at hrun
  generalize hanswer : (if nap.skipValidator = true then (true, codeCopy)
    else ans.validate codeCopy) = answer at hrun
  split_ifs at hrun with hshm hbundle hbad hlo hend hzero hinvalid
  any_goals
    cases hrun
    exact h
  obtain ⟨-, hle, haddr⟩ := hrange hbad
  push Not at hbundle
  rw [haddr] at hrun
  refine h.installDyncode (not_lt.1 hlo) (Nat.pos_of_ne_zero hzero) hle (not_lt.1 hend)
    (fun heq => ?_) hrun
  by_contra hfree
  exact htop ⟨heq, hshm, hbundle, not_lt.1 hlo, hle, hvalid answer hanswer.symm hinvalid,
    fun region hregion hover => hfree ⟨region, hregion, hover⟩⟩

/-! ## Each call -/

theorem NaClApp.MappingsSound.mmap {args : MmapArgs} {ans : MmapAnswers} (h : nap.MappingsSound)
    (hrun : naclSysMmapIntern nap args ans = .ok (nap', r)) : nap'.MappingsSound := by
  have hsound := h.sound.effect (sysEffect_mmap h.sound hrun)
  unfold naclSysMmapIntern at hrun
  split at hrun
  · cases hrun
  · next hlocked =>
    cases hrun
    cases mmapLocked_spec h.sound.wellFormed hlocked with
    | refused hmap heq =>
      subst heq
      exact h.of_map rfl hsound (.of_perm _ _ hmap.perm) h.null_le fun _ => le_rfl
    | @data req memMap s r _ _ hreq hmap hplace hdata hrun =>
      obtain ⟨n, k, hn, hk, hkn, hpos, -⟩ := hreq.pages
      have hle := hplace.le
      rw [hn] at hle
      have hmax := hle.trans (addrBits_pow_le nap.space)
      obtain ⟨hstep, -⟩ := mmapData_spec hmap.wellFormed hreq (protExec_and_not args.prot) hn
        hk hkn hpos hmax hrun
      have hkeep := @keeps_mmapData { nap with memMap } _ _ _ _ _ _ _ _ _ _ hmap.wellFormed hn
        hk hpos hmax (AddressSpace.le_pages hle) hrun
      have hbelow := dynamicTextEnd_div_le (hplace.not_text hdata)
      refine h.of_map ?_ hsound ((NaClVmmap.Keeps.of_perm _ _ hmap.perm).trans hkeep)
        (h.null_le.trans hbelow) fun _ => hbelow
      rw [hstep.eq]
    | @direct req _ _ hreq hplace hcode hvalid hrun =>
      obtain ⟨hlo, hhi, -⟩ := hreq.code_range hplace hcode
      obtain ⟨-, -, -, -, hlen, -⟩ := hreq.code hcode
      have hpos := hreq.pos
      have hspace := nap.space.lt
      have hbits := addrBits_pow_le nap.space
      have hend := h.sound.text.end_lt
      have hle := hplace.le
      have hwrap : nap.space.memStart + args.start + req.length < 2 ^ 64 := by omega
      obtain ⟨sysaddr, text, free, huser, hcreate, rfl, -⟩ := mmapCodeDirect_spec hrun
      obtain rfl := eq_of_naclUserToSys huser
      obtain ⟨hcreated, -, hmem⟩ := h.regions.create_spec (hlen ▸ hpos) hwrap true
      rw [hcreate] at hcreated hmem
      refine h.of_text rfl hsound hcreated fun region hregion => ?_
      rcases (hmem region).1 hregion with hold | ⟨-, rfl⟩
      · exact Or.inl ⟨region, hold, rfl, rfl⟩
      · refine Or.inr ⟨Nat.add_le_add_left hlo _, ?_⟩
        unfold NaClDynamicRegion.stop
        dsimp only
        omega
  · next hlocked =>
    cases mmapLocked_spec h.sound.wellFormed hlocked with
    | copy hreq hplace hcode heq =>
      subst heq
      obtain ⟨-, hend, -, -⟩ := hreq.code_range hplace hcode
      have hlt := h.sound.text.end_lt
      have hpos := hreq.pos
      obtain ⟨-, -, -, -, hlen, -⟩ := hreq.code hcode
      unfold mmapCopy at hrun
      split at hrun
      · cases hrun
      · next hcreate =>
        cases hrun
        exact h.create (by omega) (by omega)
          (fun htop => absurd (hend.trans_lt hlt) (not_lt.2 htop.1.ge)) hcreate
      · next hcreate =>
        unfold mmapCodeResult at hrun
        split_ifs at hrun
        cases hrun
        exact h.create (by omega) (by omega)
          (fun htop => absurd (hend.trans_lt hlt) (not_lt.2 htop.1.ge)) hcreate

theorem NaClApp.MappingsSound.munmap {start length : ℕ} {host : Except NaClAbiErrno Unit}
    (h : nap.MappingsSound) (hlt : start < 2 ^ 64)
    (hrun : naclSysMunmap nap start length host = .ok (nap', r)) : nap'.MappingsSound := by
  have hsound := h.sound.effect
    (@sysEffect_munmap nap nap' r _ _ host (.mem (.munmap 0 0 host)) h.sound hlt hrun)
  rcases naclSysMunmap_spec hlt hrun with ⟨rfl, -⟩ | ⟨s, n, rfl, hpos, hle, htext, -, hrun⟩
  · exact h
  · have hmax := hle.trans (addrBits_pow_le nap.space)
    have hstep := dataStep_munmapInternal h.sound.wellFormed hpos hmax le_rfl hrun
    have hbelow := dynamicTextEnd_div_le htext
    exact h.of_map hstep.eq hsound
      (keeps_munmapInternal h.sound.wellFormed hpos hmax (AddressSpace.le_pages hle) hrun)
      (h.null_le.trans hbelow) fun _ => hbelow

theorem NaClApp.MappingsSound.mprotect {start length : ℕ} {prot : BitVec 32}
    (h : nap.MappingsSound) (hlt : start < 2 ^ 32)
    (hrun : naclSysMprotectInternal nap start length prot = .ok (nap', r)) :
    nap'.MappingsSound := by
  have hsound := h.sound.effect
    (@sysEffect_mprotect nap nap' r _ _ _ (.mem (.mprotect 0 0 prot)) h.sound hlt hrun)
  have hkeep := keeps_naclSysMprotectInternal h.sound.wellFormed hlt hrun
  rcases naclSysMprotectInternal_spec h.sound.wellFormed hlt hrun with
    ⟨memMap, rfl, -⟩ | ⟨s, n, rfl, -, -, hdone⟩
  · exact h.of_map rfl hsound hkeep h.null_le fun _ => le_rfl
  · exact h.of_map hdone.dataStep.eq hsound hkeep h.null_le fun _ => le_rfl

theorem NaClApp.MappingsSound.brk {newBreak : ℕ} (h : nap.MappingsSound)
    (hrun : naclSysBrk nap newBreak = .ok (nap', r)) : nap'.MappingsSound := by
  have hsound := h.sound.effect (@sysEffect_brk nap nap' r _ (.mem (.brk newBreak)) h.sound hrun)
  obtain ⟨t, hstep⟩ := (brkStep_naclSysBrk h.sound.wellFormed hrun).dataStep
  obtain ⟨hstart, -, hend, hdata, hbreak⟩ := h.sound.text.layout
  have htrampoline : naclMapPageSize ≤ naclTrampolineEnd := by decide
  have hpos : naclTrampolineStart < naclTrampolineEnd := by decide
  refine h.of_map hstep.eq hsound (keeps_naclSysBrk h.sound.wellFormed (by omega) le_rfl hrun)
    (Nat.div_le_div_right (by omega)) fun hlt => Nat.div_le_div_right ?_
  have := (h.textEntry hlt).1
  omega

theorem NaClApp.MappingsSound.step {call : SysCall} (h : nap.MappingsSound)
    (hguard : ¬ call.CreatesToTop nap) (hstep : call.step nap = .ok nap') :
    nap'.MappingsSound := by
  unfold SysCall.step at hstep
  split at hstep
  · cases hstep
  · next hrun =>
    cases hstep
    cases call with
    | mem call =>
      cases call with
      | brk newBreak => exact h.brk hrun
      | mmap args ans => exact h.mmap hrun
      | munmap start length host => exact h.munmap (start.isLt.trans (by decide)) hrun
      | mprotect start length prot => exact h.mprotect start.isLt hrun
    | dyncodeCreate dest src size ans =>
      have hcreate : naclSysDyncodeCreate nap dest.toNat src.toNat size.toNat ans = _ := hrun
      unfold naclSysDyncodeCreate at hcreate
      split_ifs at hcreate with henable hbad
      · cases hcreate
        exact h
      · cases hcreate
        exact h
      · refine h.create dest.isLt size.isLt (fun htop => hguard ⟨?_, hbad, htop⟩) hcreate
        simpa using henable
    | dyncodeDelete natp dest size shmMap =>
      have hdelete : naclSysDyncodeDelete nap natp dest.toNat size.toNat shmMap = _ := hrun
      have hstep := textStep_naclSysDyncodeDelete hdelete
      have hdeleted := codeDeleted_naclSysDyncodeDelete h.sound.text.mapcache hdelete
      exact h.of_text hstep.eq (h.sound.of_textStep hstep hdeleted.mapcache)
        (regionsSound_naclSysDyncodeDelete h.table hdelete) fun region hregion =>
          Or.inl (hdeleted.regions region hregion)
    | textDyncodeCreate dest codeCopy size ans =>
      exact h.create dest.isLt size.isLt hguard hrun

end

end SandboxingNaCl
