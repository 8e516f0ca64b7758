import SandboxingNaCl.Service.HostProtection
import SandboxingNaCl.Vmmap.KeptEntries

/-!
# The entries that the memory system calls keep

Each call keeps the entries of the memory map that lie in front of what it works on, and records no
entry behind the end of the address space.
-/

namespace SandboxingNaCl

open MachineInt PagedMemory IntervalMap

def AddressSpace.pages (as : AddressSpace) : ℕ := 2 ^ as.addrBits / naclPageSize

theorem AddressSpace.le_pages {as : AddressSpace} {s n : ℕ}
    (h : s * naclPageSize + n * naclPageSize ≤ 2 ^ as.addrBits) : s + n ≤ as.pages := by
  rw [← Nat.add_mul] at h
  exact (Nat.le_div_iff_mul_le (by decide)).2 h

section

variable {nap nap' : NaClApp} {r : SysResult} {s n t : ℕ}

/-! ## munmap and mmap -/

theorem keeps_munmapInternal {host : Except NaClAbiErrno Unit} (h : nap.memMap.WellFormed)
    (hpos : 0 < n) (hmax : s * naclPageSize + n * naclPageSize ≤ 2 ^ 32) (ht : s + n ≤ t)
    (hrun : munmapInternal nap (s * naclPageSize) (n * naclPageSize) host = .ok (nap', r)) :
    nap.memMap.Keeps s t nap'.memMap := by
  have hps : 0 < naclPageSize := by decide
  have hpage : 2 ^ naclPageShift = naclPageSize := rfl
  unfold munmapInternal at hrun
  rw [hpage, Nat.mul_div_cancel _ hps, Nat.mul_div_cancel _ hps] at hrun
  split at hrun
  · cases hrun
    exact .refl s t _
  · split at hrun
    · cases hrun
    · next hremove =>
      cases hrun
      exact keeps_naclVmmapRemove h hpos le_rfl ht (maxPage_of_le hmax) hremove

variable {args : MmapArgs} {req : MmapRequest} {prot : BitVec 32} {k : ℕ} {offset : ℤ}

theorem keeps_mmapRecord {munmap : Except NaClAbiErrno Unit} (h : nap.memMap.WellFormed)
    (hn : req.allocRoundedLength = n * naclPageSize) (hk : req.length = k * naclPageSize)
    (hpos : 0 < n) (hmax : s * naclPageSize + n * naclPageSize ≤ 2 ^ 32) (ht : s + n ≤ t)
    (hrun : mmapRecord nap req (s * naclPageSize) prot offset munmap = .ok (nap', r)) :
    nap.memMap.Keeps s t nap'.memMap := by
  have hps : 0 < naclPageSize := by decide
  have hpage : 2 ^ naclPageShift = naclPageSize := rfl
  unfold mmapRecord at hrun
  simp only [hn, hk, hpage, Nat.mul_div_cancel _ hps, Nat.mul_lt_mul_right hps, ← Nat.add_mul,
    ← Nat.sub_mul] at hrun
  -- the tail that the descriptor does not back
  have htail : ∀ mid r', (if k < n then
      munmapInternal nap ((s + k) * naclPageSize) ((n - k) * naclPageSize) munmap
      else .ok (nap, .ok 0)) = .ok (mid, r') →
        nap.memMap.Keeps s t mid.memMap ∧ mid.memMap.WellFormed := by
    intro mid r' hmid
    split_ifs at hmid with hlt
    · have hle : (s + k) * naclPageSize + (n - k) * naclPageSize ≤ 2 ^ 32 := by
        rw [← Nat.add_mul] at hmax ⊢
        rwa [show s + k + (n - k) = s + n by omega]
      have hsub := Nat.sub_pos_of_lt hlt
      exact ⟨(keeps_munmapInternal h hsub hle (by omega) hmid).mono (Nat.le_add_right s k),
        (dataStep_munmapInternal h hsub hle (show s + k + (n - k) ≤ s + n by omega) hmid).wellFormed⟩
    · cases hmid
      exact ⟨.refl s t _, h⟩
  split at hrun
  · cases hrun
  · next hmid =>
    cases hrun
    exact (htail _ _ hmid).1
  · next hmid =>
    obtain ⟨hkeep, hwf⟩ := htail _ _ hmid
    split at hrun
    · cases hrun
    · next hadd =>
      cases hrun
      exact hkeep.trans
        (keeps_naclVmmapAddWithOverwrite hwf hpos le_rfl ht (maxPage_of_le hmax) hadd)

theorem keeps_mmapData {ans : MmapAnswers} (h : nap.memMap.WellFormed)
    (hn : req.allocRoundedLength = n * naclPageSize) (hk : req.length = k * naclPageSize)
    (hpos : 0 < n) (hmax : s * naclPageSize + n * naclPageSize ≤ 2 ^ 32) (ht : s + n ≤ t)
    (hrun : mmapData nap req (s * naclPageSize) prot offset ans = .ok (nap', r)) :
    nap.memMap.Keeps s t nap'.memMap := by
  unfold mmapData at hrun
  split_ifs at hrun
  · split at hrun
    · cases hrun
    · cases hrun
      exact .refl s t _
    · exact @keeps_mmapRecord { nap with
        mem := mmapBacked nap.mem req (s * naclPageSize) prot offset ans.fileByte }
        _ _ _ _ _ _ _ _ _ _ h hn hk hpos hmax ht hrun
  · exact keeps_mmapRecord h hn hk hpos hmax ht hrun

/-! ## mprotect and brk -/

theorem keeps_mprotectInternal {usraddr length : ℕ} (h : nap.memMap.WellFormed)
    (hrun : mprotectInternal nap usraddr length prot = .ok (nap', r)) (s t : ℕ) :
    nap.memMap.Keeps s t nap'.memMap := by
  unfold mprotectInternal at hrun
  dsimp only at hrun
  split at hrun
  · cases hrun
  · next hfind =>
    have hreord := (naclVmmapFindPageIter_spec h hfind).1
    split at hrun
    · cases hrun
    · split_ifs at hrun
      split at hrun
      · cases hrun
      · split_ifs at hrun
        cases hrun
        exact .of_perm s t hreord.perm

theorem keeps_naclSysMprotectInternal {start length : ℕ} (h : nap.memMap.WellFormed)
    (hs : start < 2 ^ 32)
    (hrun : naclSysMprotectInternal nap start length prot = .ok (nap', r)) :
    nap.memMap.Keeps (nap.dynamicTextEnd / naclPageSize) nap.space.pages nap'.memMap := by
  by_cases href : MprotectRefused nap start length prot
  · obtain ⟨errno, hrun'⟩ := href.returns
    cases hrun.symm.trans hrun'
    exact .refl _ _ _
  obtain ⟨s, n, rfl, -, -, hle, htext, -, heq⟩ := naclSysMprotectInternal_eq hs href
  have hmax := maxPage_of_le (hle.trans (addrBits_pow_le nap.space))
  have hbelow := dynamicTextEnd_div_le htext
  rw [heq] at hrun
  by_cases htop : 2 ^ nap.space.addrBits ≤ s * naclPageSize
  · rw [if_pos htop] at hrun
    cases hrun
  rw [if_neg htop] at hrun
  obtain ⟨ok, _, -, map, hchange, hwf, -⟩ :=
    naclVmmapChangeProt_spec h (lt_of_le_maxPage hmax) prot
  have hkeep := keeps_naclVmmapChangeProt h hbelow (AddressSpace.le_pages hle) hmax hchange
  rw [hchange] at hrun
  cases ok with
  | false =>
    cases hrun
    exact hkeep
  | true =>
    simp only [if_true] at hrun
    by_cases hio : naclVmIoPending nap (s * naclPageSize)
        (usub (uadd (s * naclPageSize) (n * naclPageSize)) 1) = true
    · rw [if_pos hio] at hrun
      cases hrun
    rw [if_neg hio] at hrun
    exact hkeep.trans (@keeps_mprotectInternal { nap with memMap := map } _ _ _ _ _ hwf hrun _ _)

theorem lastInternalPage_lt {newBreak : ℕ} (hlarge : naclMapPageSize ≤ newBreak)
    (hlt : newBreak < 2 ^ nap.space.addrBits) :
    usub (naclRoundAllocPage newBreak) 1 / naclPageSize + 1 ≤ nap.space.pages := by
  have hbits := addrBits_pow_le nap.space
  have hpos : 0 < naclMapPageSize := by decide
  have hdvd : naclMapPageSize ∣ 2 ^ nap.space.addrBits := by
    refine Nat.pow_dvd_pow 2 (not_lt.1 fun hshort => ?_)
    have hpow := Nat.pow_le_pow_right two_pos hshort.le
    exact absurd (hlarge.trans_lt hlt) (not_lt.2 hpow)
  have hle : newBreak ≤ naclRoundAllocPage newBreak :=
    le_alignUp (by unfold naclMapPageShift; omega)
  have hround : naclRoundAllocPage newBreak ≤ 2 ^ nap.space.addrBits :=
    (alignUp_le_iff hdvd (by unfold naclMapPageShift; omega)).2 hlt.le
  rw [usub_eq (by omega) (by omega)]
  refine Nat.div_lt_div_of_lt_of_dvd (naclPageSize_dvd hdvd) ?_
  omega

/-- The break grows the entry that holds the last page of the data, and no further than the address
space. -/
theorem keeps_naclSysBrk {newBreak : ℕ} (h : nap.memMap.WellFormed)
    (hlarge : naclMapPageSize ≤ nap.breakAddr)
    (hs : s ≤ (nap.breakAddr - 1) / naclPageSize)
    (hrun : naclSysBrk nap newBreak = .ok (nap', r)) :
    nap.memMap.Keeps s nap.space.pages nap'.memMap := by
  have hpage : 2 ^ naclPageShift = naclPageSize := rfl
  have hbits := addrBits_pow_le nap.space
  unfold naclSysBrk at hrun
  by_cases hpnacl : nap.pnaclMode = true
  · rw [if_pos hpnacl] at hrun
    cases hrun
    exact .refl _ _ _
  rw [if_neg hpnacl] at hrun
  by_cases hbad : naclUserToSysAddr nap.space newBreak = kNaClBadAddress
  · rw [if_pos hbad] at hrun
    cases hrun
    exact .refl _ _ _
  rw [if_neg hbad] at hrun
  have hnew : 0 < newBreak ∧ newBreak < 2 ^ nap.space.addrBits := by
    unfold naclUserToSysAddr at hbad
    split_ifs at hbad with h₀
    · exact absurd rfl hbad
    · omega
  split_ifs at hrun
  · cases hrun
    exact .refl _ _ _
  · cases hrun
    exact .refl _ _ _
  · split at hrun
    · cases hrun
    · next huser =>
      have hpos : 0 < nap.breakAddr ∧ nap.breakAddr < 2 ^ nap.space.addrBits := by
        unfold naclUserToSys at huser
        split_ifs at huser with h₀
        omega
      dsimp only at hrun
      split at hrun
      · cases hrun
      · next memMap ix hfind =>
        obtain ⟨hmap, -, hcontains⟩ := naclVmmapFindPageIter_spec h hfind
        have hsorted : nap.memMap.Keeps s nap.space.pages memMap := .of_perm _ _ hmap.perm
        split at hrun
        · cases hrun
        · next ent hix =>
          have hmax := hmap.wellFormed.entries.le_maxPage ent (List.mem_of_getElem? hix)
          obtain ⟨hlo, hhi⟩ := hcontains ent hix
          rw [hpage, usub_eq (by omega) (by omega)] at hlo hhi
          rw [hpage, uadd_eq (hmax.trans_lt (by decide))] at hrun
          by_cases hin : usub newBreak 1 / naclPageSize < ent.pageNum + ent.npages
          · rw [if_pos hin] at hrun
            rw [zeroNewBreak_ok hrun]
            exact hsorted
          rw [if_neg hin] at hrun
          obtain ⟨hlast, hlastMax⟩ := lastInternalPage_bounds hnew.1 (by omega)
          split_ifs at hrun
          · cases hrun
            exact hsorted
          · have hge := (not_lt.1 hin).trans hlast
            rw [extendBreakEntry_ok hge hlastMax hrun]
            exact hsorted.trans (keeps_set hix (hs.trans_lt hhi) (by omega)
              (lastInternalPage_lt (by omega) hnew.2))

end

end SandboxingNaCl
