import SandboxingNaCl.Service.SysMemoryEffects

/-!
# brk

What `NaClSysBrk` does to the map and to the pages.  A larger break grows the entry that holds the
last page of the data over pages that nothing covers, and those pages become readable and writable.
-/

namespace SandboxingNaCl

open MachineInt PagedMemory IntervalMap

/-! ## Growing an entry -/

section Extend

variable {map : NaClVmmap} {ix last : ℕ} {ent : NaClVmmapEntry}

/-- The map with its entry at `ix` grown to end with the page `last`. -/
def NaClVmmap.extend (map : NaClVmmap) (ix : ℕ) (ent : NaClVmmapEntry) (last : ℕ) : NaClVmmap :=
  { map with vmentry := map.vmentry.set ix { ent with npages := last + 1 - ent.pageNum } }

theorem NaClVmmap.vmentry_eq_append (hix : map.vmentry[ix]? = some ent) (last : ℕ) :
    map.vmentry = map.vmentry.take ix ++ ent :: map.vmentry.drop (ix + 1) ∧
      (map.extend ix ent last).vmentry = map.vmentry.take ix ++
        { ent with npages := last + 1 - ent.pageNum } :: map.vmentry.drop (ix + 1) := by
  obtain ⟨hlt, rfl⟩ := List.getElem?_eq_some_iff.1 hix
  refine ⟨?_, ?_⟩
  · rw [← List.drop_eq_getElem_cons hlt, List.take_append_drop]
  · rw [extend, List.set_eq_take_append_cons_drop, if_pos hlt]

theorem NaClVmmap.extend_spec (hwf : map.WellFormed) (hord : map.InOrder)
    (hix : map.vmentry[ix]? = some ent) (hge : ent.pageNum + ent.npages ≤ last + 1)
    (hmax : last < maxPage) (hnext : ∀ next ∈ map.vmentry[ix + 1]?, last < next.pageNum) :
    (map.extend ix ent last).WellFormed ∧ (map.extend ix ent last).pageMap =
      override map.pageMap (ent.pageNum + ent.npages) (last + 1)
        fun page => some (vmentryExtent.val ent page) := by
  obtain ⟨hold, hnew⟩ := map.vmentry_eq_append hix last
  have hmem := List.mem_of_getElem? hix
  have hpos := hwf.entries.tiles.lt ent hmem
  rw [vmentryExtent_lo, vmentryExtent_hi] at hpos
  set pre := map.vmentry.take ix
  set post := map.vmentry.drop (ix + 1) with hpost
  set ent' : NaClVmmapEntry := { ent with npages := last + 1 - ent.pageNum } with hent'
  have hend : ent'.pageNum + ent'.npages = last + 1 := by
    simp only [hent']
    omega
  -- the entries after the one at `ix` start past its new end
  have hafter : ∀ b ∈ post, last + 1 ≤ b.pageNum := by
    intro b hb
    have hlt : ix + 1 < map.vmentry.length := by
      by_contra hge
      rw [hpost, List.drop_eq_nil_of_le (not_lt.1 hge)] at hb
      cases hb
    have hhead := hnext _ (List.getElem?_eq_getElem hlt)
    have := ((hord.mem_drop_iff hwf (List.getElem?_eq_getElem hlt)).1 hb).2
    omega
  have htiles := hwf.entries.tiles
  have hsorted := hord
  rw [hold] at htiles
  rw [InOrder, hold, List.pairwise_append, List.pairwise_cons] at hsorted
  obtain ⟨hpre, ⟨-, hpostOrd⟩, hbefore⟩ := hsorted
  have hord' : (pre ++ ent' :: post).Pairwise fun a b => a.pageNum + a.npages ≤ b.pageNum := by
    refine List.pairwise_append.2 ⟨hpre, List.pairwise_cons.2 ⟨fun b hb => ?_, hpostOrd⟩,
      fun a ha b hb => ?_⟩
    · exact hend.trans_le (hafter b hb)
    · rcases List.mem_cons.1 hb with rfl | hb
      · exact hbefore a ha ent List.mem_cons_self
      · exact hbefore a ha b (List.mem_cons_of_mem _ hb)
  have hold' : ∀ a ∈ pre ++ ent' :: post, a = ent' ∨ a ∈ map.vmentry := by
    intro a ha
    rw [hold]
    simp only [List.mem_append, List.mem_cons] at ha ⊢
    tauto
  have htiles' : vmentryExtent.Tiles (pre ++ ent' :: post) := by
    refine ⟨fun a ha => ?_, hord'.imp fun {a b} hab => Or.inl hab⟩
    rcases hold' a ha with rfl | ha
    · rw [vmentryExtent_lo, vmentryExtent_hi, hend]
      exact hpos.trans_le hge
    · exact hwf.entries.tiles.lt a ha
  refine ⟨⟨⟨hnew ▸ htiles', fun a ha => ?_, fun a ha => ?_⟩, fun _ => ?_, ?_, hwf.size_pos⟩, ?_⟩
  · rw [hnew] at ha
    rcases hold' a ha with rfl | ha
    · rw [hend]
      exact hmax
    · exact hwf.entries.le_maxPage a ha
  · rw [hnew] at ha
    rcases hold' a ha with rfl | ha
    · exact hwf.entries.not_removed ent hmem
    · exact hwf.entries.not_removed a ha
  · rw [hnew]
    exact hord'.imp fun {a b} hab => (Nat.le_add_right _ _).trans hab
  · rw [extend, List.length_set]
    exact hwf.nvalid_le
  · rw [NaClVmmap.pageMap, hnew, htiles.lookup_extend htiles' rfl rfl
      (by rw [vmentryExtent_hi, vmentryExtent_hi, hend]; exact hge), ← hold, vmentryExtent_hi,
      vmentryExtent_hi, hend]
    rfl

end Extend

/-! ## The call -/

section Brk

variable {nap nap' : NaClApp} {newBreak : ℕ} {r : SysResult}

/-- The ways `NaClSysBrk` can go. -/
inductive BrkStep (nap : NaClApp) (newBreak : ℕ) (nap' : NaClApp) : Prop
  /-- At most the map is sorted and the break moved down, to the end of the initial data at the
  lowest. -/
  | kept {memMap : NaClVmmap} {breakAddr : ℕ} (hmap : nap.memMap.Reordered memMap)
      (hbreak : breakAddr = nap.breakAddr ∨ nap.dataEnd ≤ breakAddr)
      (heq : nap' = { nap with memMap, breakAddr })
  | bumped {memMap : NaClVmmap} (hmap : nap.memMap.Reordered memMap) (hbreak : nap.dataEnd ≤ newBreak)
      (heq : nap' = { nap with
        memMap
        breakAddr := newBreak
        mem := nap.mem.write nap.breakAddr newBreak fun _ => 0 })
  | extended {memMap : NaClVmmap} {ix last : ℕ} {ent : NaClVmmapEntry}
      (hmap : nap.memMap.Reordered memMap) (hord : memMap.InOrder)
      (hix : memMap.vmentry[ix]? = some ent) (hpos : 0 < nap.breakAddr)
      (hcov : vmentryExtent.Covers ent ((nap.breakAddr - 1) / naclPageSize))
      (hlt : nap.breakAddr < newBreak)
      (hend : ent.pageNum + ent.npages ≤ (newBreak - 1) / naclPageSize)
      (hge : ent.pageNum + ent.npages ≤ last) (hmax : last < maxPage)
      (hnext : ∀ next ∈ memMap.vmentry[ix + 1]?, last < next.pageNum)
      (hbreak : nap.dataEnd ≤ newBreak)
      (heq : nap' = { nap with
        breakAddr := newBreak
        memMap := memMap.extend ix ent last
        mem := (nap.mem.mprotect (ent.pageNum + ent.npages) (last + 1) protReadWrite).write
          nap.breakAddr newBreak fun _ => 0 })

theorem zeroNewBreak_ok {breakAddr : ℕ} (hrun : zeroNewBreak nap breakAddr newBreak = .ok (nap', r)) :
    nap' = { nap with
      mem := nap.mem.write breakAddr newBreak fun _ => 0, breakAddr := newBreak } := by
  unfold zeroNewBreak at hrun
  split_ifs at hrun
  cases hrun
  rfl

theorem lastInternalPage_bounds (hpos : 0 < newBreak) (hlt : newBreak ≤ 2 ^ 32) :
    usub newBreak 1 / naclPageSize ≤ usub (naclRoundAllocPage newBreak) 1 / naclPageSize ∧
      usub (naclRoundAllocPage newBreak) 1 / naclPageSize < maxPage := by
  have hle : newBreak ≤ naclRoundAllocPage newBreak :=
    le_alignUp (by unfold naclMapPageShift; omega)
  have hround : naclRoundAllocPage newBreak ≤ 2 ^ 32 :=
    (alignUp_le_iff (by decide) (by unfold naclMapPageShift; omega)).2 hlt
  rw [usub_eq (by omega) (by omega), usub_eq (by omega) (by omega)]
  refine ⟨Nat.div_le_div_right (by omega), ?_⟩
  unfold maxPage naclPageSize naclPageShift
  omega

theorem extendBreakEntry_ok {ix last : ℕ} {ent : NaClVmmapEntry}
    (hmax : ent.pageNum + ent.npages ≤ last) (hlast : last < maxPage)
    (hrun : extendBreakEntry nap ix ent last newBreak = .ok (nap', r)) :
    nap' = { nap with
      breakAddr := newBreak
      memMap := nap.memMap.extend ix ent last
      mem := (nap.mem.mprotect (ent.pageNum + ent.npages) (last + 1) protReadWrite).write
        nap.breakAddr newBreak fun _ => 0 } := by
  have hps : 0 < naclPageSize := by decide
  have hpage : 2 ^ naclPageShift = naclPageSize := rfl
  unfold maxPage at hlast
  have hstart : ushl (uadd ent.pageNum ent.npages) naclPageShift =
      (ent.pageNum + ent.npages) * naclPageSize := by
    rw [uadd_eq (by omega)]
    exact ushl_eq (by unfold naclPageShift; omega)
  have hnpages : uadd (usub last ent.pageNum) 1 = last + 1 - ent.pageNum := by
    rw [usub_eq (by omega) (by omega), uadd_eq (by omega)]
    omega
  unfold extendBreakEntry at hrun
  dsimp only at hrun
  split at hrun
  · cases hrun
  · have := zeroNewBreak_ok hrun
    rw [hstart, hnpages, Nat.mul_div_cancel _ hps] at this
    exact this

theorem brkStep_naclSysBrk (h : nap.memMap.WellFormed)
    (hrun : naclSysBrk nap newBreak = .ok (nap', r)) : BrkStep nap newBreak nap' := by
  have hpage : 2 ^ naclPageShift = naclPageSize := rfl
  have hbits := addrBits_pow_le nap.space
  unfold naclSysBrk at hrun
  by_cases hpnacl : nap.pnaclMode = true
  · rw [if_pos hpnacl] at hrun
    cases hrun
    exact .kept (.refl h) (Or.inl rfl) rfl
  rw [if_neg hpnacl] at hrun
  by_cases hbad : naclUserToSysAddr nap.space newBreak = kNaClBadAddress
  · rw [if_pos hbad] at hrun
    cases hrun
    exact .kept (.refl h) (Or.inl rfl) rfl
  rw [if_neg hbad] at hrun
  by_cases hdata : newBreak < nap.dataEnd
  · rw [if_pos hdata] at hrun
    cases hrun
    exact .kept (.refl h) (Or.inl rfl) rfl
  rw [if_neg hdata] at hrun
  by_cases hle : newBreak ≤ nap.breakAddr
  · rw [if_pos hle] at hrun
    cases hrun
    exact .kept (.refl h) (Or.inr (not_lt.1 hdata)) rfl
  rw [if_neg hle] at hrun
  split at hrun
  · cases hrun
  · next huser =>
    have hpos : 0 < nap.breakAddr := by
      unfold naclUserToSys at huser
      split_ifs at huser with h₀
      omega
    have hnew : newBreak ≤ 2 ^ 32 := by
      unfold naclUserToSysAddr at hbad
      split_ifs at hbad with h₀
      · exact absurd rfl hbad
      · omega
    dsimp only at hrun
    split at hrun
    · cases hrun
    · next memMap ix hfind =>
      obtain ⟨hmap, hord, hcontains⟩ := naclVmmapFindPageIter_spec h hfind
      split at hrun
      · cases hrun
      · next ent hix =>
        have hmax := hmap.wellFormed.entries.le_maxPage ent (List.mem_of_getElem? hix)
        rw [hpage, uadd_eq (hmax.trans_lt (by decide))] at hrun
        obtain ⟨hlo, hhi⟩ := hcontains ent hix
        rw [hpage, usub_eq hpos (by omega)] at hlo hhi
        by_cases hin : usub newBreak 1 / naclPageSize < ent.pageNum + ent.npages
        · rw [if_pos hin] at hrun
          exact .bumped hmap (not_lt.1 hdata) (zeroNewBreak_ok hrun)
        rw [if_neg hin] at hrun
        obtain ⟨hlast, hlastMax⟩ := lastInternalPage_bounds (by omega) hnew
        split_ifs at hrun with hnext
        · cases hrun
          exact .kept hmap (Or.inl rfl) rfl
        · have hge := (not_lt.1 hin).trans hlast
          rw [usub_eq (by omega) (by omega)] at hin
          refine .extended hmap hord hix hpos ⟨hlo, hhi⟩ (not_le.1 hle) (not_lt.1 hin) hge
            hlastMax (fun next hnext' => ?_) (not_lt.1 hdata)
            (extendBreakEntry_ok hge hlastMax hrun)
          rw [Option.mem_def] at hnext'
          rw [hnext', Option.any_some, decide_eq_true_iff] at hnext
          exact not_le.1 hnext

theorem DataStep.write (nap : NaClApp) {s t a b : ℕ} (h : nap.memMap.WellFormed) (hs : s ≤ a / naclPageSize)
    (ht : b / naclPageSize < t) (contents : ℕ → UInt8) (breakAddr : ℕ) :
    DataStep nap { nap with mem := nap.mem.write a b contents, breakAddr } s t where
  eq := rfl
  wellFormed := h
  outside p hp := by
    refine ⟨rfl, fun i hi => if_neg fun hin => ?_⟩
    have hlo := Nat.div_le_div_right (c := naclPageSize) hin.1
    have hhi := Nat.div_le_div_right (c := naclPageSize) hin.2.le
    omega
  noExec _ := Or.inl rfl

theorem BrkStep.dataStep (hstep : BrkStep nap newBreak nap') :
    ∃ t, DataStep nap nap' (nap.breakAddr / naclPageSize) t := by
  cases hstep with
  | kept hmap hbreak heq => exact ⟨0, heq ▸ ⟨rfl, hmap.wellFormed, fun p _ => .refl _ p,
      fun _ => Or.inl rfl⟩⟩
  | @bumped memMap hmap hbreak heq =>
    refine ⟨newBreak / naclPageSize + 1, heq ▸ ?_⟩
    exact (DataStep.of_memMap hmap.wellFormed _ _).trans
      (DataStep.write { nap with memMap } hmap.wellFormed le_rfl (Nat.lt_succ_self _) _ _)
  | @extended memMap ix last ent hmap hord hix hpos hcov hlt hend hge hmax hnext hbreak heq =>
    have hwf := (memMap.extend_spec hmap.wellFormed hord hix (hge.trans (Nat.le_succ last)) hmax
      hnext).1
    refine ⟨last + newBreak / naclPageSize + 1, heq ▸ ?_⟩
    refine (DataStep.of_memMap hwf _ _).trans (DataStep.trans ?_ (DataStep.write
      { nap with
        memMap := memMap.extend ix ent last
        mem := nap.mem.mprotect (ent.pageNum + ent.npages) (last + 1) protReadWrite }
      hwf le_rfl (by omega) _ _))
    refine ⟨rfl, hwf, fun p hp => Memory.sameAt_mprotect ?_, fun p => ?_⟩
    · have hend := hcov.2
      rw [vmentryExtent_hi] at hend
      have : nap.breakAddr / naclPageSize ≤ (nap.breakAddr - 1) / naclPageSize + 1 := by
        unfold naclPageSize naclPageShift
        omega
      exact hp.imp (fun hp => by omega) fun hp => by
        exact (Nat.succ_le_succ (Nat.le_add_right last _)).trans hp
    · rw [Memory.mprotect_prot]
      split_ifs
      · exact Or.inr (by decide)
      · exact Or.inl rfl

theorem BrkStep.dataEnd_le (hstep : BrkStep nap newBreak nap') (h : nap.dataEnd ≤ nap.breakAddr) :
    nap'.dataEnd ≤ nap'.breakAddr := by
  cases hstep with
  | kept hmap hbreak heq =>
    rw [heq]
    rcases hbreak with rfl | hbreak
    · exact h
    · exact hbreak
  | bumped hmap hbreak heq =>
    rw [heq]
    exact hbreak
  | extended hmap hord hix hpos hcov hlt hend hge hmax hnext hbreak heq =>
    rw [heq]
    exact hbreak

end Brk

end SandboxingNaCl
