import SandboxingNaCl.Vmmap.Search

/-!
# The gaps a new mapping is put in

`FitsAt` says that a range of pages fits at a page: it lies in a gap between two entries whose ends
are multiples of the allocation size.  `BestFit` is what a search for such a page has to return, and
both searches of `sel_mem.c` return it: the one the highest page that is aligned, the other the
lowest one at or above the page of the hint, which is aligned or is that page itself.
-/

namespace SandboxingNaCl

open MachineInt IntervalMap

/-- The `n` pages from `page` on lie in a gap between two entries whose ends are aligned. -/
def FitsAt (l : List NaClVmmapEntry) (n page : ℕ) : Prop :=
  ∃ s t, naclPagesPerMap ∣ s ∧ naclPagesPerMap ∣ t ∧ vmentryExtent.Gap l s t ∧ s ≤ page ∧
    page + n ≤ t

/-- What a search returns that looks for the best page, in the order `le`, among those of `cand`:
0 exactly when `n` pages fit at none. -/
structure BestFit (l : List NaClVmmapEntry) (n : ℕ) (cand : ℕ → Prop) (le : ℕ → ℕ → Prop)
    (page : ℕ) : Prop where
  eq_zero_iff : page = 0 ↔ ∀ p, cand p → ¬ FitsAt l n p
  best : page ≠ 0 → cand page ∧ FitsAt l n page ∧ ∀ p, cand p → FitsAt l n p → le page p

section

variable {l l' : List NaClVmmapEntry} {n page : ℕ} {cand : ℕ → Prop} {le : ℕ → ℕ → Prop}
  {a b : NaClVmmapEntry}

theorem FitsAt.congr (hl : ∀ ent, ent ∈ l ↔ ent ∈ l') : FitsAt l n page ↔ FitsAt l' n page := by
  simp only [FitsAt, Extent.Gap.congr hl]

/-- At an aligned page, an aligned number of pages fits when it lies between two entries and meets
none. -/
theorem fitsAt_iff (hpage : naclPagesPerMap ∣ page) (hn : naclPagesPerMap ∣ n) :
    FitsAt l n page ↔ vmentryExtent.Gap l page (page + n) := by
  constructor
  · rintro ⟨s, t, -, -, ⟨hapart, ⟨a, ha, hlo⟩, b, hb, hhi⟩, hs, ht⟩
    exact ⟨fun c hc => (hapart c hc).imp (·.trans hs) ht.trans, ⟨a, ha, hlo.trans hs⟩,
      b, hb, ht.trans hhi⟩
  · exact fun hgap => ⟨page, page + n, hpage, Nat.dvd_add hpage hn, hgap, le_rfl, le_rfl⟩

theorem BestFit.congr (hl : ∀ p, cand p → (FitsAt l n p ↔ FitsAt l' n p))
    (h : BestFit l' n cand le page) : BestFit l n cand le page := by
  refine ⟨?_, fun hne => ?_⟩
  · rw [h.eq_zero_iff]
    exact forall₂_congr fun p hp => not_congr (hl p hp).symm
  · obtain ⟨hcand, hfits, hbest⟩ := h.best hne
    exact ⟨hcand, (hl page hcand).2 hfits, fun p hp hfit => hbest p hp ((hl p hp).1 hfit)⟩

theorem BestFit.of_fits (hpage : page ≠ 0) (hcand : cand page) (hfits : FitsAt l n page)
    (hbest : ∀ p, cand p → FitsAt l n p → le page p) : BestFit l n cand le page :=
  ⟨⟨fun hzero => absurd hzero hpage, fun hno => absurd hfits (hno page hcand)⟩,
    fun _ => ⟨hcand, hfits, hbest⟩⟩

theorem BestFit.of_none (hno : ∀ p, ¬ FitsAt l n p) : BestFit l n cand le 0 :=
  ⟨⟨fun _ p _ => hno p, fun _ => rfl⟩, fun hne => absurd rfl hne⟩

theorem not_fitsAt_singleton (ha : 0 < a.npages) : ¬ FitsAt [a] n page := by
  rintro ⟨s, t, -, -, hgap, hs, ht⟩
  exact Extent.not_gap_singleton (Nat.lt_add_of_pos_right ha) (by omega) hgap

/-! ## One gap -/

def gapStart (ent : NaClVmmapEntry) : ℕ :=
  naclRoundPageNumUpToMapMultiple (uadd ent.pageNum ent.npages)

def gapEnd (ent : NaClVmmapEntry) : ℕ := naclTruncPageNumDownToMapMultiple ent.pageNum

theorem dvd_gapStart (ent : NaClVmmapEntry) : naclPagesPerMap ∣ gapStart ent := dvd_alignUp 4 _

theorem dvd_gapEnd (ent : NaClVmmapEntry) : naclPagesPerMap ∣ gapEnd ent := dvd_alignDown 4 _

theorem gapEnd_le (ent : NaClVmmapEntry) : gapEnd ent ≤ ent.pageNum := alignDown_le 4 _

theorem gapStart_eq (ha : a.pageNum + a.npages ≤ maxPage) :
    gapStart a = alignUp 4 (a.pageNum + a.npages) := by
  rw [gapStart, uadd_eq (ha.trans_lt (by decide))]
  rfl

theorem gapStart_le_iff (ha : a.pageNum + a.npages ≤ maxPage) {s : ℕ} (hs : naclPagesPerMap ∣ s) :
    gapStart a ≤ s ↔ a.pageNum + a.npages ≤ s := by
  unfold maxPage at ha
  rw [gapStart_eq ha]
  exact alignUp_le_iff (k := 4) hs (by omega)

theorem le_gapStart (ha : a.pageNum + a.npages ≤ maxPage) : a.pageNum + a.npages ≤ gapStart a :=
  (gapStart_le_iff ha (dvd_gapStart a)).1 le_rfl

theorem le_gapEnd_iff {t : ℕ} (ht : naclPagesPerMap ∣ t) : t ≤ gapEnd b ↔ t ≤ b.pageNum :=
  le_alignDown_iff ht

theorem fitsAt_append_iff (hwf : WellFormedEntries (l ++ l')) (ha : a ∈ l) (hb : b ∈ l')
    (hla : ∀ c ∈ l, c.pageNum + c.npages ≤ a.pageNum + a.npages)
    (hlb : ∀ c ∈ l', b.pageNum ≤ c.pageNum) (hab : a.pageNum + a.npages ≤ b.pageNum) :
    FitsAt (l ++ l') n page ↔
      FitsAt l n page ∨ (gapStart a ≤ page ∧ page + n ≤ gapEnd b) ∨ FitsAt l' n page := by
  have hmax := hwf.le_maxPage a (List.mem_append_left _ ha)
  have hgap : ∀ s t, s ≤ t → (vmentryExtent.Gap (l ++ l') s t ↔ vmentryExtent.Gap l s t ∨
      (a.pageNum + a.npages ≤ s ∧ t ≤ b.pageNum) ∨ vmentryExtent.Gap l' s t) := fun s t =>
    Extent.gap_append_iff hwf.tiles.lt ha hb hla hlb hab
  constructor
  · rintro ⟨s, t, hs, ht, hfree, hle, hge⟩
    rcases (hgap s t (by omega)).1 hfree with hfree | ⟨hsa, htb⟩ | hfree
    · exact Or.inl ⟨s, t, hs, ht, hfree, hle, hge⟩
    · exact Or.inr (Or.inl ⟨((gapStart_le_iff hmax hs).2 hsa).trans hle,
        hge.trans ((le_gapEnd_iff ht).2 htb)⟩)
    · exact Or.inr (Or.inr ⟨s, t, hs, ht, hfree, hle, hge⟩)
  · rintro (⟨s, t, hs, ht, hfree, hle, hge⟩ | ⟨hle, hge⟩ | ⟨s, t, hs, ht, hfree, hle, hge⟩)
    · exact ⟨s, t, hs, ht, (hgap s t (by omega)).2 (Or.inl hfree), hle, hge⟩
    · exact ⟨gapStart a, gapEnd b, dvd_gapStart a, dvd_gapEnd b,
        (hgap _ _ (by omega)).2 (Or.inr (Or.inl ⟨le_gapStart hmax, gapEnd_le b⟩)), hle, hge⟩
    · exact ⟨s, t, hs, ht, (hgap s t (by omega)).2 (Or.inr (Or.inr hfree)), hle, hge⟩

theorem FitsAt.le_of_forall_le (h : FitsAt l n page) {e : ℕ} (he : ∀ c ∈ l, c.pageNum ≤ e) :
    page + n ≤ e := by
  obtain ⟨s, t, -, -, ⟨-, -, c, hc, hle⟩, -, hpage⟩ := h
  exact hpage.trans (hle.trans (he c hc))

theorem FitsAt.le_of_forall_ge (h : FitsAt l n page) {e : ℕ}
    (he : ∀ c ∈ l, e ≤ c.pageNum + c.npages) : e ≤ page := by
  obtain ⟨s, t, -, -, ⟨-, ⟨c, hc, hle⟩, -⟩, hpage, -⟩ := h
  exact (he c hc).trans (hle.trans hpage)

theorem not_fitsAt_nil : ¬ FitsAt [] n page := by
  rintro ⟨s, t, -, -, ⟨-, ⟨a, ha, -⟩, -⟩, -⟩
  cases ha

theorem gapStart_ne_zero (ha : a.pageNum + a.npages ≤ maxPage)
    (hpos : a.pageNum < a.pageNum + a.npages) : gapStart a ≠ 0 :=
  (Nat.zero_le _).trans_lt (hpos.trans_le (le_gapStart ha)) |>.ne'

theorem gapEnd_lt (hb : b.pageNum < 2 ^ 31) : gapEnd b < 2 ^ 64 :=
  (gapEnd_le b).trans_lt (hb.trans (by decide))

/-! ## The search from the top -/

theorem fitsAt_highest_iff (hl : WellFormedEntries (b :: a :: l))
    (hord : (b :: a :: l).Pairwise fun b a => a.pageNum + a.npages ≤ b.pageNum) :
    FitsAt (b :: a :: l) n page ↔
      (gapStart a ≤ page ∧ page + n ≤ gapEnd b) ∨ FitsAt (a :: l) n page := by
  obtain ⟨hhead, htail⟩ := List.pairwise_cons.1 hord
  obtain ⟨hbelow, -⟩ := List.pairwise_cons.1 htail
  have hperm : (b :: a :: l).Perm ((a :: l) ++ [b]) := (List.perm_append_singleton b (a :: l)).symm
  have hhighest : ∀ c ∈ a :: l, c.pageNum + c.npages ≤ a.pageNum + a.npages := fun c hc =>
    (List.mem_cons.1 hc).elim (fun h => h ▸ le_rfl) fun h =>
      (hbelow c h).trans (Nat.le_add_right _ _)
  have hsplit : FitsAt ((a :: l) ++ [b]) n page ↔ FitsAt (a :: l) n page ∨
      (gapStart a ≤ page ∧ page + n ≤ gapEnd b) ∨ FitsAt [b] n page :=
    fitsAt_append_iff (hl.perm hperm) List.mem_cons_self (List.mem_singleton_self b) hhighest
      (by simp) (hhead a List.mem_cons_self)
  rw [FitsAt.congr fun ent => hperm.mem_iff, hsplit, or_comm, or_assoc,
    or_iff_right (not_fitsAt_singleton (by simpa using hl.head.1))]

theorem naclVmmapFindMapSpaceLoop_bestFit (hpos : 0 < n) (hn : naclPagesPerMap ∣ n)
    (hl : WellFormedEntries l) (hord : l.Pairwise fun b a => a.pageNum + a.npages ≤ b.pageNum) :
    BestFit l n (naclPagesPerMap ∣ ·) (· ≥ ·) (naclVmmapFindMapSpaceLoop n l) := by
  induction l with
  | nil => exact .of_none fun p => not_fitsAt_nil
  | cons ent rest ih =>
    cases rest with
    | nil =>
      rw [naclVmmapFindMapSpaceLoop]
      · exact .of_none fun p => not_fitsAt_singleton (by simpa using hl.head.1)
      · rintro _ _ _ ⟨⟩
    | cons vmep rest =>
      obtain ⟨hhead, htail⟩ := List.pairwise_cons.1 hord
      obtain ⟨hbelow, -⟩ := List.pairwise_cons.1 htail
      have hrest := ih hl.of_cons htail
      obtain ⟨hvpos, hvmax, -⟩ := hl.of_cons.head
      have hend := gapEnd_lt (hl.pageNum_lt List.mem_cons_self)
      have hiff := fun p => @fitsAt_highest_iff rest n p vmep ent hl hord
      have hloop : naclVmmapFindMapSpaceLoop n (ent :: vmep :: rest) =
          if gapEnd ent ≤ gapStart vmep then naclVmmapFindMapSpaceLoop n (vmep :: rest)
          else if n ≤ usub (gapEnd ent) (gapStart vmep) then usub (gapEnd ent) n
          else naclVmmapFindMapSpaceLoop n (vmep :: rest) := rfl
      have hnone : ¬ n ≤ gapEnd ent - gapStart vmep →
          BestFit (ent :: vmep :: rest) n (naclPagesPerMap ∣ ·) (· ≥ ·)
            (naclVmmapFindMapSpaceLoop n (vmep :: rest)) := fun hsmall =>
        hrest.congr fun p _ => by
          rw [hiff, or_iff_right]
          omega
      rw [hloop]
      split_ifs with hempty hroom
      · exact hnone (by omega)
      · rw [usub_eq (by omega) hend] at hroom ⊢
        have hstart := gapStart_ne_zero hvmax hvpos
        refine .of_fits (by omega) (Nat.dvd_sub (dvd_gapEnd ent) hn)
          ((hiff _).2 (Or.inl ⟨by omega, by omega⟩)) fun p _ hfits => ?_
        rcases (hiff p).1 hfits with hgap | hlower
        · exact Nat.le_sub_of_add_le hgap.2
        · have hp := hlower.le_of_forall_le (e := vmep.pageNum) fun c hc =>
            (List.mem_cons.1 hc).elim (fun h => h ▸ le_rfl) fun h =>
              (Nat.le_add_right _ _).trans (hbelow c h)
          have := le_gapStart hvmax
          show p ≤ gapEnd ent - n
          omega
      · rw [usub_eq (by omega) hend] at hroom
        exact hnone hroom

/-! ## The search above the hint -/

theorem fitsAt_lowest_iff (hl : WellFormedEntries (a :: b :: l))
    (hord : (a :: b :: l).Pairwise fun a b => a.pageNum + a.npages ≤ b.pageNum) :
    FitsAt (a :: b :: l) n page ↔
      (gapStart a ≤ page ∧ page + n ≤ gapEnd b) ∨ FitsAt (b :: l) n page := by
  obtain ⟨hhead, htail⟩ := List.pairwise_cons.1 hord
  obtain ⟨habove, -⟩ := List.pairwise_cons.1 htail
  have hlowest : ∀ c ∈ b :: l, b.pageNum ≤ c.pageNum := fun c hc =>
    (List.mem_cons.1 hc).elim (fun h => h ▸ le_rfl) fun h =>
      (Nat.le_add_right _ _).trans (habove c h)
  have hsplit : FitsAt ([a] ++ b :: l) n page ↔ FitsAt [a] n page ∨
      (gapStart a ≤ page ∧ page + n ≤ gapEnd b) ∨ FitsAt (b :: l) n page :=
    fitsAt_append_iff hl (List.mem_singleton_self a) List.mem_cons_self (by simp) hlowest
      (hhead b List.mem_cons_self)
  rwa [List.singleton_append,
    or_iff_right (not_fitsAt_singleton (by simpa using hl.head.1))] at hsplit

def AboveHint (usrPage page : ℕ) : Prop :=
  usrPage ≤ page ∧ (naclPagesPerMap ∣ page ∨ page = usrPage)

/-- Where the search starts in the gap between two entries: at the hint when it lies inside. -/
def hintedStart (usrPage : ℕ) (vmep ent : NaClVmmapEntry) : ℕ :=
  if gapStart vmep ≤ usrPage ∧ usrPage < gapEnd ent then usrPage else gapStart vmep

theorem hintedStart_cases (usrPage : ℕ) (vmep ent : NaClVmmapEntry) :
    hintedStart usrPage vmep ent = usrPage ∧ gapStart vmep ≤ usrPage ∧ usrPage < gapEnd ent ∨
      hintedStart usrPage vmep ent = gapStart vmep ∧
        ¬ (gapStart vmep ≤ usrPage ∧ usrPage < gapEnd ent) := by
  unfold hintedStart
  split_ifs with hin
  · exact Or.inl ⟨rfl, hin⟩
  · exact Or.inr ⟨rfl, hin⟩

theorem naclVmmapFindMapSpaceAboveHintLoop_bestFit (usrPage : ℕ) (hpos : 0 < n)
    (hl : WellFormedEntries l) (hord : l.Pairwise fun a b => a.pageNum + a.npages ≤ b.pageNum) :
    BestFit l n (AboveHint usrPage) (· ≤ ·) (naclVmmapFindMapSpaceAboveHintLoop usrPage n l) := by
  induction l with
  | nil => exact .of_none fun p => not_fitsAt_nil
  | cons vmep rest ih =>
    cases rest with
    | nil =>
      rw [naclVmmapFindMapSpaceAboveHintLoop]
      · exact .of_none fun p => not_fitsAt_singleton (by simpa using hl.head.1)
      · rintro _ _ _ ⟨⟩
    | cons ent rest =>
      obtain ⟨hhead, htail⟩ := List.pairwise_cons.1 hord
      obtain ⟨habove, -⟩ := List.pairwise_cons.1 htail
      have hrest := ih hl.of_cons htail
      obtain ⟨hvpos, hvmax, -⟩ := hl.head
      have hend := gapEnd_lt (hl.of_cons.pageNum_lt List.mem_cons_self)
      have hiff := fun p => @fitsAt_lowest_iff rest n p vmep ent hl hord
      have hloop : naclVmmapFindMapSpaceAboveHintLoop usrPage n (vmep :: ent :: rest) =
          if gapEnd ent ≤ gapStart vmep then
            naclVmmapFindMapSpaceAboveHintLoop usrPage n (ent :: rest)
          else
            let endPage := hintedStart usrPage vmep ent
            if usrPage ≤ endPage ∧ n ≤ usub (gapEnd ent) endPage then endPage
            else naclVmmapFindMapSpaceAboveHintLoop usrPage n (ent :: rest) := rfl
      have hnone : (∀ p, usrPage ≤ p → gapStart vmep ≤ p → ¬ p + n ≤ gapEnd ent) →
          BestFit (vmep :: ent :: rest) n (AboveHint usrPage) (· ≤ ·)
            (naclVmmapFindMapSpaceAboveHintLoop usrPage n (ent :: rest)) := fun hsmall =>
        hrest.congr fun p hp => by
          rw [hiff, or_iff_right]
          exact fun hgap => hsmall p hp.1 hgap.1 hgap.2
      rw [hloop]
      by_cases hempty : gapEnd ent ≤ gapStart vmep
      · rw [if_pos hempty]
        exact hnone fun p _ hge => by omega
      · have hcases := hintedStart_cases usrPage vmep ent
        have hzero := gapStart_ne_zero hvmax hvpos
        rw [if_neg hempty]
        dsimp only
        rw [usub_eq (by omega) hend]
        split_ifs with hroom
        · refine .of_fits (by omega) ⟨hroom.1, ?_⟩ ((hiff _).2 (Or.inl ⟨by omega, by omega⟩))
            fun p hp hfits => ?_
          · rcases hcases with ⟨heq, -⟩ | ⟨heq, -⟩
            · exact Or.inr heq
            · exact Or.inl (heq ▸ dvd_gapStart vmep)
          · rcases (hiff p).1 hfits with hgap | hupper
            · obtain ⟨hp, -⟩ := hp
              omega
            · have hp := hupper.le_of_forall_ge (e := ent.pageNum) fun c hc =>
                (List.mem_cons.1 hc).elim (fun h => h ▸ Nat.le_add_right _ _) fun h =>
                  (Nat.le_add_right _ _).trans ((habove c h).trans (Nat.le_add_right _ _))
              have := gapEnd_le ent
              omega
        · exact hnone fun p hp hge => by omega

/-! ## The searches -/

/-- The number of pages rounded up to a multiple of the allocation size. -/
def roundedPages (numPages : ℕ) : ℕ := (numPages + (naclPagesPerMap - 1)) / naclPagesPerMap *
  naclPagesPerMap

theorem naclRoundPageNumUpToMapMultiple_eq {numPages : ℕ} (h : numPages + 15 < 2 ^ 64) :
    naclRoundPageNumUpToMapMultiple numPages = roundedPages numPages := by
  have hadd : uadd numPages (naclPagesPerMap - 1) = numPages + (naclPagesPerMap - 1) := uadd_eq h
  rw [naclRoundPageNumUpToMapMultiple, roundedPages, hadd]

theorem roundedPages_pos {numPages : ℕ} (h : 0 < numPages) : 0 < roundedPages numPages := by
  have hsize : naclPagesPerMap = 16 := rfl
  rw [roundedPages, hsize]
  omega

end

section

variable {self : NaClVmmap} {numPages : ℕ}

/-- The search from the top returns the highest aligned page at which the pages fit, or 0. -/
def FindsHighest (self : NaClVmmap) (numPages : ℕ) : Prop :=
  ∃ map page, naclVmmapFindMapSpace self numPages = .ok (map, page) ∧ self.Reordered map ∧
    BestFit self.vmentry (roundedPages numPages) (naclPagesPerMap ∣ ·) (· ≥ ·) page

/-- The search above the hint returns the lowest page of `cand` at which the pages fit, or 0. -/
def FindsLowest (self : NaClVmmap) (uaddr numPages : ℕ) (cand : ℕ → Prop) : Prop :=
  ∃ map page, naclVmmapFindMapSpaceAboveHint self uaddr numPages = .ok (map, page) ∧
    self.Reordered map ∧ BestFit self.vmentry (roundedPages numPages) cand (· ≤ ·) page

theorem naclVmmapFindMapSpace_finds (h : self.WellFormed) (hpos : 0 < numPages)
    (hn : numPages + 15 < 2 ^ 64) : FindsHighest self numPages := by
  by_cases hnil : self.vmentry = []
  · refine ⟨self, 0, by simp [naclVmmapFindMapSpace, hnil]; rfl, .refl h, ?_⟩
    rw [hnil]
    exact .of_none fun p => not_fitsAt_nil
  · obtain ⟨map, hsort, hmap, hord⟩ := h.makeSorted_reordered
    have hfind : naclVmmapFindMapSpace self numPages = .ok (map, naclVmmapFindMapSpaceLoop
        (naclRoundPageNumUpToMapMultiple numPages) map.vmentry.reverse) := by
      rw [naclVmmapFindMapSpace, if_neg (by rwa [List.length_eq_zero_iff]), hsort]
      rfl
    have hperm := map.vmentry.reverse_perm
    rw [naclRoundPageNumUpToMapMultiple_eq hn] at hfind
    refine ⟨map, _, hfind, hmap, ?_⟩
    apply BestFit.congr fun p _ => FitsAt.congr fun ent => (hperm.trans hmap.perm).mem_iff.symm
    exact naclVmmapFindMapSpaceLoop_bestFit (roundedPages_pos hpos) (Nat.dvd_mul_left _ _)
      (hmap.wellFormed.entries.perm hperm.symm) (List.pairwise_reverse.2 hord)

theorem naclVmmapFindMapSpaceAboveHint_finds (h : self.WellFormed) (uaddr : ℕ)
    (hpos : 0 < numPages) (hn : numPages + 15 < 2 ^ 64) :
    FindsLowest self uaddr numPages (AboveHint (uaddr / 2 ^ naclPageShift)) := by
  obtain ⟨map, hsort, hmap, hord⟩ := h.makeSorted_reordered
  have hfind : naclVmmapFindMapSpaceAboveHint self uaddr numPages = .ok (map,
      naclVmmapFindMapSpaceAboveHintLoop (uaddr / 2 ^ naclPageShift)
        (naclRoundPageNumUpToMapMultiple numPages) map.vmentry) := by
    rw [naclVmmapFindMapSpaceAboveHint, hsort]
    rfl
  rw [naclRoundPageNumUpToMapMultiple_eq hn] at hfind
  refine ⟨map, _, hfind, hmap, ?_⟩
  apply BestFit.congr fun p _ => FitsAt.congr fun ent => hmap.perm.mem_iff.symm
  exact naclVmmapFindMapSpaceAboveHintLoop_bestFit _ (roundedPages_pos hpos)
    hmap.wellFormed.entries hord

/-- Both searches find the best gap.  The search above the hint may return the page of the hint
itself, which is aligned when the hint is. -/
theorem gapSearches_find (h : self.WellFormed) (hpos : 0 < numPages)
    (hn : numPages + 15 < 2 ^ 64) :
    FindsHighest self numPages ∧
      ∀ uaddr, FindsLowest self uaddr numPages (AboveHint (uaddr / 2 ^ naclPageShift)) :=
  ⟨naclVmmapFindMapSpace_finds h hpos hn, fun uaddr =>
    naclVmmapFindMapSpaceAboveHint_finds h uaddr hpos hn⟩

end

/-- Two entries of sixteen pages, the second from `page` on. -/
def twoEntryMap (page : ℕ) : NaClVmmap :=
  naclVmmapAdd (naclVmmapAdd naclVmmapCtor 16 16 (protRead ||| protWrite) mapPrivate none 0 0)
    page 16 (protRead ||| protWrite) mapPrivate none 0 0

theorem twoEntryMap_wellFormed {page : ℕ} (h : 32 ≤ page) (hmax : page + 16 ≤ maxPage) :
    (twoEntryMap page).WellFormed := by
  have hentries : WellFormedEntries (twoEntryMap page).vmentry := by
    refine .append (l := [_]) (wellFormedEntries_singleton (by decide) (by decide) rfl)
      (wellFormedEntries_singleton (Nat.succ_pos 15) hmax rfl) ⟨?_, ?_⟩
    · simp [naclVmmapEntryMake]
    · simp [Extent.Apart, naclVmmapEntryMake, h]
  refine ⟨hentries, fun hsorted => ?_, ?_, ?_⟩
  · cases hsorted
  · simp [twoEntryMap, naclVmmapAdd, naclVmmapPush, naclVmmapCtor, startEntries]
  · simp [twoEntryMap, naclVmmapAdd, naclVmmapPush, naclVmmapCtor, startEntries]

theorem gapSearches_find_threePages : FindsHighest (twoEntryMap 64) 3 ∧
    ∀ uaddr, FindsLowest (twoEntryMap 64) uaddr 3 (AboveHint (uaddr / 2 ^ naclPageShift)) :=
  gapSearches_find (twoEntryMap_wellFormed (by decide) (by decide)) (by decide) (by decide)

/-- A hint that is a page but not aligned is returned as it is, no gap is found for no pages
between neighbours, and a length whose rounding wraps is found to fit. -/
theorem not_gapSearches_find :
    ¬ FindsLowest (twoEntryMap 64) 0x21000 1 (fun p => 0x21 ≤ p ∧ naclPagesPerMap ∣ p) ∧
      ¬ FindsHighest (twoEntryMap 32) 0 ∧ ¬ FindsHighest (twoEntryMap 64) (2 ^ 64 - 1) := by
  refine ⟨?_, ?_, ?_⟩
  · have hfind : (naclVmmapFindMapSpaceAboveHint (twoEntryMap 64) 0x21000 1).map (·.2) = .ok 33 := by
      decide
    rintro ⟨map, page, hok, -, hbest⟩
    rw [hok] at hfind
    obtain rfl : page = 33 := Except.ok.inj hfind
    exact absurd (hbest.best (by decide)).1.2 (by decide)
  · have hfind : (naclVmmapFindMapSpace (twoEntryMap 32) 0).map (·.2) = .ok 0 := by decide
    rintro ⟨map, page, hok, -, hbest⟩
    rw [hok] at hfind
    obtain rfl : page = 0 := Except.ok.inj hfind
    have hgap : vmentryExtent.Gap (twoEntryMap 32).vmentry 32 (32 + roundedPages 0) :=
      ⟨by decide, by decide, by decide⟩
    exact hbest.eq_zero_iff.1 rfl 32 (by decide) ((fitsAt_iff (by decide) (by decide)).2 hgap)
  · have hfind : (naclVmmapFindMapSpace (twoEntryMap 64) (2 ^ 64 - 1)).map (·.2) = .ok 64 := by
      decide
    rintro ⟨map, page, hok, -, hbest⟩
    rw [hok] at hfind
    obtain rfl : page = 64 := Except.ok.inj hfind
    have hfits := (hbest.best (by decide)).2.1.le_of_forall_le (e := 64) (by
      simp [twoEntryMap, naclVmmapAdd, naclVmmapPush, naclVmmapCtor, naclVmmapEntryMake])
    exact absurd hfits (by decide)

end SandboxingNaCl
