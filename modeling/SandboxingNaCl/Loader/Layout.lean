import SandboxingNaCl.Lib.Runs
import SandboxingNaCl.Loader.ElfUtil

/-!
# The layout of an image

What the checks of the program headers and of the layout establish, in exact integers.  The ends of
segments are computed in 32 bits, and only the part of the text that is in the file is compared with
the segments behind it.
-/

namespace SandboxingNaCl

open MachineInt Runs

/-- A program header in exact integers. -/
structure ElfSegment where
  type : ℕ
  flags : ℕ
  offset : ℕ
  vaddr : ℕ
  filesz : ℕ
  memsz : ℕ

namespace ElfSegment

def stop (s : ElfSegment) : ℕ := s.vaddr + s.memsz

/-- It occupies memory and is what the row describes. -/
def Is (check : NaClPhdrChecks) (s : ElfSegment) : Prop :=
  s.memsz ≠ 0 ∧ s.type = check.pType.toNat ∧ s.flags = check.pFlags.toNat

instance (check : NaClPhdrChecks) (s : ElfSegment) : Decidable (s.Is check) :=
  inferInstanceAs (Decidable (_ ∧ _ ∧ _))

def Apart (s s' : ElfSegment) : Prop :=
  naclRoundAllocPage s.stop ≤ naclTruncAllocPage s'.vaddr ∨
    naclRoundAllocPage s'.stop ≤ naclTruncAllocPage s.vaddr

def find (check : NaClPhdrChecks) (segments : List ElfSegment) : Option ElfSegment :=
  segments.find? (·.Is check)

end ElfSegment

def ElfPhdr.segment (php : ElfPhdr) : ElfSegment :=
  ⟨php.pType.toNat, php.pFlags.toNat, php.pOffset.toNat, php.pVaddr.toNat, php.pFilesz.toNat,
    php.pMemsz.toNat⟩

def Elf64Phdr.segment (php : Elf64Phdr) : ElfSegment :=
  ⟨php.pType.toNat, php.pFlags.toNat, php.pOffset.toNat, php.pVaddr.toNat, php.pFilesz.toNat,
    php.pMemsz.toNat⟩

def ElfFile.segments : ElfFile → List ElfSegment
  | .class32 _ phdrs => phdrs.map ElfPhdr.segment
  | .class64 _ phdrs => phdrs.map Elf64Phdr.segment

def loadChecks : List NaClPhdrChecks := [textCheck, rodataCheck, dataCheck]

/-- The segments of an accepted image are where its layout says, in order, apart and in the address
space. -/
structure LayoutSound (segments : List ElfSegment) (addrBits : ℕ) (layout : AppLayout) : Prop where
  text : ∃ text, ElfSegment.find textCheck segments = some text ∧
    naclTrampolineEnd ≤ text.vaddr ∧ layout.staticTextEnd = text.vaddr + text.filesz
  rodata : match ElfSegment.find rodataCheck segments with
    | some rodata => layout.rodataStart = rodata.vaddr ∧ layout.rodataEnd = rodata.stop
    | none => layout.rodataStart = 0 ∧ layout.rodataEnd = 0
  data : match ElfSegment.find dataCheck segments with
    | some data => layout.dataStart = data.vaddr ∧ layout.dataEnd = data.stop
    | none => layout.dataStart = 0
  sorted : ([naclTrampolineEnd, layout.staticTextEnd] ++
    (if layout.rodataStart = 0 then [] else [layout.rodataStart, layout.rodataEnd]) ++
    (if layout.dataStart = 0 then [] else [layout.dataStart]) ++
    [layout.dataEnd, 2 ^ addrBits]).Pairwise (· ≤ ·)
  breakAddr : layout.dataEnd = layout.breakAddr
  disjoint : segments.Pairwise fun s s' => (∃ check ∈ loadChecks, s.Is check) →
    (∃ check ∈ loadChecks, s'.Is check) → s.Apart s'
  filesz_le : ∀ s ∈ segments, (∃ check ∈ loadChecks, s.Is check) → s.filesz ≤ s.memsz

/-! ## The checks of the program headers -/

/-- A segment that is loaded has passed its checks. -/
structure ElfSegment.Placed (s : ElfSegment) (addrBits : ℕ) (check : NaClPhdrChecks) : Prop where
  vaddr_eq : check.pVaddr ≠ 0 → check.pVaddr = s.vaddr
  le_vaddr : naclTrampolineEnd ≤ s.vaddr
  stop_le : s.stop ≤ 2 ^ addrBits
  filesz_le : s.filesz ≤ s.memsz

/-- The ends that `max_vaddr` is the greatest of. -/
def ElfSegment.Loaded (s : ElfSegment) : Prop :=
  ∃ check ∈ naclPhdrCheckData, check.action ≠ .ignore ∧ s.Is check

/-- What the loop over the program headers knows of the segments it has passed. -/
structure InfoSpec (segments : List ElfSegment) (info : NaClElfImageInfo) : Prop where
  text : info.staticTextEnd = (ElfSegment.find textCheck segments).elim 0
    fun s => (naclTrampolineEnd + s.filesz) % 2 ^ 32
  rodataStart : info.rodataStart = (ElfSegment.find rodataCheck segments).elim 0 (·.vaddr)
  rodataEnd : info.rodataEnd = (ElfSegment.find rodataCheck segments).elim 0 (·.stop % 2 ^ 32)
  dataStart : info.dataStart = (ElfSegment.find dataCheck segments).elim 0 (·.vaddr)
  dataEnd : info.dataEnd = (ElfSegment.find dataCheck segments).elim 0 (·.stop % 2 ^ 32)
  le_max : naclTrampolineEnd ≤ info.maxVaddr ∧
    ∀ s ∈ segments, s.Loaded → s.stop % 2 ^ 32 ≤ info.maxVaddr
  max_eq : info.maxVaddr = naclTrampolineEnd ∨
    ∃ s ∈ segments, s.Loaded ∧ info.maxVaddr = s.stop % 2 ^ 32

section Scan

variable {addrBits : ℕ} {segments : List ElfSegment} {scan scan' : PhdrScan} {s : ElfSegment}
  {check check' : NaClPhdrChecks}

theorem ElfSegment.Is.eq (h : s.Is check) (h' : s.Is check') (hmem : check ∈ naclPhdrCheckData)
    (hmem' : check' ∈ naclPhdrCheckData) : check = check' := by
  have hrows : ∀ c ∈ naclPhdrCheckData, ∀ c' ∈ naclPhdrCheckData, c.pType = c'.pType →
      c.pFlags = c'.pFlags → c = c' := by decide
  refine hrows check hmem check' hmem' ?_ ?_ <;> apply BitVec.eq_of_toNat_eq
  · rw [← h.2.1, h'.2.1]
  · rw [← h.2.2, h'.2.2]

theorem ElfSegment.find_concat (check : NaClPhdrChecks) (segments : List ElfSegment)
    (s : ElfSegment) : find check (segments ++ [s]) =
      (find check segments).or (if s.Is check then some s else none) := by
  unfold find
  rw [List.find?_append, List.find?_singleton]
  simp

theorem ElfSegment.find_concat_of_not (segments : List ElfSegment) (h : ¬ s.Is check) :
    find check (segments ++ [s]) = find check segments := by
  rw [find_concat, if_neg h, Option.or_none]

theorem ElfPhdr.is_of_check {php : ElfPhdr} (h : php.check = some check) (hmem : php.pMemsz ≠ 0) :
    check ∈ naclPhdrCheckData ∧ php.segment.Is check := by
  unfold ElfPhdr.check at h
  have hrow := List.find?_some h
  rw [decide_eq_true_iff] at hrow
  refine ⟨List.mem_of_find?_eq_some h, ?_, congrArg BitVec.toNat hrow.1,
    congrArg BitVec.toNat hrow.2⟩
  exact fun hzero => hmem (BitVec.eq_of_toNat_eq hzero)

theorem ElfPhdr.end32_eq (php : ElfPhdr) : php.end32 = php.segment.stop % 2 ^ 32 :=
  BitVec.toNat_add _ _

/-- The rows seen are those of the segments, each of which has one of its own. -/
structure RowsSeen (addrBits : ℕ) (segments : List ElfSegment) (seen : List NaClPhdrChecks) :
    Prop where
  seen : ∀ check, check ∈ seen ↔ check ∈ naclPhdrCheckData ∧ ∃ s ∈ segments, s.Is check
  unique : segments.Pairwise fun s s' => ∀ check ∈ naclPhdrCheckData, s.Is check → ¬ s'.Is check
  placed : ∀ s ∈ segments, ∀ check ∈ naclPhdrCheckData, check.action ≠ .ignore → s.Is check →
    s.Placed addrBits check

theorem RowsSeen.concat {seen seen' : List NaClPhdrChecks} (h : RowsSeen addrBits segments seen)
    (hseen : ∀ check, check ∈ seen' ↔ check ∈ seen ∨ check ∈ naclPhdrCheckData ∧ s.Is check)
    (hnew : ∀ check ∈ seen, ¬ s.Is check)
    (hplaced : ∀ check ∈ naclPhdrCheckData, check.action ≠ .ignore → s.Is check →
      s.Placed addrBits check) : RowsSeen addrBits (segments ++ [s]) seen' := by
  refine ⟨fun check => ?_, ?_, fun t ht check hmem haction his => ?_⟩
  · rw [hseen, h.seen]
    simp only [List.mem_append, List.mem_singleton]
    constructor
    · rintro (⟨hmem, t, ht, his⟩ | ⟨hmem, his⟩)
      · exact ⟨hmem, t, Or.inl ht, his⟩
      · exact ⟨hmem, s, Or.inr rfl, his⟩
    · rintro ⟨hmem, t, ht | rfl, his⟩
      · exact Or.inl ⟨hmem, t, ht, his⟩
      · exact Or.inr ⟨hmem, his⟩
  · rw [List.pairwise_append]
    refine ⟨h.unique, List.pairwise_singleton _ _, fun t ht t' ht' check hmem his his' => ?_⟩
    rw [List.mem_singleton] at ht'
    exact hnew check ((h.seen check).2 ⟨hmem, t, ht, his⟩) (ht' ▸ his')
  · rcases List.mem_append.1 ht with ht | ht
    · exact h.placed t ht check hmem haction his
    · rw [List.mem_singleton] at ht
      subst ht
      exact hplaced check hmem haction his

theorem InfoSpec.skip {info : NaClElfImageInfo} (h : InfoSpec segments info)
    (hskip : ¬ s.Loaded) : InfoSpec (segments ++ [s]) info := by
  have hno : ∀ check ∈ naclPhdrCheckData, check.action ≠ .ignore → ¬ s.Is check :=
    fun check hmem haction his => hskip ⟨check, hmem, haction, his⟩
  have htext := ElfSegment.find_concat_of_not segments (hno textCheck (by decide) (by decide))
  have hrodata := ElfSegment.find_concat_of_not segments (hno rodataCheck (by decide) (by decide))
  have hdata := ElfSegment.find_concat_of_not segments (hno dataCheck (by decide) (by decide))
  refine ⟨htext ▸ h.text, hrodata ▸ h.rodataStart, hrodata ▸ h.rodataEnd, hdata ▸ h.dataStart,
    hdata ▸ h.dataEnd, ⟨h.le_max.1, fun t ht hload => ?_⟩, h.max_eq.imp_right ?_⟩
  · rcases List.mem_append.1 ht with ht | ht
    · exact h.le_max.2 t ht hload
    · rw [List.mem_singleton] at ht
      exact absurd (ht ▸ hload) hskip
  · rintro ⟨t, ht, hload, heq⟩
    exact ⟨t, List.mem_append_left _ ht, hload, heq⟩

theorem InfoSpec.max_concat {info : NaClElfImageInfo} {m : ℕ} (h : InfoSpec segments info)
    (hload : s.Loaded)
    (hm : m = if info.maxVaddr < s.stop % 2 ^ 32 then s.stop % 2 ^ 32 else info.maxVaddr) :
    (naclTrampolineEnd ≤ m ∧ ∀ t ∈ segments ++ [s], t.Loaded → t.stop % 2 ^ 32 ≤ m) ∧
      (m = naclTrampolineEnd ∨ ∃ t ∈ segments ++ [s], t.Loaded ∧ m = t.stop % 2 ^ 32) := by
  obtain ⟨hle, hall⟩ := h.le_max
  have hmax : info.maxVaddr ≤ m ∧ s.stop % 2 ^ 32 ≤ m := by
    rw [hm]
    split_ifs <;> omega
  refine ⟨⟨hle.trans hmax.1, fun t ht htload => ?_⟩, ?_⟩
  · rcases List.mem_append.1 ht with ht | ht
    · exact (hall t ht htload).trans hmax.1
    · rw [List.mem_singleton] at ht
      exact ht ▸ hmax.2
  · rw [hm]
    split_ifs
    · exact Or.inr ⟨s, List.mem_append_right _ (List.mem_singleton_self s), hload, rfl⟩
    · refine h.max_eq.imp_right ?_
      rintro ⟨t, ht, htload, heq⟩
      exact ⟨t, List.mem_append_left _ ht, htload, heq⟩

theorem ElfSegment.find_concat_self (h : find check segments = none) (his : s.Is check) :
    find check (segments ++ [s]) = some s := by
  rw [find_concat, h, if_pos his, Option.none_or]

theorem InfoSpec.record {info info' : NaClElfImageInfo} {php : ElfPhdr}
    (h : InfoSpec segments info) (hmem : check ∈ naclPhdrCheckData)
    (haction : check.action ≠ .ignore) (his : php.segment.Is check)
    (hnone : ElfSegment.find check segments = none)
    (hrun : recordSegment info check.action php = .ok info') :
    InfoSpec (segments ++ [php.segment]) info' := by
  have hrows : check = textCheck ∨ check = rodataCheck ∨ check = dataCheck ∨
      check = stackCheck := by
    have hall : ∀ c ∈ naclPhdrCheckData, c.action ≠ .ignore →
        c = textCheck ∨ c = rodataCheck ∨ c = dataCheck ∨ c = stackCheck := by decide
    exact hall check hmem haction
  have hload : php.segment.Loaded := ⟨check, hmem, haction, his⟩
  have hmax := fun m => h.max_concat (m := m) hload
  have hkeep : ∀ check' ∈ naclPhdrCheckData, check' ≠ check →
      ElfSegment.find check' (segments ++ [php.segment]) = ElfSegment.find check' segments :=
    fun check' hmem' hne => ElfSegment.find_concat_of_not _ fun his' =>
      hne (his'.eq his hmem' hmem)
  have hself := ElfSegment.find_concat_self hnone his
  unfold recordSegment at hrun
  rw [ElfPhdr.end32_eq] at hrun
  obtain ⟨info₁, hinfo₁⟩ : ∃ info₁, (if info.maxVaddr < php.segment.stop % 2 ^ 32 then
    { info with maxVaddr := php.segment.stop % 2 ^ 32 } else info) = info₁ := ⟨_, rfl⟩
  dsimp only at hrun
  rw [hinfo₁] at hrun
  obtain ⟨hle, heq⟩ := hmax info₁.maxVaddr (by rw [← hinfo₁]; split_ifs <;> rfl)
  have hsame : info₁.staticTextEnd = info.staticTextEnd ∧ info₁.rodataStart = info.rodataStart ∧
      info₁.rodataEnd = info.rodataEnd ∧ info₁.dataStart = info.dataStart ∧
      info₁.dataEnd = info.dataEnd := by
    rw [← hinfo₁]
    split_ifs <;> exact ⟨rfl, rfl, rfl, rfl, rfl⟩
  obtain ⟨htext, hrstart, hrend, hdstart, hdend⟩ := hsame
  rcases hrows with rfl | rfl | rfl | rfl
  · have hrodata := hkeep rodataCheck (by decide) (by decide)
    have hdata := hkeep dataCheck (by decide) (by decide)
    dsimp only [textCheck] at hrun
    split_ifs at hrun
    cases hrun
    refine ⟨?_, ?_, ?_, ?_, ?_, hle, heq⟩
    · rw [hself]
      exact BitVec.toNat_add _ _
    · rw [hrodata]
      exact hrstart.trans h.rodataStart
    · rw [hrodata]
      exact hrend.trans h.rodataEnd
    · rw [hdata]
      exact hdstart.trans h.dataStart
    · rw [hdata]
      exact hdend.trans h.dataEnd
  · have htext' := hkeep textCheck (by decide) (by decide)
    have hdata := hkeep dataCheck (by decide) (by decide)
    cases hrun
    refine ⟨?_, ?_, ?_, ?_, ?_, hle, heq⟩
    · rw [htext']
      exact htext.trans h.text
    · rw [hself]
      rfl
    · rw [hself]
      rfl
    · rw [hdata]
      exact hdstart.trans h.dataStart
    · rw [hdata]
      exact hdend.trans h.dataEnd
  · have htext' := hkeep textCheck (by decide) (by decide)
    have hrodata := hkeep rodataCheck (by decide) (by decide)
    cases hrun
    refine ⟨?_, ?_, ?_, ?_, ?_, hle, heq⟩
    · rw [htext']
      exact htext.trans h.text
    · rw [hrodata]
      exact hrstart.trans h.rodataStart
    · rw [hrodata]
      exact hrend.trans h.rodataEnd
    · rw [hself]
      rfl
    · rw [hself]
      rfl
  · have htext' := hkeep textCheck (by decide) (by decide)
    have hrodata := hkeep rodataCheck (by decide) (by decide)
    have hdata := hkeep dataCheck (by decide) (by decide)
    cases hrun
    refine ⟨?_, ?_, ?_, ?_, ?_, hle, heq⟩
    · rw [htext']
      exact htext.trans h.text
    · rw [hrodata]
      exact hrstart.trans h.rodataStart
    · rw [hrodata]
      exact hrend.trans h.rodataEnd
    · rw [hdata]
      exact hdstart.trans h.dataStart
    · rw [hdata]
      exact hdend.trans h.dataEnd

/-- What the loop knows after the segments it has passed. -/
structure ScanSpec (addrBits : ℕ) (segments : List ElfSegment) (scan : PhdrScan) : Prop where
  rows : RowsSeen addrBits segments scan.seen
  info : InfoSpec segments scan.info

theorem scanSpec_nil : ScanSpec addrBits [] ⟨⟨naclTrampolineEnd, 0, 0, 0, 0, 0⟩, [], []⟩ :=
  ⟨⟨fun check => by simp, .nil, nofun⟩, rfl, rfl, rfl, rfl, rfl, ⟨le_rfl, nofun⟩, Or.inl rfl⟩

theorem scanSpec_validatePhdr {php : ElfPhdr} (h : ScanSpec addrBits segments scan)
    (hrun : validatePhdr addrBits scan php = .ok scan') :
    ScanSpec addrBits (segments ++ [php.segment]) scan' := by
  unfold validatePhdr at hrun
  by_cases hzero : php.pMemsz = 0
  · rw [if_pos hzero] at hrun
    cases hrun
    have hno : ∀ check, ¬ php.segment.Is check := fun check his =>
      his.1 (by rw [ElfPhdr.segment, hzero]; rfl)
    refine ⟨h.rows.concat (fun check => ?_) (fun check _ => hno check)
      fun check _ _ his => absurd his (hno check), h.info.skip ?_⟩
    · exact (or_iff_left fun his => hno check his.2).symm
    · rintro ⟨check, -, -, his⟩
      exact hno check his
  rw [if_neg hzero] at hrun
  split at hrun
  · cases hrun
  · next check hcheck =>
    obtain ⟨hmem, his⟩ := ElfPhdr.is_of_check hcheck hzero
    have honly : ∀ c ∈ naclPhdrCheckData, php.segment.Is c → c = check :=
      fun c hc his' => his'.eq his hc hmem
    have hseen : ∀ c, c ∈ check :: scan.seen ↔
        c ∈ scan.seen ∨ c ∈ naclPhdrCheckData ∧ php.segment.Is c := by
      intro c
      rw [List.mem_cons, or_comm]
      refine or_congr_right ⟨?_, fun hc => honly c hc.1 hc.2⟩
      rintro rfl
      exact ⟨hmem, his⟩
    dsimp only at hrun
    split_ifs at hrun with hdup hignore hloc hlow hspace hfile
    · have hnew : ∀ c ∈ scan.seen, ¬ php.segment.Is c := fun c hc his' =>
        hdup (honly c ((h.rows.seen c).1 hc).1 his' ▸ hc)
      cases hrun
      refine ⟨h.rows.concat hseen hnew fun c hc haction his' => ?_, h.info.skip ?_⟩
      · exact absurd (honly c hc his' ▸ hignore) haction
      · rintro ⟨c, hc, haction, his'⟩
        exact absurd (honly c hc his' ▸ hignore) haction
    · have hnew : ∀ c ∈ scan.seen, ¬ php.segment.Is c := fun c hc his' =>
        hdup (honly c ((h.rows.seen c).1 hc).1 his' ▸ hc)
      have hnone : ElfSegment.find check segments = none := by
        refine List.find?_eq_none.2 fun s hs his' => hdup ((h.rows.seen check).2 ⟨hmem, s, hs, ?_⟩)
        exact of_decide_eq_true his'
      split at hrun
      · cases hrun
      · next info hrecord =>
        cases hrun
        refine ⟨h.rows.concat hseen hnew fun c hc haction his' => ?_,
          h.info.record hmem hignore his hnone hrecord⟩
        rw [honly c hc his']
        have hfile' : php.pFilesz.toNat ≤ php.pMemsz.toNat := not_lt.1 hfile
        rw [not_or, not_le, not_lt] at hspace
        refine ⟨fun hne => ?_, not_lt.1 hlow, ?_, hfile'⟩
        · exact not_not.1 fun hne' => hloc ⟨hne, hne'⟩
        · unfold ElfSegment.stop ElfPhdr.segment
          dsimp only
          omega

theorem segment_convertPhdr {phdr64 : Elf64Phdr} {php : ElfPhdr}
    (h : convertPhdr phdr64 = .ok php) : php.segment = phdr64.segment := by
  unfold convertPhdr at h
  split_ifs at h with hbig
  cases h
  simp only [not_or, gt_iff_lt, BitVec.lt_def, not_lt] at hbig
  have hfit : ∀ x : BitVec 64, x.toNat ≤ (0xffffffff#64).toNat → (x.setWidth 32).toNat = x.toNat := by
    intro x hx
    have hx : x.toNat ≤ 0xffffffff := hx
    rw [BitVec.toNat_setWidth]
    omega
  unfold ElfPhdr.segment Elf64Phdr.segment
  dsimp only
  rw [hfit _ hbig.1, hfit _ hbig.2.1, hfit _ hbig.2.2.2.1, hfit _ hbig.2.2.2.2.1]

theorem segments_naclElfImageNew {file : ElfFile} {image : NaClElfImage}
    (h : naclElfImageNew file = .ok image) :
    image.phdrs.map ElfPhdr.segment = file.segments := by
  cases file with
  | class32 entry phdrs =>
    dsimp only [naclElfImageNew] at h
    split_ifs at h
    cases h
    rfl
  | class64 entry phdrs =>
    dsimp only [naclElfImageNew] at h
    split_ifs at h
    split at h
    · cases h
    · next phdrs32 hmap =>
      cases h
      change phdrs32.map _ = phdrs.map _
      clear * - hmap
      induction phdrs generalizing phdrs32 with
      | nil =>
        cases hmap
        rfl
      | cons p l ih =>
        rw [List.mapM_cons] at hmap
        cases hp : convertPhdr p with
        | error e => rw [hp] at hmap; cases hmap
        | ok q =>
          rw [hp] at hmap
          cases hl : l.mapM convertPhdr with
          | error e => rw [hl] at hmap; cases hmap
          | ok l' =>
            rw [hl] at hmap
            cases hmap
            rw [List.map_cons, List.map_cons, ih l' hl, segment_convertPhdr hp]

theorem ElfSegment.mem_of_find (h : find check segments = some s) : s ∈ segments ∧ s.Is check := by
  unfold find at h
  have his := List.find?_some h
  exact ⟨List.mem_of_find?_eq_some h, of_decide_eq_true his⟩

theorem RowsSeen.find_eq {seen : List NaClPhdrChecks} (h : RowsSeen addrBits segments seen)
    (hmem : check ∈ naclPhdrCheckData) (hs : s ∈ segments) (his : s.Is check) :
    ElfSegment.find check segments = some s := by
  have hunique := h.unique
  clear h
  induction segments with
  | nil => cases hs
  | cons t l ih =>
    rw [List.pairwise_cons] at hunique
    unfold ElfSegment.find
    rcases List.mem_cons.1 hs with rfl | hs
    · exact List.find?_cons_of_pos (decide_eq_true his)
    · rw [List.find?_cons_of_neg]
      · exact ih hs hunique.2
      · rw [decide_eq_true_iff]
        exact fun hist => hunique.1 s hs check hmem hist his

end Scan

/-! ## The layout -/

section Layout

variable {file : ElfFile} {addrBits maxCodeBytes : ℕ} {layout : AppLayout}

/-- What has been checked of the image when its layout is made. -/
structure LayoutChecked (segments : List ElfSegment) (addrBits : ℕ) (info : NaClElfImageInfo) :
    Prop where
  bits_le : addrBits ≤ 32
  rows : ∃ seen, RowsSeen addrBits segments seen ∧ textCheck ∈ seen
  spec : InfoSpec segments info
  pos : 0 < info.staticTextEnd
  sanity : ∀ loadable, naclCheckAddressSpaceLayoutSanity (appLayout info loadable) info.rodataEnd
    info.dataEnd (layoutMaxVaddr info) = .ok ()

theorem layoutChecked_naclAppLoadFileLayout
    (hrun : naclAppLoadFileLayout file addrBits maxCodeBytes = .ok layout) :
    ∃ info loadable, layout = appLayout info loadable ∧
      LayoutChecked file.segments addrBits info := by
  unfold naclAppLoadFileLayout at hrun
  split_ifs at hrun with hbits
  split at hrun
  · cases hrun
  · next image himage =>
    split at hrun
    · cases hrun
    · next info loadable hvalid =>
      split_ifs at hrun with hcode hentry
      split at hrun
      · cases hrun
      · next hsanity =>
        cases hrun
        unfold naclElfImageValidateProgramHeaders at hvalid
        split at hvalid
        · cases hvalid
        · next scan hscan =>
          split_ifs at hvalid with hrequired
          cases hvalid
          have hstep : ∀ (pre : List ElfPhdr) (scan : PhdrScan) (php : ElfPhdr)
              (scan' : PhdrScan), ScanSpec addrBits (pre.map ElfPhdr.segment) scan →
              validatePhdr addrBits scan php = .ok scan' →
              ScanSpec addrBits ((pre ++ [php]).map ElfPhdr.segment) scan' := by
            intro pre scan php scan' h hrun
            rw [List.map_append]
            exact scanSpec_validatePhdr h hrun
          have hnil : ScanSpec addrBits (([] : List ElfPhdr).map ElfPhdr.segment)
              ⟨⟨naclTrampolineEnd, 0, 0, 0, 0, 0⟩, [], []⟩ := scanSpec_nil
          have hspec := invariant_append hstep hnil hscan
          rw [List.nil_append, segments_naclElfImageNew himage] at hspec
          refine ⟨_, _, rfl, not_lt.1 hbits, ⟨scan.seen, hspec.rows, ?_⟩, hspec.info, ?_,
            fun loadable' => hsanity⟩
          · exact not_not.1 fun hnot => hrequired ⟨textCheck, by decide, rfl, hnot⟩
          · rw [not_or, not_le] at hentry
            exact (Nat.zero_le _).trans_lt hentry.2

/-- The ends of the segments do not reach the next segment, or the end of the 32-bit numbers: the pages
of the text, with the part of it that is not in the file, end in front of the next segment, read-only
data with data behind it does not end at `2 ^ 32`, and if there is neither, there is space for the
halt sled, also when the text ends at `2 ^ 32`. -/
def LayoutGuard (segments : List ElfSegment) (addrBits : ℕ) : Prop :=
  match ElfSegment.find textCheck segments, ElfSegment.find rodataCheck segments,
    ElfSegment.find dataCheck segments with
  | some text, some rodata, data =>
    naclRoundAllocPage text.stop ≤ rodata.vaddr ∧ (data ≠ none → rodata.stop ≠ 2 ^ 32)
  | some text, none, some data => naclRoundAllocPage text.stop ≤ naclTruncAllocPage data.vaddr
  | some text, none, none =>
    (text.stop = 2 ^ 32 ∨ text.stop + naclHaltSledSize ≤ 2 ^ addrBits) ∧
    (∀ stack ∈ ElfSegment.find stackCheck segments,
      stack.stop = 2 ^ 32 ∨ stack.stop + naclHaltSledSize ≤ 2 ^ addrBits) ∧
    (text.stop = 2 ^ 32 → text.vaddr + text.filesz ≤ naclRoundAllocPage (naclHaltSledSize +
      (ElfSegment.find stackCheck segments).elim naclTrampolineEnd
        fun s => max naclTrampolineEnd (s.stop % 2 ^ 32)))
  | none, _, _ => False

variable {segments : List ElfSegment} {info : NaClElfImageInfo} {loadable : List Bool}
  {check : NaClPhdrChecks} {s : ElfSegment}

theorem LayoutChecked.placed (h : LayoutChecked segments addrBits info)
    (hfind : ElfSegment.find check segments = some s) (hmem : check ∈ naclPhdrCheckData)
    (haction : check.action ≠ .ignore) : s.Placed addrBits check ∧ s.memsz ≠ 0 := by
  obtain ⟨seen, hrows, -⟩ := h.rows
  obtain ⟨hs, his⟩ := ElfSegment.mem_of_find hfind
  exact ⟨hrows.placed s hs check hmem haction his, his.1⟩

theorem LayoutChecked.text (h : LayoutChecked segments addrBits info) :
    ∃ text, ElfSegment.find textCheck segments = some text ∧ text.vaddr = naclTrampolineEnd ∧
      text.Placed addrBits textCheck := by
  obtain ⟨seen, hrows, hseen⟩ := h.rows
  obtain ⟨hmem, s, hs, his⟩ := (hrows.seen textCheck).1 hseen
  have hplaced := hrows.placed s hs textCheck hmem (by decide) his
  exact ⟨s, hrows.find_eq hmem hs his, (hplaced.vaddr_eq (by decide)).symm, hplaced⟩

theorem LayoutChecked.max_spec (h : LayoutChecked segments addrBits info) :
    (∀ check ∈ [textCheck, rodataCheck, dataCheck, stackCheck], ∀ s,
      ElfSegment.find check segments = some s → s.stop % 2 ^ 32 ≤ info.maxVaddr) ∧
    (info.maxVaddr = naclTrampolineEnd ∨
      ∃ check ∈ [textCheck, rodataCheck, dataCheck, stackCheck], ∃ s,
        ElfSegment.find check segments = some s ∧ info.maxVaddr = s.stop % 2 ^ 32) := by
  have hrows : ∀ c ∈ naclPhdrCheckData, c.action ≠ .ignore →
      c ∈ [textCheck, rodataCheck, dataCheck, stackCheck] := by decide
  have hload : ∀ c ∈ [textCheck, rodataCheck, dataCheck, stackCheck],
      c ∈ naclPhdrCheckData ∧ c.action ≠ .ignore := by decide
  constructor
  · intro check hcheck s hfind
    obtain ⟨hs, his⟩ := ElfSegment.mem_of_find hfind
    exact h.spec.le_max.2 s hs ⟨check, (hload check hcheck).1, (hload check hcheck).2, his⟩
  · obtain ⟨seen, hseen, -⟩ := h.rows
    refine h.spec.max_eq.imp_right ?_
    rintro ⟨s, hs, ⟨check, hmem, haction, his⟩, heq⟩
    exact ⟨check, hrows check hmem haction, s, hseen.find_eq hmem hs his, heq⟩

theorem naclRoundAllocPage_eq {a : ℕ} (h : a ≤ 2 ^ 33) :
    naclRoundAllocPage a = (a + 65535) / 65536 * 65536 := by
  unfold naclRoundAllocPage alignUp alignDown naclMapPageShift
  rw [uadd_eq (by omega), show (2 : ℕ) ^ 16 = 65536 by norm_num]

theorem LayoutChecked.sane (h : LayoutChecked segments addrBits info) :
    (info.dataStart ≠ 0 → info.dataEnd = info.maxVaddr) ∧
    (info.dataStart = 0 → info.rodataStart ≠ 0 →
      naclRoundAllocPage info.rodataEnd = naclRoundAllocPage info.maxVaddr) ∧
    (info.rodataStart ≠ 0 → info.dataStart ≠ 0 →
      info.rodataEnd ≤ naclTruncAllocPage info.dataStart) ∧
    (info.rodataStart ≠ 0 → naclRoundAllocPage info.staticTextEnd ≤ info.rodataStart ∧
      naclRoundAllocPage info.rodataStart = info.rodataStart) ∧
    (info.rodataStart = 0 → info.dataStart ≠ 0 →
      naclRoundAllocPage info.staticTextEnd ≤ naclTruncAllocPage info.dataStart) := by
  have hsane := h.sanity []
  unfold naclCheckAddressSpaceLayoutSanity appLayout at hsane
  dsimp only at hsane
  split_ifs at hsane with h₁ h₂ h₃ h₄ h₅ h₆
  have hdata : info.dataStart ≠ 0 → layoutMaxVaddr info = info.maxVaddr :=
    fun hne => if_neg hne
  have hrodata : info.dataStart = 0 → info.rodataStart ≠ 0 →
      layoutMaxVaddr info = naclRoundAllocPage info.maxVaddr := by
    intro hzero hne
    unfold layoutMaxVaddr
    rw [if_pos hzero, if_neg fun hboth => hne hboth.1]
  refine ⟨fun hne => ?_, fun hzero hne => ?_, fun hr hd => ?_, fun hr => ⟨?_, ?_⟩,
    fun hzero hne => ?_⟩
  · rw [← hdata hne]
    exact not_not.1 fun hne' => h₁ ⟨hne, hne'⟩
  · rw [← hrodata hzero hne]
    exact not_not.1 fun hne' => h₂ ⟨hzero, hne, hne'⟩
  · exact not_lt.1 fun hlt => h₃ ⟨hr, hd, hlt⟩
  · exact not_lt.1 fun hlt => h₄ ⟨hr, hlt⟩
  · exact not_not.1 fun hne => h₆ ⟨hr, hne⟩
  · exact not_lt.1 fun hlt => h₅ ⟨hzero, hne, hlt⟩

theorem ElfSegment.Apart.symm {s s' : ElfSegment} (h : s.Apart s') : s'.Apart s := Or.symm h

theorem LayoutChecked.disjoint_iff (h : LayoutChecked segments addrBits info) :
    (segments.Pairwise fun s s' => (∃ check ∈ loadChecks, s.Is check) →
      (∃ check ∈ loadChecks, s'.Is check) → s.Apart s') ↔
    ∀ check ∈ loadChecks, ∀ check' ∈ loadChecks, check ≠ check' → ∀ s s',
      ElfSegment.find check segments = some s → ElfSegment.find check' segments = some s' →
      s.Apart s' := by
  obtain ⟨seen, hrows, -⟩ := h.rows
  have hload : ∀ c ∈ loadChecks, c ∈ naclPhdrCheckData := by decide
  constructor
  · intro hpair check hcheck check' hcheck' hne s s' hs hs'
    obtain ⟨hmem, his⟩ := ElfSegment.mem_of_find hs
    obtain ⟨hmem', his'⟩ := ElfSegment.mem_of_find hs'
    have hneq : s ≠ s' := by
      rintro rfl
      exact hne (his.eq his' (hload check hcheck) (hload check' hcheck'))
    have hsymm : Std.Symm fun s s' : ElfSegment => (∃ check ∈ loadChecks, s.Is check) →
        (∃ check ∈ loadChecks, s'.Is check) → s.Apart s' :=
      ⟨fun a b hab hb ha => (hab ha hb).symm⟩
    exact hpair.forall hmem hmem' hneq ⟨check, hcheck, his⟩ ⟨check', hcheck', his'⟩
  · intro hall
    refine hrows.unique.imp_of_mem fun {s s'} hs hs' hunique hcheck hcheck' => ?_
    obtain ⟨check, hcheck, his⟩ := hcheck
    obtain ⟨check', hcheck', his'⟩ := hcheck'
    refine hall check hcheck check' hcheck' ?_ s s' (hrows.find_eq (hload check hcheck) hs his)
      (hrows.find_eq (hload check' hcheck') hs' his')
    rintro rfl
    exact hunique check (hload check hcheck) his his'

theorem LayoutChecked.pow_spec (h : LayoutChecked segments addrBits info) :
    2 ^ addrBits ≤ 2 ^ 32 ∧ 65536 ∣ 2 ^ addrBits := by
  obtain ⟨text, hfind, hvaddr, hplaced⟩ := h.text
  refine ⟨Nat.pow_le_pow_right (by decide) h.bits_le, ?_⟩
  have hstop := hplaced.stop_le
  unfold ElfSegment.stop at hstop
  rw [hvaddr] at hstop
  refine Nat.pow_dvd_pow 2 (show 16 ≤ addrBits from ?_)
  by_contra hlt
  have hpow : 2 ^ addrBits ≤ 2 ^ 16 := Nat.pow_le_pow_right (by decide) (by omega)
  have hend : (2 : ℕ) ^ 16 < naclTrampolineEnd := by decide
  omega

theorem LayoutChecked.staticTextEnd_eq (h : LayoutChecked segments addrBits info)
    {text : ElfSegment} (hfind : ElfSegment.find textCheck segments = some text) :
    info.staticTextEnd = naclTrampolineEnd + text.filesz := by
  obtain ⟨text', hfind', hvaddr, hplaced⟩ := h.text
  obtain rfl : text' = text := Option.some.inj (hfind'.symm.trans hfind)
  have hstop := hplaced.stop_le
  have hfilesz := hplaced.filesz_le
  have hpow := h.pow_spec.1
  have hpos := h.pos
  have htext := h.spec.text
  rw [hfind] at htext
  dsimp only [Option.elim_some] at htext
  unfold ElfSegment.stop at hstop
  omega

theorem LayoutChecked.sound_iff (h : LayoutChecked segments addrBits info) :
    LayoutSound segments addrBits (appLayout info loadable) ↔
      (∀ rodata, ElfSegment.find rodataCheck segments = some rodata →
        info.rodataEnd = rodata.stop) ∧
      ([naclTrampolineEnd, info.staticTextEnd] ++
        (if info.rodataStart = 0 then [] else [info.rodataStart, info.rodataEnd]) ++
        (if info.dataStart = 0 then [] else [info.dataStart]) ++
        [layoutMaxVaddr info, 2 ^ addrBits]).Pairwise (· ≤ ·) ∧
      ∀ check ∈ loadChecks, ∀ check' ∈ loadChecks, check ≠ check' → ∀ s s',
        ElfSegment.find check segments = some s → ElfSegment.find check' segments = some s' →
        s.Apart s' := by
  rw [← h.disjoint_iff]
  constructor
  · intro hsound
    refine ⟨fun rodata hr => ?_, hsound.sorted, hsound.disjoint⟩
    have hrodata := hsound.rodata
    rw [hr] at hrodata
    exact hrodata.2
  · rintro ⟨hrodata, hsorted, hdisjoint⟩
    refine ⟨?_, ?_, ?_, hsorted, rfl, hdisjoint, fun s hs hcheck => ?_⟩
    · obtain ⟨text, htext, hvaddr, hplaced⟩ := h.text
      exact ⟨text, htext, hplaced.le_vaddr, hvaddr ▸ h.staticTextEnd_eq htext⟩
    · have hstart := h.spec.rodataStart
      have hend := h.spec.rodataEnd
      cases hr : ElfSegment.find rodataCheck segments with
      | none =>
        rw [hr] at hstart hend
        exact ⟨hstart, hend⟩
      | some rodata =>
        rw [hr] at hstart
        exact ⟨hstart, hrodata rodata hr⟩
    · have hstart := h.spec.dataStart
      have hend := h.spec.dataEnd
      cases hd : ElfSegment.find dataCheck segments with
      | none =>
        rw [hd] at hstart
        exact hstart
      | some data =>
        rw [hd] at hstart hend
        refine ⟨hstart, ?_⟩
        obtain ⟨hplaced, -⟩ := h.placed hd (by decide) (by decide)
        have hlow := hplaced.le_vaddr
        have hstop := hplaced.stop_le
        have hpos : 0 < naclTrampolineEnd := by decide
        have hmax := h.spec.le_max.1
        have hpow := h.pow_spec.1
        dsimp only [Option.elim_some] at hstart hend
        have hne : info.dataStart ≠ 0 := by omega
        have hlast := h.sane.1 hne
        -- an end of `2 ^ 32` would be 0, which is not the last
        change layoutMaxVaddr info = data.stop
        unfold layoutMaxVaddr
        rw [if_neg hne, ← hlast, hend, Nat.mod_eq_of_lt]
        refine lt_of_le_of_ne (hstop.trans hpow) fun heq => ?_
        rw [heq, Nat.mod_self] at hend
        omega
    · obtain ⟨seen, hrows, -⟩ := h.rows
      obtain ⟨check, hmem, his⟩ := hcheck
      have hload : ∀ c ∈ loadChecks, c ∈ naclPhdrCheckData ∧ c.action ≠ .ignore := by decide
      exact (hrows.placed s hs check (hload check hmem).1 (hload check hmem).2 his).filesz_le

theorem apart_iff (segments : List ElfSegment) :
    (∀ check ∈ loadChecks, ∀ check' ∈ loadChecks, check ≠ check' → ∀ s s',
      ElfSegment.find check segments = some s → ElfSegment.find check' segments = some s' →
      s.Apart s') ↔
    (∀ text ∈ ElfSegment.find textCheck segments,
      ∀ rodata ∈ ElfSegment.find rodataCheck segments, text.Apart rodata) ∧
    (∀ text ∈ ElfSegment.find textCheck segments,
      ∀ data ∈ ElfSegment.find dataCheck segments, text.Apart data) ∧
    (∀ rodata ∈ ElfSegment.find rodataCheck segments,
      ∀ data ∈ ElfSegment.find dataCheck segments, rodata.Apart data) := by
  constructor
  · intro hall
    refine ⟨fun a ha b hb => ?_, fun a ha b hb => ?_, fun a ha b hb => ?_⟩
    · exact hall textCheck (by decide) rodataCheck (by decide) (by decide) a b ha hb
    · exact hall textCheck (by decide) dataCheck (by decide) (by decide) a b ha hb
    · exact hall rodataCheck (by decide) dataCheck (by decide) (by decide) a b ha hb
  · rintro ⟨htr, htd, hrd⟩ check hcheck check' hcheck' hne s s' hs hs'
    simp only [loadChecks, List.mem_cons, List.not_mem_nil, or_false] at hcheck hcheck'
    rcases hcheck with rfl | rfl | rfl <;> rcases hcheck' with rfl | rfl | rfl
    · exact absurd rfl hne
    · exact htr s hs s' hs'
    · exact htd s hs s' hs'
    · exact (htr s' hs' s hs).symm
    · exact absurd rfl hne
    · exact hrd s hs s' hs'
    · exact (htd s' hs' s hs).symm
    · exact (hrd s' hs' s hs).symm
    · exact absurd rfl hne

section Shapes

variable {text rodata data : ElfSegment}

theorem LayoutChecked.bounds (h : LayoutChecked segments addrBits info)
    (hfind : ElfSegment.find check segments = some s)
    (hcheck : check ∈ [textCheck, rodataCheck, dataCheck, stackCheck]) :
    131072 ≤ s.vaddr ∧ s.stop = s.vaddr + s.memsz ∧ 0 < s.memsz ∧ s.stop ≤ 2 ^ addrBits ∧
      s.filesz ≤ s.memsz ∧ s.stop % 2 ^ 32 ≤ info.maxVaddr := by
  have hload : ∀ c ∈ [textCheck, rodataCheck, dataCheck, stackCheck],
      c ∈ naclPhdrCheckData ∧ c.action ≠ .ignore := by decide
  obtain ⟨hplaced, hne⟩ := h.placed hfind (hload check hcheck).1 (hload check hcheck).2
  exact ⟨hplaced.le_vaddr, rfl, Nat.pos_of_ne_zero hne, hplaced.stop_le, hplaced.filesz_le,
    h.max_spec.1 check hcheck s hfind⟩

theorem LayoutChecked.vaddr_text (h : LayoutChecked segments addrBits info)
    (ht : ElfSegment.find textCheck segments = some text) : text.vaddr = 131072 := by
  obtain ⟨text', ht', hvaddr, -⟩ := h.text
  rw [← Option.some.inj (ht'.symm.trans ht)]
  exact hvaddr

theorem LayoutChecked.sound_rodata_data (h : LayoutChecked segments addrBits info)
    (ht : ElfSegment.find textCheck segments = some text)
    (hr : ElfSegment.find rodataCheck segments = some rodata)
    (hd : ElfSegment.find dataCheck segments = some data) :
    LayoutSound segments addrBits (appLayout info loadable) ↔
      naclRoundAllocPage text.stop ≤ rodata.vaddr ∧ rodata.stop ≠ 2 ^ 32 := by
  obtain ⟨hpow, hdvd⟩ := h.pow_spec
  have ht₁ := h.vaddr_text ht
  obtain ⟨-, ht₂, ht₃, ht₄, ht₅, ht₆⟩ := h.bounds ht (by decide)
  obtain ⟨hr₁, hr₂, hr₃, hr₄, hr₅, hr₆⟩ := h.bounds hr (by decide)
  obtain ⟨hd₁, hd₂, hd₃, hd₄, hd₅, hd₆⟩ := h.bounds hd (by decide)
  have hrstart : info.rodataStart = rodata.vaddr := by rw [h.spec.rodataStart, hr]; rfl
  have hrend : info.rodataEnd = rodata.stop % 2 ^ 32 := by rw [h.spec.rodataEnd, hr]; rfl
  have hdstart : info.dataStart = data.vaddr := by rw [h.spec.dataStart, hd]; rfl
  have hdend : info.dataEnd = data.stop % 2 ^ 32 := by rw [h.spec.dataEnd, hd]; rfl
  obtain ⟨hlast, -, hover, htr, -⟩ := h.sane
  have hste := h.staticTextEnd_eq ht
  have hmax := h.spec.le_max.1
  have hmaxVaddr : layoutMaxVaddr info = info.maxVaddr := if_neg (by omega)
  have hround : ∀ a, a ≤ 2 ^ 32 → naclRoundAllocPage a = (a + 65535) / 65536 * 65536 :=
    fun a ha => naclRoundAllocPage_eq (by omega)
  have htrunc : ∀ a, naclTruncAllocPage a = a / 65536 * 65536 := fun a => rfl
  have htramp : naclTrampolineEnd = 131072 := rfl
  rw [h.sound_iff, apart_iff, ht, hr, hd, if_neg (by omega), if_neg (by omega), hmaxVaddr]
  unfold ElfSegment.Apart
  simp only [Option.mem_def, Option.some.injEq, forall_eq', List.cons_append, List.nil_append,
    List.pairwise_cons, List.mem_cons, List.not_mem_nil, forall_eq_or_imp, or_false, forall_eq,
    false_implies, implies_true, List.Pairwise.nil, and_true]
  have htr := htr (by omega)
  rw [hround _ (by omega), hround _ (by omega)] at htr
  generalize 2 ^ addrBits = B at *
  simp only [hround _ (ht₄.trans hpow), hround _ (hr₄.trans hpow), hround _ (hd₄.trans hpow),
    htrunc, hrstart, hdstart, htramp, hste] at *
  constructor
  · omega
  · omega

theorem LayoutChecked.max_lt (h : LayoutChecked segments addrBits info) :
    info.maxVaddr < 2 ^ 32 := by
  rcases h.max_spec.2 with heq | ⟨check, -, s, -, heq⟩ <;> rw [heq]
  · decide
  · exact Nat.mod_lt _ (by decide)

theorem LayoutChecked.sound_rodata (h : LayoutChecked segments addrBits info)
    (ht : ElfSegment.find textCheck segments = some text)
    (hr : ElfSegment.find rodataCheck segments = some rodata)
    (hd : ElfSegment.find dataCheck segments = none) :
    LayoutSound segments addrBits (appLayout info loadable) ↔
      naclRoundAllocPage text.stop ≤ rodata.vaddr := by
  obtain ⟨hpow, hdvd⟩ := h.pow_spec
  have ht₁ := h.vaddr_text ht
  obtain ⟨-, ht₂, ht₃, ht₄, ht₅, ht₆⟩ := h.bounds ht (by decide)
  obtain ⟨hr₁, hr₂, hr₃, hr₄, hr₅, hr₆⟩ := h.bounds hr (by decide)
  have hrstart : info.rodataStart = rodata.vaddr := by rw [h.spec.rodataStart, hr]; rfl
  have hrend : info.rodataEnd = rodata.stop % 2 ^ 32 := by rw [h.spec.rodataEnd, hr]; rfl
  have hdstart : info.dataStart = 0 := by rw [h.spec.dataStart, hd]; rfl
  obtain ⟨-, hlast, -, htr, -⟩ := h.sane
  have hste := h.staticTextEnd_eq ht
  have hmax := h.spec.le_max.1
  have hmax_lt := h.max_lt
  have hmaxVaddr : layoutMaxVaddr info = naclRoundAllocPage info.maxVaddr := by
    unfold layoutMaxVaddr
    rw [if_pos hdstart, if_neg (by omega)]
  have hround : ∀ a, a ≤ 2 ^ 32 → naclRoundAllocPage a = (a + 65535) / 65536 * 65536 :=
    fun a ha => naclRoundAllocPage_eq (by omega)
  have htrunc : ∀ a, naclTruncAllocPage a = a / 65536 * 65536 := fun a => rfl
  have htramp : naclTrampolineEnd = 131072 := rfl
  rw [h.sound_iff, apart_iff, ht, hr, hd, if_neg (by omega), if_pos hdstart, hmaxVaddr]
  unfold ElfSegment.Apart
  simp only [Option.mem_def, Option.some.injEq, forall_eq', List.cons_append, List.nil_append,
    List.pairwise_cons, List.mem_cons, List.not_mem_nil, forall_eq_or_imp, or_false, forall_eq,
    false_implies, implies_true, List.Pairwise.nil, and_true, reduceCtorEq]
  have htr := htr (by omega)
  have hlast := hlast hdstart (by omega)
  have hrend_le : info.rodataEnd ≤ 2 ^ 32 := by omega
  rw [hround _ (by omega), hround _ (by omega)] at htr
  rw [hround _ hrend_le, hround _ hmax_lt.le] at hlast
  generalize 2 ^ addrBits = B at *
  simp only [hround _ (ht₄.trans hpow), hround _ (hr₄.trans hpow), hround _ hmax_lt.le,
    htrunc, hrstart, htramp, hste] at *
  constructor
  · omega
  · omega

theorem LayoutChecked.sound_data (h : LayoutChecked segments addrBits info)
    (ht : ElfSegment.find textCheck segments = some text)
    (hr : ElfSegment.find rodataCheck segments = none)
    (hd : ElfSegment.find dataCheck segments = some data) :
    LayoutSound segments addrBits (appLayout info loadable) ↔
      naclRoundAllocPage text.stop ≤ naclTruncAllocPage data.vaddr := by
  obtain ⟨hpow, hdvd⟩ := h.pow_spec
  have ht₁ := h.vaddr_text ht
  obtain ⟨-, ht₂, ht₃, ht₄, ht₅, ht₆⟩ := h.bounds ht (by decide)
  obtain ⟨hd₁, hd₂, hd₃, hd₄, hd₅, hd₆⟩ := h.bounds hd (by decide)
  have hrstart : info.rodataStart = 0 := by rw [h.spec.rodataStart, hr]; rfl
  have hdstart : info.dataStart = data.vaddr := by rw [h.spec.dataStart, hd]; rfl
  have hdend : info.dataEnd = data.stop % 2 ^ 32 := by rw [h.spec.dataEnd, hd]; rfl
  obtain ⟨hlast, -, -, -, htd⟩ := h.sane
  have hste := h.staticTextEnd_eq ht
  have hmax := h.spec.le_max.1
  have hmaxVaddr : layoutMaxVaddr info = info.maxVaddr := if_neg (by omega)
  have hround : ∀ a, a ≤ 2 ^ 32 → naclRoundAllocPage a = (a + 65535) / 65536 * 65536 :=
    fun a ha => naclRoundAllocPage_eq (by omega)
  have htrunc : ∀ a, naclTruncAllocPage a = a / 65536 * 65536 := fun a => rfl
  have htramp : naclTrampolineEnd = 131072 := rfl
  rw [h.sound_iff, apart_iff, ht, hr, hd, if_pos hrstart, if_neg (by omega), hmaxVaddr]
  unfold ElfSegment.Apart
  simp only [Option.mem_def, Option.some.injEq, forall_eq', List.cons_append, List.nil_append,
    List.append_nil, List.pairwise_cons, List.mem_cons, List.not_mem_nil, forall_eq_or_imp,
    or_false, forall_eq, false_implies, implies_true, List.Pairwise.nil, and_true, true_and,
    reduceCtorEq]
  have htd := htd hrstart (by omega)
  rw [hround _ (by omega)] at htd
  generalize 2 ^ addrBits = B at *
  simp only [hround _ (ht₄.trans hpow), hround _ (hd₄.trans hpow), htrunc, hdstart, htramp, hste]
    at *
  constructor
  · omega
  · omega

theorem LayoutChecked.max_eq (h : LayoutChecked segments addrBits info)
    (ht : ElfSegment.find textCheck segments = some text)
    (hr : ElfSegment.find rodataCheck segments = none)
    (hd : ElfSegment.find dataCheck segments = none) :
    info.maxVaddr = max (text.stop % 2 ^ 32) ((ElfSegment.find stackCheck segments).elim
      naclTrampolineEnd fun s => max naclTrampolineEnd (s.stop % 2 ^ 32)) := by
  have hle := h.spec.le_max.1
  have htle := (h.bounds ht (by decide)).2.2.2.2.2
  cases hk : ElfSegment.find stackCheck segments with
  | none =>
    dsimp only [Option.elim_none]
    rcases h.max_spec.2 with heq | ⟨check, hcheck, s, hs, heq⟩
    · omega
    · simp only [List.mem_cons, List.not_mem_nil, or_false] at hcheck
      rcases hcheck with rfl | rfl | rfl | rfl
      · rw [ht] at hs
        cases hs
        omega
      · rw [hr] at hs
        cases hs
      · rw [hd] at hs
        cases hs
      · rw [hk] at hs
        cases hs
  | some stack =>
    have hkle := (h.bounds hk (by decide)).2.2.2.2.2
    dsimp only [Option.elim_some]
    rcases h.max_spec.2 with heq | ⟨check, hcheck, s, hs, heq⟩
    · omega
    · simp only [List.mem_cons, List.not_mem_nil, or_false] at hcheck
      rcases hcheck with rfl | rfl | rfl | rfl
      · rw [ht] at hs
        cases hs
        omega
      · rw [hr] at hs
        cases hs
      · rw [hd] at hs
        cases hs
      · rw [hk] at hs
        cases hs
        omega

theorem LayoutChecked.sound_text (h : LayoutChecked segments addrBits info)
    (ht : ElfSegment.find textCheck segments = some text)
    (hr : ElfSegment.find rodataCheck segments = none)
    (hd : ElfSegment.find dataCheck segments = none) :
    LayoutSound segments addrBits (appLayout info loadable) ↔
      (text.stop = 2 ^ 32 ∨ text.stop + naclHaltSledSize ≤ 2 ^ addrBits) ∧
      (∀ stack ∈ ElfSegment.find stackCheck segments,
        stack.stop = 2 ^ 32 ∨ stack.stop + naclHaltSledSize ≤ 2 ^ addrBits) ∧
      (text.stop = 2 ^ 32 → text.vaddr + text.filesz ≤ naclRoundAllocPage (naclHaltSledSize +
        (ElfSegment.find stackCheck segments).elim naclTrampolineEnd
          fun s => max naclTrampolineEnd (s.stop % 2 ^ 32))) := by
  obtain ⟨hpow, hdvd⟩ := h.pow_spec
  have ht₁ := h.vaddr_text ht
  obtain ⟨-, ht₂, ht₃, ht₄, ht₅, ht₆⟩ := h.bounds ht (by decide)
  have hrstart : info.rodataStart = 0 := by rw [h.spec.rodataStart, hr]; rfl
  have hdstart : info.dataStart = 0 := by rw [h.spec.dataStart, hd]; rfl
  have hste := h.staticTextEnd_eq ht
  have hmax := h.spec.le_max.1
  have hmax_lt := h.max_lt
  have hmax_eq := h.max_eq ht hr hd
  have htramp : naclTrampolineEnd = 131072 := rfl
  have hsled : naclHaltSledSize = 32 := rfl
  have hmaxVaddr : layoutMaxVaddr info = (info.maxVaddr + 32 + 65535) / 65536 * 65536 := by
    have hpage : naclMapPageSize = 65536 := rfl
    unfold layoutMaxVaddr
    rw [if_pos hdstart, hsled, hpage, naclRoundAllocPage_eq (by omega),
      naclRoundAllocPage_eq (by omega)]
    split_ifs <;> omega
  rw [h.sound_iff, apart_iff, ht, hr, hd, if_pos hrstart, if_pos hdstart, hmaxVaddr]
  simp only [Option.mem_def, Option.some.injEq, List.cons_append, List.nil_append,
    List.append_nil, List.pairwise_cons, List.mem_cons, List.not_mem_nil, forall_eq_or_imp,
    or_false, forall_eq, false_implies, implies_true, List.Pairwise.nil, and_true, true_and,
    reduceCtorEq]
  cases hk : ElfSegment.find stackCheck segments with
  | none =>
    rw [hk] at hmax_eq
    dsimp only [Option.elim_none] at hmax_eq ⊢
    rw [naclRoundAllocPage_eq (by omega)]
    simp only [reduceCtorEq, false_implies, implies_true, true_and]
    generalize 2 ^ addrBits = B at *
    simp only [htramp, hsled, hste] at *
    constructor
    · omega
    · omega
  | some stack =>
    obtain ⟨hk₁, hk₂, hk₃, hk₄, hk₅, hk₆⟩ := h.bounds hk (by decide)
    rw [hk] at hmax_eq
    dsimp only [Option.elim_some] at hmax_eq ⊢
    rw [naclRoundAllocPage_eq (by omega)]
    simp only [Option.some.injEq, forall_eq']
    generalize 2 ^ addrBits = B at *
    simp only [htramp, hsled, hste] at *
    constructor
    · omega
    · omega

end Shapes

/-- In an accepted layout each segment is where its header says, in exact integers, exactly when the
guard holds. -/
theorem layoutSound_iff (hrun : naclAppLoadFileLayout file addrBits maxCodeBytes = .ok layout) :
    LayoutSound file.segments addrBits layout ↔ LayoutGuard file.segments addrBits := by
  obtain ⟨info, loadable, rfl, h⟩ := layoutChecked_naclAppLoadFileLayout hrun
  obtain ⟨text, ht, -, -⟩ := h.text
  unfold LayoutGuard
  rw [ht]
  cases hr : ElfSegment.find rodataCheck file.segments with
  | none =>
    cases hd : ElfSegment.find dataCheck file.segments with
    | none => exact h.sound_text ht hr hd
    | some data => exact h.sound_data ht hr hd
  | some rodata =>
    cases hd : ElfSegment.find dataCheck file.segments with
    | none =>
      rw [h.sound_rodata ht hr hd]
      exact (and_iff_left fun hne => absurd rfl hne).symm
    | some data =>
      rw [h.sound_rodata_data ht hr hd]
      exact and_congr_right' (by simp)

/-- An image of three segments: text at `NACL_TRAMPOLINE_END`, read-only data and data. -/
def smallImage (textMemsz rodataVaddr rodataMemsz dataVaddr : BitVec 32) : ElfFile :=
  .class32 0x20000 [
    ⟨ptLoad, 0, 0x20000, 0x20000, 0x1000, textMemsz, pfR ||| pfX, 0x10000⟩,
    ⟨ptLoad, 0x10000, rodataVaddr, rodataVaddr, 0x1000, rodataMemsz, pfR, 0x10000⟩,
    ⟨ptLoad, 0x20000, dataVaddr, dataVaddr, 0x1000, 0x1000, pfR ||| pfW, 0x10000⟩]

/-- Each segment has a page of its own. -/
theorem layoutSound_iff_smallImage : ∃ layout,
    naclAppLoadFileLayout (smallImage 0x1000 0x30000 0x1000 0x40000) 32 0 = .ok layout ∧
      LayoutSound (smallImage 0x1000 0x30000 0x1000 0x40000).segments 32 layout := by
  refine ⟨⟨0x21000, 0x30000, 0x31000, 0x40000, 0x41000, 0x41000, [true, true, true]⟩, ?_, ?_⟩
  · decide +kernel
  · refine (@layoutSound_iff (smallImage 0x1000 0x30000 0x1000 0x40000) 32 0 _ ?_).2 ?_
    · decide +kernel
    · exact ⟨by decide, fun _ => by decide⟩

/-- The text, with the memory behind the part of it that is in the file, reaches into the read-only
data. -/
theorem not_layoutSound_smallImage : ∃ layout,
    naclAppLoadFileLayout (smallImage 0x20000 0x30000 0x1000 0x40000) 32 0 = .ok layout ∧
      ¬ LayoutSound (smallImage 0x20000 0x30000 0x1000 0x40000).segments 32 layout := by
  refine ⟨⟨0x21000, 0x30000, 0x31000, 0x40000, 0x41000, 0x41000, [true, true, true]⟩, ?_, ?_⟩
  · decide +kernel
  · intro hsound
    have htext := (List.pairwise_cons.1 hsound.disjoint).1 _ List.mem_cons_self
    have happart := htext ⟨textCheck, by decide, by decide⟩ ⟨rodataCheck, by decide, by decide⟩
    unfold ElfSegment.Apart at happart
    revert happart
    decide

end Layout

end SandboxingNaCl
