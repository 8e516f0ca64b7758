import SandboxingNaCl.Lib.KeyedLoop
import SandboxingNaCl.Loader.Layout
import SandboxingNaCl.Service.MappingsSound

/-!
# The first entries of the memory map

`NaClMemoryProtection`, with what the loader has made of the layout before it: the map gets an entry
for the page at null, the text, the dynamic text, the read-only data and the data of the image, and
for the stack.
-/

namespace SandboxingNaCl

open MachineInt PagedMemory IntervalMap

/-- How loading stops: the process goes down, or the loader returns an error. -/
inductive LoadStop
  | fault (fault : Fault)
  | error (code : NaClErrorCode)

/-- `dynamic_text_start` and `dynamic_text_end` as `NaClMakeDynamicTextShared` sets them: the dynamic
text reaches to the next segment, if it is used at all and there is one. -/
def naclMakeDynamicTextShared (layout : AppLayout) (useShmForDynamicText : Bool) : ℕ × ℕ :=
  let shmVaddrBase := naclRoundAllocPage layout.staticTextEnd
  if !useShmForDynamicText then
    (shmVaddrBase, shmVaddrBase)
  else
    let shmUpperBound := layout.rodataStart
    let shmUpperBound :=
      if 0 = shmUpperBound then naclTruncAllocPage layout.dataStart else shmUpperBound
    let shmUpperBound := if 0 = shmUpperBound then shmVaddrBase else shmUpperBound
    (shmVaddrBase, shmUpperBound)

/-- `static_text_end` as `NaClFillEndOfTextRegion` leaves it; `none` is one of its fatal errors.
There is a `text_shm` if the dynamic text is not empty. -/
def naclFillEndOfTextRegion (layout : AppLayout) (textShm : Bool) : Option ℕ :=
  if 0 ≠ layout.dataStart ∧
      naclTruncAllocPage layout.dataStart < layout.staticTextEnd + naclHaltSledSize then
    none
  else if 0 ≠ layout.rodataStart ∧
      layout.rodataStart < layout.staticTextEnd + naclHaltSledSize then
    none
  else if !textShm then
    let pagePad := naclRoundAllocPage (layout.staticTextEnd + naclHaltSledSize) -
      layout.staticTextEnd
    if pagePad < naclHaltSledSize ∨ naclMapPageSize + naclHaltSledSize ≤ pagePad then none
    else some (layout.staticTextEnd + pagePad)
  else
    some (layout.staticTextEnd +
      (naclRoundAllocPage layout.staticTextEnd - layout.staticTextEnd))

/-! ## The protection of the image -/

/-- What the host answers to the calls of `NaClMprotect`, and to mapping the stack. -/
structure ProtectAnswers where
  text : Bool
  rodata : Bool
  data : Bool
  stack : MmapAnswers

/-- `NaClVmmapAdd` for memory at user addresses. -/
def recordFixed (nap : NaClApp) (start size : ℕ) (prot : BitVec 32) (desc : Option NaClDesc)
    (fileSize : ℤ) : NaClApp :=
  { nap with
    memMap := naclVmmapAdd nap.memMap (start / 2 ^ naclPageShift) (size / 2 ^ naclPageShift) prot
      mapPrivate desc 0 fileSize }

/-- Changing the protection of a segment, which is then recorded. -/
def protectSegment (nap : NaClApp) (start size : ℕ) (prot : BitVec 32) (host : Bool) :
    Except LoadStop NaClApp :=
  if host then
    .ok (recordFixed { nap with
      mem := nap.mem.mprotect (start / naclPageSize) ((start + size) / naclPageSize) prot }
      start size prot none 0)
  else
    .error (.error .mprotectFail)

/-- The entry of the dynamic text, whose pages are protected already. -/
def recordDynamicText (nap : NaClApp) : Except LoadStop NaClApp :=
  match naclUserToSys nap.space nap.dynamicTextStart with
  | none => .error (.fault .fatal)
  | some _ =>
    let regionSize := usub nap.dynamicTextEnd nap.dynamicTextStart
    if 0 ≠ regionSize then
      .ok (recordFixed nap nap.dynamicTextStart regionSize (protRead ||| protExec)
        nap.text.textShm regionSize)
    else
      .ok nap

/-- The read-only data reach to the data, or to the break. -/
def protectRodata (nap : NaClApp) (host : Bool) : Except LoadStop NaClApp :=
  if 0 ≠ nap.rodataStart then
    let rodataEnd := if 0 ≠ nap.dataStart then naclTruncAllocPage nap.dataStart else nap.breakAddr
    match naclUserToSys nap.space nap.rodataStart with
    | none => .error (.fault .fatal)
    | some _ =>
      protectSegment nap nap.rodataStart
        (naclRoundPage (usub (naclRoundAllocPage rodataEnd) nap.rodataStart)) protRead host
  else
    .ok nap

def protectData (nap : NaClApp) (host : Bool) : Except LoadStop NaClApp :=
  if 0 ≠ nap.dataStart then
    let startAddr := naclTruncAllocPage nap.dataStart
    match naclUserToSys nap.space startAddr with
    | none => .error (.fault .fatal)
    | some _ =>
      protectSegment nap startAddr
        (naclRoundPage (usub (naclRoundAllocPage nap.dataEnd) startAddr)) protReadWrite host
  else
    .ok nap

/-- The stack ends where the address space does. -/
def mapStack (nap : NaClApp) (stackSize : ℕ) (ans : MmapAnswers) : Except LoadStop NaClApp :=
  let startAddr := naclTruncAllocPage (usub (2 ^ nap.space.addrBits) stackSize)
  match naclSysMmapIntern nap ⟨startAddr, stackSize, protReadWrite,
    mapPrivate ||| mapAnonymous ||| mapFixed, -1, 0⟩ ans with
  | .error fault => .error (.fault fault)
  | .ok (_, .error _) => .error (.error .mprotectFail)
  | .ok (nap, .ok addr) =>
    if addr = startAddr then .ok nap else .error (.error .mprotectFail)

def naclMemoryProtection (nap : NaClApp) (stackSize : ℕ) (ans : ProtectAnswers) :
    Except LoadStop NaClApp := do
  let nap := recordFixed nap 0 naclTrampolineStart protNone none 0
  let nap ← protectSegment nap naclTrampolineStart
    (naclRoundPage (usub nap.staticTextEnd naclTrampolineStart)) (protRead ||| protExec) ans.text
  let nap ← recordDynamicText nap
  let nap ← protectRodata nap ans.rodata
  let nap ← protectData nap ans.data
  mapStack nap stackSize ans.stack

/-- The state in which `NaClMemoryProtection` finds an image that has been loaded by its layout. -/
structure NaClApp.Loaded (nap : NaClApp) (layout : AppLayout) (useShmForDynamicText : Bool) :
    Prop where
  memMap : nap.memMap = naclVmmapCtor
  regions : nap.text.regions = []
  mapcache : nap.text.mapcacheRet = none
  dynamicText : naclMakeDynamicTextShared layout useShmForDynamicText =
    (nap.dynamicTextStart, nap.dynamicTextEnd)
  bitmap : nap.text.pageBitmap.length =
    (nap.dynamicTextEnd - nap.dynamicTextStart) / naclMapPageSize
  staticTextEnd : naclFillEndOfTextRegion layout
    (nap.dynamicTextStart ≠ nap.dynamicTextEnd) = some nap.staticTextEnd
  rodataStart : nap.rodataStart = layout.rodataStart
  dataStart : nap.dataStart = layout.dataStart
  dataEnd : nap.dataEnd = layout.dataEnd
  breakAddr : nap.breakAddr = layout.breakAddr

/-! ## Where the image is -/

/-- The parts of an image lie in the order of the addresses, in exact integers. -/
structure NaClApp.ImagePlaced (nap : NaClApp) : Prop where
  trampoline_le : naclTrampolineEnd ≤ nap.staticTextEnd
  dvd_static : naclMapPageSize ∣ nap.staticTextEnd
  dvd_start : naclMapPageSize ∣ nap.dynamicTextStart
  dvd_end : naclMapPageSize ∣ nap.dynamicTextEnd
  start_le : naclTrampolineEnd ≤ nap.dynamicTextStart
  start_le_end : nap.dynamicTextStart ≤ nap.dynamicTextEnd
  static_le : nap.staticTextEnd ≤ nap.dynamicTextEnd + naclMapPageSize
  static_le_start : nap.dynamicTextStart < nap.dynamicTextEnd →
    nap.staticTextEnd ≤ nap.dynamicTextStart ∧ nap.dynamicTextEnd < nap.dataEnd
  end_le : nap.dynamicTextEnd ≤ nap.dataEnd
  dataEnd_le : nap.dataEnd ≤ 2 ^ 32 + 131072
  rodata : nap.rodataStart ≠ 0 → naclMapPageSize ∣ nap.rodataStart ∧
    nap.staticTextEnd ≤ nap.rodataStart ∧ nap.dynamicTextEnd ≤ nap.rodataStart ∧
    nap.rodataStart < (if nap.dataStart = 0 then nap.breakAddr
      else naclTruncAllocPage nap.dataStart) ∧ nap.breakAddr ≤ 2 ^ nap.space.addrBits
  data : nap.dataStart ≠ 0 → nap.staticTextEnd ≤ naclTruncAllocPage nap.dataStart ∧
    nap.dynamicTextEnd ≤ naclTruncAllocPage nap.dataStart ∧ nap.dataStart < nap.dataEnd ∧
    nap.breakAddr ≤ 2 ^ nap.space.addrBits
  breakAddr : nap.dataEnd = nap.breakAddr

/-- No segment that is loaded ends at `2 ^ 32`, which is 0 in the 32 bits its end is computed in. -/
def EndsBelowTop (segments : List ElfSegment) : Prop :=
  ∀ check ∈ loadChecks, ∀ s, ElfSegment.find check segments = some s → s.stop ≠ 2 ^ 32

section Image

variable {nap : NaClApp} {layout : AppLayout} {useShm : Bool} {file : ElfFile}
  {addrBits maxCodeBytes : ℕ}

theorem naclTruncAllocPage_eq (a : ℕ) : naclTruncAllocPage a = a / 65536 * 65536 := by
  unfold naclTruncAllocPage alignDown naclMapPageShift
  norm_num

/-- The numbers of an accepted layout whose segments end below `2 ^ 32`. -/
structure LayoutPlaced (layout : AppLayout) (addrBits : ℕ) : Prop where
  trampoline_le : naclTrampolineEnd ≤ layout.staticTextEnd
  static_le : layout.staticTextEnd ≤ layout.dataEnd
  dataEnd_le : layout.dataEnd ≤ 2 ^ 32 + 131072
  breakAddr : layout.dataEnd = layout.breakAddr
  neither : layout.rodataStart = 0 → layout.dataStart = 0 → 65536 ∣ layout.dataEnd
  rodata : layout.rodataStart ≠ 0 → 65536 ∣ layout.rodataStart ∧
    naclRoundAllocPage layout.staticTextEnd ≤ layout.rodataStart ∧
    layout.rodataStart < (if layout.dataStart = 0 then layout.dataEnd
      else naclTruncAllocPage layout.dataStart) ∧ layout.dataEnd ≤ 2 ^ addrBits
  data : layout.dataStart ≠ 0 → layout.dataStart < layout.dataEnd ∧
    (layout.rodataStart = 0 →
      naclRoundAllocPage layout.staticTextEnd ≤ naclTruncAllocPage layout.dataStart) ∧
    layout.dataEnd ≤ 2 ^ addrBits

/-- The greatest end lies in the address space, and its rounding with the space for the halt sled not
far behind it. -/
theorem layoutMaxVaddr_bounds {segments : List ElfSegment} {info : NaClElfImageInfo}
    (h : LayoutChecked segments addrBits info) :
    info.maxVaddr ≤ 2 ^ addrBits ∧ info.maxVaddr ≤ layoutMaxVaddr info ∧
      layoutMaxVaddr info ≤ 2 ^ 32 + 131072 ∧
      (info.dataStart = 0 → 65536 ∣ layoutMaxVaddr info) ∧
      (info.rodataStart ≠ 0 ∨ info.dataStart ≠ 0 → layoutMaxVaddr info ≤ 2 ^ addrBits) := by
  obtain ⟨hpow, hdvd⟩ := h.pow_spec
  obtain ⟨text, ht, hvaddr, -⟩ := h.text
  have htext := h.bounds ht (by decide)
  have htramp : naclTrampolineEnd = 131072 := rfl
  have hlt := h.max_lt
  have hmax : info.maxVaddr ≤ 2 ^ addrBits := by
    rcases h.max_spec.2 with heq | ⟨check, hcheck, s, hfind, heq⟩
    · omega
    · have hs := h.bounds hfind hcheck
      omega
  have hround : ∀ a, a ≤ 2 ^ 33 → naclRoundAllocPage a = (a + 65535) / 65536 * 65536 :=
    fun a ha => naclRoundAllocPage_eq ha
  have hpage : naclMapPageSize = 65536 := rfl
  unfold layoutMaxVaddr
  rw [hpage, hround _ (by omega), hround _ (by omega)]
  generalize 2 ^ addrBits = B at *
  split_ifs <;> omega

theorem LayoutChecked.rodata_lt {segments : List ElfSegment} {info : NaClElfImageInfo}
    (h : LayoutChecked segments addrBits info) (hends : EndsBelowTop segments)
    (hr : info.rodataStart ≠ 0) :
    info.rodataStart < info.rodataEnd ∧ info.rodataEnd ≤ info.maxVaddr := by
  have hpow := h.pow_spec.1
  have hstart := h.spec.rodataStart
  have hend := h.spec.rodataEnd
  cases hfind : ElfSegment.find rodataCheck segments with
  | none =>
    rw [hfind] at hstart
    exact absurd hstart hr
  | some rodata =>
    rw [hfind] at hstart hend
    dsimp only [Option.elim_some] at hstart hend
    have hbounds := h.bounds hfind (by decide)
    have hne := hends rodataCheck (by decide) rodata hfind
    omega

theorem LayoutChecked.data_lt {segments : List ElfSegment} {info : NaClElfImageInfo}
    (h : LayoutChecked segments addrBits info) (hends : EndsBelowTop segments)
    (hd : info.dataStart ≠ 0) : info.dataStart < info.maxVaddr := by
  have hpow := h.pow_spec.1
  have hstart := h.spec.dataStart
  cases hfind : ElfSegment.find dataCheck segments with
  | none =>
    rw [hfind] at hstart
    exact absurd hstart hd
  | some data =>
    rw [hfind] at hstart
    dsimp only [Option.elim_some] at hstart
    have hbounds := h.bounds hfind (by decide)
    have hne := hends dataCheck (by decide) data hfind
    omega

theorem layoutPlaced (hrun : naclAppLoadFileLayout file addrBits maxCodeBytes = .ok layout)
    (hends : EndsBelowTop file.segments) : LayoutPlaced layout addrBits := by
  obtain ⟨info, loadable, rfl, h⟩ := layoutChecked_naclAppLoadFileLayout hrun
  obtain ⟨hpow, hdvd⟩ := h.pow_spec
  obtain ⟨hmax, hle, htop, haligned, hin⟩ := layoutMaxVaddr_bounds h
  obtain ⟨text, ht, hvaddr, -⟩ := h.text
  have htext := h.bounds ht (by decide)
  have htextEnd := hends textCheck (by decide) text ht
  have hstatic := h.staticTextEnd_eq ht
  have htramp : naclTrampolineEnd = 131072 := rfl
  obtain ⟨-, -, hover, htr, htd⟩ := h.sane
  refine ⟨?_, ?_, htop, rfl, fun _ hd => haligned hd, fun hr => ?_, fun hd => ?_⟩
  · change naclTrampolineEnd ≤ info.staticTextEnd
    omega
  · change info.staticTextEnd ≤ layoutMaxVaddr info
    omega
  · obtain ⟨hstart, halign⟩ := htr hr
    obtain ⟨hpos, hend⟩ := h.rodata_lt hends hr
    have hlt : info.rodataStart < (if info.dataStart = 0 then layoutMaxVaddr info
        else naclTruncAllocPage info.dataStart) := by
      split_ifs with hd
      · omega
      · exact hpos.trans_le (hover hr hd)
    have hround : 65536 ∣ naclRoundAllocPage info.rodataStart := dvd_alignUp _ _
    rw [halign] at hround
    exact ⟨hround, hstart, hlt, hin (Or.inl hr)⟩
  · exact ⟨(h.data_lt hends hd).trans_le hle, fun hr => htd hr hd, hin (Or.inr hd)⟩

theorem naclMakeDynamicTextShared_cases (layout : AppLayout) (useShm : Bool) :
    ∃ upper, naclMakeDynamicTextShared layout useShm =
      (naclRoundAllocPage layout.staticTextEnd, upper) ∧
      (upper = naclRoundAllocPage layout.staticTextEnd ∨
        layout.rodataStart ≠ 0 ∧ upper = layout.rodataStart ∨
        layout.rodataStart = 0 ∧ layout.dataStart ≠ 0 ∧
          upper = naclTruncAllocPage layout.dataStart) := by
  unfold naclMakeDynamicTextShared
  dsimp only
  by_cases huse : (!useShm) = true
  · rw [if_pos huse]
    exact ⟨_, rfl, Or.inl rfl⟩
  rw [if_neg huse]
  by_cases hrodata : 0 = layout.rodataStart
  · rw [if_pos hrodata]
    by_cases hupper : 0 = naclTruncAllocPage layout.dataStart
    · rw [if_pos hupper]
      exact ⟨_, rfl, Or.inl rfl⟩
    · rw [if_neg hupper]
      refine ⟨_, rfl, Or.inr (Or.inr ⟨hrodata.symm, fun hzero => hupper ?_, rfl⟩)⟩
      rw [hzero]
      decide
  · rw [if_neg hrodata, if_neg hrodata]
    exact ⟨_, rfl, Or.inr (Or.inl ⟨Ne.symm hrodata, rfl⟩)⟩

theorem naclFillEndOfTextRegion_spec {textShm : Bool} {staticTextEnd : ℕ}
    (hle : layout.staticTextEnd ≤ 2 ^ 32 + 131072)
    (hrun : naclFillEndOfTextRegion layout textShm = some staticTextEnd) :
    (layout.dataStart ≠ 0 →
      layout.staticTextEnd + naclHaltSledSize ≤ naclTruncAllocPage layout.dataStart) ∧
    (layout.rodataStart ≠ 0 → layout.staticTextEnd + naclHaltSledSize ≤ layout.rodataStart) ∧
    staticTextEnd = if textShm then naclRoundAllocPage layout.staticTextEnd
      else naclRoundAllocPage (layout.staticTextEnd + naclHaltSledSize) := by
  have hsled : naclHaltSledSize = 32 := rfl
  have hround := naclRoundAllocPage_eq (show layout.staticTextEnd ≤ 2 ^ 33 by omega)
  have hround' := naclRoundAllocPage_eq (show layout.staticTextEnd + naclHaltSledSize ≤ 2 ^ 33 by
    omega)
  unfold naclFillEndOfTextRegion at hrun
  dsimp only at hrun
  split_ifs at hrun with hdata hrodata hshm hpad
  all_goals
    rw [Option.some.injEq] at hrun
    refine ⟨fun hne => not_lt.1 fun hlt => hdata ⟨Ne.symm hne, hlt⟩,
      fun hne => not_lt.1 fun hlt => hrodata ⟨Ne.symm hne, hlt⟩, ?_⟩
  · rw [Bool.not_eq_true'] at hshm
    rw [hshm, ← hrun, if_neg (by decide)]
    omega
  · rw [Bool.not_eq_true', Bool.not_eq_false] at hshm
    rw [hshm, ← hrun, if_pos rfl]
    omega

theorem NaClApp.Loaded.imagePlaced (h : nap.Loaded layout useShm)
    (hlayout : LayoutPlaced layout nap.space.addrBits) : nap.ImagePlaced := by
  obtain ⟨htramp, hstatic, htop, hbreak, hneither, hrodata, hdata⟩ := hlayout
  obtain ⟨hgapData, hgapRodata, hend⟩ :=
    naclFillEndOfTextRegion_spec (hstatic.trans htop) h.staticTextEnd
  obtain ⟨upper, hshared, hupper⟩ := naclMakeDynamicTextShared_cases layout useShm
  obtain ⟨hlo, hhi⟩ := Prod.mk.inj (h.dynamicText.symm.trans hshared)
  have hround : ∀ a, a ≤ 2 ^ 33 → naclRoundAllocPage a = (a + 65535) / 65536 * 65536 :=
    fun a ha => naclRoundAllocPage_eq ha
  have hpage : naclMapPageSize = 65536 := rfl
  have hsled : naclHaltSledSize = 32 := rfl
  have htrampoline : naclTrampolineEnd = 131072 := rfl
  have hbase := hround layout.staticTextEnd (by omega)
  have hsledEnd := hround (layout.staticTextEnd + naclHaltSledSize) (by omega)
  obtain ⟨hr, hd, he, hb⟩ : _ ∧ _ ∧ _ ∧ _ := ⟨h.rodataStart, h.dataStart, h.dataEnd, h.breakAddr⟩
  have htrunc := naclTruncAllocPage_eq layout.dataStart
  have hupper_le : naclRoundAllocPage layout.staticTextEnd ≤ upper ∧ upper ≤ layout.dataEnd ∧
      65536 ∣ upper ∧ (naclRoundAllocPage layout.staticTextEnd < upper → upper < layout.dataEnd) ∧
      (layout.rodataStart ≠ 0 → upper ≤ layout.rodataStart) ∧
      (layout.dataStart ≠ 0 → upper ≤ naclTruncAllocPage layout.dataStart) := by
    by_cases hr₀ : layout.rodataStart = 0
    · by_cases hd₀ : layout.dataStart = 0
      · have := hneither hr₀ hd₀
        omega
      · have := hdata hd₀
        omega
    · have := hrodata hr₀
      by_cases hd₀ : layout.dataStart = 0
      · rw [if_pos hd₀] at this
        omega
      · rw [if_neg hd₀] at this
        have := hdata hd₀
        omega
  obtain ⟨hbase_le, hupper_data, hdvd, hlt, hupper_rodata, hupper_trunc⟩ := hupper_le
  have hstatic_eq : nap.staticTextEnd = if naclRoundAllocPage layout.staticTextEnd ≠ upper
      then naclRoundAllocPage layout.staticTextEnd
      else naclRoundAllocPage (layout.staticTextEnd + naclHaltSledSize) := by
    rw [hend, hlo, hhi]
    simp only [decide_eq_true_eq]
  have hbounds : naclTrampolineEnd ≤ nap.staticTextEnd ∧ 65536 ∣ nap.staticTextEnd ∧
      nap.staticTextEnd ≤ upper + 65536 ∧
      (naclRoundAllocPage layout.staticTextEnd < upper →
        nap.staticTextEnd ≤ naclRoundAllocPage layout.staticTextEnd) ∧
      (layout.rodataStart ≠ 0 → nap.staticTextEnd ≤ layout.rodataStart) ∧
      (layout.dataStart ≠ 0 → nap.staticTextEnd ≤ naclTruncAllocPage layout.dataStart) := by
    rw [hstatic_eq]
    split_ifs <;> omega
  obtain ⟨h₁, h₂, h₃, h₄, h₅, h₆⟩ := hbounds
  have hstart : 65536 ∣ nap.dynamicTextStart := by
    rw [hlo]
    exact dvd_alignUp _ _
  rw [← hlo] at h₄ hbase_le hlt
  rw [← hhi] at h₃ h₄ hbase_le hupper_data hdvd hlt hupper_rodata hupper_trunc
  refine {
    trampoline_le := h₁
    dvd_static := h₂
    dvd_start := hstart
    dvd_end := hdvd
    start_le := by omega
    start_le_end := hbase_le
    static_le := h₃
    static_le_start := fun hne => ⟨h₄ hne, he ▸ hlt hne⟩
    end_le := he ▸ hupper_data
    dataEnd_le := he ▸ htop
    rodata := fun hne => ?_
    data := fun hne => ?_
    breakAddr := he.trans (hbreak.trans hb.symm) }
  · rw [hr] at hne ⊢
    obtain ⟨halign, -, hbelow, hin⟩ := hrodata hne
    rw [hd, hb, ← hbreak]
    exact ⟨halign, h₅ hne, hupper_rodata hne, hbelow, hin⟩
  · rw [hd] at hne ⊢
    obtain ⟨hbelow, -, hin⟩ := hdata hne
    rw [he, hb, ← hbreak]
    exact ⟨h₆ hne, hupper_trunc hne, hbelow, hin⟩

end Image

/-! ## The entries -/

/-- Entries have been added to the map, first that of the pages at null, none of which reaches behind
the address `s`. -/
structure NaClApp.Recorded (nap nap' : NaClApp) (s : ℕ) : Prop where
  eq : nap' = { nap with memMap := nap'.memMap, mem := nap'.mem }
  wellFormed : nap'.memMap.WellFormed
  le : ∀ ent ∈ nap'.memMap.vmentry, (ent.pageNum + ent.npages) * naclPageSize ≤ s
  nullEntry : nap'.memMap.HasNullEntry

section Record

variable {nap nap₁ nap₂ nap' : NaClApp} {s s' start size : ℕ} {prot : BitVec 32}
  {desc : Option NaClDesc} {fileSize : ℤ}

theorem NaClApp.Recorded.mono (h : nap.Recorded nap₁ s) (hs : s ≤ s') : nap.Recorded nap₁ s' :=
  ⟨h.eq, h.wellFormed, fun ent he => (h.le ent he).trans hs, h.nullEntry⟩

theorem NaClVmmap.WellFormed.push {map : NaClVmmap} {ent : NaClVmmapEntry} (h : map.WellFormed)
    (hent : WellFormedEntries [ent])
    (hbehind : ∀ old ∈ map.vmentry, old.pageNum + old.npages ≤ ent.pageNum) :
    (naclVmmapPush map ent).WellFormed := by
  obtain ⟨-, hlen, hsize⟩ := foldl_naclVmmapPush map [ent] h.nvalid_le h.size_pos
  refine ⟨h.entries.append hent ?_, nofun, hlen, hsize⟩
  refine h.entries.tiles.append hent.tiles fun old hold new hnew => ?_
  rw [List.mem_singleton] at hnew
  exact Or.inl (hnew ▸ hbehind old hold)

theorem NaClApp.Recorded.add (h : nap.Recorded nap₁ s) (hs : s ≤ start)
    (hstart : naclPageSize ∣ start) (hsize : naclPageSize ∣ size) (hpos : 0 < size)
    (hmax : start + size ≤ 2 ^ 33) :
    nap.Recorded (recordFixed nap₁ start size prot desc fileSize) (start + size) ∧
      ∃ ent ∈ (recordFixed nap₁ start size prot desc fileSize).memMap.vmentry,
        ent.pageNum * naclPageSize = start ∧
          (ent.pageNum + ent.npages) * naclPageSize = start + size := by
  obtain ⟨a, rfl⟩ := exists_mul_naclPageSize hstart
  obtain ⟨n, rfl⟩ := exists_mul_naclPageSize hsize
  have hps : naclPageSize = 4096 := rfl
  have hpage : 2 ^ naclPageShift = naclPageSize := rfl
  have hn : 0 < n := Nat.pos_of_mul_pos_right hpos
  unfold recordFixed
  rw [hpage, Nat.mul_div_cancel _ (by omega), Nat.mul_div_cancel _ (by omega)]
  refine ⟨⟨?_, ?_, fun ent he => ?_, ?_⟩, ?_⟩
  · rw [h.eq]
  · refine h.wellFormed.push (wellFormedEntries_singleton hn ?_ rfl) fun old hold => ?_
    · rw [hps] at hmax
      unfold naclVmmapEntryMake maxPage
      dsimp only
      omega
    · have := (h.le old hold).trans hs
      exact Nat.le_of_mul_le_mul_right this (by omega)
  · rcases List.mem_append.1 he with he | he
    · exact (h.le ent he).trans (hs.trans (Nat.le_add_right _ _))
    · rw [List.mem_singleton.1 he, ← Nat.add_mul]
      exact le_rfl
  · obtain ⟨ent, he, hnull⟩ := h.nullEntry
    exact ⟨ent, List.mem_append_left _ he, hnull⟩
  · exact ⟨_, List.mem_append_right _ (List.mem_singleton_self _), rfl, Nat.add_mul _ _ _⟩

theorem NaClApp.Recorded.protect {host : Bool} (h : nap.Recorded nap₁ s) (hs : s ≤ start)
    (hstart : naclPageSize ∣ start) (hsize : naclPageSize ∣ size) (hpos : 0 < size)
    (hmax : start + size ≤ 2 ^ 33)
    (hrun : protectSegment nap₁ start size prot host = .ok nap₂) :
    nap.Recorded nap₂ (start + size) ∧
      ∀ ent ∈ nap₁.memMap.vmentry, ent ∈ nap₂.memMap.vmentry := by
  unfold protectSegment at hrun
  split_ifs at hrun
  cases hrun
  refine ⟨?_, fun ent he => List.mem_append_left _ he⟩
  have hmem : nap.Recorded { nap₁ with
      mem := nap₁.mem.mprotect (start / naclPageSize) ((start + size) / naclPageSize) prot } s :=
    ⟨by rw [h.eq], h.wellFormed, h.le, h.nullEntry⟩
  exact (hmem.add hs hstart hsize hpos hmax).1

theorem recorded_null (h : nap.memMap = naclVmmapCtor) :
    nap.Recorded (recordFixed nap 0 naclTrampolineStart protNone none 0) naclTrampolineStart := by
  have hent : WellFormedEntries [naclVmmapEntryMake 0 (naclTrampolineStart / 2 ^ naclPageShift)
      protNone mapPrivate none 0 0] :=
    wellFormedEntries_singleton (by decide) (by decide) rfl
  unfold recordFixed
  rw [h]
  refine ⟨rfl, ?_, fun ent he => ?_, ⟨_, List.mem_singleton_self _, rfl, rfl⟩⟩
  · exact naclVmmapCtor_wellFormed.push hent fun _ he => absurd he List.not_mem_nil
  · rw [List.mem_singleton.1 he]
    decide

theorem naclRoundPage_eq_self {n : ℕ} (hdvd : naclPageSize ∣ n) (hn : n ≤ 2 ^ 33) :
    naclRoundPage n = n := by
  obtain ⟨k, rfl⟩ := exists_mul_naclPageSize hdvd
  have hps : naclPageSize = 4096 := rfl
  rw [hps] at hn ⊢
  unfold naclRoundPage alignUp alignDown naclPageShift
  rw [uadd_eq (by omega), show (2 : ℕ) ^ 12 = 4096 by norm_num]
  omega

theorem NaClApp.Recorded.dynamicText (himage : nap.ImagePlaced)
    (h : nap.Recorded nap₁ nap.staticTextEnd) (hrun : recordDynamicText nap₁ = .ok nap₂) :
    nap.Recorded nap₂ (max nap.staticTextEnd nap.dynamicTextEnd) ∧
      (nap.dynamicTextStart < nap.dynamicTextEnd →
        ∃ ent ∈ nap₂.memMap.vmentry, nap.IsTextEntry ent) := by
  have hlo : nap₁.dynamicTextStart = nap.dynamicTextStart := by rw [h.eq]
  have hhi : nap₁.dynamicTextEnd = nap.dynamicTextEnd := by rw [h.eq]
  have hle := himage.start_le_end
  have htop := himage.end_le.trans himage.dataEnd_le
  have hps : naclPageSize ∣ naclMapPageSize := by decide
  unfold recordDynamicText at hrun
  rw [hlo, hhi, usub_eq hle (by omega)] at hrun
  split at hrun
  · cases hrun
  · dsimp only at hrun
    split_ifs at hrun with hempty
    · cases hrun
      obtain ⟨hrecorded, ent, he, hstart, hend⟩ := h.add
        (himage.static_le_start (by omega)).1 (hps.trans himage.dvd_start)
        (hps.trans (Nat.dvd_sub himage.dvd_end himage.dvd_start)) (by omega) (by omega)
      rw [Nat.add_sub_cancel' hle] at hrecorded hend
      exact ⟨hrecorded.mono (le_max_right _ _), fun _ => ⟨ent, he, hstart, hend⟩⟩
    · cases hrun
      exact ⟨h.mono (le_max_left _ _), fun hlt => absurd hlt (by omega)⟩

theorem NaClApp.Recorded.segment {host : Bool} {stop t : ℕ} (h : nap.Recorded nap₁ s)
    (hs : s ≤ start) (hstart : naclMapPageSize ∣ start) (hlt : start < stop) (hle : stop ≤ t)
    (hdvd : naclMapPageSize ∣ t) (ht : t ≤ 2 ^ 33)
    (hrun : protectSegment nap₁ start (naclRoundPage (usub (naclRoundAllocPage stop) start)) prot
      host = .ok nap₂) : nap.Recorded nap₂ t ∧
        ∀ ent ∈ nap₁.memMap.vmentry, ent ∈ nap₂.memMap.vmentry := by
  have hpage : naclMapPageSize = 65536 := rfl
  have hps : naclPageSize ∣ naclMapPageSize := by decide
  have hround := naclRoundAllocPage_eq (hle.trans ht)
  have hdvdRound : naclMapPageSize ∣ naclRoundAllocPage stop := dvd_alignUp _ _
  have hbounds : stop ≤ naclRoundAllocPage stop ∧ naclRoundAllocPage stop ≤ t := by
    rw [hround]
    rw [hpage] at hdvd
    omega
  have hdvdSize := hps.trans (Nat.dvd_sub hdvdRound hstart)
  rw [usub_eq (by omega) (by omega), naclRoundPage_eq_self hdvdSize (by omega)] at hrun
  obtain ⟨hrecorded, hkept⟩ :=
    h.protect hs (hps.trans hstart) hdvdSize (by omega) (by omega) hrun
  exact ⟨hrecorded.mono (by omega), hkept⟩

theorem NaClApp.Recorded.rodata {host : Bool} {t : ℕ} (himage : nap.ImagePlaced)
    (h : nap.Recorded nap₁ (max nap.staticTextEnd nap.dynamicTextEnd))
    (hmax : max nap.staticTextEnd nap.dynamicTextEnd ≤ t) (hdvd : naclMapPageSize ∣ t)
    (ht : t ≤ 2 ^ 33) (hend : nap.rodataStart ≠ 0 →
      (if nap.dataStart = 0 then nap.breakAddr else naclTruncAllocPage nap.dataStart) ≤ t)
    (hrun : protectRodata nap₁ host = .ok nap₂) : nap.Recorded nap₂ t ∧
      ∀ ent ∈ nap₁.memMap.vmentry, ent ∈ nap₂.memMap.vmentry := by
  have hrodata : nap₁.rodataStart = nap.rodataStart := by rw [h.eq]
  have hdata : nap₁.dataStart = nap.dataStart := by rw [h.eq]
  have hbreak : nap₁.breakAddr = nap.breakAddr := by rw [h.eq]
  unfold protectRodata at hrun
  rw [hrodata, hdata, hbreak] at hrun
  by_cases hne : 0 ≠ nap.rodataStart
  · rw [if_pos hne] at hrun
    obtain ⟨halign, hstatic, hdyn, hlt, -⟩ := himage.rodata hne.symm
    have hle := hend hne.symm
    rw [← ite_not] at hlt hle
    simp only [ne_comm] at hrun hlt hle
    split at hrun
    · cases hrun
    · exact h.segment (max_le hstatic hdyn) halign hlt hle hdvd ht hrun
  · rw [if_neg hne] at hrun
    cases hrun
    exact ⟨h.mono hmax, fun _ he => he⟩

theorem NaClApp.Recorded.data {host : Bool} {t : ℕ} (himage : nap.ImagePlaced)
    (h : nap.Recorded nap₁ (if nap.dataStart = 0 then t else naclTruncAllocPage nap.dataStart))
    (hdvd : naclMapPageSize ∣ t) (ht : t ≤ 2 ^ 33)
    (hend : nap.dataStart ≠ 0 → nap.dataEnd ≤ t)
    (hrun : protectData nap₁ host = .ok nap₂) : nap.Recorded nap₂ t ∧
      ∀ ent ∈ nap₁.memMap.vmentry, ent ∈ nap₂.memMap.vmentry := by
  have hdata : nap₁.dataStart = nap.dataStart := by rw [h.eq]
  have hdataEnd : nap₁.dataEnd = nap.dataEnd := by rw [h.eq]
  unfold protectData at hrun
  rw [hdata, hdataEnd] at hrun
  by_cases hne : 0 ≠ nap.dataStart
  · rw [if_pos hne] at hrun
    rw [if_neg hne.symm] at h
    obtain ⟨-, -, hlt, -⟩ := himage.data hne.symm
    dsimp only at hrun
    split at hrun
    · cases hrun
    · exact h.segment le_rfl (dvd_alignDown _ _) ((alignDown_le _ _).trans_lt hlt)
        (hend hne.symm) hdvd ht hrun
  · rw [if_neg hne] at hrun
    rw [if_pos (not_not.1 hne).symm] at h
    cases hrun
    exact ⟨h, fun _ he => he⟩

theorem NaClApp.ImagePlaced.recorded {ans : ProtectAnswers} {t stackSize : ℕ}
    (himage : nap.ImagePlaced) (hmap : nap.memMap = naclVmmapCtor) (hdvd : naclMapPageSize ∣ t)
    (hend : nap.dynamicTextEnd + naclMapPageSize ≤ t)
    (hbreak : nap.breakAddr ≤ 2 ^ nap.space.addrBits → nap.breakAddr ≤ t) (ht : t ≤ 2 ^ 33)
    (hrun : naclMemoryProtection nap stackSize ans = .ok nap') :
    ∃ nap₁, nap.Recorded nap₁ t ∧ mapStack nap₁ stackSize ans.stack = .ok nap' ∧
      (nap.dynamicTextStart < nap.dynamicTextEnd →
        ∃ ent ∈ nap₁.memMap.vmentry, nap.IsTextEntry ent) := by
  unfold naclMemoryProtection at hrun
  obtain ⟨nap₁, htext, hrun⟩ := KeyedLoop.bind_eq_ok.1 hrun
  obtain ⟨nap₂, hdyn, hrun⟩ := KeyedLoop.bind_eq_ok.1 hrun
  obtain ⟨nap₃, hrodata, hrun⟩ := KeyedLoop.bind_eq_ok.1 hrun
  obtain ⟨nap₄, hdata, hstack⟩ := KeyedLoop.bind_eq_ok.1 hrun
  have hps : naclPageSize ∣ naclMapPageSize := by decide
  have hstart : naclTrampolineStart < naclTrampolineEnd := by decide
  have htrampoline := himage.trampoline_le
  have htop := himage.dataEnd_le
  have hstatic := himage.static_le
  have hmax : max nap.staticTextEnd nap.dynamicTextEnd ≤ t := max_le (hstatic.trans hend) (by omega)
  have htext : nap.Recorded nap₁ nap.staticTextEnd := by
    have hdvdStatic : naclPageSize ∣ nap.staticTextEnd - naclTrampolineStart :=
      Nat.dvd_sub (hps.trans himage.dvd_static) (by decide)
    change protectSegment _ _ (naclRoundPage (usub nap.staticTextEnd naclTrampolineStart)) _ _ = _
      at htext
    rw [usub_eq (by omega) (by omega), naclRoundPage_eq_self hdvdStatic (by omega)] at htext
    have hrecorded := ((recorded_null hmap).protect le_rfl (by decide) hdvdStatic (by omega) (by omega) htext).1
    rwa [Nat.add_sub_cancel' (by omega)] at hrecorded
  obtain ⟨htwo, hentry⟩ := htext.dynamicText himage hdyn
  obtain ⟨hthree, hkept⟩ : nap.Recorded nap₃
      (if nap.dataStart = 0 then t else naclTruncAllocPage nap.dataStart) ∧
        ∀ ent ∈ nap₂.memMap.vmentry, ent ∈ nap₃.memMap.vmentry := by
    by_cases hzero : nap.dataStart = 0
    · rw [if_pos hzero]
      refine htwo.rodata himage hmax hdvd ht (fun hne => ?_) hrodata
      rw [if_pos hzero]
      exact hbreak (himage.rodata hne).2.2.2.2
    · obtain ⟨hbelow, hdynBelow, hlt, -⟩ := himage.data hzero
      have hle := alignDown_le naclMapPageShift nap.dataStart
      rw [if_neg hzero]
      refine htwo.rodata himage (max_le hbelow hdynBelow) (dvd_alignDown _ _) ?_ (fun _ => ?_)
        hrodata
      · exact hle.trans (by omega)
      · rw [if_neg hzero]
  obtain ⟨hfour, hkept'⟩ := hthree.data himage hdvd ht (fun hne => by
    obtain ⟨-, -, -, hle⟩ := himage.data hne
    rw [himage.breakAddr]
    exact hbreak hle) hdata
  refine ⟨nap₄, hfour, hstack, fun hlt => ?_⟩
  obtain ⟨ent, he, hent⟩ := hentry hlt
  exact ⟨ent, hkept' ent (hkept ent he), hent⟩

theorem placed_of_mmap {args : MmapArgs} {ans : MmapAnswers} {v : ℕ}
    (h : nap.memMap.WellFormed) (hprot : args.prot &&& protExec = 0)
    (hrun : naclSysMmapIntern nap args ans = .ok (nap', .ok v)) :
    naclMapPageSize ∣ naclRoundAllocPage args.length ∧ 0 < naclRoundAllocPage args.length ∧
      nap'.dynamicTextEnd ≤ naclTruncAllocPage v ∧
      v + naclRoundAllocPage args.length ≤ 2 ^ nap'.space.addrBits ∧
      nap'.dynamicTextEnd = nap.dynamicTextEnd ∧ nap'.space = nap.space := by
  have hcode : ∀ req : MmapRequest, req.Checked nap args → req.mappingCode = false := by
    intro req hreq
    rw [← Bool.not_eq_true, hreq.exec_iff]
    exact not_not.2 hprot
  unfold naclSysMmapIntern at hrun
  split at hrun
  · cases hrun
  · next hlocked =>
    cases hrun
    cases mmapLocked_spec h hlocked with
    | @data req memMap s _ _ _ hreq hmap hplace hdata hrun =>
      obtain ⟨n, k, hn, hk, hkn, hpos, -⟩ := hreq.pages
      have hle := hplace.le
      have hmax := hle.trans (addrBits_pow_le nap.space)
      rw [hn] at hmax
      obtain ⟨hstep, hresult⟩ := mmapData_spec hmap.wellFormed hreq (protExec_and_not args.prot)
        hn hk hkn hpos hmax hrun
      obtain ⟨rfl, -⟩ := hresult v rfl
      have hdvd : naclMapPageSize ∣ naclRoundAllocPage args.length := dvd_alignUp _ _
      rw [← hreq.allocRoundedLength_eq] at hdvd ⊢
      rw [hstep.eq]
      exact ⟨hdvd, hreq.pos, hplace.not_text hdata, hle, rfl, rfl⟩
    | direct hreq _ htrue => exact absurd htrue (by rw [hcode _ hreq]; decide)
  · next hlocked =>
    cases mmapLocked_spec h hlocked with
    | copy hreq _ htrue => exact absurd htrue (by rw [hcode _ hreq]; decide)

theorem end_add_le_of_mmap {args : MmapArgs} {ans : MmapAnswers} {v : ℕ}
    (h : nap.memMap.WellFormed) (hprot : args.prot &&& protExec = 0)
    (hrun : naclSysMmapIntern nap args ans = .ok (nap', .ok v)) :
    naclMapPageSize ∣ 2 ^ nap.space.addrBits ∧
      nap.dynamicTextEnd + naclMapPageSize ≤ 2 ^ nap.space.addrBits := by
  obtain ⟨hdvd, hpos, hbelow, hle, hend, hspace⟩ := placed_of_mmap h hprot hrun
  rw [hend] at hbelow
  rw [hspace] at hle
  have hlength := Nat.le_of_dvd hpos hdvd
  have htrunc := hbelow.trans (alignDown_le _ _)
  refine ⟨Nat.pow_dvd_pow 2 (not_lt.1 fun hshort => ?_), by omega⟩
  have hpow := Nat.pow_lt_pow_right one_lt_two hshort
  have hpage : naclMapPageSize = 2 ^ naclMapPageShift := rfl
  omega

theorem mapStack_ok {stackSize : ℕ} {ans : MmapAnswers}
    (hrun : mapStack nap stackSize ans = .ok nap') : ∃ startAddr,
      naclSysMmapIntern nap ⟨startAddr, stackSize, protReadWrite,
        mapPrivate ||| mapAnonymous ||| mapFixed, -1, 0⟩ ans = .ok (nap', .ok startAddr) := by
  unfold mapStack at hrun
  dsimp only at hrun
  split at hrun
  · cases hrun
  · cases hrun
  · next hmap =>
    split_ifs at hrun with haddr
    cases hrun
    exact ⟨_, haddr ▸ hmap⟩

theorem NaClApp.ImagePlaced.textSound {layout : AppLayout} {useShm : Bool}
    (himage : nap.ImagePlaced) (hloaded : nap.Loaded layout useShm)
    (hroom : nap.dynamicTextEnd + naclMapPageSize ≤ 2 ^ nap.space.addrBits) : nap.TextSound := by
  have hbits := addrBits_pow_le nap.space
  have hpage : naclMapPageSize = 65536 := rfl
  have hle := himage.start_le_end
  refine ⟨⟨himage.start_le, himage.dvd_start, ?_, himage.end_le, himage.breakAddr.le⟩, by omega,
    fun ret hret => ?_⟩
  · rw [hloaded.bitmap, Nat.div_mul_cancel (Nat.dvd_sub himage.dvd_end himage.dvd_start),
      Nat.add_sub_cancel' hle]
  · rw [hloaded.mapcache] at hret
    cases hret

/-- Once the protections of the image are applied, the map has an entry for the dynamic text, and
nothing is recorded behind the address space. -/
theorem mappingsSound_naclMemoryProtection {file : ElfFile} {maxCodeBytes stackSize : ℕ}
    {layout : AppLayout} {useShm : Bool} {ans : ProtectAnswers}
    (hlayout : naclAppLoadFileLayout file nap.space.addrBits maxCodeBytes = .ok layout)
    (hends : EndsBelowTop file.segments) (hloaded : nap.Loaded layout useShm)
    (hrun : naclMemoryProtection nap stackSize ans = .ok nap') : nap'.MappingsSound := by
  have himage := hloaded.imagePlaced (layoutPlaced hlayout hends)
  have hbits := addrBits_pow_le nap.space
  have hpage : naclMapPageSize = 65536 := rfl
  have htop := himage.dataEnd_le
  have hend := himage.end_le
  have hbreak := himage.breakAddr
  -- the map is well formed, wherever the image ends
  obtain ⟨nap₁, hrecorded, hstack, -⟩ := himage.recorded (t := 2 ^ 33) hloaded.memMap (by decide)
    (by omega) (fun hle => by omega) le_rfl hrun
  obtain ⟨addr, hmap⟩ := mapStack_ok hstack
  have hplaced := end_add_le_of_mmap hrecorded.wellFormed
    (by decide : protReadWrite &&& protExec = 0) hmap
  rw [show nap₁.space = nap.space by rw [hrecorded.eq],
    show nap₁.dynamicTextEnd = nap.dynamicTextEnd by rw [hrecorded.eq]] at hplaced
  obtain ⟨hdvd, hroom⟩ := hplaced
  -- and the stack fits behind it
  obtain ⟨nap₂, hrecorded, hstack, hentry⟩ := himage.recorded hloaded.memMap hdvd hroom id
    (by omega) hrun
  obtain ⟨addr, hmap⟩ := mapStack_ok hstack
  have htext := himage.textSound hloaded hroom
  have hempty := hloaded.regions
  refine NaClApp.MappingsSound.mmap ?_ hmap
  obtain ⟨heq, hwf, hle, hnull⟩ := hrecorded
  have hspace : nap₂.space = nap.space := by rw [heq]
  refine ⟨⟨?_, hwf⟩, fun ent he => ?_, hnull, fun hlt => ?_, ?_, fun region hregion => ?_⟩
  · rw [heq]
    exact ⟨⟨htext.layout.start_le, htext.layout.dvd_start, htext.layout.end_eq,
      htext.layout.end_le, htext.layout.dataEnd_le⟩, htext.end_lt, htext.mapcache⟩
  · refine AddressSpace.le_pages ?_
    rw [← Nat.add_mul, hspace]
    exact hle ent he
  · unfold NaClApp.IsTextEntry
    rw [show nap₂.dynamicTextStart = nap.dynamicTextStart by rw [heq],
      show nap₂.dynamicTextEnd = nap.dynamicTextEnd by rw [heq]] at hlt ⊢
    rw [show nap₂.dataEnd = nap.dataEnd by rw [heq]]
    exact ⟨(himage.static_le_start hlt).2, hentry hlt⟩
  · rw [show nap₂.text = nap.text by rw [heq]]
    refine ⟨?_, ?_, ?_⟩
    · rw [hempty]
      exact .nil
    · rw [hempty]
      exact fun _ hmem => absurd hmem List.not_mem_nil
    · rw [hempty]
      exact Nat.zero_le _
  · rw [show nap₂.text = nap.text by rw [heq], hempty] at hregion
    exact absurd hregion List.not_mem_nil

end Record

end SandboxingNaCl
