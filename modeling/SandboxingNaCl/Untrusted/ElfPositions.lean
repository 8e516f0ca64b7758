import SandboxingNaCl.Untrusted.DynSegments
import SandboxingNaCl.Untrusted.ElfLoader

/-!
# The positions of the reads

`my_pread` skips the `lseek` when the position it wants is where `pread_pos` says that the last read
has ended.  The code of a file that may not be mapped is read with a position of its own, and then
`pread_pos` is where the read of the headers has ended, but the descriptor is not.  Only the first
read after that can go wrong: each read that starts at the right position leaves the two the same.
-/

namespace SandboxingNaCl

open KeyedLoop

/-- All reads were from the positions that they were asked for. -/
def ElfFd.Right (fd : ElfFd) : Prop := ∀ r ∈ fd.reads, r.2 = r.1

/-- The next read starts where `pread_pos` says. -/
def ElfState.InStep (s : ElfState) : Prop := s.fd.filePos = s.preadPos

def ElfPhdr.hasPartial (ph : ElfPhdr) (loadBias : ℕ) : Bool :=
  ph.fileMapEnd loadBias < ph.lastPageEnd loadBias ∧ ph.fileMapEnd loadBias < ph.fileEnd loadBias

def ElfPhdr.partialLen (ph : ElfPhdr) (loadBias : ℕ) : ℕ :=
  ph.fileEnd loadBias - ph.fileMapEnd loadBias

def firstPartial (loadBias : ℕ) (l : List ElfPhdr) : Option ElfPhdr :=
  (loadHeaders l).find? (·.hasPartial loadBias)

def ElfPhdr.IsData (ph : ElfPhdr) : Prop := ph.pFlags &&& pfX = 0

instance (ph : ElfPhdr) : Decidable ph.IsData := inferInstanceAs (Decidable (_ = _))

section

variable {env : ElfEnv} {file bytes : List UInt8} {fd fd' : ElfFd} {s s' : ElfState}
  {n pos lastPos lastPos' : ℕ} {loadBias addr size : ℕ} {prot : BitVec 32} {offset : Option ℕ}
  {ph : ElfPhdr}

/-- What a read leaves behind. -/
structure ReadFrom (file : List UInt8) (fd : ElfFd) (n pos lastPos : ℕ) (bytes : List UInt8)
    (fd' : ElfFd) (lastPos' : ℕ) : Prop where
  bytes_eq : bytes = preadBytes file n (fd.startOf pos lastPos)
  length_eq : bytes.length = n
  fd_eq : fd' = ⟨fd.startOf pos lastPos + n, fd.reads ++ [(pos, fd.startOf pos lastPos)]⟩
  pos_eq : lastPos' = (pos + n) % 2 ^ 32

theorem readFrom_of_myPread (h : myPread file fd n pos lastPos = .ok (bytes, fd', lastPos')) :
    ReadFrom file fd n pos lastPos bytes fd' lastPos' := by
  unfold myPread at h
  dsimp only at h
  split_ifs at h with hlen
  cases h
  exact ⟨rfl, hlen, rfl, rfl⟩

namespace ReadFrom

variable (h : ReadFrom file fd n pos lastPos bytes fd' lastPos')

include h

theorem right_iff : fd'.Right ↔ fd.Right ∧ fd.startOf pos lastPos = pos := by
  rw [h.fd_eq]
  unfold ElfFd.Right
  simp only [List.forall_mem_append, List.forall_mem_singleton]

theorem end_le (hn : n ≠ 0) : fd.startOf pos lastPos + n ≤ file.length := by
  have hlen := h.length_eq
  rw [h.bytes_eq] at hlen
  have hlast := lt_length_of_preadBytes (j := n - 1) hlen (by omega)
  omega

theorem inStep (hfile : file.length < 2 ^ 32) (hn : n ≠ 0) (hpos : fd.startOf pos lastPos = pos) :
    fd'.filePos = lastPos' := by
  have hend := h.end_le hn
  rw [h.fd_eq, h.pos_eq, hpos]
  rw [hpos] at hend
  exact (Nat.mod_eq_of_lt (hend.trans_lt hfile)).symm

end ReadFrom

theorem prot_of_isData (h : ph.IsData) : protFromPhdr ph &&& protExec = 0 := by
  have hflag : ¬ ph.pFlags &&& pfX ≠ 0 := not_not.2 h
  unfold protFromPhdr elfFlagsToMmapFlags
  rw [if_neg hflag]
  split_ifs <;> decide

theorem myMmap_of_data (hprot : prot &&& protExec = 0) {code : Bool}
    (h : env.myMmap file s addr size prot offset code = .ok s') :
    ∃ memory, env.mmap file s.memory addr size prot offset = .ok memory ∧
      s' = { s with memory } := by
  unfold ElfEnv.myMmap at h
  cases hmap : env.mmap file s.memory addr size prot offset with
  | ok memory =>
    rw [hmap] at h
    exact ⟨memory, rfl, (Except.ok.inj h).symm⟩
  | error errno =>
    rw [hmap] at h
    have hnot : ¬ (errno = elfEinval ∧ prot &&& protExec ≠ 0) := fun hboth => hboth.2 hprot
    dsimp only at h
    rw [if_neg hnot] at h
    cases h

theorem fd_of_protectHole {s : ElfLoop} {t : ElfState} {start k : ℕ}
    (h : env.protectHole s start k = .ok t) :
    t.fd = s.state.fd ∧ t.preadPos = s.state.preadPos := by
  unfold ElfEnv.protectHole at h
  split_ifs at h
  all_goals
    cases h
    exact ⟨rfl, rfl⟩

/-- How a step moves the descriptor: a read of the last page of data, or nothing. -/
def Moves (file : List UInt8) (loadBias : ℕ) (ph : ElfPhdr) (s s' : ElfState) : Prop :=
  if ph.hasPartial loadBias = true then
    ∃ bytes, ReadFrom file s.fd (ph.partialLen loadBias) ph.partialPos s.preadPos bytes s'.fd
      s'.preadPos
  else s'.fd = s.fd ∧ s'.preadPos = s.preadPos

theorem moves_of_loadRest {s s' : ElfLoop} {k : ℕ} (hload : ph.pType = ptLoad) (hdata : ph.IsData)
    (h : env.loadRest file loadBias s (ph, k) = .ok s') :
    Moves file loadBias ph s.state s'.state := by
  have hprot := prot_of_isData hdata
  unfold ElfEnv.loadRest at h
  dsimp only at h
  rw [if_neg (not_not.2 hload)] at h
  obtain ⟨hole, hhole, h⟩ := bind_eq_ok.1 h
  obtain ⟨hfd, hpos⟩ := fd_of_protectHole hhole
  obtain ⟨mapped, hmapped, h⟩ := bind_eq_ok.1 h
  obtain ⟨last, hlast, h⟩ := bind_eq_ok.1 h
  cases h
  have hsame : mapped.fd = s.state.fd ∧ mapped.preadPos = s.state.preadPos := by
    split_ifs at hmapped
    · obtain ⟨memory, -, rfl⟩ := myMmap_of_data hprot hmapped
      exact ⟨hfd, hpos⟩
    · cases hmapped
      exact ⟨hfd, hpos⟩
  unfold Moves ElfPhdr.hasPartial
  by_cases hbss : ph.fileMapEnd loadBias < ph.lastPageEnd loadBias
  · rw [if_pos hbss] at hlast
    obtain ⟨_, -, hlast⟩ := bind_eq_ok.1 hlast
    obtain ⟨zeroed, hzeroed, hlast⟩ := bind_eq_ok.1 hlast
    obtain ⟨memory, -, rfl⟩ := myMmap_of_data hprot hzeroed
    by_cases hpart : ph.fileMapEnd loadBias < ph.fileEnd loadBias
    · rw [if_pos (decide_eq_true ⟨hbss, hpart⟩)]
      rw [if_pos hpart] at hlast
      obtain ⟨⟨bytes, fd, preadPos⟩, hread, hlast⟩ := bind_eq_ok.1 hlast
      obtain ⟨_, -, hlast⟩ := bind_eq_ok.1 hlast
      cases hlast
      have hfrom := readFrom_of_myPread hread
      rw [hsame.1, hsame.2] at hfrom
      exact ⟨bytes, hfrom⟩
    · rw [if_neg (by simp [hpart])]
      rw [if_neg hpart] at hlast
      cases hlast
      exact hsame
  · rw [if_neg (by simp [hbss])]
    rw [if_neg hbss] at hlast
    cases hlast
    exact hsame

end

/-! ## The loop -/

section

variable {env : ElfEnv} {file : List UInt8} {loadBias k : ℕ} {l : List ElfPhdr} {s s' : ElfLoop}

theorem loadRest_of_not_load {ph : ElfPhdr} (hload : ph.pType ≠ ptLoad)
    (h : env.loadRest file loadBias s (ph, k) = .ok s') : s' = s := by
  unfold ElfEnv.loadRest at h
  dsimp only at h
  rw [if_pos hload] at h
  exact (Except.ok.inj h).symm

theorem loadHeaders_cons_of_load {ph : ElfPhdr} (hload : ph.pType = ptLoad) :
    loadHeaders (ph :: l) = ph :: loadHeaders l := List.filter_cons_of_pos (by simpa using hload)

theorem loadHeaders_cons_of_not_load {ph : ElfPhdr} (hload : ph.pType ≠ ptLoad) :
    loadHeaders (ph :: l) = loadHeaders l := List.filter_cons_of_neg (by simpa using hload)

theorem reads_isPrefix (hdata : ∀ ph ∈ loadHeaders l, ph.IsData)
    (h : (l.zipIdx k).foldlM (env.loadRest file loadBias) s = .ok s') :
    s.state.fd.reads <+: s'.state.fd.reads := by
  induction l generalizing k s with
  | nil =>
    cases h
    exact List.prefix_rfl
  | cons ph l ih =>
    rw [List.zipIdx_cons, List.foldlM_cons] at h
    obtain ⟨t, ht, h⟩ := bind_eq_ok.1 h
    by_cases hload : ph.pType = ptLoad
    · rw [loadHeaders_cons_of_load hload, List.forall_mem_cons] at hdata
      refine List.IsPrefix.trans ?_ (ih hdata.2 h)
      have hmoves := moves_of_loadRest hload hdata.1 ht
      unfold Moves at hmoves
      split_ifs at hmoves
      · obtain ⟨bytes, hfrom⟩ := hmoves
        rw [hfrom.fd_eq]
        exact List.prefix_append ..
      · rw [hmoves.1]
    · rw [loadHeaders_cons_of_not_load hload] at hdata
      rw [loadRest_of_not_load hload ht] at h
      exact ih hdata h

theorem ElfFd.Right.of_isPrefix {fd fd' : ElfFd} (hpre : fd.reads <+: fd'.reads)
    (h : fd'.Right) : fd.Right := fun r hr => h r (hpre.subset hr)

theorem right_iff_of_run (hfile : file.length < 2 ^ 32)
    (hdata : ∀ ph ∈ loadHeaders l, ph.IsData)
    (h : (l.zipIdx k).foldlM (env.loadRest file loadBias) s = .ok s') :
    s'.state.fd.Right ↔ s.state.fd.Right ∧ (s.state.InStep ∨
      ∀ ph ∈ firstPartial loadBias l, ph.partialPos ≠ s.state.preadPos) := by
  induction l generalizing k s with
  | nil =>
    cases h
    exact (and_iff_left (Or.inr nofun)).symm
  | cons ph l ih =>
    rw [List.zipIdx_cons, List.foldlM_cons] at h
    obtain ⟨t, ht, h⟩ := bind_eq_ok.1 h
    unfold firstPartial at ih ⊢
    by_cases hload : ph.pType = ptLoad
    · rw [loadHeaders_cons_of_load hload] at hdata ⊢
      have hrest := ih (fun ph' hph' => hdata ph' (List.mem_cons_of_mem _ hph')) h
      have hmoves := moves_of_loadRest hload (hdata ph List.mem_cons_self) ht
      unfold Moves at hmoves
      by_cases hpart : ph.hasPartial loadBias = true
      · rw [if_pos hpart] at hmoves
        obtain ⟨bytes, hfrom⟩ := hmoves
        have hlen : ph.partialLen loadBias ≠ 0 := by
          have hlt := (of_decide_eq_true hpart).2
          unfold ElfPhdr.partialLen
          omega
        have hstart : s.state.fd.startOf ph.partialPos s.state.preadPos = ph.partialPos ↔
            s.state.InStep ∨ ph.partialPos ≠ s.state.preadPos := by
          unfold ElfFd.startOf ElfState.InStep
          split_ifs with hne
          · exact iff_of_true rfl (Or.inr hne)
          · rw [← not_not.1 hne]
            exact (or_iff_left (not_not.2 rfl)).symm
        have hfind : (ph :: loadHeaders l).find? (·.hasPartial loadBias) = some ph :=
          List.find?_cons_of_pos hpart
        rw [hfind, hrest, hfrom.right_iff, hstart, and_assoc]
        simp only [Option.mem_def, Option.some.injEq, forall_eq']
        refine and_congr_right fun _ => and_iff_left_of_imp fun hright => Or.inl ?_
        exact hfrom.inStep hfile hlen (hstart.2 hright)
      · rw [if_neg hpart] at hmoves
        have hfind : (ph :: loadHeaders l).find? (·.hasPartial loadBias) =
            (loadHeaders l).find? (·.hasPartial loadBias) := List.find?_cons_of_neg hpart
        rw [hfind, hrest]
        unfold ElfState.InStep
        rw [hmoves.1, hmoves.2]
    · rw [loadHeaders_cons_of_not_load hload] at hdata ⊢
      rw [loadRest_of_not_load hload ht] at h
      exact ih hdata h

end

end SandboxingNaCl
