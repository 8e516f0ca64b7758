import SandboxingNaCl.DebugStub.Packet
import SandboxingNaCl.Lib.RunLength

/-!
# Reading a packet

What successive calls of `GetRawChar` give for a payload: its run-length expansion, also after the
packet is read again from its start, and with `ParseSequence` of `packet.cc`.
-/

namespace SandboxingNaCl

/-- `':'`. -/
def colon : UInt8 := 0x3a

def nibbleToInt (ch : UInt8) : Option ℕ :=
  if 'a'.toNat ≤ ch.toNat ∧ ch.toNat ≤ 'f'.toNat then some (ch.toNat - 'a'.toNat + 10)
  else if 'A'.toNat ≤ ch.toNat ∧ ch.toNat ≤ 'F'.toNat then some (ch.toNat - 'A'.toNat + 10)
  else if '0'.toNat ≤ ch.toNat ∧ ch.toNat ≤ '9'.toNat then some (ch.toNat - '0'.toNat)
  else none

def getWord8 : PacketM (Option UInt8) := do
  let .char seq1 ← getRawChar | return none
  let .char seq2 ← getRawChar | return none
  match nibbleToInt seq1, nibbleToInt seq2 with
  | some val1, some val2 => return some (.ofNat (val1 * 16 + val2))
  | _, _ => return none

/-- `read_index_ = i`. -/
def setReadIndex (i : ℕ) : PacketM Unit := modify fun p => { p with readIndex := i }

def setSequence (val : ℤ) : PacketM Unit := modify fun p => { p with seq := val }

def parseSequence : PacketM Unit := do
  let savedReadIndex := (← get).readIndex
  match ← getWord8 with
  | some seq =>
    match ← getRawChar with
    | .char ch => if ch = colon then setSequence seq.toNat else setReadIndex savedReadIndex
    | _ => setReadIndex savedReadIndex
  | none => setReadIndex savedReadIndex

def addRawChars (payload : List UInt8) : PacketM Unit := payload.forM addRawChar

/-- `GetRawChar` until it fails; `none` if it does not fail so soon. -/
def readAll : ℕ → PacketM (Option (List UInt8))
  | 0 => return none
  | n + 1 => do
    let .char ch ← getRawChar | return some []
    return (← readAll n).map (ch :: ·)

/-- What a reader does with a packet. -/
inductive ReaderOp
  | getRawChar
  | rewind
  | parseSequence

def ReaderOp.run : ReaderOp → PacketM Unit
  | .getRawChar => do let _ ← SandboxingNaCl.getRawChar
  | .rewind => modify Packet.rewind
  | .parseSequence => SandboxingNaCl.parseSequence

def runCount (count : UInt8) : Option ℕ :=
  if charValue count - 28 < 3 then none else some ((charValue count - 28).toNat - 1)

/-- The run-length expansion of a payload, up to a run that is malformed. -/
def expansion (payload : List UInt8) : List UInt8 := RunLength.expand star runCount payload

/-- The number of characters of the sequence field at the start of some characters. -/
def sequenceLength (chars : List UInt8) : ℕ :=
  if ((chars[0]?.bind nibbleToInt).isSome && (chars[1]?.bind nibbleToInt).isSome) ∧
    chars[2]? = some colon then 3 else 0

namespace PacketView

/-- `out` is the expansion of the payload, and what has been read is expanded. -/
def Unread (out : List UInt8) (v : PacketView) : Prop :=
  ∃ before after, v.payload = before ++ after ∧ star ∉ before ∧ v.pos ≤ before.length ∧
    out = before ++ RunLength.expandAfter star runCount before.getLast? after

/-- `out` is the expansion of the payload, and the marker behind it has been read. -/
structure Failed (out : List UInt8) (v : PacketView) : Prop where
  clean : star ∉ out
  lt : out.length < v.pos
  stops : out = [] ∧ [star] <+: v.payload ∨ v.payload = out ++ [star] ∨
    ∃ count, runCount count = none ∧ out ++ [star, count] <+: v.payload

end PacketView

section

variable {v v' : PacketView} {out : List UInt8}

open PacketView RunLength

theorem runs_addRawChars (payload : List UInt8) (v : PacketView) :
    RunsTo (addRawChars payload) v () { v with payload := v.payload ++ payload } := by
  induction payload generalizing v with
  | nil =>
    rw [List.append_nil]
    exact RunsTo.pure () v
  | cons ch payload ih =>
    have h : RunsTo (addRawChars (ch :: payload)) v () _ := (runs_addRawChar ch v).seq (ih (v.add ch))
    rw [PacketView.add, List.append_assoc] at h
    exact h

theorem unread_start (payload : List UInt8) (seq : ℤ) :
    Unread (expansion payload) ⟨payload, 0, seq⟩ :=
  ⟨[], payload, rfl, List.not_mem_nil, Nat.le_refl 0, rfl⟩

theorem PacketView.next_of_none (h : v.payload[v.pos]? = none) : v.next = (.endOfPacket, v) := by
  simp only [next, h]

theorem PacketView.next_of_ne {ch : UInt8} (h : v.payload[v.pos]? = some ch) (hne : ch ≠ star) :
    v.next = (.char ch, { v with pos := v.pos + 1 }) := by
  simp only [next, h, hne, ne_eq, not_false_eq_true, if_true]

theorem PacketView.next_of_bad (h : v.payload[v.pos]? = some star)
    (hbad : v.pos = 0 ∨ v.payload[v.pos + 1]?.bind runCount = none) :
    v.next = (.badRun, { v with pos := v.pos + 1 }) := by
  simp only [next, h, ne_eq, not_true_eq_false, if_false]
  by_cases hpos : v.pos = 0
  · rw [if_pos hpos]
  · rw [if_neg hpos]
    have hcount := hbad.resolve_left hpos
    cases hlast : v.payload[v.pos - 1]? with
    | none => rfl
    | some last =>
      cases hnext : v.payload[v.pos + 1]? with
      | none => rfl
      | some count =>
        rw [hnext, Option.bind_some, runCount] at hcount
        split_ifs at hcount with hlt
        simp only [hlt, if_true]

theorem PacketView.next_of_run {before after : List UInt8} {last count : UInt8} {n : ℕ}
    (hpayload : v.payload = before ++ last :: star :: count :: after)
    (hpos : v.pos = before.length + 1) (hn : runCount count = some n) :
    2 ≤ n ∧ v.next = (.char last, { v with
      payload := before ++ List.replicate (n + 1) last ++ after
      pos := v.pos + 1 }) := by
  have hget (i : ℕ) : v.payload[before.length + i]? = (last :: star :: count :: after)[i]? := by
    rw [hpayload, List.getElem?_append_right (Nat.le_add_right _ _), Nat.add_sub_cancel_left]
  have htake : v.payload.take before.length = before := by
    rw [hpayload, List.take_left]
  have hdrop : v.payload.drop (before.length + 3) = after := by
    rw [hpayload, ← List.drop_drop, List.drop_left]
    rfl
  rw [runCount] at hn
  split_ifs at hn with hlt
  cases hn
  have hsucc : (charValue count - 28).toNat - 1 + 1 = (charValue count - 28).toNat := by omega
  refine ⟨by omega, ?_⟩
  simp only [next, hpos, hget 1, Nat.add_sub_cancel, hget 2, Nat.add_assoc before.length 1, htake, hdrop,
    hsucc]
  have hlast : v.payload[before.length]? = some last := hget 0
  simp [hlast, hlt]

theorem PacketView.Unread.next (h : Unread out v) :
    (∃ ch, out[v.pos]? = some ch ∧ v.next.1 = .char ch ∧ Unread out v.next.2 ∧
      v.next.2.pos = v.pos + 1) ∨
    out[v.pos]? = none ∧ (∀ ch, v.next.1 ≠ .char ch) ∧ v.pos ≤ v.next.2.pos ∧
      (Unread out v.next.2 ∨ Failed out v.next.2) := by
  obtain ⟨before, after, hpayload, hclean, hpos, hout⟩ := h
  rcases Nat.lt_or_eq_of_le hpos with hlt | heq
  · -- The character has been expanded before.
    have hch : v.payload[v.pos]? = some before[v.pos] := by
      rw [hpayload, List.getElem?_append_left hlt, List.getElem?_eq_getElem hlt]
    have hne : before[v.pos] ≠ star := fun h => hclean (h ▸ List.getElem_mem hlt)
    rw [next_of_ne hch hne]
    refine Or.inl ⟨before[v.pos], ?_, rfl, ⟨before, after, hpayload, hclean, hlt, hout⟩, rfl⟩
    rw [hout, List.getElem?_append_left hlt, List.getElem?_eq_getElem hlt]
  · have hout' : out[v.pos]? = (expandAfter star runCount before.getLast? after)[0]? := by
      rw [hout, heq, List.getElem?_append_right le_rfl, Nat.sub_self]
    have hnext' (i : ℕ) : v.payload[v.pos + i]? = after[i]? := by
      rw [hpayload, heq, List.getElem?_append_right (Nat.le_add_right _ _), Nat.add_sub_cancel_left]
    cases after with
    | nil =>
      rw [next_of_none (hnext' 0)]
      refine Or.inr ⟨hout', nofun, le_rfl, Or.inl ⟨before, [], hpayload, hclean, hpos, hout⟩⟩
    | cons ch after =>
      by_cases hstar : ch = star
      · subst hstar
        -- The run is malformed, and nothing is given for it, or it is expanded.
        have hfail (hbad : v.pos = 0 ∨ v.payload[v.pos + 1]?.bind runCount = none)
            (hnil : expandAfter star runCount before.getLast? (star :: after) = [])
            (hstops : before = [] ∧ [star] <+: v.payload ∨ v.payload = before ++ [star] ∨
              ∃ count, runCount count = none ∧ before ++ [star, count] <+: v.payload) :
            out[v.pos]? = none ∧ (∀ ch, v.next.1 ≠ .char ch) ∧ v.pos ≤ v.next.2.pos ∧
              (Unread out v.next.2 ∨ Failed out v.next.2) := by
          rw [hnil, List.append_nil] at hout
          subst hout
          rw [next_of_bad (hnext' 0) hbad, heq]
          exact ⟨List.getElem?_eq_none le_rfl, nofun, Nat.le_succ _,
            Or.inr ⟨hclean, Nat.lt_succ_self _, hstops⟩⟩
        rcases List.eq_nil_or_concat' before with rfl | ⟨before, last, rfl⟩
        · refine Or.inr (hfail (Or.inl heq) expandAfter_none_marker (Or.inl ⟨rfl, ?_⟩))
          rw [hpayload]
          exact ⟨after, rfl⟩
        · cases after with
          | nil =>
            refine Or.inr (hfail (Or.inr ?_) expandAfter_marker_nil (Or.inr (Or.inl hpayload)))
            rw [hnext' 1]
            rfl
          | cons count after =>
            cases hcount : runCount count with
            | none =>
              refine Or.inr (hfail (Or.inr ?_) (expandAfter_bad hcount) (Or.inr (Or.inr
                ⟨count, hcount, ?_⟩)))
              · rw [hnext' 1]
                exact hcount
              · rw [hpayload]
                exact ⟨after, by simp⟩
            | some n =>
              rw [List.append_assoc, List.singleton_append] at hpayload
              rw [List.length_append, List.length_singleton] at heq
              obtain ⟨htwo, hnext⟩ := next_of_run hpayload heq hcount
              have hlast : last ≠ star := fun h => hclean (by simp [h])
              rw [List.getLast?_concat, expandAfter_run hcount] at hout hout'
              rw [hnext]
              refine Or.inl ⟨last, ?_, rfl, ⟨before ++ List.replicate (n + 1) last, after, rfl, ?_,
                ?_, ?_⟩, rfl⟩
              · have hlt : 0 < (List.replicate n last).length := by
                  rw [List.length_replicate]
                  omega
                rw [hout', List.getElem?_append_left hlt, List.getElem?_replicate,
                  if_pos (by omega)]
              · simp only [List.mem_append, List.mem_replicate, not_or] at hclean ⊢
                exact ⟨hclean.1, fun h => hlast h.2.symm⟩
              · rw [List.length_append, List.length_replicate]
                simp only [heq]
                omega
              · have hend : (before ++ List.replicate (n + 1) last).getLast? = some last := by
                  rw [List.replicate_succ', ← List.append_assoc, List.getLast?_concat]
                rw [hend, hout, List.replicate_succ]
                simp only [List.append_assoc, List.cons_append, List.nil_append]
      · rw [next_of_ne (hnext' 0) hstar]
        rw [expandAfter_cons_of_ne hstar] at hout hout'
        refine Or.inl ⟨ch, hout', rfl, ⟨before ++ [ch], after, ?_, ?_, ?_, ?_⟩, rfl⟩
        · rw [hpayload, List.append_assoc, List.singleton_append]
        · simpa [hclean] using Ne.symm hstar
        · rw [List.length_append, heq]
          rfl
        · rw [hout, List.getLast?_concat, List.append_assoc, List.singleton_append]

theorem PacketView.next_payload (v : PacketView) : v.pos ≤ v.next.2.pos ∧
    (v.next.2.payload = v.payload ∨
      v.payload[v.pos]? = some star ∧ ∃ tail, v.next.2.payload = v.payload.take v.pos ++ tail) := by
  cases hch : v.payload[v.pos]? with
  | none =>
    rw [next_of_none hch]
    exact ⟨le_rfl, Or.inl rfl⟩
  | some ch =>
    by_cases hstar : ch = star
    · subst hstar
      by_cases hbad : v.pos = 0 ∨ v.payload[v.pos + 1]?.bind runCount = none
      · rw [next_of_bad hch hbad]
        exact ⟨Nat.le_succ _, Or.inl rfl⟩
      · obtain ⟨hpos, hcount⟩ := not_or.1 hbad
        obtain ⟨n, hn⟩ := Option.ne_none_iff_exists'.1 hcount
        obtain ⟨count, hget, hrun⟩ := Option.bind_eq_some_iff.1 hn
        obtain ⟨hlt, -⟩ := List.getElem?_eq_some_iff.1 hch
        have hlast : v.payload[v.pos - 1]? = some v.payload[v.pos - 1] := List.getElem?_eq_getElem _
        have hlength : (v.payload.take (v.pos - 1)).length = v.pos - 1 := by
          rw [List.length_take]
          omega
        have hsplit := eq_append_run hpos hlast hch hget
        have hnext := (next_of_run hsplit (by omega) hrun).2
        have htake : v.payload.take v.pos = v.payload.take (v.pos - 1) ++ [v.payload[v.pos - 1]] := by
          conv_lhs => rw [← Nat.sub_add_cancel (Nat.pos_of_ne_zero hpos)]
          exact List.take_succ_eq_append_getElem _
        rw [hnext]
        refine ⟨Nat.le_succ _, Or.inr ⟨rfl, List.replicate n v.payload[v.pos - 1] ++
          v.payload.drop (v.pos + 2), ?_⟩⟩
        rw [htake, List.replicate_succ]
        simp only [List.append_assoc, List.cons_append, List.nil_append]
    · rw [next_of_ne hch hstar]
      exact ⟨Nat.le_succ _, Or.inl rfl⟩

theorem PacketView.Failed.next (h : Failed out v) : Failed out v.next.2 := by
  obtain ⟨hle, hpayload⟩ := v.next_payload
  refine ⟨h.clean, h.lt.trans_le hle, ?_⟩
  rcases hpayload with hsame | ⟨hstar, tail, htail⟩
  · rw [hsame]
    exact h.stops
  · have hlt := h.lt
    have hkept {chars : List UInt8} (hchars : chars <+: v.payload) (hlength : chars.length ≤ v.pos) :
        chars <+: v.next.2.payload := by
      rw [htail]
      exact (List.prefix_take_iff.2 ⟨hchars, hlength⟩).trans (List.prefix_append _ _)
    rcases h.stops with ⟨hnil, hmarker⟩ | hend | ⟨count, hcount, hmarker⟩
    · refine Or.inl ⟨hnil, hkept hmarker ?_⟩
      rw [List.length_singleton]
      omega
    · obtain ⟨hpos, -⟩ := List.getElem?_eq_some_iff.1 hstar
      rw [hend, List.length_append, List.length_singleton] at hpos
      omega
    · refine Or.inr (Or.inr ⟨count, hcount, hkept hmarker ?_⟩)
      -- The count of a malformed run is no marker.
      have hne : v.pos ≠ out.length + 1 := fun hpos => by
        obtain ⟨rest, hrest⟩ := hmarker
        rw [← hrest, hpos, List.append_assoc, List.getElem?_append_right (Nat.le_succ _)] at hstar
        simp only [Nat.succ_eq_add_one, Nat.add_sub_cancel_left] at hstar
        obtain rfl : count = star := Option.some.inj hstar
        exact absurd hcount (by decide)
      rw [List.length_append]
      simp only [List.length_cons, List.length_nil]
      omega

theorem PacketView.Failed.exists_after (h : Failed out v) : ∃ after, v.payload = out ++ after ∧
    expandAfter star runCount out.getLast? after = [] := by
  rcases h.stops with ⟨rfl, after, hpayload⟩ | hpayload | ⟨count, hcount, after, hpayload⟩
  · exact ⟨star :: after, hpayload.symm, expandAfter_none_marker⟩
  · exact ⟨[star], hpayload, expandAfter_marker_nil⟩
  · refine ⟨star :: count :: after, ?_, expandAfter_bad hcount⟩
    rw [← hpayload, List.append_assoc]
    rfl

/-- `out` is what a reader of the packet is given. -/
def PacketView.GivenBy (out : List UInt8) (v : PacketView) : Prop := Unread out v ∨ Failed out v

theorem PacketView.GivenBy.next (h : GivenBy out v) : GivenBy out v.next.2 := by
  rcases h with h | h
  · rcases h.next with ⟨ch, -, -, h, -⟩ | ⟨-, -, -, h⟩
    · exact Or.inl h
    · exact h
  · exact Or.inr h.next

theorem PacketView.GivenBy.setPos (h : GivenBy out v) {pos : ℕ} (hpos : pos ≤ v.pos) :
    GivenBy out { v with pos := pos } ∧ (pos = 0 → Unread out { v with pos := pos }) := by
  rcases h with ⟨before, after, hpayload, hclean, hle, hout⟩ | h
  · have hunread : Unread out { v with pos := pos } :=
      ⟨before, after, hpayload, hclean, hpos.trans hle, hout⟩
    exact ⟨Or.inl hunread, fun _ => hunread⟩
  · obtain ⟨after, hpayload, hnil⟩ := h.exists_after
    have hunread (hle : pos ≤ out.length) : Unread out { v with pos := pos } :=
      ⟨out, after, hpayload, h.clean, hle, by rw [hnil, List.append_nil]⟩
    refine ⟨?_, fun hzero => hunread (by omega)⟩
    rcases Nat.lt_or_ge out.length pos with hlt | hle
    · exact Or.inr ⟨h.clean, hlt, h.stops⟩
    · exact Or.inl (hunread hle)

/-! ## Programs that read -/

namespace PacketView

/-- `GetWord8` on the payload. -/
def word8 (v : PacketView) : Option UInt8 × PacketView :=
  match v.next with
  | (.char seq1, v) =>
    match v.next with
    | (.char seq2, v) =>
      match nibbleToInt seq1, nibbleToInt seq2 with
      | some val1, some val2 => (some (.ofNat (val1 * 16 + val2)), v)
      | _, _ => (none, v)
    | (_, v) => (none, v)
  | (_, v) => (none, v)

/-- `ParseSequence` on the payload. -/
def parseSequence (v : PacketView) : PacketView :=
  match v.word8 with
  | (some seq, v') =>
    match v'.next with
    | (.char ch, v'') =>
      if ch = colon then { v'' with seq := seq.toNat } else { v'' with pos := v.pos }
    | (_, v'') => { v'' with pos := v.pos }
  | (none, v') => { v' with pos := v.pos }

end PacketView

theorem runs_getWord8 (v : PacketView) : RunsTo getWord8 v v.word8.1 v.word8.2 := by
  unfold getWord8 word8
  refine (runs_getRawChar v).bind ?_
  obtain ⟨raw, v'⟩ := v.next
  cases raw with
  | badRun => exact RunsTo.pure none v'
  | endOfPacket => exact RunsTo.pure none v'
  | char seq1 =>
    refine (runs_getRawChar v').bind ?_
    simp only
    obtain ⟨raw, v''⟩ := v'.next
    cases raw with
    | badRun => exact RunsTo.pure none v''
    | endOfPacket => exact RunsTo.pure none v''
    | char seq2 =>
      simp only
      cases nibbleToInt seq1 with
      | none => exact RunsTo.pure none v''
      | some val1 =>
        cases nibbleToInt seq2 with
        | none => exact RunsTo.pure none v''
        | some val2 => exact RunsTo.pure _ v''

theorem RunsTo.get_bind {α : Type} {f : Packet → PacketM α} {a : α}
    (h : ∀ p : Packet, p.Shows v → RunsTo (f p) v a v') : RunsTo (get >>= f) v a v' :=
  fun p hp => h p hp p hp

theorem runs_setReadIndex {pos : ℕ} (h : pos ≤ v.pos) :
    RunsTo (setReadIndex pos) v () { v with pos := pos } :=
  fun _ hp => ⟨_, rfl, hp.seq, rfl, hp.writeIndex, h.trans hp.pos_le, hp.data⟩

theorem runs_setSequence (val : ℤ) (v : PacketView) : RunsTo (setSequence val) v () { v with seq := val } :=
  fun _ hp => ⟨_, rfl, rfl, hp.readIndex, hp.writeIndex, hp.pos_le, hp.data⟩

theorem PacketView.pos_le_next (v : PacketView) : v.pos ≤ v.next.2.pos := v.next_payload.1

theorem PacketView.pos_le_word8 (v : PacketView) : v.pos ≤ v.word8.2.pos := by
  have hfirst := v.pos_le_next
  have hsecond := v.next.2.pos_le_next
  unfold word8
  split
  · next seq1 v' hv =>
    rw [hv] at hfirst hsecond
    split
    · next seq2 v'' hv' =>
      rw [hv'] at hsecond
      split <;> exact hfirst.trans hsecond
    · next v'' _ hv' =>
      rw [hv'] at hsecond
      exact hfirst.trans hsecond
  · next v' _ hv =>
    rw [hv] at hfirst
    exact hfirst

theorem runs_parseSequence (v : PacketView) : RunsTo parseSequence v () v.parseSequence := by
  unfold parseSequence PacketView.parseSequence
  refine RunsTo.get_bind fun p hp => ?_
  rw [hp.readIndex]
  have hword := v.pos_le_word8
  refine (runs_getWord8 v).bind ?_
  generalize v.word8 = word at hword ⊢
  obtain ⟨seq, v'⟩ := word
  cases seq with
  | none => exact runs_setReadIndex hword
  | some seq =>
    have hnext : v.pos ≤ v'.next.2.pos := hword.trans v'.pos_le_next
    refine (runs_getRawChar v').bind ?_
    simp only
    generalize v'.next = read at hnext ⊢
    obtain ⟨raw, v''⟩ := read
    cases raw with
    | badRun => exact runs_setReadIndex hnext
    | endOfPacket => exact runs_setReadIndex hnext
    | char ch =>
      simp only
      split_ifs
      · exact runs_setSequence _ v''
      · exact runs_setReadIndex hnext

/-! ## What a reader is given -/

theorem PacketView.GivenBy.word8 (h : GivenBy out v) : GivenBy out v.word8.2 := by
  have hfirst := h.next
  have hsecond := hfirst.next
  unfold PacketView.word8
  split
  · next seq1 v' hv =>
    rw [hv] at hfirst hsecond
    split
    · next seq2 v'' hv' =>
      rw [hv'] at hsecond
      split <;> exact hsecond
    · next v'' _ hv' =>
      rw [hv'] at hsecond
      exact hsecond
  · next v' _ hv =>
    rw [hv] at hfirst
    exact hfirst

theorem PacketView.GivenBy.setSeq (h : GivenBy out v) (seq : ℤ) : GivenBy out { v with seq := seq } := by
  rcases h with ⟨before, after, hpayload, hclean, hle, hout⟩ | h
  · exact Or.inl ⟨before, after, hpayload, hclean, hle, hout⟩
  · exact Or.inr ⟨h.clean, h.lt, h.stops⟩

theorem PacketView.GivenBy.parseSequence (h : GivenBy out v) : GivenBy out v.parseSequence := by
  have hword := h.word8
  have hle := v.pos_le_word8
  unfold PacketView.parseSequence
  generalize v.word8 = word at hword hle ⊢
  obtain ⟨seq, v'⟩ := word
  cases seq with
  | none => exact (hword.setPos hle).1
  | some seq =>
    have hgiven : GivenBy out v'.next.2 := hword.next
    have hpos : v.pos ≤ v'.next.2.pos := hle.trans v'.pos_le_next
    simp only
    generalize v'.next = read at hgiven hpos ⊢
    obtain ⟨raw, v''⟩ := read
    cases raw with
    | badRun => exact (hgiven.setPos hpos).1
    | endOfPacket => exact (hgiven.setPos hpos).1
    | char ch =>
      simp only
      split_ifs
      · exact hgiven.setSeq _
      · exact (hgiven.setPos hpos).1

/-- What an operation does to the payload. -/
def ReaderOp.on : ReaderOp → PacketView → PacketView
  | .getRawChar, v => v.next.2
  | .rewind, v => { v with pos := 0 }
  | .parseSequence, v => v.parseSequence

theorem ReaderOp.runs (op : ReaderOp) (v : PacketView) : RunsTo op.run v () (op.on v) := by
  cases op with
  | getRawChar => exact (runs_getRawChar v).bind (RunsTo.pure () _)
  | rewind => exact fun p hp => ⟨p.rewind, rfl, hp.rewind⟩
  | parseSequence => exact runs_parseSequence v

theorem ReaderOp.givenBy (op : ReaderOp) (h : GivenBy out v) : GivenBy out (op.on v) := by
  cases op with
  | getRawChar => exact h.next
  | rewind => exact (h.setPos (Nat.zero_le _)).1
  | parseSequence => exact h.parseSequence

theorem exists_runs_forM (ops : List ReaderOp) (h : GivenBy out v) :
    ∃ v', RunsTo (ops.forM ReaderOp.run) v () v' ∧ GivenBy out v' := by
  induction ops generalizing v with
  | nil => exact ⟨v, RunsTo.pure () v, h⟩
  | cons op ops ih =>
    obtain ⟨v', hruns, hgiven⟩ := ih (op.givenBy h)
    exact ⟨v', (op.runs v).bind hruns, hgiven⟩

theorem exists_runs_readAll (n : ℕ) (h : Unread out v) (hn : out.length - v.pos < n) :
    ∃ v', RunsTo (readAll n) v (some (out.drop v.pos)) v' := by
  induction n generalizing v with
  | zero => omega
  | succ n ih =>
    unfold readAll
    have hread := runs_getRawChar v
    rcases h.next with ⟨ch, hch, hnext, hunread, hpos⟩ | ⟨hnone, hnext, -, -⟩
    · obtain ⟨hlt, hget⟩ := List.getElem?_eq_some_iff.1 hch
      obtain ⟨v', hrest⟩ := ih hunread (by omega)
      rw [hnext] at hread
      rw [List.drop_eq_getElem_cons hlt, hget, ← hpos]
      exact ⟨v', hread.bind (hrest.bind (RunsTo.pure _ v'))⟩
    · rw [List.drop_eq_nil_of_le (List.getElem?_eq_none_iff.1 hnone)]
      refine ⟨v.next.2, hread.bind ?_⟩
      cases hraw : v.next.1 with
      | char ch => exact absurd hraw (hnext ch)
      | badRun => exact RunsTo.pure _ _
      | endOfPacket => exact RunsTo.pure _ _

theorem PacketView.word8_of_first (h : ∀ ch, v.next.1 ≠ .char ch) : v.word8.1 = none := by
  unfold word8
  split
  · next seq1 v' hv => exact absurd (congrArg Prod.fst hv) (h seq1)
  · rfl

theorem PacketView.word8_of_char {seq1 : UInt8} (h : v.next.1 = .char seq1) : v.word8 =
    match v.next.2.next with
    | (.char seq2, v') =>
      match nibbleToInt seq1, nibbleToInt seq2 with
      | some val1, some val2 => (some (.ofNat (val1 * 16 + val2)), v')
      | _, _ => (none, v')
    | (_, v') => (none, v') := by
  unfold word8
  generalize v.next = read at h ⊢
  obtain ⟨raw, v'⟩ := read
  cases h
  rfl

theorem PacketView.pos_parseSequence_of_none (h : v.word8.1 = none) :
    v.parseSequence.pos = v.pos := by
  unfold PacketView.parseSequence
  generalize v.word8 = word at h ⊢
  obtain ⟨seq, v'⟩ := word
  cases h
  rfl

theorem PacketView.pos_parseSequence_of_word {seq : UInt8} (h : v.word8 = (some seq, v')) :
    v.parseSequence.pos = if v'.next.1 = .char colon then v'.next.2.pos else v.pos := by
  unfold PacketView.parseSequence
  rw [h]
  simp only
  generalize v'.next = read
  obtain ⟨raw, v''⟩ := read
  cases raw with
  | badRun => rfl
  | endOfPacket => rfl
  | char ch => by_cases hch : ch = colon <;> simp [hch]

theorem pos_parseSequence (h : Unread out v) (hpos : v.pos = 0) :
    v.parseSequence.pos = sequenceLength out := by
  unfold sequenceLength
  rcases h.next with ⟨ch1, hch1, hnext1, hunread1, hpos1⟩ | ⟨hnone, hnext, -, -⟩
  · rw [hpos] at hch1 hpos1
    rcases hunread1.next with ⟨ch2, hch2, hnext2, hunread2, hpos2⟩ | ⟨hnone, hnext, -, -⟩
    · rw [hpos1] at hch2 hpos2
      have hword := word8_of_char hnext1
      generalize v.next.2.next = read at hword hnext2 hunread2 hpos2
      obtain ⟨raw, v'⟩ := read
      cases hnext2
      simp only at hword hunread2 hpos2
      cases hnib1 : nibbleToInt ch1 with
      | none =>
        rw [hnib1] at hword
        rw [pos_parseSequence_of_none (congrArg Prod.fst hword), hpos]
        simp [hch1, hnib1]
      | some val1 =>
        cases hnib2 : nibbleToInt ch2 with
        | none =>
          rw [hnib1, hnib2] at hword
          rw [pos_parseSequence_of_none (congrArg Prod.fst hword), hpos]
          simp [hch2, hnib2]
        | some val2 =>
          rw [hnib1, hnib2] at hword
          rw [pos_parseSequence_of_word hword, hpos]
          simp only [hch1, hch2, Option.bind_some, hnib1, hnib2, Option.isSome_some, Bool.and_self,
            true_and]
          rcases hunread2.next with ⟨ch3, hch3, hnext3, -, hpos3⟩ | ⟨hnone, hnext3, -, -⟩
          · rw [hpos2] at hch3 hpos3
            rw [hch3, hnext3, hpos3]
            simp
          · rw [hpos2] at hnone
            rw [hnone, if_neg (hnext3 colon)]
            rfl
    · rw [hpos1] at hnone
      have hnone' : v.word8.1 = none := by
        rw [word8_of_char hnext1]
        split
        · next seq2 v' hv => exact absurd (congrArg Prod.fst hv) (hnext seq2)
        · rfl
      rw [pos_parseSequence_of_none hnone', hpos, hnone]
      simp
  · rw [hpos] at hnone
    rw [pos_parseSequence_of_none (word8_of_first hnext), hpos, hnone]
    rfl

theorem parseSequence_of_unread (h : Unread out v) (hpos : v.pos = 0) :
    Unread out v.parseSequence ∧ v.parseSequence.pos = sequenceLength out := by
  have heq := pos_parseSequence h hpos
  refine ⟨?_, heq⟩
  have hgiven : GivenBy out v := Or.inl h
  rcases hgiven.parseSequence with hunread | hfailed
  · exact hunread
  · -- The characters of the field would have been given.
    have hlt := hfailed.lt
    rw [heq, sequenceLength] at hlt
    split_ifs at hlt with hfield
    · obtain ⟨hlt', -⟩ := List.getElem?_eq_some_iff.1 hfield.2
      omega
    · omega

/-- For every payload and whatever has been done with the packet, it is read as the payload's
expansion when it is read from its start, less the sequence field when that has been parsed. -/
theorem readAll_eq_expansion (payload : List UInt8) (ops : List ReaderOp) (n : ℕ) :
    ∃ p, (addRawChars payload >>= fun _ => ops.forM ReaderOp.run) .new = .ok ((), p) ∧
      (∃ p', readAll ((expansion payload).length + 1 + n) p.rewind =
        .ok (some (expansion payload), p')) ∧
      ∃ p', (parseSequence >>= fun _ => readAll ((expansion payload).length + 1 + n)) p.rewind =
        .ok (some ((expansion payload).drop (sequenceLength (expansion payload))), p') := by
  obtain ⟨v, hops, hgiven⟩ := exists_runs_forM ops (Or.inl (unread_start payload (-1)))
  have hwrite : RunsTo (addRawChars payload) ⟨[], 0, -1⟩ () ⟨payload, 0, -1⟩ :=
    runs_addRawChars payload _
  obtain ⟨p, hp, hshows⟩ := (hwrite.seq hops) .new shows_new
  have hunread := (hgiven.setPos (Nat.zero_le v.pos)).2 rfl
  refine ⟨p, hp, ?_, ?_⟩
  · obtain ⟨v', hread⟩ := exists_runs_readAll _ hunread
      (show (expansion payload).length - 0 < (expansion payload).length + 1 + n by omega)
    obtain ⟨p', hp', -⟩ := hread p.rewind hshows.rewind
    exact ⟨p', hp'⟩
  · obtain ⟨hparsed, hpos⟩ := parseSequence_of_unread hunread rfl
    obtain ⟨v', hread⟩ := exists_runs_readAll ((expansion payload).length + 1 + n) hparsed (by omega)
    rw [hpos] at hread
    obtain ⟨p', hp', -⟩ := ((runs_parseSequence _).seq hread) p.rewind hshows.rewind
    exact ⟨p', hp'⟩

end

end SandboxingNaCl
