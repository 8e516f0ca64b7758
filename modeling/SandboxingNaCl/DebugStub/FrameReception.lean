import SandboxingNaCl.DebugStub.Session

/-!
# Frames on the way to the debug stub

A receiver of frames `$payload#hh` that answers each by its checksum alone, and when `GetPacket` does
as it does; and when a packet that `SendPacketOnly` has written out arrives as it was.
-/

namespace SandboxingNaCl

open PacketView

/-- Where the receiver is in a stream. -/
inductive FramePoint
  | between
  | data (payload : List UInt8)
  | trailer (payload : List UInt8)
  | lastTrailer (payload : List UInt8) (first : UInt8)

/-- What the receiver has with one more character. -/
inductive FrameStep
  | next (point : FramePoint)
  /-- A frame with the characters behind its `#`. -/
  | frame (payload : List UInt8) (first last : UInt8)

/-- The characters behind the `#` are hex digits, and say the sum of the payload. -/
def ChecksumMatches (payload : List UInt8) (first last : UInt8) : Prop :=
  ∃ hi ∈ nibbleToInt first, ∃ lo ∈ nibbleToInt last, hi * 16 + lo = payload.sum.toNat

instance (payload : List UInt8) (first last : UInt8) : Decidable (ChecksumMatches payload first last) :=
  inferInstanceAs (Decidable (∃ hi ∈ nibbleToInt first, ∃ lo ∈ nibbleToInt last,
    hi * 16 + lo = payload.sum.toNat))

/-- The packet of a frame: the sequence number is the one at the start of the payload, if there is
one. -/
def framePacket (payload : List UInt8) : PacketView := PacketView.parseSequence ⟨payload, 0, -1⟩

def carriedSequence (payload : List UInt8) : ℤ := (framePacket payload).seq

namespace FramePoint

def read : FramePoint → UInt8 → FrameStep
  | between, ch => .next (if ch = dollar then data [] else between)
  | data payload, ch =>
    .next (if ch = hash then trailer payload else if ch = dollar then data [] else data (payload ++ [ch]))
  | trailer payload, ch => .next (lastTrailer payload ch)
  | lastTrailer payload first, ch => .frame payload first ch

/-- The calls of the transport, and the payload of the frame that is accepted. -/
def receive : FramePoint → List UInt8 → List WireEvent × Option (List UInt8)
  | _, [] => ([], none)
  | point, ch :: stream =>
    match point.read ch with
    | .next point => (.read ch :: (receive point stream).1, (receive point stream).2)
    | .frame payload first last =>
      if ChecksumMatches payload first last then
        ([.read ch, .write (acknowledgement (carriedSequence payload))], some payload)
      else (.read ch :: .write [minus] :: (receive between stream).1, (receive between stream).2)

end FramePoint

/-- The results of the receiver: its calls of the transport, success if there is a frame that is
accepted and the acknowledgement can be written, and the packet of that frame. -/
def Receives (canWrite : Bool) (stream : List UInt8) (r : List WireEvent × Bool) (p : Packet) : Prop :=
  r.1 = (FramePoint.between.receive stream).1 ∧
    r.2 = ((FramePoint.between.receive stream).2.isSome && canWrite) ∧
    ∀ payload ∈ (FramePoint.between.receive stream).2, p.Shows (framePacket payload)

/-! ## When `GetPacket` does the same -/

/-- What `GetPacket` takes the characters behind the `#` for. -/
def readChecksum (stale first last : UInt8) : UInt8 :=
  nibbleOr stale first <<< 4 ||| nibbleOr (nibbleOr stale first) last

/-- Up to the next `$` there is no `#` with two characters behind it. -/
def Quiet : List UInt8 → Prop
  | [] => True
  | ch :: stream => ch = dollar ∨ if ch = hash then stream.length < 2 else Quiet stream

/-- The sequence number in the packet after a frame: the one before stays if the frame carries none. -/
def keptSequence (payload : List UInt8) (seq : ℤ) : ℤ :=
  if carriedSequence payload = -1 then seq else carriedSequence payload

/-- The frame that is accepted carries a sequence number, or the packet has none from before; what
`GetPacket` takes for the checksum of a frame that is not accepted is wrong, also where it is no number;
and behind such a frame nothing looks like the end of one before the next has begun. -/
def FramesInOrder (stale : ℕ → UInt8) : FramePoint → List UInt8 → ℤ → Prop
  | _, [], _ => True
  | point, ch :: stream, seq =>
    match point.read ch with
    | .next point => FramesInOrder stale point stream seq
    | .frame payload first last =>
      if ChecksumMatches payload first last then carriedSequence payload ≠ -1 ∨ seq = -1
      else readChecksum (stale (stream.length + 1)) first last ≠ payload.sum ∧ Quiet stream ∧
        FramesInOrder stale .between stream (keptSequence payload seq)

/-! ## The sequence number of a packet -/

section

variable {v : PacketView} {s : Session} {canWrite : Bool} {stale : ℕ → UInt8} {stream : List UInt8}
  {payload : List UInt8} {seq : ℤ} {ch first last : UInt8}

theorem PacketView.next_setSeq (v : PacketView) (seq : ℤ) :
    next { v with seq := seq } = (v.next.1, { v.next.2 with seq := seq }) := by
  unfold next
  simp only
  split
  · rfl
  · split_ifs
    · rfl
    · rfl
    · split
      · split_ifs <;> rfl
      · rfl

theorem PacketView.word8_setSeq (v : PacketView) (seq : ℤ) :
    word8 { v with seq := seq } = (v.word8.1, { v.word8.2 with seq := seq }) := by
  unfold word8
  rw [next_setSeq]
  obtain ⟨raw, v'⟩ := v.next
  cases raw with
  | badRun => rfl
  | endOfPacket => rfl
  | char seq1 =>
    simp only
    rw [next_setSeq]
    obtain ⟨raw, v''⟩ := v'.next
    cases raw with
    | badRun => rfl
    | endOfPacket => rfl
    | char seq2 =>
      simp only
      cases nibbleToInt seq1 with
      | none => rfl
      | some val1 =>
        cases nibbleToInt seq2 with
        | none => rfl
        | some val2 => rfl

theorem PacketView.next_seq (v : PacketView) : v.next.2.seq = v.seq :=
  congrArg (fun r => r.2.seq) (v.next_setSeq v.seq)

theorem PacketView.word8_seq (v : PacketView) : v.word8.2.seq = v.seq :=
  congrArg (fun r => r.2.seq) (v.word8_setSeq v.seq)

theorem toNat_ne_neg_one (seq : UInt8) : (seq.toNat : ℤ) ≠ -1 := by
  omega

theorem parseSequence_eq (payload : List UInt8) (seq : ℤ) :
    PacketView.parseSequence ⟨payload, 0, seq⟩ =
      { framePacket payload with seq := keptSequence payload seq } := by
  have hword := word8_setSeq ⟨payload, 0, -1⟩ seq
  have hseq := word8_seq ⟨payload, 0, -1⟩
  unfold keptSequence carriedSequence framePacket PacketView.parseSequence
  simp only at hword
  rw [hword]
  generalize word8 ⟨payload, 0, -1⟩ = word at hseq
  obtain ⟨number, v⟩ := word
  cases number with
  | none => simp only at hseq; simp [hseq]
  | some number =>
    have hnext := v.next_seq
    simp only at hseq ⊢
    rw [next_setSeq]
    generalize v.next = read at hnext ⊢
    obtain ⟨raw, v'⟩ := read
    simp only at hnext
    cases raw with
    | badRun => simp [hnext, hseq]
    | endOfPacket => simp [hnext, hseq]
    | char ch =>
      by_cases hch : ch = colon
      · simp [hch, toNat_ne_neg_one]
      · simp [hch, hnext, hseq]

/-! ## The two receivers -/

namespace FramePoint

/-- The payload so far. -/
def chars : FramePoint → List UInt8
  | between => []
  | data payload => payload
  | trailer payload => payload
  | lastTrailer payload _ => payload

/-- Where `GetPacket` is. -/
def receivePoint (stale : UInt8) : FramePoint → ReceivePoint
  | between => .skipping
  | data payload => .data payload.sum
  | trailer payload => .trailer payload.sum
  | lastTrailer payload first =>
    .lastTrailer payload.sum (nibbleOr stale first <<< 4) (nibbleOr stale first)

theorem receive_ne_write (point : FramePoint) (stream : List UInt8) (chars : List UInt8)
    (events : List WireEvent) : (point.receive stream).1 ≠ .write chars :: events := by
  cases stream with
  | nil => exact nofun
  | cons ch stream =>
    unfold receive
    split
    · exact nofun
    · split_ifs <;> exact nofun

theorem receive_of_next {point point' : FramePoint} (h : point.read ch = .next point') :
    point.receive (ch :: stream) = (.read ch :: (point'.receive stream).1, (point'.receive stream).2) := by
  rw [receive, h]

end FramePoint

/-- `GetPacket` does what the receiver does. -/
def Agrees (canWrite : Bool) (code : (List WireEvent × Bool) × PacketView)
    (r : List WireEvent × Option (List UInt8)) : Prop :=
  code.1 = (r.1, r.2.isSome && canWrite) ∧ ∀ payload ∈ r.2, code.2 = framePacket payload

theorem agrees_cons (event : WireEvent) (code : (List WireEvent × Bool) × PacketView)
    (r : List WireEvent × Option (List UInt8)) :
    Agrees canWrite ((event :: code.1.1, code.1.2), code.2) (event :: r.1, r.2) ↔
      Agrees canWrite code r := by
  obtain ⟨⟨events, res⟩, v⟩ := code
  simp [Agrees]

theorem lt_of_nibble {nib : ℕ} (h : nibbleToInt ch = some nib) : nib < 16 := by
  rw [nibbleToInt] at h
  split_ifs at h <;> simp at h <;> simp_all <;> omega

theorem readChecksum_of_matches (stale : UInt8) (h : ChecksumMatches payload first last) :
    readChecksum stale first last = payload.sum := by
  obtain ⟨hi, hhi, lo, hlo, hsum⟩ := h
  have hnibbles : ∀ hi < 16, ∀ lo < 16,
      UInt8.ofNat hi <<< 4 ||| UInt8.ofNat lo = UInt8.ofNat (hi * 16 + lo) := by decide +kernel
  rw [readChecksum, nibbleOr, nibbleOr, hhi, hlo]
  simp only
  rw [hnibbles hi (lt_of_nibble hhi) lo (lt_of_nibble hlo), hsum, UInt8.ofNat_toNat]

theorem receiveChar_lastTrailer (hack : s.ignoreAck = false) (n stale : UInt8) (seq : ℤ) :
    receiveChar s canWrite stale ((FramePoint.lastTrailer payload first).receivePoint n) last
      ⟨payload, 0, seq⟩ =
    if readChecksum n first last = payload.sum then
      (([.write (acknowledgement (keptSequence payload seq))], .returned canWrite),
        { framePacket payload with seq := keptSequence payload seq })
    else (([.write [minus]], .next (.data 0)), ⟨[], 0, keptSequence payload seq⟩) := by
  simp only [FramePoint.receivePoint, receiveChar, hack, parseSequence_eq, readChecksum,
    Bool.false_eq_true, if_false]
  rfl

theorem agrees_accepted (hack : s.ignoreAck = false) (hmatches : ChecksumMatches payload first last)
    (n : UInt8) (seq : ℤ) :
    Agrees canWrite (getPacket s canWrite stale
        ((FramePoint.lastTrailer payload first).receivePoint n) (last :: stream) ⟨payload, 0, seq⟩)
      ((FramePoint.lastTrailer payload first).receive (last :: stream)) ↔
    carriedSequence payload ≠ -1 ∨ seq = -1 := by
  have hkept : keptSequence payload seq = carriedSequence payload ↔
      carriedSequence payload ≠ -1 ∨ seq = -1 := by
    unfold keptSequence
    split_ifs with h
    · simp [h]
    · simp [h]
  rw [getPacket, receiveChar_lastTrailer hack, if_pos (readChecksum_of_matches n hmatches),
    ← hkept]
  simp only [FramePoint.receive, FramePoint.read, hmatches, if_true, Agrees, Option.isSome_some,
    Bool.true_and, Option.mem_some_iff, forall_eq']
  constructor
  · rintro ⟨-, hpacket⟩
    exact congrArg PacketView.seq hpacket
  · intro h
    rw [h]
    exact ⟨rfl, rfl⟩

theorem agrees_rejected (hack : s.ignoreAck = false) (hwrong : ¬ ChecksumMatches payload first last)
    (n : UInt8) (seq : ℤ) :
    Agrees canWrite (getPacket s canWrite stale
        ((FramePoint.lastTrailer payload first).receivePoint n) (last :: stream) ⟨payload, 0, seq⟩)
      ((FramePoint.lastTrailer payload first).receive (last :: stream)) ↔
    readChecksum n first last ≠ payload.sum ∧
      Agrees canWrite (getPacket s canWrite stale (.data 0) stream
        ⟨[], 0, keptSequence payload seq⟩) (FramePoint.between.receive stream) := by
  rw [getPacket, receiveChar_lastTrailer hack]
  simp only [FramePoint.receive, FramePoint.read, hwrong, if_false]
  by_cases h : readChecksum n first last = payload.sum
  · -- An acknowledgement is no `-`.
    have hne (seq : ℤ) : acknowledgement seq ≠ [minus] := by
      unfold acknowledgement
      split_ifs
      · decide
      · simp
    simp [h, Agrees, hne]
  · rw [if_neg h]
    simp only [h, ne_eq, not_false_eq_true, true_and]
    exact (agrees_cons _ (_, _) (_, _)).trans (agrees_cons _ (_, _) (_, _))

def FramePoint.HeldBy (point : FramePoint) (v : PacketView) : Prop :=
  point = .between ∨ v = ⟨point.chars, 0, v.seq⟩

theorem receiveChar_of_next {point point' : FramePoint} (hread : point.read ch = .next point')
    (hv : point.HeldBy v) (s : Session) (canWrite : Bool) (n n' : UInt8) :
    ∃ v' : PacketView, v'.seq = v.seq ∧ point'.HeldBy v' ∧
      v.receiveChar s canWrite n' (point.receivePoint n) ch =
        (([], .next (point'.receivePoint n')), v') := by
  cases point with
  | between =>
    cases hread
    by_cases hch : ch = dollar
    · simp only [FramePoint.receivePoint, receiveChar, hch, if_true]
      exact ⟨⟨[], 0, v.seq⟩, rfl, Or.inr rfl, rfl⟩
    · simp only [FramePoint.receivePoint, receiveChar, hch, if_false]
      exact ⟨v, rfl, Or.inl rfl, rfl⟩
  | data payload =>
    cases hread
    have hv := hv.resolve_left nofun
    by_cases hhash : ch = hash
    · simp only [FramePoint.receivePoint, receiveChar, hhash, if_true]
      exact ⟨v, rfl, Or.inr hv, rfl⟩
    by_cases hdollar : ch = dollar
    · simp only [FramePoint.receivePoint, receiveChar, hdollar, if_true]
      exact ⟨⟨[], 0, v.seq⟩, rfl, Or.inr rfl, rfl⟩
    · simp only [FramePoint.receivePoint, receiveChar, hhash, hdollar, if_false]
      refine ⟨v.add ch, rfl, Or.inr ?_, ?_⟩
      · rw [hv]
        rfl
      · rw [List.sum_append, List.sum_singleton]
  | trailer payload =>
    cases hread
    exact ⟨v, rfl, Or.inr (hv.resolve_left nofun), rfl⟩
  | lastTrailer payload first => cases hread

theorem agrees_of_next {point point' : FramePoint} (hread : point.read ch = .next point')
    {receivePoint receivePoint' : ReceivePoint} {v' : PacketView}
    (hcode : v.receiveChar s canWrite (stale stream.length) receivePoint ch =
      (([], .next receivePoint'), v')) :
    Agrees canWrite (v.getPacket s canWrite stale receivePoint (ch :: stream))
      (point.receive (ch :: stream)) ↔
    Agrees canWrite (v'.getPacket s canWrite stale receivePoint' stream) (point'.receive stream) := by
  rw [getPacket, hcode, FramePoint.receive_of_next hread]
  exact agrees_cons _ _ _

theorem not_agrees_hash (hack : s.ignoreAck = false) (xsum first last : UInt8) (v : PacketView) :
    ¬ Agrees canWrite (v.getPacket s canWrite stale (.data xsum) (hash :: first :: last :: stream))
      (FramePoint.between.receive (hash :: first :: last :: stream)) := by
  have hhash : FramePoint.between.read hash = .next .between := rfl
  obtain ⟨point, hlast⟩ : ∃ point,
      (if first = dollar then FramePoint.data [] else .between).read last = .next point := by
    split_ifs
    · exact ⟨_, rfl⟩
    · exact ⟨_, rfl⟩
  have hfirst : FramePoint.between.read first =
      .next (if first = dollar then FramePoint.data [] else .between) := rfl
  rw [FramePoint.receive_of_next hhash, FramePoint.receive_of_next hfirst,
    FramePoint.receive_of_next hlast]
  intro h
  have hne := point.receive_ne_write stream
  have hevents := congrArg Prod.fst h.1
  simp only [getPacket, receiveChar, if_true, hack, Bool.false_eq_true,
    if_false] at hevents
  split_ifs at hevents
  · simp at hevents
    exact hne _ _ hevents.symm
  · simp at hevents
    exact hne _ _ hevents.symm

theorem agrees_iff (hack : s.ignoreAck = false) (stale : ℕ → UInt8) (stream : List UInt8) :
    (∀ (point : FramePoint) (v : PacketView), point.HeldBy v →
      (Agrees canWrite
        (v.getPacket s canWrite stale (point.receivePoint (stale stream.length)) stream)
        (point.receive stream) ↔ FramesInOrder stale point stream v.seq)) ∧
    ∀ (xsum : UInt8) (v : PacketView),
      (Agrees canWrite (v.getPacket s canWrite stale (.data xsum) stream)
        (FramePoint.between.receive stream) ↔
      Quiet stream ∧ FramesInOrder stale .between stream v.seq) := by
  induction stream with
  | nil =>
    refine ⟨fun point v hv => ?_, fun xsum v => ?_⟩
    · simp [getPacket, FramePoint.receive, Agrees, FramesInOrder]
    · simp [getPacket, FramePoint.receive, Agrees, FramesInOrder, Quiet]
  | cons ch stream ih =>
    obtain ⟨hsynced, hresync⟩ := ih
    refine ⟨fun point v hv => ?_, fun xsum v => ?_⟩
    · cases hread : point.read ch with
      | next point' =>
        obtain ⟨v', hseq, hv', hstep⟩ := receiveChar_of_next hread hv s canWrite
          (stale (ch :: stream).length) (stale stream.length)
        rw [agrees_of_next hread hstep, hsynced point' v' hv', FramesInOrder, hread, hseq]
      | frame payload first last =>
        cases point with
        | lastTrailer payload' first' =>
          cases hread
          rw [hv.resolve_left nofun, FramesInOrder]
          simp only [FramePoint.read, FramePoint.chars]
          split_ifs with hmatches
          · exact agrees_accepted hack hmatches _ _
          · rw [agrees_rejected hack hmatches, hresync]
            rfl
        | _ => cases hread
    · have hbetween : FramePoint.between.read ch = .next (if ch = dollar then .data [] else .between) :=
        rfl
      rw [FramesInOrder, hbetween, Quiet]
      by_cases hdollar : ch = dollar
      · -- Both begin a frame.
        have hcode : v.receiveChar s canWrite (stale stream.length) (.data xsum) ch =
            (([], .next (.data 0)), ⟨[], 0, v.seq⟩) := by
          rw [receiveChar, if_neg (by rw [hdollar]; decide), if_pos hdollar]
        rw [agrees_of_next hbetween hcode]
        simp only [hdollar, if_true, true_or, true_and]
        exact hsynced (.data []) ⟨[], 0, v.seq⟩ (Or.inr rfl)
      simp only [hdollar, false_or, if_false]
      rw [if_neg hdollar] at hbetween
      by_cases hhash : ch = hash
      · rw [if_pos hhash, hhash]
        cases stream with
        | nil => simp [getPacket, receiveChar, FramePoint.receive,
            FramePoint.read, Agrees, FramesInOrder, hash, dollar]
        | cons first stream =>
          cases stream with
          | nil => simp [getPacket, receiveChar, FramePoint.receive,
              FramePoint.read, Agrees, FramesInOrder, hash, dollar]
          | cons last stream =>
            have hlength : ¬ (first :: last :: stream).length < 2 := Nat.not_lt.2 (Nat.le_add_left 2 _)
            exact iff_of_false (not_agrees_hash hack xsum first last v) fun h => hlength h.1
      · have hcode : v.receiveChar s canWrite (stale stream.length) (.data xsum) ch =
            (([], .next (.data (xsum + ch))), v.add ch) := by
          rw [receiveChar, if_neg hhash, if_neg hdollar]
        rw [if_neg hhash, agrees_of_next hbetween hcode]
        exact hresync (xsum + ch) (v.add ch)

/-! ## A packet that is sent -/

/-- `ParseSequence` takes the start of the payload for a sequence number, or expands a run in it. -/
def TakenApart : List UInt8 → Prop
  | ch1 :: ch2 :: ch3 :: payload =>
    ch1 ≠ star ∧ ch2 = star ∧ (runCount ch3).isSome ∨
      (nibbleToInt ch1).isSome ∧ (nibbleToInt ch2).isSome ∧
        (ch3 = colon ∨ ch3 = star ∧ ∃ count ∈ payload.head?, (runCount count).isSome)
  | _ => False

theorem ne_colon_of_nibble {nib : ℕ} (h : nibbleToInt ch = some nib) : ch ≠ colon := by
  rintro rfl
  have hcolon : nibbleToInt colon = none := by decide
  cases hcolon.symm.trans h

theorem PacketView.next_first (h : first ≠ star) (seq : ℤ) :
    next ⟨first :: payload, 0, seq⟩ = (.char first, ⟨first :: payload, 1, seq⟩) :=
  next_of_ne rfl h

theorem framePacket_eq_self_marker (hfirst : first ≠ star) :
    framePacket (first :: star :: payload) = ⟨first :: star :: payload, 0, -1⟩ ↔
      ¬ TakenApart (first :: star :: payload) := by
  have hnib : nibbleToInt star = none := by decide
  unfold framePacket PacketView.parseSequence word8
  rw [next_first hfirst]
  simp only
  cases hrun : payload[0]?.bind runCount with
  | none =>
    rw [next_of_bad rfl (Or.inr hrun)]
    cases payload with
    | nil => simp [TakenApart]
    | cons count payload =>
      have hcount : runCount count = none := hrun
      simp [TakenApart, hcount, hnib]
  | some n =>
    cases payload with
    | nil => cases hrun
    | cons count payload =>
      have hcount : runCount count = some n := hrun
      obtain ⟨htwo, hnext⟩ := @next_of_run ⟨first :: star :: count :: payload, 1, -1⟩ []
        payload first count n rfl rfl hcount
      obtain ⟨m, rfl⟩ := Nat.exists_eq_add_of_le' htwo
      rw [hnext]
      cases hnib : nibbleToInt first with
      | none => simp [TakenApart, hfirst, hcount, List.replicate_succ]
      | some nib =>
        have hcolon := ne_colon_of_nibble hnib
        simp [TakenApart, hfirst, hcount, List.replicate_succ, next, hnib, hcolon]

theorem framePacket_eq_self_digits {val1 val2 : ℕ} (hnib1 : nibbleToInt first = some val1)
    (hnib2 : nibbleToInt last = some val2) :
    framePacket (first :: last :: payload) = ⟨first :: last :: payload, 0, -1⟩ ↔
      ¬ TakenApart (first :: last :: payload) := by
  have hfirst := ne_star_of_nibble hnib1
  have hlast := ne_star_of_nibble hnib2
  have hnext2 : next ⟨first :: last :: payload, 1, -1⟩ =
      (.char last, ⟨first :: last :: payload, 2, -1⟩) := next_of_ne rfl hlast
  unfold framePacket PacketView.parseSequence word8
  rw [next_first hfirst]
  simp only [hnext2, hnib1, hnib2]
  cases payload with
  | nil => simp [TakenApart, next]
  | cons ch payload =>
    by_cases hstar : ch = star
    · subst hstar
      have hcolon : star ≠ colon := by decide
      cases hrun : payload[0]?.bind runCount with
      | none =>
        rw [next_of_bad rfl (Or.inr hrun)]
        cases payload with
        | nil => simp [TakenApart, hlast, hcolon]
        | cons count payload =>
          have hcount : runCount count = none := hrun
          simp [TakenApart, hlast, hcolon, hcount]
      | some n =>
        cases payload with
        | nil => cases hrun
        | cons count payload =>
          have hcount : runCount count = some n := hrun
          obtain ⟨htwo, hnext⟩ := @next_of_run
            ⟨first :: last :: star :: count :: payload, 2, -1⟩ [first] payload last count n rfl rfl
            hcount
          obtain ⟨m, rfl⟩ := Nat.exists_eq_add_of_le' htwo
          rw [hnext]
          have hcolon := ne_colon_of_nibble hnib2
          simp [TakenApart, hnib1, hnib2, hcount, List.replicate_succ, hcolon, hlast]
    · have hnext3 : next ⟨first :: last :: ch :: payload, 2, -1⟩ =
          (.char ch, ⟨first :: last :: ch :: payload, 3, -1⟩) := next_of_ne rfl hstar
      rw [hnext3]
      by_cases hcolon : ch = colon
      · simp [TakenApart, hcolon, hnib1, hnib2]
      · simp [TakenApart, hcolon, hlast, hstar]

theorem framePacket_eq_self (payload : List UInt8) :
    framePacket payload = ⟨payload, 0, -1⟩ ↔ ¬ TakenApart payload := by
  rcases payload with _ | ⟨first, _ | ⟨last, payload⟩⟩
  · simp [framePacket, PacketView.parseSequence, word8, next, TakenApart]
  · by_cases hfirst : first = star
    · simp [framePacket, PacketView.parseSequence, word8, next, TakenApart, hfirst]
    · simp [framePacket, PacketView.parseSequence, word8, next, TakenApart, hfirst]
  by_cases hfirst : first = star
  · subst hfirst
    have hnib : nibbleToInt star = none := by decide
    rw [framePacket, PacketView.parseSequence, word8, next_of_bad rfl (Or.inl rfl)]
    cases payload with
    | nil => simp [TakenApart]
    | cons ch payload => simp [TakenApart, hnib]
  by_cases hlast : last = star
  · exact hlast ▸ framePacket_eq_self_marker hfirst
  have hnext2 : next ⟨first :: last :: payload, 1, -1⟩ =
      (.char last, ⟨first :: last :: payload, 2, -1⟩) := next_of_ne rfl hlast
  cases hnib1 : nibbleToInt first with
  | none =>
    rw [framePacket, PacketView.parseSequence, word8, next_first hfirst]
    simp only [hnext2, hnib1]
    cases payload with
    | nil => simp [TakenApart]
    | cons ch payload => simp [TakenApart, hlast, hnib1]
  | some val1 =>
    cases hnib2 : nibbleToInt last with
    | none =>
      rw [framePacket, PacketView.parseSequence, word8, next_first hfirst]
      simp only [hnext2, hnib1, hnib2]
      cases payload with
      | nil => simp [TakenApart]
      | cons ch payload => simp [TakenApart, hlast, hnib2]
    | some val2 => exact framePacket_eq_self_digits hnib1 hnib2

theorem framePacket_sequenceField (hseq : seq ≠ -1) (payload : List UInt8) :
    framePacket (Session.sequenceField seq ++ payload) =
      ⟨Session.sequenceField seq ++ payload, 3, seq % 256⟩ := by
  have hnib1 : nibbleToInt (intToNibble (seq % 256 / 16).toNat) = some (seq % 256 / 16).toNat :=
    nibbleToInt_intToNibble (by omega)
  have hnib2 : nibbleToInt (intToNibble (seq % 16).toNat) = some (seq % 16).toNat :=
    nibbleToInt_intToNibble (by omega)
  have hnumber : ((UInt8.ofNat ((seq % 256 / 16).toNat * 16 + (seq % 16).toNat)).toNat : ℤ) =
      seq % 256 := by
    rw [UInt8.toNat_ofNat']
    omega
  have hfirst := ne_star_of_nibble hnib1
  have hlast := ne_star_of_nibble hnib2
  have hcolon : colon ≠ star := by decide
  rw [Session.sequenceField, if_neg hseq]
  simp only [List.cons_append, List.nil_append]
  generalize intToNibble (seq % 256 / 16).toNat = first at hnib1 hfirst ⊢
  generalize intToNibble (seq % 16).toNat = last at hnib2 hlast ⊢
  have hnext2 : next ⟨first :: last :: colon :: payload, 1, -1⟩ =
      (.char last, ⟨first :: last :: colon :: payload, 2, -1⟩) := next_of_ne rfl hlast
  have hnext3 : next ⟨first :: last :: colon :: payload, 2, -1⟩ =
      (.char colon, ⟨first :: last :: colon :: payload, 3, -1⟩) := next_of_ne rfl hcolon
  rw [framePacket, PacketView.parseSequence, word8, next_first hfirst]
  simp only [hnext2, hnib1, hnib2, hnext3, if_true, hnumber]

theorem getPacket_data {chars : List UInt8} {v v' : PacketView} {events : List WireEvent} {res : Bool}
    {xsum : UInt8} (hhash : hash ∉ chars) (hdollar : dollar ∉ chars)
    (h : getPacket s canWrite stale (.data (xsum + chars.sum)) stream
      { v with payload := v.payload ++ chars } = ((events, res), v')) :
    v.getPacket s canWrite stale (.data xsum) (chars ++ stream) =
      ((chars.map WireEvent.read ++ events, res), v') := by
  induction chars generalizing xsum v with
  | nil =>
    rw [List.append_nil, List.sum_nil, UInt8.add_zero] at h
    exact h
  | cons ch chars ih =>
    rw [List.mem_cons, not_or] at hhash hdollar
    rw [List.sum_cons, ← UInt8.add_assoc, ← List.singleton_append, ← List.append_assoc] at h
    rw [List.cons_append, getPacket, receiveChar, if_neg (Ne.symm hhash.1),
      if_neg (Ne.symm hdollar.1)]
    simp only
    rw [ih hhash.2 hdollar.2 h]
    rfl

theorem getPacket_trailer (hack : s.ignoreAck = false) (hmatches : ChecksumMatches payload first last)
    (seq : ℤ) : getPacket s canWrite stale (.data payload.sum) [hash, first, last]
      ⟨payload, 0, seq⟩ =
    (([.read hash, .read first, .read last, .write (acknowledgement (keptSequence payload seq))], canWrite),
      { framePacket payload with seq := keptSequence payload seq }) := by
  have hlast := @receiveChar_lastTrailer s canWrite payload first last hack (stale 1) (stale 0) seq
  rw [if_pos (readChecksum_of_matches _ hmatches)] at hlast
  unfold getPacket receiveChar
  simp only [if_true]
  unfold getPacket receiveChar
  simp only
  unfold getPacket
  simp only [FramePoint.receivePoint] at hlast
  simp only [List.length_cons, List.length_nil, zero_add, hlast]
  rfl

theorem getPacket_frame {chars : List UInt8} (hack : s.ignoreAck = false) (hhash : hash ∉ chars)
    (hdollar : dollar ∉ chars) (stale : ℕ → UInt8) (v : PacketView) :
    ∃ events, v.getPacket s true stale .skipping (dollar :: Session.withChecksum chars) =
      ((events, true), { framePacket chars with seq := keptSequence chars v.seq }) := by
  have hmatches : ChecksumMatches chars (intToNibble (chars.sum.toNat / 16))
      (intToNibble (chars.sum.toNat % 16)) :=
    ⟨_, nibble_hi _, _, nibble_lo _, Nat.div_add_mod' _ _⟩
  have htrailer := @getPacket_trailer s true stale chars _ _ hack hmatches v.seq
  have hdata := @getPacket_data s true stale _ chars ⟨[], 0, v.seq⟩ _ _ _ 0 hhash hdollar
    ((congrArg (fun xsum => getPacket s true stale (.data xsum) _ ⟨chars, 0, v.seq⟩)
      (UInt8.zero_add _)).trans htrailer)
  rw [getPacket, receiveChar, if_pos rfl, Session.withChecksum]
  simp only
  rw [hdata]
  exact ⟨_, rfl⟩

/-- The payload has none of the two characters that frames are made of. -/
def Clean (v : PacketView) : Prop := hash ∉ v.payload ∧ dollar ∉ v.payload

theorem PacketView.next_subset (v : PacketView) : v.next.2.payload ⊆ v.payload := by
  unfold next
  split
  · exact List.Subset.refl _
  · split_ifs
    · exact List.Subset.refl _
    · exact List.Subset.refl _
    · split
      · next last count hlast hcount =>
        split_ifs
        · exact List.Subset.refl _
        · refine List.append_subset.2 ⟨List.append_subset.2 ⟨List.take_subset _ _, ?_⟩,
            List.drop_subset _ _⟩
          intro ch hch
          rw [List.eq_of_mem_replicate hch]
          exact List.mem_of_getElem? hlast
      · exact List.Subset.refl _

theorem PacketView.word8_subset (v : PacketView) : v.word8.2.payload ⊆ v.payload := by
  have hfirst := v.next_subset
  have hsecond := List.Subset.trans v.next.2.next_subset hfirst
  unfold word8
  generalize v.next = read at hfirst hsecond ⊢
  obtain ⟨raw, v'⟩ := read
  cases raw with
  | badRun => exact hfirst
  | endOfPacket => exact hfirst
  | char seq1 =>
    simp only at hsecond ⊢
    generalize v'.next = read at hsecond ⊢
    obtain ⟨raw, v''⟩ := read
    cases raw with
    | badRun => exact hsecond
    | endOfPacket => exact hsecond
    | char seq2 =>
      simp only
      split
      · exact hsecond
      · exact hsecond

theorem PacketView.parseSequence_subset (v : PacketView) : v.parseSequence.payload ⊆ v.payload := by
  have hword := v.word8_subset
  have hnext := List.Subset.trans v.word8.2.next_subset hword
  unfold PacketView.parseSequence
  generalize v.word8 = word at hword hnext ⊢
  obtain ⟨number, v'⟩ := word
  cases number with
  | none => exact hword
  | some number =>
    simp only at hnext ⊢
    generalize v'.next = read at hnext ⊢
    obtain ⟨raw, v''⟩ := read
    cases raw with
    | badRun => exact hnext
    | endOfPacket => exact hnext
    | char ch =>
      simp only
      split_ifs
      · exact hnext
      · exact hnext

theorem Clean.parseSequence (h : Clean v) : Clean v.parseSequence :=
  ⟨fun hmem => h.1 (v.parseSequence_subset hmem), fun hmem => h.2 (v.parseSequence_subset hmem)⟩

theorem clean_receiveChar {point : ReceivePoint} (hpoint : point = .skipping ∨ Clean v) (n ch : UInt8) :
    (v.receiveChar s canWrite n point ch).1.2 = .next .skipping ∨
      Clean (v.receiveChar s canWrite n point ch).2 := by
  have hempty : Clean ⟨[], 0, v.seq⟩ := ⟨List.not_mem_nil, List.not_mem_nil⟩
  cases point with
  | skipping =>
    by_cases hch : ch = dollar
    · simp only [receiveChar, hch, if_true]
      exact Or.inr hempty
    · simp only [receiveChar, hch, if_false]
      exact Or.inl trivial
  | data xsum =>
    have hclean := hpoint.resolve_left (by simp)
    refine Or.inr ?_
    unfold receiveChar
    simp only
    split_ifs with hhash hdollar
    · exact hclean
    · exact hempty
    · refine ⟨?_, ?_⟩
      · simpa [add, Ne.symm hhash] using hclean.1
      · simpa [add, Ne.symm hdollar] using hclean.2
  | trailer xsum => exact Or.inr (hpoint.resolve_left (by simp))
  | lastTrailer xsum fin val =>
    have hclean := hpoint.resolve_left (by simp)
    refine Or.inr ?_
    unfold receiveChar
    simp only
    split_ifs
    · exact hclean.parseSequence
    · exact hclean.parseSequence
    · exact ⟨List.not_mem_nil, List.not_mem_nil⟩

theorem clean_of_getPacket (stale : ℕ → UInt8) {point : ReceivePoint}
    (hpoint : point = .skipping ∨ Clean v) (h : (v.getPacket s canWrite stale point stream).1.2 = true) :
    Clean (v.getPacket s canWrite stale point stream).2 := by
  induction stream generalizing point v with
  | nil => cases h
  | cons ch stream ih =>
    have hclean := @clean_receiveChar v s canWrite point hpoint (stale stream.length) ch
    unfold getPacket at h ⊢
    generalize v.receiveChar s canWrite (stale stream.length) point ch = received at hclean h ⊢
    obtain ⟨⟨writes, step⟩, v'⟩ := received
    cases step with
    | returned res => exact hclean.resolve_left (by simp)
    | next point' => exact ih (hclean.imp_left fun hskip => ReceiveStep.next.inj hskip) h

theorem pos_receiveChar {point : ReceivePoint} (hpoint : point = .skipping ∨ v.pos = 0) (n ch : UInt8) :
    match (v.receiveChar s canWrite n point ch).1.2 with
    | .next point' => point' = .skipping ∨ (v.receiveChar s canWrite n point ch).2.pos = 0
    | .returned res => res = true → (v.receiveChar s canWrite n point ch).2 = v.parseSequence ∧
        v.pos = 0 := by
  cases point with
  | skipping =>
    by_cases hch : ch = dollar
    · simp [receiveChar, hch]
    · simp [receiveChar, hch]
  | data xsum =>
    have hpos := hpoint.resolve_left (by simp)
    by_cases hhash : ch = hash
    · simp [receiveChar, hhash, hpos]
    · by_cases hdollar : ch = dollar
      · simp [receiveChar, hdollar, hash, dollar]
      · simp [receiveChar, hhash, hdollar, add, hpos]
  | trailer xsum =>
    have hpos := hpoint.resolve_left (by simp)
    simp [receiveChar, hpos]
  | lastTrailer xsum fin val =>
    have hpos := hpoint.resolve_left (by simp)
    unfold receiveChar
    simp only
    split_ifs
    · exact fun _ => ⟨rfl, hpos⟩
    · exact fun _ => ⟨rfl, hpos⟩
    · exact Or.inr rfl

theorem exists_payload_of_getPacket (stale : ℕ → UInt8) {point : ReceivePoint}
    (hpoint : point = .skipping ∨ v.pos = 0)
    (h : (v.getPacket s canWrite stale point stream).1.2 = true) : ∃ payload seq,
      (v.getPacket s canWrite stale point stream).2 = PacketView.parseSequence ⟨payload, 0, seq⟩ := by
  induction stream generalizing point v with
  | nil => cases h
  | cons ch stream ih =>
    have hstep := @pos_receiveChar v s canWrite point hpoint (stale stream.length) ch
    unfold getPacket at h ⊢
    generalize v.receiveChar s canWrite (stale stream.length) point ch = received at hstep h ⊢
    obtain ⟨⟨writes, step⟩, v'⟩ := received
    cases step with
    | returned res =>
      obtain ⟨hparse, hpos⟩ := hstep h
      refine ⟨v.payload, v.seq, hparse.trans ?_⟩
      rw [← hpos]
    | next point' => exact ih hstep h

/-- The packet that is sent arrives: its sequence number and its payload are those of the packet that
is received. -/
def Delivers (sender receiver : Session) (stale : ℕ → UInt8) (sent received : Packet) : Prop :=
  ∃ sender' frame sent' v events received' v', sender.sendPacketOnly sent = .ok ((sender', frame), sent') ∧
    receiver.getPacket true stale .skipping frame received = .ok ((events, true), received') ∧
    sent'.Shows v ∧ received'.Shows v' ∧ v'.seq = v.seq ∧ v'.rest = v.payload

/-- The payload is without the two characters that frames are made of.  A sequence number has eight
bits; where there is none, the packet that receives has none either, and `ParseSequence` leaves the
payload alone. -/
def Deliverable (payload : List UInt8) (seq seq' : ℤ) : Prop :=
  hash ∉ payload ∧ dollar ∉ payload ∧
    if seq = -1 then seq' = -1 ∧ ¬ TakenApart payload else 0 ≤ seq ∧ seq < 256

theorem sequenceField_clean (seq : ℤ) : hash ∉ Session.sequenceField seq ∧
    dollar ∉ Session.sequenceField seq := by
  have hdigit : ∀ n < 16, hash ≠ intToNibble n ∧ dollar ≠ intToNibble n := by decide
  have hhi := hdigit (seq % 256 / 16).toNat (by omega)
  have hlo := hdigit (seq % 16).toNat (by omega)
  have hcolon : hash ≠ colon ∧ dollar ≠ colon := by decide
  unfold Session.sequenceField
  split_ifs
  · exact ⟨List.not_mem_nil, List.not_mem_nil⟩
  · simp [hhi, hlo, hcolon]

theorem framePacket_pos (h : carriedSequence payload = -1) : (framePacket payload).pos = 0 := by
  unfold carriedSequence framePacket PacketView.parseSequence at *
  generalize word8 ⟨payload, 0, -1⟩ = word at h ⊢
  obtain ⟨number, v⟩ := word
  cases number with
  | none => rfl
  | some number =>
    simp only at h ⊢
    generalize v.next = read at h ⊢
    obtain ⟨raw, v'⟩ := read
    cases raw with
    | badRun => rfl
    | endOfPacket => rfl
    | char ch =>
      by_cases hch : ch = colon
      · simp [hch, toNat_ne_neg_one] at h
      · simp [hch]

theorem arrives_iff (v : PacketView) (seq : ℤ) :
    (keptSequence (Session.sequenceField v.seq ++ v.payload) seq = v.seq ∧
      (framePacket (Session.sequenceField v.seq ++ v.payload)).rest = v.payload) ↔
    if v.seq = -1 then seq = -1 ∧ ¬ TakenApart v.payload else 0 ≤ v.seq ∧ v.seq < 256 := by
  by_cases hseq : v.seq = -1
  · rw [if_pos hseq, Session.sequenceField, if_pos hseq, List.nil_append, ← framePacket_eq_self, hseq,
      keptSequence]
    constructor
    · rintro ⟨hkept, hrest⟩
      have hcarried : carriedSequence v.payload = -1 := by
        by_contra hne
        rw [if_neg hne] at hkept
        exact hne hkept
      rw [if_pos hcarried] at hkept
      have hpos := framePacket_pos hcarried
      rw [rest, hpos, List.drop_zero] at hrest
      rw [carriedSequence] at hcarried
      generalize framePacket v.payload = w at hcarried hpos hrest ⊢
      obtain ⟨payload, pos, carried⟩ := w
      subst hcarried hpos hrest
      exact ⟨hkept, rfl⟩
    · rintro ⟨hnone, hself⟩
      rw [carriedSequence, hself]
      exact ⟨by simpa using hnone, rfl⟩
  · have hcarried : seq % 256 ≠ -1 := by omega
    have hframe := framePacket_sequenceField hseq v.payload
    have hdrop : (Session.sequenceField v.seq ++ v.payload).drop 3 = v.payload := by
      rw [Session.sequenceField, if_neg hseq]
      rfl
    rw [if_neg hseq, keptSequence, carriedSequence, hframe, rest]
    simp only [hdrop, and_true]
    rw [if_neg (by omega)]
    omega

theorem getPacket_frame_iff (hack : s.ignoreAck = false) (stale : ℕ → UInt8) (v w : PacketView) :
    ((w.getPacket s true stale .skipping v.frame).1.2 = true ∧
      (w.getPacket s true stale .skipping v.frame).2.seq = v.seq ∧
      (w.getPacket s true stale .skipping v.frame).2.rest = v.payload) ↔
    Deliverable v.payload v.seq w.seq := by
  by_cases hclean : hash ∉ v.payload ∧ dollar ∉ v.payload
  · obtain ⟨hhash, hdollar⟩ := sequenceField_clean v.seq
    obtain ⟨events, hget⟩ := @getPacket_frame s (Session.sequenceField v.seq ++ v.payload) hack
      (by simp [hhash, hclean.1]) (by simp [hdollar, hclean.2]) stale w
    rw [frame, hget, Deliverable, ← arrives_iff v w.seq]
    simp [hclean, rest]
  · have hnot : ¬ Deliverable v.payload v.seq w.seq := fun h => hclean ⟨h.1, h.2.1⟩
    refine iff_of_false ?_ hnot
    rintro ⟨hres, -, hrest⟩
    have hgot := clean_of_getPacket stale (Or.inl rfl) hres
    refine hclean ?_
    rw [← hrest]
    exact ⟨fun hmem => hgot.1 (List.mem_of_mem_drop hmem), fun hmem => hgot.2 (List.mem_of_mem_drop hmem)⟩

theorem delivers_iff (hack : s.ignoreAck = false) (sender : Session) (stale : ℕ → UInt8)
    {sent received : Packet} {v w : PacketView} (hsent : sent.Shows v) (hreceived : received.Shows w) :
    Delivers sender s stale sent received ↔
      Deliverable v.payload (sender.sentSequence v.seq) w.seq := by
  obtain ⟨sender', hsend⟩ := runs_sendPacketOnly sender v
  obtain ⟨sent', hsent', hshows⟩ := hsend sent hsent
  obtain ⟨received', hreceived', hshows'⟩ := @runs_getPacket s true stale .skipping
    (frame { v with seq := sender.sentSequence v.seq }) w received hreceived
  rw [← getPacket_frame_iff hack stale { v with seq := sender.sentSequence v.seq } w]
  generalize getPacket s true stale .skipping
    (frame { v with seq := sender.sentSequence v.seq }) w = got at hreceived' hshows' ⊢
  obtain ⟨⟨events, res⟩, w'⟩ := got
  constructor
  · rintro ⟨_, _, _, v₁, _, _, v₂, hrun, hrun', hv₁, hv₂, hseq, hrest⟩
    rw [hsent'] at hrun
    cases hrun
    rw [hreceived'] at hrun'
    cases hrun'
    cases hv₁.unique hshows
    cases hv₂.unique hshows'
    exact ⟨rfl, hseq, hrest⟩
  · rintro ⟨hres, hseq, hrest⟩
    cases hres
    exact ⟨sender', _, sent', _, events, received', w', hsent', hreceived', hshows, hshows', hseq, hrest⟩

theorem receives_iff (hack : s.ignoreAck = false) (canWrite : Bool) (stale : ℕ → UInt8)
    (stream : List UInt8) {p : Packet} {v : PacketView} (hp : p.Shows v) :
    (∃ r p', s.getPacket canWrite stale .skipping stream p = .ok (r, p') ∧ Receives canWrite stream r p') ↔
      FramesInOrder stale .between stream v.seq := by
  obtain ⟨p', hrun, hshows⟩ := @runs_getPacket s canWrite stale .skipping stream v p hp
  have hagrees := (@agrees_iff s canWrite hack stale stream).1 .between v (Or.inl rfl)
  rw [← hagrees]
  simp only [FramePoint.receivePoint]
  generalize getPacket s canWrite stale .skipping stream v = got at hrun hshows ⊢
  obtain ⟨⟨events, res⟩, v'⟩ := got
  constructor
  · rintro ⟨r, _, hrun', hevents, hres, hpacket⟩
    rw [hrun] at hrun'
    cases hrun'
    exact ⟨Prod.ext hevents hres, fun payload hpayload => hshows.unique (hpacket payload hpayload)⟩
  · rintro ⟨hresult, hpacket⟩
    obtain ⟨hevents, hres⟩ := Prod.mk.inj hresult
    refine ⟨_, p', hrun, hevents, hres, fun payload hpayload => ?_⟩
    rw [← hpacket payload hpayload]
    exact hshows

/-- With acknowledgements on, `GetPacket` receives what is in the stream if and only if the frames are
in order, and a packet that is sent arrives if and only if it can be told apart in its frame. -/
theorem reception_iff (s : Session) (hack : s.ignoreAck = false) (stale : ℕ → UInt8) :
    (∀ (canWrite : Bool) (stream : List UInt8) (p : Packet) (v : PacketView), p.Shows v →
      ((∃ r p', s.getPacket canWrite stale .skipping stream p = .ok (r, p') ∧
        Receives canWrite stream r p') ↔ FramesInOrder stale .between stream v.seq)) ∧
    ∀ (sender : Session) (sent received : Packet) (v w : PacketView), sent.Shows v → received.Shows w →
      (Delivers sender s stale sent received ↔
        Deliverable v.payload (sender.sentSequence v.seq) w.seq) :=
  ⟨fun canWrite stream _ _ hp => receives_iff hack canWrite stale stream hp,
    fun sender _ _ _ _ hsent hreceived => delivers_iff hack sender stale hsent hreceived⟩

/-- `$b#62` is received. -/
theorem receives_single : ∃ r p', Session.getPacket ⟨false, false, 0⟩ true (fun _ => 0) .skipping
    [dollar, 0x62, hash, 0x36, 0x32] .new = .ok (r, p') ∧
      Receives true [dollar, 0x62, hash, 0x36, 0x32] r p' :=
  ((reception_iff ⟨false, false, 0⟩ rfl fun _ => 0).1 true _ .new _ shows_new).2 (Or.inr rfl)

/-- In `$05:a#ff$b#62` the second frame gets the sequence number of the first, which is rejected. -/
theorem not_receives_kept : ¬ ∃ r p', Session.getPacket ⟨false, false, 0⟩ true (fun _ => 0) .skipping
    [dollar, 0x30, 0x35, colon, 0x61, hash, 0x66, 0x66, dollar, 0x62, hash, 0x36, 0x32] .new =
      .ok (r, p') ∧
    Receives true [dollar, 0x30, 0x35, colon, 0x61, hash, 0x66, 0x66, dollar, 0x62, hash, 0x36, 0x32]
      r p' := by
  rintro ⟨r, p', hrun, hevents, -⟩
  have hlast : (Session.getPacket ⟨false, false, 0⟩ true (fun _ => 0) .skipping
      [dollar, 0x30, 0x35, colon, 0x61, hash, 0x66, 0x66, dollar, 0x62, hash, 0x36, 0x32] .new).toOption.map
        (fun r => r.1.1.getLast?) = some (some (.write [plus, 0x30, 0x35])) := by
    decide +kernel
  rw [hrun] at hlast
  simp only [Except.toOption, Option.map_some, hevents] at hlast
  exact absurd hlast (by decide +kernel)

end

end SandboxingNaCl
