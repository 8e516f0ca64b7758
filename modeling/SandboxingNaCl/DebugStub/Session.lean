import Mathlib.Data.UInt
import SandboxingNaCl.DebugStub.EscapedData
import SandboxingNaCl.DebugStub.FieldRoundTrip

/-!
# Sessions of the debug stub

`SendPacketOnly` and `GetPacket` of `session.cc`.  `GetPacket` is a machine on characters: each of the
places where it waits for one is a state, and `receiveChar` is the code from there to the next.  The
connection ends with the stream.
-/

namespace SandboxingNaCl

/-- `'+'`. -/
def plus : UInt8 := 0x2b

/-- The fields of `Session` that the two functions use. -/
structure Session where
  ignoreAck : Bool
  useSeq : Bool
  seq : UInt8

/-- A call of the transport: a character that is read, or some that are written. -/
inductive WireEvent
  | read (ch : UInt8)
  | write (chars : List UInt8)
deriving DecidableEq

/-- Where `GetPacket` waits for a character. -/
inductive ReceivePoint
  /-- For the first `$`. -/
  | skipping
  | data (runXsum : UInt8)
  | trailer (runXsum : UInt8)
  | lastTrailer (runXsum finXsum val : UInt8)

/-- What happens with a character: `GetPacket` waits for the next one, or returns. -/
inductive ReceiveStep
  | next (point : ReceivePoint)
  | returned (res : Bool)

/-- `IntToNibble` into a character that is 0. -/
def intToNibbleOrNul (nibble : ℤ) : UInt8 :=
  if 0 ≤ nibble ∧ nibble < 16 then intToNibble nibble.toNat else 0

def acknowledgement (seq : ℤ) : List UInt8 :=
  if seq = -1 then [plus] else [plus, intToNibbleOrNul (seq / 16), intToNibbleOrNul (seq % 16)]

/-- `NibbleToInt(ch, &val)`: where it fails, `val` keeps what it holds. -/
def nibbleOr (val ch : UInt8) : UInt8 :=
  match nibbleToInt ch with
  | some nib => .ofNat nib
  | none => val

/-- `GetPayload` with `GetPayloadSize`. -/
def Packet.getPayload (p : Packet) : Except Fault (List UInt8) :=
  (List.range p.writeIndex).mapM fun offs => checked p.data[offs]?

namespace Session

/-- `GetPacket` with the next character, up to the one behind it, with what it writes.  `stale` is what
`val` holds when it is declared, and `canWrite` what `Write` returns. -/
def receiveChar (s : Session) (canWrite : Bool) (stale : UInt8) (point : ReceivePoint) (ch : UInt8) :
    PacketM (List WireEvent × ReceiveStep) :=
  match point with
  | .skipping =>
    if ch = dollar then do
      modify Packet.clear
      return ([], .next (.data 0))
    else return ([], .next .skipping)
  | .data runXsum =>
    if ch = hash then return ([], .next (.trailer runXsum))
    else if ch = dollar then do
      modify Packet.clear
      return ([], .next (.data 0))
    else do
      addRawChar ch
      return ([], .next (.data (runXsum + ch)))
  | .trailer runXsum =>
    let val := nibbleOr stale ch
    return ([], .next (.lastTrailer runXsum (val <<< 4) val))
  | .lastTrailer runXsum finXsum val => do
    parseSequence
    if s.ignoreAck then return ([], .returned true)
    else if finXsum ||| nibbleOr val ch = runXsum then
      return ([.write (acknowledgement (← get).seq)], .returned canWrite)
    else
      modify Packet.clear
      return ([.write [minus]], .next (.data 0))

/-- `GetPacket`: the calls of the transport, and its result.  `stale` may be another one each time. -/
def getPacket (s : Session) (canWrite : Bool) (stale : ℕ → UInt8) :
    ReceivePoint → List UInt8 → PacketM (List WireEvent × Bool)
  | _, [] => return ([], false)
  | point, ch :: stream => do
    let (writes, step) ← s.receiveChar canWrite (stale stream.length) point ch
    match step with
    | .returned res => return (.read ch :: writes, res)
    | .next point =>
      let (events, res) ← s.getPacket canWrite stale point stream
      return (.read ch :: writes ++ events, res)

/-- The characters of a frame behind its `$`. -/
def withChecksum (chars : List UInt8) : List UInt8 :=
  chars ++ [hash, intToNibble (chars.sum.toNat / 16), intToNibble (chars.sum.toNat % 16)]

def sequenceField (seq : ℤ) : List UInt8 :=
  if seq = -1 then []
  else [intToNibble (seq % 256 / 16).toNat, intToNibble (seq % 16).toNat, colon]

/-- The part of `SendPacketOnly` before the packet is written out: a packet without a sequence number
gets one, if the session is to give them. -/
def giveSequence (s : Session) : PacketM Session := do
  if (← get).seq = -1 ∧ s.useSeq then
    setSequence s.seq.toNat
    return { s with seq := s.seq + 1 }
  else return s

/-- `SendPacketOnly`: the session, and the characters that are written. -/
def sendPacketOnly (s : Session) : PacketM (Session × List UInt8) := do
  let s ← s.giveSequence
  let p ← get
  let payload ← p.getPayload
  return (s, dollar :: withChecksum (sequenceField p.seq ++ payload))

end Session

/-! ## On the payload -/

namespace PacketView

/-- `receiveChar` on the payload. -/
def receiveChar (s : Session) (canWrite : Bool) (stale : UInt8) (point : ReceivePoint) (ch : UInt8)
    (v : PacketView) : (List WireEvent × ReceiveStep) × PacketView :=
  match point with
  | .skipping =>
    if ch = dollar then (([], .next (.data 0)), ⟨[], 0, v.seq⟩) else (([], .next .skipping), v)
  | .data runXsum =>
    if ch = hash then (([], .next (.trailer runXsum)), v)
    else if ch = dollar then (([], .next (.data 0)), ⟨[], 0, v.seq⟩)
    else (([], .next (.data (runXsum + ch))), v.add ch)
  | .trailer runXsum =>
    (([], .next (.lastTrailer runXsum (nibbleOr stale ch <<< 4) (nibbleOr stale ch))), v)
  | .lastTrailer runXsum finXsum val =>
    let v := v.parseSequence
    if s.ignoreAck then (([], .returned true), v)
    else if finXsum ||| nibbleOr val ch = runXsum then
      (([.write (acknowledgement v.seq)], .returned canWrite), v)
    else (([.write [minus]], .next (.data 0)), ⟨[], 0, v.seq⟩)

/-- `GetPacket` on the payload. -/
def getPacket (s : Session) (canWrite : Bool) (stale : ℕ → UInt8) :
    ReceivePoint → List UInt8 → PacketView → (List WireEvent × Bool) × PacketView
  | _, [], v => (([], false), v)
  | point, ch :: stream, v =>
    match v.receiveChar s canWrite (stale stream.length) point ch with
    | ((writes, .returned res), v) => ((.read ch :: writes, res), v)
    | ((writes, .next point), v) =>
      let ((events, res), v) := getPacket s canWrite stale point stream v
      ((.read ch :: writes ++ events, res), v)

end PacketView

section

variable {v : PacketView} {s : Session} {canWrite : Bool}

theorem runs_clear (v : PacketView) : RunsTo (modify Packet.clear) v () ⟨[], 0, v.seq⟩ :=
  fun p hp => ⟨p.clear, rfl, hp.clear⟩

theorem runs_receiveChar (stale : UInt8) (point : ReceivePoint) (ch : UInt8) (v : PacketView) :
    RunsTo (s.receiveChar canWrite stale point ch) v (v.receiveChar s canWrite stale point ch).1
      (v.receiveChar s canWrite stale point ch).2 := by
  unfold Session.receiveChar PacketView.receiveChar
  cases point with
  | skipping =>
    simp only
    split_ifs
    · exact (runs_clear v).seq (RunsTo.pure _ _)
    · exact RunsTo.pure _ v
  | data runXsum =>
    simp only
    split_ifs
    · exact RunsTo.pure _ v
    · exact (runs_clear v).seq (RunsTo.pure _ _)
    · exact (runs_addRawChar ch v).seq (RunsTo.pure _ _)
  | trailer runXsum => exact RunsTo.pure _ v
  | lastTrailer runXsum finXsum val =>
    refine (runs_parseSequence v).seq ?_
    simp only
    split_ifs
    · exact RunsTo.pure _ _
    · refine RunsTo.get_bind fun p hp => ?_
      rw [hp.seq]
      exact RunsTo.pure _ _
    · exact (runs_clear _).seq (RunsTo.pure _ _)

theorem runs_getPacket (stale : ℕ → UInt8) (point : ReceivePoint) (stream : List UInt8) (v : PacketView) :
    RunsTo (s.getPacket canWrite stale point stream) v (v.getPacket s canWrite stale point stream).1
      (v.getPacket s canWrite stale point stream).2 := by
  induction stream generalizing point v with
  | nil => exact RunsTo.pure _ v
  | cons ch stream ih =>
    unfold Session.getPacket PacketView.getPacket
    refine (runs_receiveChar _ point ch v).bind ?_
    generalize v.receiveChar s canWrite (stale stream.length) point ch = received
    obtain ⟨⟨writes, step⟩, v'⟩ := received
    cases step with
    | returned res => exact RunsTo.pure _ v'
    | next point' => exact (ih point' v').bind (RunsTo.pure _ _)

def Session.sentSequence (s : Session) (seq : ℤ) : ℤ := if seq = -1 ∧ s.useSeq then s.seq.toNat else seq

def PacketView.frame (v : PacketView) : List UInt8 :=
  dollar :: Session.withChecksum (Session.sequenceField v.seq ++ v.payload)

theorem mapM_checked (p : Packet) (n : ℕ) (hn : n ≤ p.data.length) :
    (List.range n).mapM (fun offs => (checked p.data[offs]? : Except Fault UInt8)) =
      .ok (p.data.take n) := by
  induction n with
  | zero => rfl
  | succ n ih =>
    rw [List.range_succ, List.mapM_append, ih (by omega), List.mapM_cons, List.mapM_nil,
      List.getElem?_eq_getElem hn, List.take_succ_eq_append_getElem hn]
    rfl

theorem Packet.Shows.getPayload {p : Packet} (h : p.Shows v) : p.getPayload = .ok v.payload := by
  obtain ⟨spare, hdata⟩ := h.data
  have hlength : p.writeIndex ≤ p.data.length := by
    rw [hdata, h.writeIndex, List.length_append]
    exact Nat.le_add_right _ _
  rw [Packet.getPayload, mapM_checked p _ hlength, hdata, h.writeIndex, List.take_left]

theorem runs_giveSequence (s : Session) (v : PacketView) :
    ∃ s', RunsTo s.giveSequence v s' { v with seq := s.sentSequence v.seq } := by
  unfold Session.giveSequence Session.sentSequence
  by_cases h : v.seq = -1 ∧ s.useSeq
  · rw [if_pos h]
    refine ⟨{ s with seq := s.seq + 1 }, RunsTo.get_bind fun p hp => ?_⟩
    rw [if_pos (hp.seq ▸ h)]
    exact (runs_setSequence _ v).seq (RunsTo.pure _ _)
  · rw [if_neg h]
    refine ⟨s, RunsTo.get_bind fun p hp => ?_⟩
    rw [if_neg (hp.seq ▸ h)]
    exact RunsTo.pure s v

theorem runs_sendPacketOnly (s : Session) (v : PacketView) : ∃ s',
    RunsTo s.sendPacketOnly v (s', PacketView.frame { v with seq := s.sentSequence v.seq })
      { v with seq := s.sentSequence v.seq } := by
  obtain ⟨s', hgive⟩ := runs_giveSequence s v
  refine ⟨s', hgive.bind (RunsTo.get_bind fun p hp => ?_)⟩
  rw [hp.seq]
  exact (RunsTo.lift hp.getPayload _).bind (RunsTo.pure _ _)

end

end SandboxingNaCl
