import Mathlib.Control.Monad.Basic
import SandboxingNaCl.Lib.CheckedVector
import SandboxingNaCl.Service.App

/-!
# Packets of the debug stub

The packet of `packet.cc` with the characters that are written to it and read from it.  A packet keeps
its characters in a vector with spare room, and expands a run in place when its marker is read.
`Packet.Shows` relates it to its payload alone, and `RunsTo` says what an operation does to the payload.
A character is its byte; as on x86, `char` is signed where numbers are made of it.
-/

namespace SandboxingNaCl

open CheckedVector

def minPad : ℕ := 1

def growSize : ℕ := 64

/-- `'*'`, the marker of a run. -/
def star : UInt8 := 0x2a

/-- `gdb_rsp::Packet`.  A packet without a sequence number has -1 for it. -/
structure Packet where
  seq : ℤ
  data : List UInt8
  readIndex : ℕ
  writeIndex : ℕ

abbrev PacketM : Type → Type := StateT Packet (Except Fault)

/-- What `GetRawChar` does with its argument: it sets it and returns true, leaves the marker of a bad
run in it and returns false, or returns false at the end of the packet. -/
inductive RawChar
  | char (ch : UInt8)
  | badRun
  | endOfPacket
deriving DecidableEq

/-- The number that a `char` is. -/
def charValue (ch : UInt8) : ℤ := ch.toInt8.toInt

namespace Packet

def clear (p : Packet) : Packet :=
  { p with data := (resize [] growSize 0).set 0 0, readIndex := 0, writeIndex := 0 }

/-- `Packet()`. -/
def new : Packet := clear ⟨-1, [], 0, 0⟩

def rewind (p : Packet) : Packet := { p with readIndex := 0 }

def endOfPacket (p : Packet) : Bool := p.writeIndex ≤ p.readIndex

end Packet

def checked {α : Type} : Option α → Except Fault α
  | some a => .ok a
  | none => .error .badAccess

def addRawChar (ch : UInt8) : PacketM Unit := fun p => do
  let grown := if p.data.length ≤ p.writeIndex + minPad then resize p.data (p.data.length + growSize) 0
    else p.data
  let written ← checked (CheckedVector.store grown p.writeIndex ch)
  let ended ← checked (CheckedVector.store written (p.writeIndex + 1) 0)
  return ((), { p with data := ended, writeIndex := p.writeIndex + 1 })

/-- The expansion of a run in `GetRawChar`, when the marker has been read. -/
def expandRun (cnt : ℕ) (p : Packet) : Except Fault (UInt8 × Packet) := do
  let resized := resize p.data (p.writeIndex + cnt - 3 + 1) 0
  let moved ← checked
    (move resized (p.readIndex + cnt - 3) p.readIndex (p.writeIndex - p.readIndex))
  let ch ← checked moved[p.readIndex - 2]?
  let filled ← checked (fill moved (p.readIndex - 1) ch (cnt - 1))
  let writeIndex := filled.length - 1
  let ended ← checked (CheckedVector.store filled writeIndex 0)
  return (ch, { p with data := ended, writeIndex := writeIndex })

def getRawChar : PacketM RawChar := fun p =>
  if p.writeIndex ≤ p.readIndex then .ok (.endOfPacket, p)
  else do
    let ch ← checked p.data[p.readIndex]?
    let p := { p with readIndex := p.readIndex + 1 }
    if ch = star then
      if p.readIndex < 2 then return (.badRun, p)
      else if p.writeIndex ≤ p.readIndex then return (.badRun, p)
      else
        let count ← checked p.data[p.readIndex]?
        let cnt := charValue count - 28
        if cnt < 3 then return (.badRun, p)
        else
          let (ch, p) ← expandRun cnt.toNat p
          return (.char ch, p)
    else return (.char ch, p)

/-! ## Payloads -/

/-- The payload of a packet, the number of its characters that have been read, and the sequence
number. -/
structure PacketView where
  payload : List UInt8
  pos : ℕ
  seq : ℤ
deriving DecidableEq

/-- The payload is at the start of the vector, with a NUL behind it. -/
structure Packet.Shows (p : Packet) (v : PacketView) : Prop where
  seq : p.seq = v.seq
  readIndex : p.readIndex = v.pos
  writeIndex : p.writeIndex = v.payload.length
  pos_le : v.pos ≤ v.payload.length
  data : ∃ spare, p.data = v.payload ++ 0 :: spare

/-- On a packet that shows the one payload, the code returns a value and leaves one that shows the
other. -/
def RunsTo {α : Type} (m : PacketM α) (v : PacketView) (a : α) (v' : PacketView) : Prop :=
  ∀ p, p.Shows v → ∃ p', m p = .ok (a, p') ∧ p'.Shows v'

/-- On a packet that shows the payload, the code ends with a fault. -/
def Faults {α : Type} (m : PacketM α) (v : PacketView) (fault : Fault) : Prop :=
  ∀ p, Packet.Shows p v → m p = .error fault

namespace PacketView

def add (v : PacketView) (ch : UInt8) : PacketView := { v with payload := v.payload ++ [ch] }

/-- The next character, with the run expanded that it is the marker of. -/
def next (v : PacketView) : RawChar × PacketView :=
  match v.payload[v.pos]? with
  | none => (.endOfPacket, v)
  | some ch =>
    if ch ≠ star then (.char ch, { v with pos := v.pos + 1 })
    else if v.pos = 0 then (.badRun, { v with pos := v.pos + 1 })
    else
      match v.payload[v.pos - 1]?, v.payload[v.pos + 1]? with
      | some last, some count =>
        if charValue count - 28 < 3 then (.badRun, { v with pos := v.pos + 1 })
        else (.char last, { v with
          payload := v.payload.take (v.pos - 1) ++
            List.replicate (charValue count - 28).toNat last ++ v.payload.drop (v.pos + 2)
          pos := v.pos + 1 })
      | _, _ => (.badRun, { v with pos := v.pos + 1 })

end PacketView

section Rules

variable {α β : Type} {m : PacketM α} {f : α → PacketM β} {v v' v'' : PacketView} {a : α} {b : β}
  {p : Packet} {e : Except Fault α} {fault : Fault}

theorem RunsTo.pure (a : α) (v : PacketView) : RunsTo (Pure.pure a) v a v := fun p hp => ⟨p, rfl, hp⟩

theorem RunsTo.bind (hm : RunsTo m v a v') (hf : RunsTo (f a) v' b v'') : RunsTo (m >>= f) v b v'' := by
  intro p hp
  obtain ⟨p', hp', hshows⟩ := hm p hp
  obtain ⟨p'', hp'', hshows'⟩ := hf p' hshows
  refine ⟨p'', ?_, hshows'⟩
  change (m p >>= fun s => f s.1 s.2) = _
  rw [hp']
  exact hp''

theorem RunsTo.seq {m : PacketM Unit} {n : PacketM β} (hm : RunsTo m v () v') (hn : RunsTo n v' b v'') :
    RunsTo (m >>= fun _ => n) v b v'' :=
  hm.bind hn

theorem RunsTo.lift (h : e = .ok a) (v : PacketView) : RunsTo (liftM e) v a v := by
  subst h
  exact fun p hp => ⟨p, rfl, hp⟩

theorem RunsTo.exists_iff {P : α → Prop} (h : RunsTo m v a v') (hp : p.Shows v) :
    (∃ r p', m p = .ok (r, p') ∧ P r) ↔ P a := by
  obtain ⟨p', hrun, -⟩ := h p hp
  constructor
  · rintro ⟨r, p'', hrun', hr⟩
    rw [hrun] at hrun'
    cases hrun'
    exact hr
  · exact fun ha => ⟨a, p', hrun, ha⟩

theorem RunsTo.bind_faults (hm : RunsTo m v a v') (hf : Faults (f a) v' fault) :
    Faults (m >>= f) v fault := by
  intro p hp
  obtain ⟨p', hp', hshows⟩ := hm p hp
  change (m p >>= fun s => f s.1 s.2) = _
  rw [hp']
  exact hf p' hshows

theorem Faults.bind (hm : Faults m v fault) (f : α → PacketM β) : Faults (m >>= f) v fault := by
  intro p hp
  change (m p >>= fun s => f s.1 s.2) = _
  rw [hm p hp]
  rfl

theorem Faults.lift (h : e = .error fault) (v : PacketView) : Faults (liftM e) v fault := by
  subst h
  exact fun p _ => rfl

theorem shows_new : Packet.new.Shows ⟨[], 0, -1⟩ :=
  ⟨rfl, rfl, rfl, Nat.le_refl 0, List.replicate 63 0, rfl⟩

theorem Packet.Shows.unique (h : p.Shows v) (h' : p.Shows v') : v = v' := by
  obtain ⟨payload, pos, seq⟩ := v
  obtain ⟨payload', pos', seq'⟩ := v'
  obtain ⟨spare, hdata⟩ := h.data
  obtain ⟨spare', hdata'⟩ := h'.data
  obtain rfl : pos = pos' := h.readIndex.symm.trans h'.readIndex
  obtain rfl : seq = seq' := h.seq.symm.trans h'.seq
  obtain ⟨rfl, -⟩ := List.append_inj (hdata.symm.trans hdata') (h.writeIndex.symm.trans h'.writeIndex)
  rfl

theorem Packet.Shows.clear (h : p.Shows v) : p.clear.Shows ⟨[], 0, v.seq⟩ :=
  ⟨h.seq, rfl, rfl, Nat.le_refl 0, List.replicate 63 0, rfl⟩

theorem Packet.Shows.rewind (h : p.Shows v) : p.rewind.Shows { v with pos := 0 } :=
  ⟨h.seq, rfl, h.writeIndex, Nat.zero_le _, h.data⟩

theorem Packet.Shows.grown (h : p.Shows v) : ∃ c spare, (if p.data.length ≤ p.writeIndex + minPad then
    resize p.data (p.data.length + growSize) 0 else p.data) = v.payload ++ 0 :: c :: spare := by
  obtain ⟨spare, hdata⟩ := h.data
  have hlength : p.data.length = p.writeIndex + 1 + spare.length := by
    rw [hdata, h.writeIndex, List.length_append, List.length_cons]
    omega
  cases spare with
  | nil =>
    have hresize := resize_append p.data [] growSize 0
    rw [List.append_nil] at hresize
    rw [if_pos (by rw [hlength]; exact Nat.le_refl _), hresize, hdata]
    exact ⟨0, List.replicate 63 0, by rw [List.append_assoc]; rfl⟩
  | cons c spare =>
    rw [if_neg (by rw [hlength, List.length_cons, minPad]; omega)]
    exact ⟨c, spare, hdata⟩

theorem runs_addRawChar (ch : UInt8) (v : PacketView) : RunsTo (addRawChar ch) v () (v.add ch) := by
  intro p hp
  obtain ⟨c, spare, hgrown⟩ := hp.grown
  have hwritten := store_append v.payload (c :: spare) 0 ch
  have hended := store_append (v.payload ++ [ch]) spare c 0
  rw [List.append_assoc, List.length_append, List.length_singleton] at hended
  refine ⟨{ p with data := v.payload ++ [ch] ++ 0 :: spare, writeIndex := p.writeIndex + 1 }, ?_,
    hp.seq, hp.readIndex, ?_, ?_, spare, rfl⟩
  · rw [addRawChar, hgrown, hp.writeIndex, hwritten]
    change (checked (CheckedVector.store (v.payload ++ ([ch] ++ c :: spare)) _ 0) >>= _) = _
    rw [hended]
    rfl
  · rw [hp.writeIndex, PacketView.add, List.length_append]
    rfl
  · have := hp.pos_le
    rw [PacketView.add, List.length_append]
    exact Nat.le_add_right_of_le this

theorem expandRun_eq {before after spare : List UInt8} {last count : UInt8} {cnt : ℕ} (hcnt : 3 ≤ cnt)
    (hdata : p.data = before ++ last :: star :: count :: after ++ 0 :: spare)
    (hread : p.readIndex = before.length + 2) (hwrite : p.writeIndex = before.length + 3 + after.length) :
    expandRun cnt p = .ok (last, { p with
      data := before ++ List.replicate cnt last ++ after ++ [0]
      writeIndex := before.length + cnt + after.length }) := by
  obtain ⟨tail, htail, hresize⟩ : ∃ tail : List UInt8, tail.length = cnt - 2 ∧
      resize p.data (p.writeIndex + cnt - 3 + 1) 0 =
        before ++ [last, star] ++ count :: after ++ tail := by
    refine ⟨resize (0 :: spare) (cnt - 2) 0, length_resize _ _ _, ?_⟩
    have hlength : p.writeIndex + cnt - 3 + 1 =
        (before ++ last :: star :: count :: after).length + (cnt - 2) := by
      rw [hwrite, List.length_append]
      simp only [List.length_cons]
      omega
    rw [hdata, hlength, resize_append]
    simp only [List.append_assoc, List.cons_append, List.nil_append]
  -- What is moved goes to the last places but one.
  obtain ⟨room, old, last', hpieces, hroom, hold, hlast⟩ : ∃ room old last' : List UInt8,
      star :: count :: after ++ tail = room ++ old ++ last' ∧ room.length = cnt - 2 ∧
        old.length = (count :: after).length ∧ last'.length = 1 := by
    refine exists_pieces ?_
    rw [List.length_append, htail]
    simp only [List.length_cons]
    omega
  obtain ⟨z, rfl⟩ := List.length_eq_one_iff.1 hlast
  have hmove : move (before ++ [last, star] ++ count :: after ++ tail) (p.readIndex + cnt - 3)
      p.readIndex (p.writeIndex - p.readIndex) =
        some (before ++ [last] ++ room ++ count :: after ++ [z]) := by
    have hload := loadRange_append (before ++ [last, star]) (count :: after) tail
    have hstore := storeRange_append (before ++ [last] ++ room) old [z] hold.symm
    have hwhole : before ++ [last, star] ++ count :: after ++ tail =
        before ++ [last] ++ room ++ old ++ [z] := by
      rw [List.append_assoc (before ++ [last]) room, List.append_assoc (before ++ [last]),
        ← hpieces]
      simp
    have hcount : p.writeIndex - p.readIndex = (count :: after).length := by
      rw [hread, hwrite, List.length_cons]
      omega
    have hsource : p.readIndex = (before ++ [last, star]).length := by
      rw [hread, List.length_append]
      rfl
    have htarget : p.readIndex + cnt - 3 = (before ++ [last] ++ room).length := by
      simp only [List.length_append, List.length_singleton]
      omega
    rw [move, hcount, hsource, hload, ← hsource, htarget, hwhole]
    exact hstore
  have hget : (before ++ [last] ++ room ++ count :: after ++ [z])[p.readIndex - 2]? = some last := by
    rw [hread, Nat.add_sub_cancel]
    simp
  have hfill : fill (before ++ [last] ++ room ++ count :: after ++ [z]) (p.readIndex - 1) last
      (cnt - 1) = some (before ++ [last] ++ List.replicate (cnt - 1) last ++ (after ++ [z])) := by
    have h := fill_append (before ++ [last]) (room ++ [count]) (after ++ [z]) last
    have hlength : (room ++ [count]).length = cnt - 1 := by
      rw [List.length_append, List.length_singleton]
      omega
    have hstart : (before ++ [last]).length = p.readIndex - 1 := by
      rw [hread, List.length_append]
      rfl
    rw [hlength, hstart] at h
    rw [← h]
    simp only [List.append_assoc, List.cons_append, List.nil_append]
  have hrun : before ++ [last] ++ List.replicate (cnt - 1) last ++ (after ++ [z]) =
      before ++ List.replicate cnt last ++ after ++ [z] := by
    have hsucc : cnt = cnt - 1 + 1 := by omega
    conv_rhs => rw [hsucc, List.replicate_succ]
    simp only [List.append_assoc, List.cons_append, List.nil_append]
  have hend : (before ++ List.replicate cnt last ++ after ++ [z]).length - 1 =
      (before ++ List.replicate cnt last ++ after).length := by
    rw [List.length_append, List.length_singleton, Nat.add_sub_cancel]
  have hstore := store_append (before ++ List.replicate cnt last ++ after) [] z 0
  rw [expandRun, hresize, hmove]
  change (checked _[p.readIndex - 2]? >>= _) = _
  rw [hget]
  change (checked (fill _ (p.readIndex - 1) last (cnt - 1)) >>= _) = _
  rw [hfill, hrun]
  change (checked (CheckedVector.store _ (_ - 1) 0) >>= _) = _
  have hlength : (before ++ List.replicate cnt last ++ after).length =
      before.length + cnt + after.length := by
    rw [List.length_append, List.length_append, List.length_replicate]
  rw [hend, hstore, hlength]
  rfl

theorem eq_append_run {payload : List UInt8} {pos : ℕ} {last marker count : UInt8} (hpos : pos ≠ 0)
    (hlast : payload[pos - 1]? = some last) (hmarker : payload[pos]? = some marker)
    (hcount : payload[pos + 1]? = some count) :
    payload = payload.take (pos - 1) ++ last :: marker :: count :: payload.drop (pos + 2) := by
  obtain ⟨n, rfl⟩ := Nat.exists_eq_succ_of_ne_zero hpos
  rw [Nat.succ_sub_one] at hlast ⊢
  conv_lhs => rw [← List.take_append_drop n payload]
  rw [List.drop_eq_getElem?_toList_append, hlast, List.drop_eq_getElem?_toList_append, hmarker,
    List.drop_eq_getElem?_toList_append, hcount]
  rfl

theorem runs_getRawChar (v : PacketView) : RunsTo getRawChar v v.next.1 v.next.2 := by
  intro p hp
  obtain ⟨spare, hdata⟩ := hp.data
  unfold PacketView.next getRawChar
  cases hch : v.payload[v.pos]? with
  | none =>
    have hle := List.getElem?_eq_none_iff.1 hch
    rw [if_pos (by rw [hp.writeIndex, hp.readIndex]; exact hle)]
    exact ⟨p, rfl, hp⟩
  | some ch =>
    obtain ⟨hlt, -⟩ := List.getElem?_eq_some_iff.1 hch
    have hget : p.data[p.readIndex]? = some ch := by
      rw [hdata, hp.readIndex, List.getElem?_append_left hlt, hch]
    have hnext : ({ p with readIndex := p.readIndex + 1 } : Packet).Shows
        { v with pos := v.pos + 1 } :=
      ⟨hp.seq, congrArg (· + 1) hp.readIndex, hp.writeIndex, hlt, hp.data⟩
    rw [if_neg (by rw [hp.writeIndex, hp.readIndex]; omega), hget]
    change ∃ p', (if ch = star then _ else _) = _ ∧ _
    by_cases hstar : ch = star
    · rw [if_pos hstar]
      simp only [hstar, ne_eq, not_true_eq_false, if_false]
      by_cases hpos : v.pos = 0
      · rw [if_pos (by simp [hp.readIndex, hpos]), if_pos hpos]
        exact ⟨_, rfl, hnext⟩
      rw [if_neg (by simp only [hp.readIndex]; omega), if_neg hpos]
      obtain ⟨last, hlast⟩ : ∃ last, v.payload[v.pos - 1]? = some last :=
        ⟨_, List.getElem?_eq_getElem (by omega)⟩
      rw [hlast]
      cases hcount : v.payload[v.pos + 1]? with
      | none =>
        have hle := List.getElem?_eq_none_iff.1 hcount
        rw [if_pos (by simp only [hp.writeIndex, hp.readIndex]; exact hle)]
        exact ⟨_, rfl, hnext⟩
      | some count =>
        obtain ⟨hlt', -⟩ := List.getElem?_eq_some_iff.1 hcount
        have hget' : p.data[p.readIndex + 1]? = some count := by
          rw [hdata, hp.readIndex, List.getElem?_append_left hlt', hcount]
        rw [if_neg (by simp only [hp.writeIndex, hp.readIndex]; omega), hget']
        change ∃ p', (if charValue count - 28 < 3 then _ else _) = _ ∧ _
        by_cases hcnt : charValue count - 28 < 3
        · rw [if_pos hcnt]
          simp only [hcnt, if_true]
          exact ⟨_, rfl, hnext⟩
        · rw [if_neg hcnt]
          simp only [hcnt, if_false]
          have hsplit := eq_append_run hpos hlast hch hcount
          rw [hstar] at hsplit
          have hbefore : (v.payload.take (v.pos - 1)).length = v.pos - 1 := by
            rw [List.length_take]
            omega
          have hafter : (v.payload.drop (v.pos + 2)).length = v.payload.length - (v.pos + 2) :=
            List.length_drop
          have hdata' : p.data = v.payload.take (v.pos - 1) ++
              last :: star :: count :: v.payload.drop (v.pos + 2) ++ 0 :: spare := by
            rw [← hsplit]
            exact hdata
          have hread : p.readIndex + 1 = (v.payload.take (v.pos - 1)).length + 2 := by
            rw [hp.readIndex]
            omega
          have hwrite : p.writeIndex = (v.payload.take (v.pos - 1)).length + 3 +
              (v.payload.drop (v.pos + 2)).length := by
            rw [hp.writeIndex]
            omega
          have hcnt' : 3 ≤ (charValue count - 28).toNat := by omega
          have hrun : expandRun (charValue count - 28).toNat
              { p with readIndex := p.readIndex + 1 } = .ok (last, ⟨p.seq, _, _, _⟩) :=
            expandRun_eq hcnt' hdata' hread hwrite
          rw [hrun]
          refine ⟨_, rfl, hp.seq, congrArg (· + 1) hp.readIndex, ?_, ?_, [], ?_⟩
          · simp only [List.length_append, List.length_replicate]
          · simp only [List.length_append, List.length_replicate]
            omega
          · rfl
    · rw [if_neg hstar]
      simp only [hstar, ne_eq, not_false_eq_true, if_true]
      exact ⟨_, rfl, hnext⟩

end Rules

end SandboxingNaCl
