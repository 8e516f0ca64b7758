import SandboxingNaCl.Lib.CheckedVector
import SandboxingNaCl.Lib.Runs

/-!
# The transport of the debug stub

The receive buffer of `transport_common.cc`, with the reads of the session and the waits of the stub
for an event, in the version for POSIX.  `incoming` are the bytes that the peer sends.  What each call
of `recv` gives is part of the action, so that all patterns of partial receives are covered.
-/

namespace SandboxingNaCl

open CheckedVector Runs

def kBufSize : ℕ := 4096

/-- What `recv` comes back with. -/
inductive RecvResult
  /-- So many bytes have come, if there is room for them; none if the peer has closed. -/
  | bytes (n : ℕ)
  /-- `EINTR`. -/
  | interrupted
  | failed

/-- Why a step is not finished. -/
inductive TransportFault
  | blocked
  | badAccess

structure Transport where
  buf : List UInt8
  pos : ℕ
  size : ℕ

/-- The transport, the number of bytes that `recv` has given it, and the bytes that `Read` has given
its callers. -/
structure Connection where
  transport : Transport
  received : ℕ
  delivered : List UInt8

/-- A step of the stub's thread on the transport. -/
inductive TransportAction
  | read (len : ℕ) (results : List RecvResult)
  /-- `WaitForDebugStubEvent`, with the number of faulted threads, whether their pipe can be read and
  whether the socket can. -/
  | wait (ignoreInputFromGdb : Bool) (faultedThreadCount : ℕ) (faultEvent socketReady : Bool)
      (results : List RecvResult)

namespace Connection

def new : Connection := ⟨⟨.replicate kBufSize 0, 0, 0⟩, 0, []⟩

/-- `buf_[i]`, `n` of them. -/
def checkedBuf {α : Type} : Option α → Except TransportFault α
  | some a => .ok a
  | none => .error .badAccess

/-- `CopyFromBuffer`, with the bytes that are still to be read. -/
def copyFromBuffer (c : Connection) (len : ℕ) : Except TransportFault (Connection × ℕ) := do
  let copyBytes := min len (c.transport.size - c.transport.pos)
  let bytes ← checkedBuf (loadRange c.transport.buf c.transport.pos copyBytes)
  return ({ c with
    transport := { c.transport with pos := c.transport.pos + copyBytes }
    delivered := c.delivered ++ bytes }, len - copyBytes)

/-- `ReadSomeData`, with the results that are left. -/
def readSomeData (incoming : ℕ → UInt8) (c : Connection) :
    List RecvResult → Except TransportFault (Bool × Connection × List RecvResult)
  | [] => .error .blocked
  | .interrupted :: results => readSomeData incoming c results
  | .failed :: results => .ok (false, c, results)
  | .bytes n :: results => do
    let result := min n (kBufSize - c.transport.size)
    let bytes := (List.range result).map fun i => incoming (c.received + i)
    if 0 < result then
      let buf ← checkedBuf (storeRange c.transport.buf c.transport.size bytes)
      return (true, { c with
        transport := { c.transport with buf := buf, size := c.transport.size + result }
        received := c.received + result }, results)
    else return (false, c, results)

theorem length_readSomeData_lt {incoming : ℕ → UInt8} {c c' : Connection} {ok : Bool}
    {results rest : List RecvResult} (h : readSomeData incoming c results = .ok (ok, c', rest)) :
    rest.length < results.length := by
  induction results with
  | nil => cases h
  | cons result results ih =>
    cases result with
    | interrupted => exact Nat.lt_trans (ih h) (Nat.lt_succ_self _)
    | failed =>
      cases h
      exact Nat.lt_succ_self _
    | bytes n =>
      unfold readSomeData at h
      dsimp only at h
      split_ifs at h
      · cases hstore : checkedBuf (storeRange c.transport.buf c.transport.size
            ((List.range (min n (kBufSize - c.transport.size))).map fun i =>
              incoming (c.received + i))) with
        | error e =>
          rw [hstore] at h
          cases h
        | ok buf =>
          rw [hstore] at h
          cases h
          exact Nat.lt_succ_self _
      · cases h
        exact Nat.lt_succ_self _

/-- `pos_ = 0; size_ = 0`. -/
def reset (c : Connection) : Connection :=
  { c with transport := { c.transport with pos := 0, size := 0 } }

/-- The loop of `Read`. -/
def readLoop (incoming : ℕ → UInt8) (c : Connection) (len : ℕ) (results : List RecvResult) :
    Except TransportFault Connection :=
  if len = 0 then .ok c
  else
    match _h : readSomeData incoming c.reset results with
    | .error fault => .error fault
    | .ok (false, c, _) => .ok c
    | .ok (true, c, rest) =>
      match c.copyFromBuffer len with
      | .error fault => .error fault
      | .ok (c, len) => readLoop incoming c len rest
termination_by results.length
decreasing_by exact length_readSomeData_lt _h

def read (incoming : ℕ → UInt8) (c : Connection) (len : ℕ) (results : List RecvResult) :
    Except TransportFault Connection :=
  if c.transport.pos < c.transport.size then do
    let (c, len) ← c.copyFromBuffer len
    c.readLoop incoming len results
  else c.readLoop incoming len results

/-- The socket is among the descriptors that `WaitForDebugStubEvent` waits for. -/
def waitsForSocket (c : Connection) : Bool := c.transport.size < kBufSize

def waitForDebugStubEvent (incoming : ℕ → UInt8) (c : Connection) (ignoreInputFromGdb : Bool)
    (faultedThreadCount : ℕ) (faultEvent socketReady : Bool) (results : List RecvResult) :
    Except TransportFault Connection :=
  let wait : Bool := ¬ (c.transport.pos < c.transport.size ∧ !ignoreInputFromGdb ∨
    faultedThreadCount > 0)
  if wait ∧ !faultEvent ∧ !(c.waitsForSocket && socketReady) then .error .blocked
  else if c.waitsForSocket && socketReady then do
    let (_, c, _) ← readSomeData incoming c results
    return c
  else return c

/-- A step. -/
def step (incoming : ℕ → UInt8) (c : Connection) : TransportAction → Except TransportFault Connection
  | .read len results => c.read incoming len results
  | .wait ignoreInputFromGdb faultedThreadCount faultEvent socketReady results =>
    c.waitForDebugStubEvent incoming ignoreInputFromGdb faultedThreadCount faultEvent socketReady
      results

def unread (c : Connection) : List UInt8 :=
  (c.transport.buf.drop c.transport.pos).take (c.transport.size - c.transport.pos)

/-- Every byte that was received is given to a caller once and in order, or is still in the buffer. -/
def InOrder (incoming : ℕ → UInt8) (c : Connection) : Prop :=
  c.delivered ++ c.unread = (List.range c.received).map incoming

/-- The stub waits for the socket if it has nothing to read. -/
def Listens (c : Connection) : Prop := c.transport.pos = c.transport.size → c.waitsForSocket = true

/-- Of `len` bytes, the last one is the last of a full buffer that one `recv` gives. -/
def endsFull : ℕ → List RecvResult → Bool
  | len, .interrupted :: results => endsFull len results
  | len, .bytes n :: results =>
    if len ≤ min n kBufSize then len = kBufSize
    else 0 < min n kBufSize && endsFull (len - min n kBufSize) results
  | _, _ => false

/-- The step is not a `Read` that ends with the last byte of a full buffer: of what is left in one, or
of one that it fills itself. -/
def Leaves (c : Connection) : TransportAction → Prop
  | .read len results =>
    ¬ (c.transport.size = kBufSize ∧ c.transport.pos + len = c.transport.size) ∧
      endsFull (len - (c.transport.size - c.transport.pos)) results = false
  | .wait .. => True

instance (c : Connection) (a : TransportAction) : Decidable (c.Leaves a) := by
  cases a <;> unfold Leaves <;> infer_instance

/-! ## What a step does to the buffer -/

section

variable {incoming : ℕ → UInt8} {c : Connection} {left : List UInt8}

/-- `left` is what has been received and not been read, at its place in the buffer. -/
structure Buffered (incoming : ℕ → UInt8) (c : Connection) (left : List UInt8) : Prop where
  pieces : ∃ front back, c.transport.buf = front ++ left ++ back ∧ c.transport.pos = front.length
  size_eq : c.transport.size = c.transport.pos + left.length
  length_buf : c.transport.buf.length = kBufSize
  stream : c.delivered ++ left = (List.range c.received).map incoming

theorem buffered_new : Buffered incoming new [] where
  pieces := ⟨[], List.replicate kBufSize 0, rfl, rfl⟩
  size_eq := rfl
  length_buf := List.length_replicate
  stream := rfl

theorem Buffered.unread_eq (h : Buffered incoming c left) : c.unread = left := by
  obtain ⟨front, back, hbuf, hpos⟩ := h.pieces
  rw [unread, h.size_eq, Nat.add_sub_cancel_left, hbuf, hpos, List.append_assoc, List.drop_left,
    List.take_left]

theorem Buffered.size_le (h : Buffered incoming c left) : c.transport.size ≤ kBufSize := by
  obtain ⟨front, back, hbuf, hpos⟩ := h.pieces
  have hlength := h.length_buf
  rw [hbuf, List.length_append, List.length_append] at hlength
  have := h.size_eq
  omega

theorem Buffered.reset (h : Buffered incoming c []) : Buffered incoming c.reset [] where
  pieces := ⟨[], c.transport.buf, rfl, rfl⟩
  size_eq := rfl
  length_buf := h.length_buf
  stream := h.stream

theorem Buffered.copyFromBuffer (h : Buffered incoming c left) (len : ℕ) : ∃ c',
    c.copyFromBuffer len = .ok (c', len - min len left.length) ∧ Buffered incoming c' (left.drop len) ∧
      c'.transport.size = c.transport.size ∧
      c'.transport.pos = c.transport.pos + min len left.length := by
  obtain ⟨front, back, hbuf, hpos⟩ := h.pieces
  have hcount : c.transport.size - c.transport.pos = left.length := by
    have := h.size_eq
    omega
  have htake : (left.take len).length = min len left.length := List.length_take
  have hload : loadRange c.transport.buf c.transport.pos (min len left.length) =
      some (left.take len) := by
    have hpieces := loadRange_append front (left.take len) (left.drop len ++ back)
    rw [htake, List.append_assoc front, ← List.append_assoc (left.take len),
      List.take_append_drop, ← List.append_assoc, ← hbuf, ← hpos] at hpieces
    exact hpieces
  refine ⟨{ c with
    transport := { c.transport with pos := c.transport.pos + min len left.length }
    delivered := c.delivered ++ left.take len }, ?_, ⟨⟨front ++ left.take len, back, ?_, ?_⟩, ?_, ?_, ?_⟩,
    rfl, rfl⟩
  · rw [Connection.copyFromBuffer, hcount, hload]
    rfl
  · rw [List.append_assoc front, List.take_append_drop]
    exact hbuf
  · rw [List.length_append, htake, ← hpos]
  · have := h.size_eq
    simp only [List.length_drop]
    omega
  · exact h.length_buf
  · rw [List.append_assoc, List.take_append_drop]
    exact h.stream

theorem Buffered.readSomeData_bytes (h : Buffered incoming c left) {n result : ℕ}
    (hresult : min n (kBufSize - c.transport.size) = result) (hpos : 0 < result)
    (results : List RecvResult) : ∃ c',
      readSomeData incoming c (.bytes n :: results) = .ok (true, c', results) ∧
        Buffered incoming c' (left ++ (List.range result).map fun i => incoming (c.received + i)) ∧
        c'.transport.pos = c.transport.pos ∧ c'.transport.size = c.transport.size + result := by
  obtain ⟨front, back, hbuf, hfront⟩ := h.pieces
  have hsize := h.size_eq
  have hback : back.length = kBufSize - c.transport.size := by
    have hlength := h.length_buf
    rw [hbuf, List.length_append, List.length_append] at hlength
    omega
  have hroom : (back.take result).length = result := by
    rw [List.length_take]
    omega
  unfold Connection.readSomeData
  dsimp only
  rw [hresult, if_pos hpos]
  generalize hbytes : ((List.range result).map fun i => incoming (c.received + i)) = bytes
  have hlength : bytes.length = result := by
    rw [← hbytes, List.length_map, List.length_range]
  have hstore : storeRange c.transport.buf c.transport.size bytes =
      some (front ++ left ++ bytes ++ back.drop result) := by
    have hpieces := storeRange_append (front ++ left) (back.take result) (back.drop result)
      (hlength.trans hroom.symm)
    rwa [List.append_assoc (front ++ left), List.take_append_drop, ← hbuf, List.length_append,
      ← hfront, ← hsize] at hpieces
  rw [hstore]
  refine ⟨_, rfl, ⟨⟨front, back.drop result, ?_, hfront⟩, ?_, ?_, ?_⟩, rfl, rfl⟩
  · rw [← List.append_assoc front]
  · simp only [List.length_append]
    omega
  · have hlen := h.length_buf
    rw [hbuf] at hlen
    simp only [List.length_append, List.length_drop] at hlen ⊢
    omega
  · rw [← List.append_assoc, h.stream, List.range_add, List.map_append, List.map_map, ← hbytes]
    rfl

theorem Buffered.readSomeData (h : Buffered incoming c left) (results : List RecvResult) :
    readSomeData incoming c results = .error .blocked ∨
      (∃ rest, readSomeData incoming c results = .ok (false, c, rest)) ∨
      ∃ c' rest bytes, readSomeData incoming c results = .ok (true, c', rest) ∧ bytes ≠ [] ∧
        Buffered incoming c' (left ++ bytes) ∧ c'.transport.pos = c.transport.pos ∧
        (c.transport.size = 0 → ∀ len, endsFull len results =
          if len ≤ bytes.length then decide (len = kBufSize)
          else endsFull (len - bytes.length) rest) := by
  induction results with
  | nil => exact Or.inl rfl
  | cons result results ih =>
    cases result with
    | interrupted => exact ih
    | failed => exact Or.inr (Or.inl ⟨results, rfl⟩)
    | bytes n =>
      rcases Nat.eq_zero_or_pos (min n (kBufSize - c.transport.size)) with hzero | hpos
      · refine Or.inr (Or.inl ⟨results, ?_⟩)
        unfold Connection.readSomeData
        dsimp only
        rw [hzero, if_neg (Nat.lt_irrefl 0)]
        rfl
      · obtain ⟨c', hread, hbuffered, hkept, -⟩ := h.readSomeData_bytes rfl hpos results
        have hlength : ((List.range (min n (kBufSize - c.transport.size))).map fun i =>
            incoming (c.received + i)).length = min n (kBufSize - c.transport.size) := by
          rw [List.length_map, List.length_range]
        have hne := List.ne_nil_of_length_pos (hlength.symm ▸ hpos)
        refine Or.inr (Or.inr ⟨c', results, _, hread, hne, hbuffered, hkept, fun hempty len => ?_⟩)
        rw [hlength, hempty, Nat.sub_zero, endsFull]
        rw [hempty, Nat.sub_zero] at hpos
        rw [decide_eq_true hpos, Bool.true_and]

theorem Buffered.readLoop (h : Buffered incoming c []) (len : ℕ) (results : List RecvResult) :
    readLoop incoming c len results = .error .blocked ∨
      ∃ c' left, readLoop incoming c len results = .ok c' ∧ Buffered incoming c' left ∧
        (0 < len → endsFull len results = false → c'.transport.pos = c'.transport.size →
          c'.transport.size < kBufSize) ∧ (len = 0 → c' = c) := by
  induction hn : results.length using Nat.strongRecOn generalizing c len results with
  | ind n ih =>
    subst hn
    rw [Connection.readLoop]
    by_cases hlen : len = 0
    · rw [if_pos hlen]
      exact Or.inr ⟨c, [], rfl, h, fun hpos => absurd hlen (by omega), fun _ => rfl⟩
    rw [if_neg hlen]
    have hread := h.reset.readSomeData results
    split
    · next fault hfault =>
      rw [hfault] at hread
      rcases hread with hread | ⟨rest, hread⟩ | ⟨c', rest, bytes, hread, -⟩
      · cases hread
        exact Or.inl rfl
      · cases hread
      · cases hread
    · next c' rest hfailed =>
      rw [hfailed] at hread
      rcases hread with hread | ⟨rest, hread⟩ | ⟨c', rest, bytes, hread, -⟩
      · cases hread
      · cases hread
        refine Or.inr ⟨c.reset, [], rfl, h.reset, fun _ _ _ => ?_, fun hzero => absurd hzero hlen⟩
        exact Nat.zero_lt_succ _
      · cases hread
    · next c' rest hok =>
      have hlt := length_readSomeData_lt hok
      rw [hok] at hread
      rcases hread with
        hread | ⟨rest, hread⟩ | ⟨c'', rest', bytes, hread, hne, hbuffered, hpos, hfull⟩
      · cases hread
      · cases hread
      · cases hread
        rw [List.nil_append] at hbuffered
        obtain ⟨c'', hcopy, hcopied, hsize, hpos'⟩ := hbuffered.copyFromBuffer len
        rw [hcopy]
        dsimp only
        have hsizeEq := hbuffered.size_eq
        have hpositive := List.length_pos_of_ne_nil hne
        rw [hpos] at hsizeEq hpos'
        change c'.transport.size = 0 + bytes.length at hsizeEq
        change c''.transport.pos = 0 + min len bytes.length at hpos'
        have hfull := hfull rfl len
        rcases Nat.lt_or_ge len bytes.length with hless | hmore
        · -- All has been read, and there are bytes left in the buffer.
          have hdone : len - min len bytes.length = 0 := by omega
          rw [hdone, Connection.readLoop, if_pos rfl]
          exact Or.inr ⟨c'', bytes.drop len, rfl, hcopied, fun _ _ hdrained => by omega,
            fun hzero => absurd hzero hlen⟩
        · -- The buffer is used up.
          rw [List.drop_of_length_le hmore] at hcopied
          rcases ih rest.length hlt hcopied (len - min len bytes.length) rest rfl with
            hblocked | ⟨c₃, left, hloop, hbuffered', hsmall, hnone⟩
          · exact Or.inl hblocked
          · refine Or.inr ⟨c₃, left, hloop, hbuffered', fun _ hends hdrained => ?_,
              fun hzero => absurd hzero hlen⟩
            rw [hends] at hfull
            by_cases hrest : len ≤ bytes.length
            · rw [if_pos hrest] at hfull
              have hne := of_decide_eq_false hfull.symm
              have hle := hcopied.size_le
              rw [hnone (by omega)]
              omega
            · rw [if_neg hrest] at hfull
              have hmin : min len bytes.length = bytes.length := by omega
              rw [hmin] at hsmall
              exact hsmall (by omega) hfull.symm hdrained

theorem Buffered.listens_iff (h : Buffered incoming c left) :
    c.Listens ↔ (left = [] → c.transport.size < kBufSize) := by
  have hsize := h.size_eq
  rw [Listens, waitsForSocket, decide_eq_true_iff, ← List.length_eq_zero_iff]
  exact imp_congr_left ⟨fun h => by omega, fun h => by omega⟩

theorem Buffered.read (h : Buffered incoming c left) (len : ℕ) (results : List RecvResult) :
    read incoming c len results = .error .blocked ∨
      ∃ c' left', read incoming c len results = .ok c' ∧ Buffered incoming c' left' ∧
        (c.Listens → c.Leaves (.read len results) → c'.Listens) := by
  have hsize := h.size_eq
  have hle := h.size_le
  unfold Connection.read
  split_ifs with hlt
  · obtain ⟨c₁, hcopy, hcopied, hsize₁, hpos₁⟩ := h.copyFromBuffer len
    rw [hcopy]
    change Connection.readLoop incoming c₁ (len - min len left.length) results = _ ∨ ∃ c' left',
      Connection.readLoop incoming c₁ (len - min len left.length) results = _ ∧ _
    rcases Nat.lt_or_ge len left.length with hless | hmore
    · -- There is enough in the buffer.
      have hdone : len - min len left.length = 0 := by omega
      rw [hdone, Connection.readLoop, if_pos rfl]
      refine Or.inr ⟨c₁, left.drop len, rfl, hcopied, fun _ _ hdrained => ?_⟩
      omega
    · rw [List.drop_of_length_le hmore] at hcopied
      rcases hcopied.readLoop (len - min len left.length) results with
        hblocked | ⟨c', left', hloop, hbuffered, hsmall, hnone⟩
      · exact Or.inl hblocked
      · refine Or.inr ⟨c', left', hloop, hbuffered, fun _ hleaves hdrained => decide_eq_true ?_⟩
        obtain ⟨hfull, hends⟩ := hleaves
        have hcount : len - (c.transport.size - c.transport.pos) = len - min len left.length := by
          omega
        rw [hcount] at hends
        by_cases hrest : len - min len left.length = 0
        · rw [hnone hrest, hsize₁]
          by_contra hnot
          exact hfull ⟨by omega, by omega⟩
        · exact hsmall (by omega) hends hdrained
  · obtain rfl : left = [] := List.length_eq_zero_iff.1 (by omega)
    rcases h.readLoop len results with hblocked | ⟨c', left', hloop, hbuffered, hsmall, hnone⟩
    · exact Or.inl hblocked
    · refine Or.inr ⟨c', left', hloop, hbuffered, fun hlistens hleaves hdrained => ?_⟩
      have hends := hleaves.2
      rw [hsize, List.length_nil, Nat.add_zero, Nat.sub_self, Nat.sub_zero] at hends
      by_cases hrest : len = 0
      · rw [hnone hrest] at hdrained ⊢
        exact hlistens hdrained
      · exact decide_eq_true (hsmall (by omega) hends hdrained)

theorem Buffered.wait (h : Buffered incoming c left) (ignoreInputFromGdb : Bool) (faultedThreadCount : ℕ)
    (faultEvent socketReady : Bool) (results : List RecvResult) :
    waitForDebugStubEvent incoming c ignoreInputFromGdb faultedThreadCount faultEvent socketReady
        results = .error .blocked ∨
      ∃ c' left', waitForDebugStubEvent incoming c ignoreInputFromGdb faultedThreadCount faultEvent
          socketReady results = .ok c' ∧ Buffered incoming c' left' ∧ (c.Listens → c'.Listens) := by
  unfold waitForDebugStubEvent
  dsimp only
  split_ifs
  · exact Or.inl rfl
  · rcases h.readSomeData results with hread | ⟨rest, hread⟩ | ⟨c', rest, bytes, hread, hne, hbuffered, -⟩
    · rw [hread]
      exact Or.inl rfl
    · rw [hread]
      exact Or.inr ⟨c, left, rfl, h, id⟩
    · rw [hread]
      refine Or.inr ⟨c', left ++ bytes, rfl, hbuffered, fun _ => hbuffered.listens_iff.2 fun hnil => ?_⟩
      exact absurd (List.append_eq_nil_iff.1 hnil).2 hne
  · exact Or.inr ⟨c, left, rfl, h, id⟩

theorem Buffered.step (h : Buffered incoming c left) (a : TransportAction) :
    step incoming c a = .error .blocked ∨
      ∃ c' left', step incoming c a = .ok c' ∧ Buffered incoming c' left' ∧
        (c.Listens → c.Leaves a → c'.Listens) := by
  cases a with
  | read len results => exact h.read len results
  | wait ignoreInputFromGdb faultedThreadCount faultEvent socketReady results =>
    rcases h.wait ignoreInputFromGdb faultedThreadCount faultEvent socketReady results with
      hblocked | ⟨c', left', hok, hbuffered, hlistens⟩
    · exact Or.inl hblocked
    · exact Or.inr ⟨c', left', hok, hbuffered, fun h _ => hlistens h⟩

/-! ## Runs -/

theorem inOrder_of_run {run : List TransportAction} {c' : Connection}
    (hrun : run.foldlM (step incoming) new = .ok c') : c'.InOrder incoming := by
  have hstep : ∀ s a s', (∃ left, Buffered incoming s left) → step incoming s a = .ok s' →
      ∃ left, Buffered incoming s' left := by
    rintro s a s' ⟨left, hs⟩ ha
    rcases hs.step a with hblocked | ⟨t, left', hok, hbuffered, -⟩
    · rw [hblocked] at ha
      cases ha
    · rw [hok] at ha
      cases ha
      exact ⟨left', hbuffered⟩
  obtain ⟨left, hbuffered⟩ := invariant hstep ⟨[], buffered_new⟩ hrun
  rw [InOrder, hbuffered.unread_eq]
  exact hbuffered.stream

/-- If no `Read` ends with the last byte of a full buffer, the stub always waits for the socket when it
has nothing to read, and every byte is read once and in order. -/
theorem listens_of_run {run : List TransportAction} {c' : Connection}
    (hleaves : Guarded (step incoming) Leaves new run)
    (hrun : run.foldlM (step incoming) new = .ok c') : c'.Listens ∧ c'.InOrder incoming := by
  refine ⟨?_, inOrder_of_run hrun⟩
  have hstep : ∀ s a s', (∃ left, Buffered incoming s left ∧ s.Listens) → s.Leaves a →
      step incoming s a = .ok s' → ∃ left, Buffered incoming s' left ∧ s'.Listens := by
    rintro s a s' ⟨left, hs, hlistens⟩ hok ha
    rcases hs.step a with hblocked | ⟨t, left', hnew, hbuffered, hnext⟩
    · rw [hblocked] at ha
      cases ha
    · rw [hnew] at ha
      cases ha
      exact ⟨left', hbuffered, hnext hlistens hok⟩
  have hnew : new.Listens := fun _ => by decide
  obtain ⟨left, -, hlistens⟩ := hleaves.invariant hstep ⟨[], buffered_new, hnew⟩ hrun
  exact hlistens

end

section

variable {incoming : ℕ → UInt8}

theorem exists_step_wait {n : ℕ} (hpos : 0 < n) (hn : n ≤ kBufSize) : ∃ c left,
    step incoming new (.wait false 0 false true [.bytes n]) = .ok c ∧ Buffered incoming c left ∧
      left.length = n ∧ c.transport.size = n := by
  have hmin : min n (kBufSize - new.transport.size) = n := Nat.min_eq_left hn
  obtain ⟨c, hread, hbuffered, -, hsize⟩ := buffered_new.readSomeData_bytes hmin hpos []
  refine ⟨c, _, ?_, hbuffered, ?_, hsize.trans (Nat.zero_add n)⟩
  · change (readSomeData incoming new [.bytes n] >>= fun x => pure x.2.1) = _
    rw [hread]
    rfl
  · rw [List.nil_append, List.length_map, List.length_range]

theorem Buffered.step_read_one {c : Connection} {left : List UInt8} (h : Buffered incoming c left)
    (hleft : 0 < left.length) : ∃ c', Connection.step incoming c (.read 1 []) = .ok c' ∧
      Buffered incoming c' (left.drop 1) ∧ c'.transport.size = c.transport.size := by
  obtain ⟨c', hcopy, hcopied, hsize, -⟩ := h.copyFromBuffer 1
  have hlt : c.transport.pos < c.transport.size := by
    have := h.size_eq
    omega
  have hdone : 1 - min 1 left.length = 0 := by omega
  rw [hdone] at hcopy
  refine ⟨c', ?_, hcopied, hsize⟩
  change Connection.read incoming c 1 [] = _
  rw [Connection.read, if_pos hlt, hcopy]
  change Connection.readLoop incoming c' 0 [] = _
  rw [Connection.readLoop, if_pos rfl]

theorem Buffered.run_reads {c : Connection} {left : List UInt8} (h : Buffered incoming c left) (n : ℕ)
    (hn : n ≤ left.length) : ∃ c',
      (List.replicate n (TransportAction.read 1 [])).foldlM (Connection.step incoming) c = .ok c' ∧
        Buffered incoming c' (left.drop n) ∧ c'.transport.size = c.transport.size := by
  induction n generalizing c left with
  | zero => exact ⟨c, rfl, h, rfl⟩
  | succ n ih =>
    obtain ⟨c₁, hstep, hread, hsize₁⟩ := h.step_read_one (Nat.lt_of_lt_of_le n.succ_pos hn)
    obtain ⟨c', hrun, hbuffered, hsize⟩ := ih hread (by rw [List.length_drop]; omega)
    rw [List.drop_drop, Nat.add_comm] at hbuffered
    refine ⟨c', ?_, hbuffered, hsize.trans hsize₁⟩
    rw [List.replicate_succ, List.foldlM_cons, hstep]
    exact hrun

end

/-- Two bytes come, and the session reads one. -/
theorem listens_of_wait_read : ∃ c', [.wait false 0 false true [.bytes 2], .read 1 []].foldlM
    (step fun _ => 36) new = .ok c' ∧ c'.Listens ∧ c'.InOrder fun _ => 36 := by
  obtain ⟨c, left, hwait, hbuffered, hlength, hsize⟩ :=
    @exists_step_wait (fun _ => 36) 2 (by decide) (by decide)
  obtain ⟨c', hread, -⟩ := hbuffered.step_read_one (hlength ▸ by decide)
  have hleaves : c.Leaves (.read 1 []) := by
    refine ⟨fun hfull => ?_, rfl⟩
    rw [hsize] at hfull
    exact absurd hfull.1 (by decide)
  have hrun : [.wait false 0 false true [.bytes 2], .read 1 []].foldlM (step fun _ => 36) new =
      .ok c' := by
    rw [List.foldlM_cons, hwait]
    change [TransportAction.read 1 []].foldlM (step fun _ => 36) c = _
    rw [List.foldlM_cons, hread]
    rfl
  have hguarded : Guarded (step fun _ => 36) Leaves c [.read 1 []] := ⟨hleaves, fun _ _ => trivial⟩
  exact ⟨c', hrun, listens_of_run (Guarded.cons c (by trivial) hwait hguarded) hrun⟩

/-- 4096 bytes come, the session reads all of them one by one, and the stub does not wait for more. -/
theorem not_listens_of_full : ∃ c', (.wait false 0 false true [.bytes 4096] ::
    .replicate 4096 (.read 1 [])).foldlM (step fun _ => 36) new = .ok c' ∧ ¬ c'.Listens := by
  obtain ⟨c, left, hwait, hbuffered, hlength, hsize⟩ :=
    @exists_step_wait (fun _ => 36) kBufSize (by decide) (Nat.le_refl _)
  obtain ⟨c', hrun, hbuffered', hsize'⟩ := hbuffered.run_reads kBufSize (Nat.le_of_eq hlength.symm)
  refine ⟨c', ?_, fun hlistens => ?_⟩
  · change (TransportAction.wait false 0 false true [.bytes kBufSize] ::
      List.replicate kBufSize (.read 1 [])).foldlM (step fun _ => 36) new = _
    rw [List.foldlM_cons, hwait]
    exact hrun
  · have hlt := hbuffered'.listens_iff.1 hlistens (List.drop_of_length_le (Nat.le_of_eq hlength))
    rw [hsize', hsize] at hlt
    exact Nat.lt_irrefl _ hlt

end Connection

end SandboxingNaCl
