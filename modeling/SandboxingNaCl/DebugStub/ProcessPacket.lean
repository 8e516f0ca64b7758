import SandboxingNaCl.DebugStub.FeaturesQuery
import SandboxingNaCl.DebugStub.Threads
import SandboxingNaCl.DebugStub.WritePackets

/-!
# Processing a packet

`ProcessPacket` of `target.cc` with all its cases.  What a case does to the threads is a `ThreadCommand`,
and the packet that answers is its payload.  A byte that no field of the packet has supplied gives a
fault where it is used, like an access past the end.
-/

namespace SandboxingNaCl

open ByteImage Patches

/-- A file that `vFile` can read from. -/
structure HostFile where
  pread : ℕ → ℤ → Except ℕ (List UInt8)
  length_le : ∀ count offset data, pread count offset = .ok data → data.length ≤ count

/-- `properties_`.  The strings are shorter than an `int` can say. -/
structure Properties where
  entries : List (List UInt8 × List UInt8)
  short : ∀ entry ∈ entries, entry.2.length < 2 ^ 31

/-- The fields of `Target` that `ProcessPacket` uses.  `contexts` are the registers of the threads by
their ids. -/
structure PacketTarget where
  memory : Target
  threads : TargetThreads
  contexts : ℕ → ℕ → UInt8
  properties : Properties
  mainNexeDesc : Option HostFile
  irtNexeDesc : Option HostFile

/-- What `ProcessPacket` leaves behind: the target but for its threads, what becomes of these, its
result, and the payload of the answer with the sequence number that it sets. -/
structure Processed where
  target : PacketTarget
  command : ThreadCommand
  resumes : Bool
  reply : List UInt8
  seq : Option ℤ

/-- A `CHECK`, or another end of the process. -/
def asserted {α : Type} : Option α → Except Fault α
  | some a => .ok a
  | none => .error .checkFailed

def unsupplied : ℕ → Except Fault UInt8 := fun _ => .error .badAccess

/-- The values of `ErrDef`. -/
def ErrDef.code : ErrDef → UInt8
  | .badFormat => 1
  | .badArgs => 2
  | .failed => 3

/-- The payload of an answer. -/
def Reply.chars : Reply → List UInt8
  | .ok => ofString "OK"
  | .error err => ofString "E" ++ hexPair err.code
  | .block data => hexChars data

def packetString (i : ℕ) : PacketM (List UInt8) := do
  let payload ← (← get).getPayload
  cString payload i

def getString : PacketM (Option (List UInt8)) := do
  let p ← get
  if p.endOfPacket then return none
  else do
    let str ← packetString p.readIndex
    setReadIndex p.writeIndex
    return some str

/-- The loop of `GetStringSep`. -/
def stringSepLoop (sep : UInt8) : ℕ → List UInt8 → PacketM (Option (List UInt8))
  | 0, _ => outOfFuel
  | n + 1, str => do
    let .char ch ← getRawChar | return none
    if ch = sep then return some str else stringSepLoop sep n (str ++ [ch])

def getStringSep (sep : UInt8) : PacketM (Option (List UInt8)) := do
  let p ← get
  if p.endOfPacket then return none else stringSepLoop sep p.fuel []

def getRegisters (arch : NaClArch) (context : ℕ → UInt8) : List UInt8 :=
  (placedRegs 0 arch.regs).flatMap fun reg =>
    match reg.2.type with
    | .readOnlyZero => List.replicate reg.2.bytes 0
    | .armStatus => bytes32 (word32 context reg.1 &&& 0xF0000000)
    | _ => read context reg.1 reg.2.bytes

namespace PacketTarget

variable (t : PacketTarget) (host : Platform)

def answer (reply : List UInt8) : Processed := ⟨t, .other, false, reply, none⟩

def fail (err : ErrDef) : Processed := t.answer (Reply.error err).chars

def resume (command : ThreadCommand) : Processed := ⟨t, command, true, [], none⟩

def getRegThread : Option ℕ :=
  if t.threads.regThread = 0 ∨ t.threads.regThread = 0xFFFFFFFF then
    t.threads.threads.head?.map Prod.fst
  else if t.threads.Live t.threads.regThread then some t.threads.regThread
  else none

/-- `SetStopReply`. -/
def stopReply : List UInt8 :=
  ofString "T" ++ hexPair (.ofNat t.threads.curSignal) ++
    if t.threads.sigThread ≠ 0 then
      ofString "thread:" ++ numberChars (.ofNat 64 t.threads.sigThread) ++ ofString ";"
    else []

/-- The case `g`. -/
def processReadRegisters : Processed :=
  match t.getRegThread with
  | none => { t.fail .badArgs with command := .readRegisters }
  | some id => ⟨t, .readRegisters, false, hexChars (getRegisters t.memory.arch (t.contexts id)), none⟩

/-- The case `G`, with `ctx_` from before as what no field has supplied. -/
def processWriteRegisters : PacketM Processed := do
  let id := t.getRegThread
  let (r, reply) ← t.memory.processWriteRegisters host ⟨unsupplied, id.map t.contexts⟩
  let contexts := match id, r.context with
    | some id, some context => Function.update t.contexts id context
    | _, _ => t.contexts
  return ⟨{ t with contexts }, .writeRegisters, false, reply.chars, none⟩

/-- The rest of `H`. -/
def setThread (type : UInt8) (id : BitVec 64) : Processed :=
  match t.threads.threads.head? with
  | none => t.fail .badArgs
  | some first =>
    let isG := type = (ofString "g").headD 0
    let id' := if id = -1 then first.1 else id.toNat % 2 ^ 32
    if t.threads.Live id' then
      ⟨t, .setThread isG (if id = -1 then none else some (id.toNat % 2 ^ 32)), false,
        (if isG then Reply.ok else .error .badArgs).chars, none⟩
    else t.fail .badArgs

/-- The case `H`. -/
def processSetThread : PacketM Processed := do
  let .char type ← getRawChar | return t.fail .badFormat
  let some (id, _) ← getNumberSep | return t.fail .badFormat
  return t.setThread type id

/-- The case `m`. -/
def processReadMemory : PacketM Processed := do
  let some (userAddr, _) ← getNumberSep | return t.fail .badFormat
  let some (wlen, _) ← getNumberSep | return t.fail .badFormat
  let reply ← asserted (t.memory.readPacket host userAddr wlen)
  return t.answer reply.chars

/-- The case `M`. -/
def processWriteMemory : PacketM Processed := do
  let (memory, reply) ← t.memory.processWriteMemory host unsupplied
  return { t with memory }.answer reply.chars

/-- The case `T`. -/
def processThreadAlive : PacketM Processed := do
  let some (id, _) ← getNumberSep | return t.fail .badFormat
  let id := id.toNat % 2 ^ 32
  return ⟨t, .threadAlive id, false,
    (if t.threads.Live id then Reply.ok else .error .badArgs).chars, none⟩

/-- The rest of `Z` and `z`. -/
def processBreakpointAddress (command : BitVec 64 → MemoryCommand) : PacketM Processed := do
  let some (address, _) ← getNumberSep | return t.fail .badFormat
  let some _ ← getNumberSep | return t.fail .badFormat
  let (memory, reply) ← asserted (t.memory.processPacket host (command address))
  return { t with memory }.answer reply.chars

/-- The cases `Z` and `z`. -/
def processBreakpoint (command : BitVec 64 → MemoryCommand) : PacketM Processed := do
  let some (type, _) ← getNumberSep | return t.fail .badFormat
  if type ≠ 0 then return t.fail .badFormat else t.processBreakpointAddress host command

/-! ### `vCont` -/

def threadId (n : ℤ) : ℕ := (n % 2 ^ 32).toNat

/-- `vCont;s:`, for what is behind it. -/
def vContStep (str : List UInt8) : Processed :=
  let (n, rest) := strtol t.memory.arch.ptrBits str
  let id := threadId n
  -- `end` is where `strtol` has started
  if rest = str then t.fail .badArgs
  else if ¬ t.threads.Live id then t.fail .badArgs
  else if rest = [] then
    if id ≠ t.threads.sigThread then t.fail .badArgs else t.resume (.vContStep id .nothing)
  else if rest = ofString ";c" then t.resume (.vContStep id .continueOthers)
  else t.fail .badArgs

/-- `vCont;c:`, for what is behind it. -/
def vContContinue (str : List UInt8) : Processed :=
  let (n, rest) := strtol t.memory.arch.ptrBits str
  if rest ≠ str ∧ rest = [] ∧ threadId n = t.threads.sigThread then
    t.resume (.vContContinue (threadId n))
  else t.fail .badArgs

/-- `vCont`, for what is behind it. -/
def vCont (subcommand : List UInt8) : Processed :=
  if subcommand = ofString "?" then t.answer (ofString "vCont;s;S;c;C")
  else if subcommand = ofString ";c" then t.resume .continue
  else if ofString ";s:" <+: subcommand then t.vContStep (subcommand.drop 3)
  else if ofString ";c:" <+: subcommand then t.vContContinue (subcommand.drop 3)
  else t.fail .badFormat

/-! ### `vFile` -/

/-- `kMainNexeFd`, `kIrtNexeFd`. -/
def kMainNexeFd : BitVec 64 := 123
def kIrtNexeFd : BitVec 64 := 234

/-- `kGdbEPERM`, `kGdbENOENT`, `kGdbEBADF`. -/
def kGdbEPERM : ℕ := 1
def kGdbENOENT : ℕ := 2
def kGdbEBADF : ℕ := 9

def kGdbPreadChunkSize : ℕ := 4096

/-- `EmitFileError`. -/
def fileError (code : ℕ) : List UInt8 :=
  ofString "F" ++ numberChars (-1) ++ ofString "," ++ numberChars (.ofNat 64 code)

def fileResult (n : BitVec 64) : List UInt8 := ofString "F" ++ numberChars n

/-- The answer to `vFile:open`. -/
def openFile (filename : List UInt8) (flags : BitVec 64) : List UInt8 :=
  if filename = ofString "nexe" then
    if flags = 0 then fileResult kMainNexeFd else fileError kGdbEPERM
  else if filename = ofString "irt" then
    if flags = 0 then fileResult kIrtNexeFd else fileError kGdbEPERM
  else fileError kGdbENOENT

/-- `vFile:open`. -/
def processFileOpen : PacketM Processed := do
  let some filename ← getHexString | return t.fail .badArgs
  let .char sep ← getRawChar | return t.fail .badArgs
  if [sep] ≠ ofString "," then return t.fail .badArgs
  else do
    let some (flags, _) ← getNumberSep | return t.fail .badArgs
    let some _ ← getNumberSep | return t.fail .badArgs
    return t.answer (openFile filename flags)

/-- `vFile:close`. -/
def processFileClose : PacketM Processed := do
  let some (fd, _) ← getNumberSep | return t.fail .badArgs
  return t.answer (if fd = kMainNexeFd ∨ fd = kIrtNexeFd then fileResult 0 else fileError kGdbEBADF)

/-- The answer to `vFile:pread`, with the file. -/
def preadFile (desc : HostFile) (count offset : BitVec 64) : List UInt8 :=
  match desc.pread (min count.toNat kGdbPreadChunkSize) offset.toInt with
  | .error err => ofString "F" ++ numberChars (-1) ++ ofString "," ++ numberChars (.ofNat 64 err)
  | .ok data => fileResult (.ofNat 64 data.length) ++ ofString ";" ++ escapedBody data

/-- `vFile:pread`. -/
def processFilePread : PacketM Processed := do
  let some (fd, _) ← getNumberSep | return t.fail .badArgs
  let some (count, _) ← getNumberSep | return t.fail .badArgs
  let some (offset, _) ← getNumberSep | return t.fail .badArgs
  if fd = kMainNexeFd then
    return t.answer (preadFile (← asserted t.mainNexeDesc) count offset)
  else if fd = kIrtNexeFd then
    return t.answer (preadFile (← asserted t.irtNexeDesc) count offset)
  else return t.answer (fileError kGdbEBADF)

/-- The second part of `ProcessFilePacket`. -/
def processFileSubcommand (subcmd : List UInt8) : PacketM Processed :=
  if subcmd = ofString "open" then t.processFileOpen
  else if subcmd = ofString "close" then t.processFileClose
  else if subcmd = ofString "pread" then t.processFilePread
  else return t.fail .badFormat

def processFilePacket : PacketM Processed := do
  let some cmd ← getStringSep colon | return t.fail .badFormat
  if cmd ≠ ofString "File" then throw .checkFailed
  else do
    let some subcmd ← getStringSep colon | return t.fail .badFormat
    t.processFileSubcommand subcmd

/-- The case `v`. -/
def processV : PacketM Processed := do
  let str ← packetString 1
  if ofString "Cont" <+: str then return t.vCont (str.drop 4)
  else if ofString "File:" <+: str then t.processFilePacket
  else return t.answer []

/-! ### Queries -/

/-- `properties_.find(key)`. -/
def property (key : List UInt8) : Option (List UInt8) :=
  (t.properties.entries.find? (·.1 = key)).map Prod.snd

/-- `properties_["target.xml"]`, as a C string. -/
def targetXml : List UInt8 := ((t.property (ofString "target.xml")).getD []).takeWhile (· ≠ 0)

def featuresAnnex : List UInt8 := ofString "Xfer:features:read:target.xml"

/-- `GetNextThreadId`, if `threadItr_` is good. -/
def nextThreadId : Option ℕ :=
  match t.threads.threadItr with
  | .at id => some id
  | _ => none

/-- The answer to `qfThreadInfo` and `qsThreadInfo`. -/
def threadInfo : Option ℕ → List UInt8
  | none => ofString "l"
  | some curr => ofString "m" ++ numberChars (.ofNat 64 curr)

/-- The query for the target description. -/
def processFeatures : PacketM Processed := do
  let args ← packetString (1 + (featuresAnnex.length + 1))
  let reply ← featuresReply t.memory.arch.ptrBits t.targetXml (stringSplit (ofString ",") args)
  return t.answer reply

/-- The rest of the case `q`, with `toks[0]`. -/
def processQueryFor (str tok : List UInt8) : PacketM Processed :=
  if str = ofString "fThreadInfo" then
    return ⟨t, .firstThreadInfo, false, threadInfo (t.threads.threads.head?.map Prod.fst), none⟩
  else if str = ofString "sThreadInfo" then
    return ⟨t, .nextThreadInfo, false, threadInfo t.nextThreadId, none⟩
  else if featuresAnnex <+: str then t.processFeatures
  else return t.answer (((t.property tok).getD []).takeWhile (· ≠ 0))

/-- The case `q`. -/
def processQuery : PacketM Processed := do
  let str ← packetString 1
  let tok ← checked (stringSplit (ofString ":;") str).head?
  t.processQueryFor str tok

/-! ### All packets -/

def processUnknown : PacketM Processed := do
  let _ ← getString
  return t.answer []

/-- The `switch` of `ProcessPacket`. -/
def processCommand (cmd : Char) : PacketM Processed :=
  match cmd with
  | '?' => return { t.answer t.stopReply with command := .stopReply }
  | 'c' => return t.resume .continue
  | 'D' => return { t.answer Reply.ok.chars with command := .detach }
  | 'k' => return { t.answer Reply.ok.chars with command := .kill }
  | 'g' => return t.processReadRegisters
  | 'G' => t.processWriteRegisters host
  | 'H' => t.processSetThread
  | 'm' => t.processReadMemory host
  | 'M' => t.processWriteMemory host
  | 'q' => t.processQuery
  | 's' => return t.resume .step
  | 'T' => t.processThreadAlive
  | 'v' => t.processV
  | 'Z' => t.processBreakpoint host (.insert 0)
  | 'z' => t.processBreakpoint host (.remove 0)
  | _ => t.processUnknown

/-- `ProcessPacket`.  Where there is no character, `cmd` is not initialised. -/
def processPacket : PacketM Processed := do
  let seq := (← get).seq
  let cmd ← match ← getRawChar with
    | .char ch => pure ch
    | .badRun => pure star
    | .endOfPacket => throw .badAccess
  let processed ← t.processCommand host (Char.ofNat cmd.toNat)
  return { processed with seq := if seq = -1 then none else some seq }

end PacketTarget

end SandboxingNaCl
