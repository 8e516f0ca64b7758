import SandboxingNaCl.DebugStub.FrameReception
import SandboxingNaCl.DebugStub.ProcessPacket

/-!
# What packets supply

When `ProcessPacket` uses nothing that is not in the packet, the strings it serves or the tokens it has
made, and answers a query for the target description with what the query asks for.
-/

namespace SandboxingNaCl

open ByteImage Patches

/-! ## What the packets supply -/

namespace PacketView

/-- The command of a packet. -/
def command (v : PacketView) : Option Char :=
  match v.next.1 with
  | .char ch => some (Char.ofNat ch.toNat)
  | .badRun => some (Char.ofNat star.toNat)
  | .endOfPacket => none

def stringAt (v : PacketView) (i : ℕ) : List UInt8 := (v.payload.drop i).takeWhile (· ≠ 0)

/-- The fields of a query for the target description. -/
def featuresArgs (v : PacketView) : Option (List (List UInt8)) :=
  if PacketTarget.featuresAnnex <+: v.stringAt 1 then
    some (stringSplit (ofString ",") (v.stringAt (1 + (PacketTarget.featuresAnnex.length + 1))))
  else none

end PacketView

namespace PacketTarget

/-- A query has a token; and one for the target description does not end with the annex, and asks for
what is the same in `int`. -/
def QuerySupplied (t : PacketTarget) (v : PacketView) : Prop :=
  stringSplit (ofString ":;") (v.stringAt 1) ≠ [] ∧ ∀ args ∈ v.featuresArgs,
    1 + (featuresAnnex.length + 1) ≤ v.payload.length ∧
      FeaturesExact t.memory.arch.ptrBits t.targetXml.length args

/-- `M` has all bytes of the block, if it comes to that. -/
def BlockSupplied (t : PacketTarget) (v : PacketView) : Prop :=
  ∀ userAddr wlen v', v.announced = some (userAddr, wlen, v') →
    (t.memory.writeAddress userAddr wlen).isSome → (v'.block (wlen.toNat % 2 ^ 32)).1.1 = true

/-- `G` has all registers, or the program counter and that is refused; unless there is no thread. -/
def ContextSupplied (t : PacketTarget) (host : Platform) (v : PacketView) : Prop :=
  let data := (v.block t.memory.arch.contextSize).1.2
  t.getRegThread.isSome → (v.block t.memory.arch.contextSize).1.1 = true ∨
    t.memory.arch.progCtr + 4 ≤ data.length ∧
      t.memory.isOnValidInstBoundary host (word32 (fun i => data.getD i 0) t.memory.arch.progCtr).toNat ≠
        some true

/-- What a command uses is in the packet. -/
def CommandSupplied (t : PacketTarget) (host : Platform) (v : PacketView) (cmd : Char) : Prop :=
  match cmd with
  | 'q' => t.QuerySupplied v
  | 'M' => t.BlockSupplied v
  | 'G' => t.ContextSupplied host v
  | _ => True

/-- There is a command, and what it uses is in the packet. -/
def Supplied (t : PacketTarget) (host : Platform) (v : PacketView) : Prop :=
  ∃ cmd ∈ v.command, t.CommandSupplied host v.next.2 cmd

/-- An answer to a query for the target description is what the query asks for, or is empty. -/
def Answers (t : PacketTarget) (v : PacketView) (cmd : Char) (r : Processed) : Prop :=
  cmd = 'q' → ∀ args ∈ v.featuresArgs, AnswersFeatures t.targetXml args r.reply

/-- `ProcessPacket` comes back with the right answer, or ends the process with a `CHECK`; it uses
nothing that is not there. -/
def Processes (t : PacketTarget) (host : Platform) (v : PacketView) (p : Packet) : Prop :=
  (∃ r p', t.processPacket host p = .ok (r, p') ∧ ∀ cmd ∈ v.command, t.Answers v.next.2 cmd r) ∨
    t.processPacket host p = .error .checkFailed

end PacketTarget

/-! ## Code that may fail -/

/-- Under the condition the code returns a right value or fails in a `CHECK`, and otherwise it returns a
wrong one or uses what is not there. -/
structure Decides {α : Type} (m : PacketM α) (v : PacketView) (P : α → Prop) (c : Prop) : Prop where
  right : c → (∃ a v', RunsTo m v a v' ∧ P a) ∨ Faults m v .checkFailed
  wrong : ¬ c → (∃ a v', RunsTo m v a v' ∧ ¬ P a) ∨ Faults m v .badAccess

section

variable {α β : Type} {m : PacketM α} {f : α → PacketM β} {v v' : PacketView} {a : α} {P : α → Prop}
  {Q : β → Prop} {c : Prop} {p : Packet} {out : List UInt8} {i n : ℕ}

open PacketView

theorem Decides.iff (h : Decides m v P c) (hp : p.Shows v) :
    ((∃ a p', m p = .ok (a, p') ∧ P a) ∨ m p = .error .checkFailed) ↔ c := by
  by_cases hc : c
  · refine iff_of_true ?_ hc
    rcases h.right hc with ⟨a, v', hrun, ha⟩ | hfault
    · obtain ⟨p', hrun, -⟩ := hrun p hp
      exact Or.inl ⟨a, p', hrun, ha⟩
    · exact Or.inr (hfault p hp)
  · refine iff_of_false ?_ hc
    rcases h.wrong hc with ⟨a, v', hrun, ha⟩ | hfault
    · obtain ⟨p', hrun, -⟩ := hrun p hp
      rw [hrun]
      rintro (⟨a', _, heq, ha'⟩ | heq)
      · cases heq
        exact ha ha'
      · cases heq
    · rw [hfault p hp]
      rintro (⟨_, _, heq, -⟩ | heq)
      · cases heq
      · cases heq

theorem Decides.pure (a : α) (v : PacketView) (hP : P a) : Decides (Pure.pure a) v P True :=
  ⟨fun _ => Or.inl ⟨a, v, RunsTo.pure a v, hP⟩, fun h => absurd trivial h⟩

theorem Decides.bind (hm : RunsTo m v a v') (hf : Decides (f a) v' Q c) : Decides (m >>= f) v Q c where
  right hc := by
    rcases hf.right hc with ⟨b, v'', hrun, hb⟩ | hfault
    · exact Or.inl ⟨b, v'', hm.bind hrun, hb⟩
    · exact Or.inr (hm.bind_faults hfault)
  wrong hc := by
    rcases hf.wrong hc with ⟨b, v'', hrun, hb⟩ | hfault
    · exact Or.inl ⟨b, v'', hm.bind hrun, hb⟩
    · exact Or.inr (hm.bind_faults hfault)

theorem Decides.map {g : α → β} (hm : Decides m v P c) (hQ : ∀ a, Q (g a) ↔ P a) :
    Decides (m >>= fun a => Pure.pure (g a)) v Q c where
  right hc := by
    rcases hm.right hc with ⟨a, v', hrun, ha⟩ | hfault
    · exact Or.inl ⟨g a, v', hrun.bind (.pure _ _), (hQ a).2 ha⟩
    · exact Or.inr (hfault.bind _)
  wrong hc := by
    rcases hm.wrong hc with ⟨a, v', hrun, ha⟩ | hfault
    · exact Or.inl ⟨g a, v', hrun.bind (.pure _ _), fun hq => ha ((hQ a).1 hq)⟩
    · exact Or.inr (hfault.bind _)

theorem Decides.congr {c' : Prop} (h : Decides m v P c) (hc : c ↔ c') : Decides m v P c' :=
  ⟨fun h' => h.right (hc.2 h'), fun h' => h.wrong fun h'' => h' (hc.1 h'')⟩

theorem Decides.of_eq {m' : PacketM α} (h : Decides m' v P c) (heq : ∀ p, Packet.Shows p v → m p = m' p) :
    Decides m v P c where
  right hc := by
    rcases h.right hc with ⟨a, v', hrun, ha⟩ | hfault
    · exact Or.inl ⟨a, v', fun p hp => heq p hp ▸ hrun p hp, ha⟩
    · exact Or.inr fun p hp => heq p hp ▸ hfault p hp
  wrong hc := by
    rcases h.wrong hc with ⟨a, v', hrun, ha⟩ | hfault
    · exact Or.inl ⟨a, v', fun p hp => heq p hp ▸ hrun p hp, ha⟩
    · exact Or.inr fun p hp => heq p hp ▸ hfault p hp

theorem Decides.of_checkFailed (h : Faults m v .checkFailed) : Decides m v P True :=
  ⟨fun _ => Or.inr h, fun hc => absurd trivial hc⟩

theorem Decides.of_badAccess (h : Faults m v .badAccess) : Decides m v P False :=
  ⟨False.elim, fun _ => Or.inr h⟩

theorem Decides.asserted {γ : Type} {f : γ → PacketM β} (x : Option γ)
    (hf : ∀ a, x = some a → Decides (f a) v Q True) :
    Decides (liftM (SandboxingNaCl.asserted x) >>= f) v Q True := by
  cases x with
  | none => exact .of_checkFailed ((Faults.lift rfl v).bind f)
  | some a => exact .bind (.lift rfl v) (hf a rfl)

/-! ## Strings -/

theorem PacketView.pos_next (h : v.command ≠ none) : v.next.2.pos = v.pos + 1 := by
  have hnext : v.next.1 ≠ .endOfPacket := fun hend => h (by rw [command, hend])
  unfold PacketView.next at hnext ⊢
  cases hch : v.payload[v.pos]? with
  | none =>
    rw [hch] at hnext
    exact absurd rfl hnext
  | some ch =>
    simp only
    split_ifs
    · rfl
    · rfl
    · split
      · split_ifs <;> rfl
      · rfl

theorem runs_packetString (h : i ≤ v.payload.length) : RunsTo (packetString i) v (v.stringAt i) v := by
  refine .get_bind fun p hp => ?_
  exact (RunsTo.lift hp.getPayload v).bind (.lift (if_pos h) v)

theorem faults_packetString (h : ¬ i ≤ v.payload.length) : Faults (packetString i) v .badAccess := by
  intro p hp
  have hstring : cString v.payload i = .error .badAccess := if_neg h
  have hpayload : Faults (liftM p.getPayload >>= fun payload => liftM (cString payload i)) v .badAccess :=
    (RunsTo.lift hp.getPayload v).bind_faults (Faults.lift hstring v)
  exact hpayload p hp

theorem returns_getString (v : PacketView) : Returns getString v := by
  by_cases hrest : v.rest = []
  · refine ⟨none, v, RunsTo.get_bind fun p hp => ?_⟩
    rw [if_pos ((endOfPacket_iff hp).2 hrest)]
    exact .pure _ v
  · refine ⟨some (v.stringAt v.pos), { v with pos := v.payload.length }, RunsTo.get_bind fun p hp => ?_⟩
    have hend : RunsTo (setReadIndex p.writeIndex) v () { v with pos := v.payload.length } :=
      fun _ hp' => ⟨_, rfl, hp'.seq, hp.writeIndex, hp'.writeIndex, Nat.le_refl _, hp'.data⟩
    rw [if_neg fun hp' => hrest ((endOfPacket_iff hp).1 hp'), hp.readIndex]
    exact (runs_packetString hp.pos_le).bind (hend.seq (.pure _ _))

theorem PacketView.Unread.ne_star (h : Unread out v) {ch : UInt8} (hch : v.next.1 = .char ch) :
    ch ≠ star := by
  rcases h.next with ⟨ch', hget, hnext, ⟨before, after, -, hclean, hle, hout⟩, hpos⟩ | ⟨-, hne, -, -⟩
  · obtain rfl : ch' = ch := RawChar.char.inj (hnext.symm.trans hch)
    have hlt : v.pos < before.length := by omega
    rw [hout, List.getElem?_append_left hlt] at hget
    exact fun hstar => hclean (hstar ▸ List.mem_of_getElem? hget)
  · exact absurd hch (hne ch)

theorem PacketView.Unread.next_of_char (h : Unread out v) {ch : UInt8} (hch : v.next.1 = .char ch) :
    Unread out v.next.2 := by
  rcases h.next with ⟨-, -, -, hunread, -⟩ | ⟨-, hne, -, -⟩
  · exact hunread
  · exact absurd hch (hne ch)

theorem exists_runs_stringSepLoop (sep : UInt8) (str : List UInt8) (h : Unread out v)
    (hn : expandedLength v.rest < n) :
    ∃ r v', RunsTo (stringSepLoop sep n str) v r v' ∧ (r.isSome → Unread out v') := by
  induction n generalizing v str with
  | zero => exact absurd hn (Nat.not_lt_zero _)
  | succ n ih =>
    unfold stringSepLoop
    have hne (ch : UInt8) := @Unread.ne_star v out h ch
    have hunread (ch : UInt8) := @Unread.next_of_char v out h ch
    have hdecreases (ch : UInt8) := @expandedLength_next v ch
    have hread := runs_getRawChar v
    generalize v.next = read at hne hunread hdecreases hread
    obtain ⟨raw, v'⟩ := read
    cases raw with
    | badRun => exact ⟨none, v', hread.bind (.pure _ _), nofun⟩
    | endOfPacket => exact ⟨none, v', hread.bind (.pure _ _), nofun⟩
    | char ch =>
      by_cases hsep : ch = sep
      · refine ⟨some str, v', hread.bind ?_, fun _ => hunread ch rfl⟩
        simp only [hsep, if_true]
        exact .pure _ _
      · have hless : expandedLength v'.rest < expandedLength v.rest := hdecreases ch rfl (hne ch rfl)
        obtain ⟨r, v'', hrun, hr⟩ := ih (str ++ [ch])
          (show Unread out v' from hunread ch rfl) (by omega)
        refine ⟨r, v'', hread.bind ?_, hr⟩
        simp only [hsep, if_false]
        exact hrun

theorem exists_runs_getStringSep (sep : UInt8) (h : Unread out v) :
    ∃ r v', RunsTo (getStringSep sep) v r v' ∧ (r.isSome → Unread out v') := by
  by_cases hrest : v.rest = []
  · refine ⟨none, v, RunsTo.get_bind fun p hp => ?_, nofun⟩
    rw [if_pos ((endOfPacket_iff hp).2 hrest)]
    exact .pure _ v
  · have hle := expandedLength_le v.rest
    obtain ⟨r, v', hrun, hr⟩ := exists_runs_stringSepLoop sep [] h (Nat.lt_succ_of_le hle)
    refine ⟨r, v', RunsTo.get_bind fun p hp => ?_, hr⟩
    rw [if_neg fun hend => hrest ((endOfPacket_iff hp).1 hend), fuel_eq hp]
    exact hrun

/-! ## Blocks -/

theorem bytesOfBuffer_supplied {data : List UInt8} {start len : ℕ} (h : start + len ≤ data.length) :
    bytesOfBuffer (stored unsupplied data) start len = .ok ((data.drop start).take len) := by
  unfold bytesOfBuffer
  induction len with
  | zero => rfl
  | succ len ih =>
    have hget : stored unsupplied data (start + len) = .ok data[start + len] := by
      rw [stored, List.getElem?_eq_getElem (by omega)]
    have htake : (data.drop start).take (len + 1) = (data.drop start).take len ++ [data[start + len]] := by
      rw [List.take_succ_eq_append_getElem (by rw [List.length_drop]; omega), List.getElem_drop]
    rw [List.range_succ, List.mapM_append, ih (by omega), List.mapM_cons, List.mapM_nil, hget, htake]
    rfl

theorem bytesOfBuffer_unsupplied {data : List UInt8} {start len : ℕ} (hlen : 0 < len)
    (h : ¬ start + len ≤ data.length) :
    bytesOfBuffer (stored unsupplied data) start len = .error .badAccess := by
  obtain ⟨n, rfl⟩ := Nat.exists_eq_succ_of_ne_zero (Nat.ne_of_gt hlen)
  clear hlen
  induction n with
  | zero =>
    have hget : stored unsupplied data (start + 0) = .error .badAccess := by
      rw [stored, List.getElem?_eq_none (by omega)]
      rfl
    rw [bytesOfBuffer, List.range_succ, List.mapM_append]
    change ([0].mapM fun i => stored unsupplied data (start + i)) >>= _ = _
    rw [List.mapM_cons, hget]
    rfl
  | succ n ih =>
    unfold bytesOfBuffer at ih ⊢
    rw [List.range_succ, List.mapM_append]
    by_cases hn : start + (n + 1) ≤ data.length
    · have hsupplied := bytesOfBuffer_supplied hn
      have hget : stored unsupplied data (start + (n + 1)) = .error .badAccess := by
        rw [stored, List.getElem?_eq_none (by omega)]
        rfl
      unfold bytesOfBuffer at hsupplied
      rw [hsupplied, List.mapM_cons, hget]
      rfl
    · rw [ih hn]
      rfl

/-! ## The cases -/

theorem Decides.getNumberSep {f : Option (BitVec 64 × UInt8) → PacketM β} (v : PacketView)
    (hnone : ∀ v', Decides (f none) v' Q True) (hsome : ∀ x v', Decides (f (some x)) v' Q True) :
    Decides (SandboxingNaCl.getNumberSep >>= f) v Q True := by
  refine .bind (runs_getNumberSep_numberSep v) ?_
  cases v.numberSep.1 with
  | none => exact hnone _
  | some x => exact hsome x _

namespace PacketTarget

variable {t : PacketTarget} {host : Platform} {R : Processed → Prop}

theorem decides_setThread (hR : ∀ r, R r) (v : PacketView) : Decides t.processSetThread v R True := by
  refine .bind (runs_getRawChar v) ?_
  cases v.next.1 with
  | badRun => exact .pure _ _ (hR _)
  | endOfPacket => exact .pure _ _ (hR _)
  | char type =>
    exact .getNumberSep _ (fun v' => Decides.pure _ v' (hR _))
      fun x v' => Decides.pure _ v' (hR _)

theorem decides_readMemory (hR : ∀ r, R r) (v : PacketView) :
    Decides (t.processReadMemory host) v R True := by
  refine .getNumberSep v (fun v' => Decides.pure _ v' (hR _)) fun userAddr v' => ?_
  refine .getNumberSep v' (fun v' => Decides.pure _ v' (hR _)) fun wlen v' => ?_
  exact .asserted _ fun reply _ => Decides.pure _ v' (hR _)

theorem decides_threadAlive (hR : ∀ r, R r) (v : PacketView) :
    Decides t.processThreadAlive v R True :=
  Decides.getNumberSep v (fun v' => Decides.pure _ v' (hR _)) fun _ v' => Decides.pure _ v' (hR _)

theorem decides_breakpoint (hR : ∀ r, R r) (command : BitVec 64 → MemoryCommand) (v : PacketView) :
    Decides (t.processBreakpoint host command) v R True := by
  refine .getNumberSep v (fun v' => Decides.pure _ v' (hR _)) fun type v' => ?_
  obtain ⟨type, sep⟩ := type
  simp only
  split_ifs
  · exact .pure _ v' (hR _)
  · refine .getNumberSep v' (fun v' => Decides.pure _ v' (hR _)) fun address v' => ?_
    refine .getNumberSep v' (fun v' => Decides.pure _ v' (hR _)) fun kind v' => ?_
    exact .asserted _ fun reply _ => Decides.pure _ v' (hR _)

theorem decides_fileClose (hR : ∀ r, R r) (v : PacketView) : Decides t.processFileClose v R True :=
  Decides.getNumberSep v (fun v' => Decides.pure _ v' (hR _)) fun _ v' => Decides.pure _ v' (hR _)

theorem decides_filePread (hR : ∀ r, R r) (v : PacketView) : Decides t.processFilePread v R True := by
  refine .getNumberSep v (fun v' => Decides.pure _ v' (hR _)) fun fd v' => ?_
  refine .getNumberSep v' (fun v' => Decides.pure _ v' (hR _)) fun count v' => ?_
  refine .getNumberSep v' (fun v' => Decides.pure _ v' (hR _)) fun offset v' => ?_
  simp only
  split_ifs
  · exact .asserted _ fun desc _ => Decides.pure _ v' (hR _)
  · exact .asserted _ fun desc _ => Decides.pure _ v' (hR _)
  · exact .pure _ v' (hR _)

theorem decides_fileOpen (hR : ∀ r, R r) (v : PacketView) : Decides t.processFileOpen v R True := by
  obtain ⟨filename, v', hfilename⟩ := returns_getHexString v
  refine .bind hfilename ?_
  cases filename with
  | none => exact .pure _ v' (hR _)
  | some filename =>
    refine .bind (runs_getRawChar v') ?_
    cases v'.next.1 with
    | badRun => exact .pure _ _ (hR _)
    | endOfPacket => exact .pure _ _ (hR _)
    | char sep =>
      simp only
      split_ifs
      · exact .pure _ _ (hR _)
      · refine .getNumberSep _ (fun v' => Decides.pure _ v' (hR _)) fun flags v' => ?_
        exact .getNumberSep v' (fun v' => Decides.pure _ v' (hR _))
          fun mode v' => Decides.pure _ v' (hR _)

theorem decides_fileSubcommand (hR : ∀ r, R r) (subcmd : List UInt8) (v : PacketView) :
    Decides (t.processFileSubcommand subcmd) v R True := by
  unfold processFileSubcommand
  split_ifs
  · exact decides_fileOpen hR v
  · exact decides_fileClose hR v
  · exact decides_filePread hR v
  · exact .pure _ v (hR _)

theorem decides_filePacket (hR : ∀ r, R r) (h : Unread out v) :
    Decides t.processFilePacket v R True := by
  obtain ⟨cmd, v', hcmd, hunread⟩ := exists_runs_getStringSep colon h
  refine .bind hcmd ?_
  cases cmd with
  | none => exact .pure _ v' (hR _)
  | some cmd =>
    simp only
    split_ifs
    · exact .of_checkFailed fun p hp => rfl
    · obtain ⟨subcmd, v'', hsubcmd, -⟩ := exists_runs_getStringSep colon (hunread rfl)
      refine .bind hsubcmd ?_
      cases subcmd with
      | none => exact .pure _ v'' (hR _)
      | some subcmd => exact decides_fileSubcommand hR subcmd v''

theorem decides_v (hR : ∀ r, R r) (h : Unread out v) (hlength : 1 ≤ v.payload.length) :
    Decides t.processV v R True := by
  refine .bind (runs_packetString hlength) ?_
  split_ifs
  · exact .pure _ v (hR _)
  · exact decides_filePacket hR h
  · exact .pure _ v (hR _)

theorem decides_unknown (hR : ∀ r, R r) (v : PacketView) : Decides t.processUnknown v R True := by
  obtain ⟨str, v', hstr⟩ := returns_getString v
  exact .bind hstr (.pure _ v' (hR _))

theorem decides_writeBlock (memory : Target) (userAddr wlen : BitVec 64) (v : PacketView) :
    Decides (memory.writeMemory host unsupplied userAddr wlen) v (fun _ => True)
      ((memory.writeAddress userAddr wlen).isSome → (v.block (wlen.toNat % 2 ^ 32)).1.1 = true) := by
  unfold Target.writeMemory
  cases memory.writeAddress userAddr wlen with
  | none => exact (Decides.pure _ v trivial).congr (iff_of_true trivial nofun)
  | some sysAddr =>
    obtain ⟨hcomplete, hle⟩ := block_complete_iff (wlen.toNat % 2 ^ 32) v
    have hblock := runs_getBlock_block (wlen.toNat % 2 ^ 32) v
    generalize v.block (wlen.toNat % 2 ^ 32) = block at hcomplete hle hblock ⊢
    obtain ⟨⟨complete, data⟩, v'⟩ := block
    simp only at hcomplete hle hblock
    refine .bind hblock ?_
    cases complete with
    | true =>
      have hall := @bytesOfBuffer_supplied data 0 (wlen.toNat % 2 ^ 32) (by
        rw [Nat.zero_add, hcomplete.1 rfl])
      refine (Decides.bind (.lift hall v') ?_).congr (iff_of_true trivial fun _ => rfl)
      exact .pure _ v' trivial
    | false =>
      have hne : data.length ≠ wlen.toNat % 2 ^ 32 := fun h => by cases hcomplete.2 h
      have hmissing := @bytesOfBuffer_unsupplied data 0 (wlen.toNat % 2 ^ 32) (by omega) (by omega)
      exact (Decides.of_badAccess ((Faults.lift hmissing v').bind _)).congr
        (iff_of_false id fun h => by cases h rfl)

theorem decides_writeMemory (hR : ∀ r, R r) (v : PacketView) :
    Decides (t.processWriteMemory host) v R (t.BlockSupplied v) := by
  refine .map (P := fun _ => True) ?_ fun r => iff_of_true (hR _) trivial
  unfold BlockSupplied PacketView.announced
  refine .bind (runs_getNumberSep_numberSep v) ?_
  generalize v.numberSep = number
  obtain ⟨number, v₁⟩ := number
  cases number with
  | none => exact (Decides.pure _ v₁ trivial).congr (iff_of_true trivial (by simp))
  | some number =>
    obtain ⟨userAddr, sep⟩ := number
    simp only
    refine .bind (runs_getNumberSep_numberSep v₁) ?_
    generalize v₁.numberSep = number
    obtain ⟨number, v₂⟩ := number
    cases number with
    | none => exact (Decides.pure _ v₂ trivial).congr (iff_of_true trivial (by simp))
    | some number =>
      obtain ⟨wlen, sep'⟩ := number
      refine (decides_writeBlock t.memory userAddr wlen v₂).congr ⟨fun h => ?_, fun h => ?_⟩
      · intro userAddr' wlen' v' hsome
        cases hsome
        exact h
      · exact h _ _ _ rfl

theorem word32_take {data : List UInt8} {start : ℕ} :
    word32 (fun i => ((data.drop start).take 4).getD i 0) 0 = word32 (fun i => data.getD i 0) start := by
  unfold word32
  simp [List.getD_eq_getElem?_getD]

theorem progCtr_le (arch : NaClArch) : arch.progCtr + 4 ≤ arch.contextSize := by
  cases arch <;> decide

theorem commitRegisters_cases (memory : Target) {data : List UInt8}
    (hle : data.length ≤ memory.arch.contextSize) (context : ℕ → UInt8)
    (hc : c ↔ data.length = memory.arch.contextSize ∨ memory.arch.progCtr + 4 ≤ data.length ∧
      memory.isOnValidInstBoundary host (word32 (fun i => data.getD i 0) memory.arch.progCtr).toNat ≠
        some true) :
    (c → (∃ q, memory.commitRegisters host (stored unsupplied data) context = .ok q) ∨
      memory.commitRegisters host (stored unsupplied data) context = .error .checkFailed) ∧
    (¬ c → memory.commitRegisters host (stored unsupplied data) context = .error .badAccess) := by
  have hctr := progCtr_le memory.arch
  unfold Target.commitRegisters
  by_cases hsupplied : memory.arch.progCtr + 4 ≤ data.length
  · rw [← word32_take] at hc
    rw [bytesOfBuffer_supplied hsupplied]
    simp only [bind, Except.bind]
    cases hvalid : memory.isOnValidInstBoundary host
        (word32 (fun i => ((data.drop memory.arch.progCtr).take 4).getD i 0) 0).toNat with
    | none =>
      have hrefused : c := hc.2 (Or.inr ⟨hsupplied, by rw [hvalid]; exact nofun⟩)
      exact ⟨fun _ => Or.inr rfl, fun hnot => absurd hrefused hnot⟩
    | some valid =>
      cases valid with
      | false =>
        have hrefused : c := hc.2 (Or.inr ⟨hsupplied, by rw [hvalid]; exact nofun⟩)
        exact ⟨fun _ => Or.inl ⟨_, rfl⟩, fun hnot => absurd hrefused hnot⟩
      | true =>
        simp only [hvalid, ne_eq, not_true_eq_false, and_false, or_false] at hc
        by_cases hall : data.length = memory.arch.contextSize
        · rw [bytesOfBuffer_supplied (by omega)]
          refine ⟨fun _ => Or.inl ?_, fun hnot => absurd (hc.2 hall) hnot⟩
          simp only
          split
          · exact ⟨_, rfl⟩
          · exact ⟨_, rfl⟩
        · rw [bytesOfBuffer_unsupplied (by omega) (by omega)]
          exact ⟨fun h => absurd (hc.1 h) hall, fun _ => rfl⟩
  · rw [bytesOfBuffer_unsupplied (by decide) hsupplied]
    exact ⟨fun h => absurd (hc.1 h) (by omega), fun _ => rfl⟩

theorem decides_writeRegisters (hR : ∀ r, R r) (v : PacketView) :
    Decides (t.processWriteRegisters host) v R (t.ContextSupplied host v) := by
  refine .map (P := fun _ => True) ?_ fun r => iff_of_true (hR _) trivial
  unfold ContextSupplied Target.processWriteRegisters
  cases t.getRegThread with
  | none => exact (Decides.pure _ v trivial).congr (iff_of_true trivial nofun)
  | some id =>
    obtain ⟨hcomplete, hle⟩ := block_complete_iff t.memory.arch.contextSize v
    have hblock := runs_getBlock_block t.memory.arch.contextSize v
    refine .bind hblock ?_
    have hcommit := @commitRegisters_cases _ host t.memory _ hle (t.contexts id) Iff.rfl
    generalize v.block t.memory.arch.contextSize = block at hcomplete hcommit ⊢
    obtain ⟨⟨complete, data⟩, v'⟩ := block
    simp only at hcomplete hcommit ⊢
    refine ⟨fun hc => ?_, fun hc => ?_⟩
    · rw [hcomplete] at hc
      rcases hcommit.1 (hc rfl) with ⟨q, hq⟩ | hq
      · exact Or.inl ⟨_, v', (RunsTo.lift hq v').bind (.pure _ _), trivial⟩
      · exact Or.inr ((Faults.lift hq v').bind _)
    · rw [hcomplete] at hc
      exact Or.inr ((Faults.lift (hcommit.2 fun h => hc fun _ => h) v').bind _)

/-! ### Queries -/

theorem length_targetXml (t : PacketTarget) : t.targetXml.length < 2 ^ 31 := by
  unfold targetXml property
  cases h : t.properties.entries.find? (·.1 = ofString "target.xml") with
  | none => decide
  | some entry =>
    have hshort := t.properties.short entry (List.mem_of_find?_eq_some h)
    exact (List.takeWhile_prefix _).length_le.trans_lt hshort

theorem le_ptrBits (arch : NaClArch) : 32 ≤ arch.ptrBits := by
  cases arch <;> decide

theorem featuresArgs_of_isPrefix (h : featuresAnnex <+: v.stringAt 1) : v.featuresArgs =
    some (stringSplit (ofString ",") (v.stringAt (1 + (featuresAnnex.length + 1)))) :=
  if_pos h

theorem decides_features (h : featuresAnnex <+: v.stringAt 1) :
    Decides t.processFeatures v (t.Answers v 'q') (∀ args ∈ v.featuresArgs,
      1 + (featuresAnnex.length + 1) ≤ v.payload.length ∧
        FeaturesExact t.memory.arch.ptrBits t.targetXml.length args) := by
  unfold Answers
  rw [featuresArgs_of_isPrefix h]
  simp only [Option.mem_some_iff, forall_eq', forall_const]
  by_cases hlength : 1 + (featuresAnnex.length + 1) ≤ v.payload.length
  · refine .bind (runs_packetString hlength) ?_
    generalize stringSplit (ofString ",") (v.stringAt (1 + (featuresAnnex.length + 1))) = args
    have hiff := featuresReply_iff (le_ptrBits t.memory.arch) t.length_targetXml args
    rw [and_iff_right hlength, ← hiff]
    rcases featuresReply_cases t.length_targetXml t.memory.arch.ptrBits args with ⟨reply, hreply⟩ | hreply
    · refine .bind (.lift hreply v) ⟨fun hexact => ?_, fun hinexact => ?_⟩
      · obtain ⟨reply', hreply', hanswers⟩ := hexact
        cases hreply.symm.trans hreply'
        exact Or.inl ⟨_, v, RunsTo.pure _ v, hanswers⟩
      · exact Or.inl ⟨_, v, RunsTo.pure _ v, fun hanswers => hinexact ⟨reply, hreply, hanswers⟩⟩
    · refine (Decides.of_badAccess ((Faults.lift hreply v).bind _)).congr (iff_of_false id ?_)
      rintro ⟨reply, hreply', -⟩
      cases hreply.symm.trans hreply'
  · exact (Decides.of_badAccess ((faults_packetString hlength).bind _)).congr
      (iff_of_false id fun hargs => hlength hargs.1)

theorem decides_query (hlength : 1 ≤ v.payload.length) :
    Decides t.processQuery v (t.Answers v 'q') (t.QuerySupplied v) := by
  refine .bind (runs_packetString hlength) ?_
  unfold QuerySupplied
  cases htoks : stringSplit (ofString ":;") (v.stringAt 1) with
  | nil =>
    have hnone : Faults (liftM (checked ([] : List (List UInt8)).head?)) v .badAccess := Faults.lift rfl v
    exact (Decides.of_badAccess (hnone.bind _)).congr (iff_of_false id fun h => h.1 rfl)
  | cons tok toks =>
    refine .bind (.lift rfl v) ?_
    have hother (hnot : ¬ featuresAnnex <+: v.stringAt 1) (r : Processed) :
        Decides (Pure.pure r) v (t.Answers v 'q') (tok :: toks ≠ [] ∧ ∀ args ∈ v.featuresArgs,
          1 + (featuresAnnex.length + 1) ≤ v.payload.length ∧
            FeaturesExact t.memory.arch.ptrBits t.targetXml.length args) := by
      have hnone : v.featuresArgs = none := if_neg hnot
      unfold Answers
      rw [hnone]
      exact (Decides.pure r v fun _ => nofun).congr (iff_of_true trivial ⟨List.cons_ne_nil _ _, nofun⟩)
    unfold processQueryFor
    split_ifs with hfirst hnext hannex
    · exact hother (by rw [hfirst]; decide) _
    · exact hother (by rw [hnext]; decide) _
    · exact (decides_features hannex).congr (and_iff_right (List.cons_ne_nil _ _)).symm
    · exact hother hannex _

/-! ### All packets -/

theorem decides_command (h : Unread out v) (hlength : 1 ≤ v.payload.length) (cmd : Char) :
    Decides (t.processCommand host cmd) v (t.Answers v cmd) (t.CommandSupplied host v cmd) := by
  have hother {cmd : Char} (hne : cmd ≠ 'q') (r : Processed) : t.Answers v cmd r := fun heq => absurd heq hne
  unfold processCommand
  split
  · exact .pure _ v (hother (by decide) _)
  · exact .pure _ v (hother (by decide) _)
  · exact .pure _ v (hother (by decide) _)
  · exact .pure _ v (hother (by decide) _)
  · exact .pure _ v (hother (by decide) _)
  · exact decides_writeRegisters (hother (by decide)) v
  · exact decides_setThread (hother (by decide)) v
  · exact decides_readMemory (hother (by decide)) v
  · exact decides_writeMemory (hother (by decide)) v
  · exact decides_query hlength
  · exact .pure _ v (hother (by decide) _)
  · exact decides_threadAlive (hother (by decide)) v
  · exact decides_v (hother (by decide)) h hlength
  · exact decides_breakpoint (hother (by decide)) _ v
  · exact decides_breakpoint (hother (by decide)) _ v
  · next hquestion hc hD hk hg hG hH hm hM hq hs hT hv hZ hz =>
    have htrue : t.CommandSupplied host v cmd := by
      unfold CommandSupplied
      split
      · exact absurd rfl hq
      · exact absurd rfl hM
      · exact absurd rfl hG
      · trivial
    exact (decides_unknown (hother hq) v).congr (iff_of_true trivial htrue)

theorem decides_processPacket (h : Unread out v)
    (hlength : v.command ≠ none → 1 ≤ v.next.2.payload.length) :
    Decides (t.processPacket host) v (fun r => ∀ cmd ∈ v.command, t.Answers v.next.2 cmd r)
      (t.Supplied host v) := by
  -- `seq` is that of the payload.
  suffices hcode : Decides (do
      let cmd ← match ← getRawChar with
        | .char ch => pure ch
        | .badRun => pure star
        | .endOfPacket => throw .badAccess
      let processed ← t.processCommand host (Char.ofNat cmd.toNat)
      return { processed with seq := if v.seq = -1 then none else some v.seq }) v
      (fun r => ∀ cmd ∈ v.command, t.Answers v.next.2 cmd r) (t.Supplied host v) from
    hcode.of_eq fun p hp => by
      rw [← hp.seq]
      rfl
  refine .bind (runs_getRawChar v) ?_
  have hunread (ch : UInt8) := @Unread.next_of_char v out h ch
  unfold Supplied command at *
  generalize v.next = read at hunread hlength ⊢
  obtain ⟨raw, v'⟩ := read
  cases raw with
  | endOfPacket =>
    have hfault : Faults (throw .badAccess : PacketM UInt8) v' .badAccess := fun _ _ => rfl
    refine (Decides.of_badAccess (hfault.bind _)).congr (iff_of_false id ?_)
    rintro ⟨cmd, hcmd, -⟩
    cases hcmd
  | badRun =>
    refine .bind (.pure star v') ?_
    have hstar : Char.ofNat star.toNat = '*' := by decide
    have hunknown : Decides t.processUnknown v' (t.Answers v' '*') True :=
      decides_unknown (fun r => nofun) v'
    rw [hstar]
    refine (Decides.map hunknown fun r => ?_).congr ?_
    · simp [Answers]
    · simp [CommandSupplied]
  | char ch =>
    refine .bind (.pure ch v') ?_
    refine (Decides.map (decides_command (hunread ch rfl) (hlength nofun) _) fun r => ?_).congr ?_
    · simp [Answers]
    · simp

theorem processes_iff (payload : List UInt8) (seq : ℤ)
    (hp : p.Shows (PacketView.parseSequence ⟨payload, 0, seq⟩)) :
    t.Processes host (PacketView.parseSequence ⟨payload, 0, seq⟩) p ↔
      t.Supplied host (PacketView.parseSequence ⟨payload, 0, seq⟩) := by
  obtain ⟨hunread, -⟩ := parseSequence_of_unread (unread_start payload seq) rfl
  refine (decides_processPacket hunread fun hcommand => ?_).iff hp
  obtain ⟨p', -, hshows⟩ := runs_getRawChar _ p hp
  have hpos := PacketView.pos_next hcommand
  have hle := hshows.pos_le
  omega

/-- It is so for what `GetPacket` returns. -/
theorem processes_iff_of_getPacket {s : Session} {canWrite : Bool} {stale : ℕ → UInt8}
    {stream : List UInt8} {events : List WireEvent} {p' : Packet} (hp : p.Shows v)
    (h : s.getPacket canWrite stale .skipping stream p = .ok ((events, true), p')) :
    ∃ v', p'.Shows v' ∧ (t.Processes host v' p' ↔ t.Supplied host v') := by
  obtain ⟨p'', hrun, hshows⟩ := @runs_getPacket s canWrite stale .skipping stream v p hp
  rw [h] at hrun
  obtain ⟨hresult, rfl⟩ := Prod.mk.inj (Except.ok.inj hrun)
  obtain ⟨payload, seq, hv⟩ := @exists_payload_of_getPacket v s canWrite stream stale .skipping
    (Or.inl rfl) (congrArg Prod.snd hresult).symm
  rw [hv] at hshows
  exact ⟨_, hshows, processes_iff payload seq hshows⟩

end PacketTarget

end

/-- For every packet that has been received: `ProcessPacket` uses nothing but what is there, and answers
queries for the target description right, if and only if what the packet asks for is in it. -/
theorem processPacket_iff (t : PacketTarget) (host : Platform) (payload : List UInt8) (seq : ℤ)
    (p : Packet) (hp : p.Shows (PacketView.parseSequence ⟨payload, 0, seq⟩)) :
    t.Processes host (PacketView.parseSequence ⟨payload, 0, seq⟩) p ↔
      t.Supplied host (PacketView.parseSequence ⟨payload, 0, seq⟩) :=
  PacketTarget.processes_iff payload seq hp

/-- A target without threads that serves a short description. -/
def PacketTarget.small : PacketTarget where
  memory := Target.small
  threads := TargetThreads.initial
  contexts _ _ := 0
  properties := ⟨[(ofString "target.xml", ofString "l<target/>")], by decide +kernel⟩
  mainNexeDesc := none
  irtNexeDesc := none

def Packet.received (payload : List UInt8) : Packet := ⟨-1, payload ++ [0], 0, payload.length⟩

theorem Packet.shows_received (payload : List UInt8) : (Packet.received payload).Shows ⟨payload, 0, -1⟩ :=
  ⟨rfl, rfl, rfl, Nat.zero_le _, [], rfl⟩

/-- A frame with the command `b`. -/
theorem processes_iff_of_getPacket_small : ∃ r p',
    Session.getPacket ⟨false, false, 0⟩ true (fun _ => 0) .skipping
      [dollar, 0x62, hash, 0x36, 0x32] .new = .ok (r, p') ∧
    ∃ v', p'.Shows v' ∧ (PacketTarget.small.Processes Target.smallPlatform v' p' ↔
      PacketTarget.small.Supplied Target.smallPlatform v') := by
  obtain ⟨p', hrun, -⟩ := @runs_getPacket ⟨false, false, 0⟩ true (fun _ => 0) .skipping
    [dollar, 0x62, hash, 0x36, 0x32] _ _ shows_new
  have hres : ∀ r : List WireEvent × Bool, r.2 = true → r = (r.1, true) := fun r h => h ▸ rfl
  rw [hres (PacketView.getPacket _ _ _ _ _ _).1 (by decide +kernel)] at hrun
  exact ⟨_, p', hrun, PacketTarget.processes_iff_of_getPacket shows_new hrun⟩

/-- The first four characters of the description. -/
theorem processes_features : PacketTarget.small.Processes Target.smallPlatform
    (PacketView.parseSequence ⟨ofString "qXfer:features:read:target.xml:0,4", 0, -1⟩)
    (.received (ofString "qXfer:features:read:target.xml:0,4")) := by
  have hparse : PacketView.parseSequence ⟨ofString "qXfer:features:read:target.xml:0,4", 0, -1⟩ =
      ⟨ofString "qXfer:features:read:target.xml:0,4", 0, -1⟩ := by decide +kernel
  have hargs : (⟨ofString "qXfer:features:read:target.xml:0,4", 1, -1⟩ : PacketView).featuresArgs =
      some [ofString "0", ofString "4"] := by decide +kernel
  refine (processPacket_iff _ _ _ _ _ (hparse ▸ Packet.shows_received _)).2 ?_
  rw [hparse]
  refine ⟨'q', by decide +kernel, by decide +kernel, fun args hmem => ?_⟩
  cases hargs.symm.trans hmem
  exact ⟨by decide +kernel, Or.inr ⟨0, by decide +kernel, 4, by decide +kernel, by decide, Or.inl (by decide)⟩⟩

/-- The offset -5 reads in front of the description. -/
theorem not_processes_negative : ¬ PacketTarget.small.Processes Target.smallPlatform
    (PacketView.parseSequence ⟨ofString "qXfer:features:read:target.xml:-5,a", 0, -1⟩)
    (.received (ofString "qXfer:features:read:target.xml:-5,a")) := by
  have hfault : PacketTarget.small.processPacket Target.smallPlatform
      (.received (ofString "qXfer:features:read:target.xml:-5,a")) = .error .badAccess := by rfl
  unfold PacketTarget.Processes
  rw [hfault]
  rintro (⟨r, p', h, -⟩ | h)
  · cases h
  · cases h

end SandboxingNaCl
