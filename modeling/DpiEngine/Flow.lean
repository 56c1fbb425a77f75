import DpiEngine.FastPath

/-!
# Flows

The fast path as a machine over single connections.  A `Flow` is the part of a connection entry
that decisions depend on, and `Flow.step` is what one packet of the connection does to it.
`processPacket` refines this machine: it moves the flow of the packet's own connection by
`Flow.step` and leaves every other entry as it is, or evicts it.
-/

namespace DPI

open Bytes TCPFlags

structure Flow where
  state : ConnectionState := .new
  appType : AppType := .unknown
  sni : Str := []
  synSeen : Bool := false
  synAckSeen : Bool := false
  finSeen : Bool := false
  deriving DecidableEq, Repr

def Connection.flow (c : Connection) : Flow :=
  { state := c.state, appType := c.appType, sni := c.sni, synSeen := c.synSeen,
    synAckSeen := c.synAckSeen, finSeen := c.finSeen }

def tlsName (job : PacketJob) : Checked (Option (AppType × Str)) :=
  if job.tuple.dstPort = 443 ∨ job.payloadLength ≥ 50 then
    Option.map (fun sni => (sniToAppType sni, sni)) <$> SNIExtractor.extract job.payload
  else .ok none

def httpName (job : PacketJob) : Checked (Option (AppType × Str)) :=
  if job.tuple.dstPort = 80 then
    Option.map (fun host => (sniToAppType host, host)) <$> HTTPHostExtractor.extract job.payload
  else .ok none

def dnsName (job : PacketJob) : Checked (Option (AppType × Str)) :=
  if job.tuple.dstPort = 53 ∨ job.tuple.srcPort = 53 then
    Option.map (fun domain => (.dns, domain)) <$> DNSExtractor.extractQuery job.payload
  else .ok none

/-- The name that the extractors, in the order of `inspectPayload`, find in a packet, with the
application it classifies the connection as. -/
def visibleName (job : PacketJob) : Checked (Option (AppType × Str)) := do
  if let some name ← tlsName job then return some name
  if let some name ← httpName job then return some name
  dnsName job

/-- The application that a packet without a visible name is classified as. -/
def portApp (t : FiveTuple) : Option AppType :=
  if t.dstPort = 80 then some .http else if t.dstPort = 443 then some .https else none

namespace Flow

/-- The flags of a TCP packet close the connection. -/
def closedBy (f : Flow) (flags : UInt8) : Bool :=
  hasRst flags || (f.finSeen || hasFin flags) && hasAck flags

def tcp (f : Flow) (flags : UInt8) : Flow :=
  let synSeen := f.synSeen || hasSyn flags && !hasAck flags
  let synAckSeen := f.synAckSeen || hasSyn flags && hasAck flags
  { f with
    state :=
      if f.closedBy flags then .closed
      else if synSeen && synAckSeen && hasAck flags && f.state == .new then .established
      else f.state
    synSeen := synSeen
    synAckSeen := synAckSeen
    finSeen := f.finSeen || hasFin flags }

/-- The flow after the flags of a packet are taken into account. -/
def receive (f : Flow) (job : PacketJob) : Flow :=
  if job.tuple.protocol = 6 then f.tcp job.tcpFlags else f

def classify (f : Flow) (app : AppType) (name : Str) : Flow :=
  if f.state = .classified then f
  else { f with appType := app, sni := name, state := .classified }

/-- Inspection classifies by the visible name, and by the port when there is none. -/
def inspect (f : Flow) (job : PacketJob) : Checked Flow := do
  match ← visibleName job with
  | some (app, name) => return f.classify app name
  | none =>
    match portApp job.tuple with
    | some app => return f.classify app []
    | none => return f

/-- A flow that is already classified is not inspected again. -/
def inspected (f : Flow) (job : PacketJob) : Checked Flow :=
  if f.state ≠ .classified ∧ job.payloadLength > 0 then f.inspect job else pure f

/-- Some rule in force matches a packet of the flow. -/
def matched (rm : Option RuleManager) (f : Flow) (job : PacketJob) : Bool :=
  match rm with
  | none => false
  | some rm => (rm.shouldBlock job.tuple.srcIp job.tuple.dstPort f.appType f.sni).isSome

/-- The decision once inspection is over. -/
def decide (rm : Option RuleManager) (f : Flow) (job : PacketJob) : PacketAction × Flow :=
  if f.matched rm job then (.drop, { f with state := .blocked }) else (.forward, f)

def step (rm : Option RuleManager) (f : Flow) (job : PacketJob) :
    Checked (PacketAction × Flow) := do
  let f := f.receive job
  if f.state = .blocked then return (.drop, f)
  let f ← f.inspected job
  return f.decide rm job

end Flow

/-! ## Refinement -/

open ConnectionTracker FastPathProcessor

theorem flow_updateConnection (c : Connection) (now : Time) (packetSize : ℕ) (isOutbound : Bool) :
    (updateConnection c now packetSize isOutbound).flow = c.flow := by
  cases isOutbound <;> rfl

theorem flow_classifyConnection (tr : ConnectionTracker) (c : Connection) (app : AppType)
    (sni : Str) : (tr.classifyConnection c app sni).2.flow = c.flow.classify app sni := by
  unfold classifyConnection Flow.classify
  by_cases h : c.state = .classified
  · rw [if_neg (not_not.2 h), if_pos (show c.flow.state = _ from h)]
  · rw [if_pos h, if_neg (show c.flow.state ≠ _ from h)]
    rfl

/-- What the processing of a connection leaves alone in its processor. -/
structure SameTable (fp fp' : FastPathProcessor) : Prop where
  connections : fp'.connTracker.connections = fp.connTracker.connections
  maxConnections : fp'.connTracker.maxConnections = fp.connTracker.maxConnections
  packetsProcessed : fp'.packetsProcessed = fp.packetsProcessed
  packetsForwarded : fp'.packetsForwarded = fp.packetsForwarded
  packetsDropped : fp'.packetsDropped = fp.packetsDropped

theorem SameTable.refl (fp : FastPathProcessor) : SameTable fp fp := ⟨rfl, rfl, rfl, rfl, rfl⟩

/-- An extraction step does what the name it finds says. -/
def Finds (fp : FastPathProcessor) (conn : Connection) :
    Checked (Option (FastPathProcessor × Connection)) → Checked (Option (AppType × Str)) → Prop
  | .error e, .error e' => e = e'
  | .ok none, .ok none => True
  | .ok (some (fp', conn')), .ok (some (app, name)) =>
    SameTable fp fp' ∧ conn'.flow = conn.flow.classify app name
  | _, _ => False

theorem sameTable_classify (fp : FastPathProcessor) (c : Connection) (app : AppType) (sni : Str) :
    SameTable fp (fp.classify c app sni).1 := by
  unfold FastPathProcessor.classify classifyConnection
  by_cases h : c.state ≠ .classified
  · rw [if_pos h]
    exact ⟨rfl, rfl, rfl, rfl, rfl⟩
  · rw [if_neg h]
    exact SameTable.refl fp

theorem PacketJob.offset_lt {job : PacketJob} (h : job.payloadLength > 0) :
    ¬ (job.payloadOffset ≥ job.data.length ∨ job.payloadLength = 0) := by
  have := job.payload_wf (by omega)
  omega

theorem finds_tryExtractSNI (fp : FastPathProcessor) {job : PacketJob} (conn : Connection)
    (h : job.payloadLength > 0) :
    Finds fp conn (fp.tryExtractSNI job conn) (tlsName job) := by
  unfold tryExtractSNI tlsName
  by_cases hs : job.tuple.dstPort = 443 ∨ job.payloadLength ≥ 50
  · have hn : ¬ (job.tuple.dstPort ≠ 443 ∧ job.payloadLength < 50) := by
      rintro ⟨hport, hlen⟩
      exact hs.elim hport (by omega)
    rw [if_neg hn, if_neg (PacketJob.offset_lt h), if_pos hs]
    cases hx : SNIExtractor.extract job.payload with
    | error e => exact rfl
    | ok r =>
      cases r with
      | none => trivial
      | some sni =>
        refine ⟨?_, flow_classifyConnection _ _ _ _⟩
        have := sameTable_classify fp conn (sniToAppType sni) sni
        exact ⟨this.connections, this.maxConnections, rfl, rfl, rfl⟩
  · have : job.tuple.dstPort ≠ 443 ∧ job.payloadLength < 50 := by
      rw [not_or, not_le] at hs
      exact hs
    rw [if_pos this, if_neg hs]
    trivial

theorem finds_tryExtractHTTPHost (fp : FastPathProcessor) {job : PacketJob} (conn : Connection)
    (h : job.payloadLength > 0) :
    Finds fp conn (fp.tryExtractHTTPHost job conn) (httpName job) := by
  unfold tryExtractHTTPHost httpName
  by_cases hp : job.tuple.dstPort = 80
  · rw [if_neg (not_not.2 hp), if_neg (PacketJob.offset_lt h), if_pos hp]
    cases hx : HTTPHostExtractor.extract job.payload with
    | error e => exact rfl
    | ok r =>
      cases r with
      | none => trivial
      | some host =>
        refine ⟨?_, flow_classifyConnection _ _ _ _⟩
        have := sameTable_classify fp conn (sniToAppType host) host
        exact ⟨this.connections, this.maxConnections, rfl, rfl, rfl⟩
  · rw [if_pos hp, if_neg hp]
    trivial

/-- A computation on a connection moves its flow as the computation on flows does. -/
def Moves (fp : FastPathProcessor) :
    Checked (FastPathProcessor × Connection) → Checked Flow → Prop
  | .error e, .error e' => e = e'
  | .ok (fp', conn'), .ok f => SameTable fp fp' ∧ conn'.flow = f
  | _, _ => False

theorem moves_classify (fp : FastPathProcessor) (c : Connection) (app : AppType) (sni : Str) :
    Moves fp (.ok (fp.classify c app sni)) (.ok (c.flow.classify app sni)) :=
  ⟨sameTable_classify fp c app sni, flow_classifyConnection _ _ _ _⟩

theorem moves_byPort (fp : FastPathProcessor) (job : PacketJob) (conn : Connection) :
    Moves fp (do
        if job.tuple.dstPort = 80 then return fp.classify conn .http []
        if job.tuple.dstPort = 443 then return fp.classify conn .https []
        return (fp, conn))
      (match portApp job.tuple with
        | some app => return conn.flow.classify app []
        | none => return conn.flow) := by
  unfold portApp
  by_cases h80 : job.tuple.dstPort = 80
  · rw [if_pos h80, if_pos h80]
    exact moves_classify fp conn _ _
  · rw [if_neg h80, if_neg h80]
    by_cases h443 : job.tuple.dstPort = 443
    · rw [if_pos h443, if_pos h443]
      exact moves_classify fp conn _ _
    · rw [if_neg h443, if_neg h443]
      exact ⟨SameTable.refl fp, rfl⟩

theorem moves_inspectPayload (fp : FastPathProcessor) {job : PacketJob} (conn : Connection)
    (h : job.payloadLength > 0) :
    Moves fp (fp.inspectPayload job conn) (conn.flow.inspect job) := by
  have hs := finds_tryExtractSNI fp conn h
  have hh := finds_tryExtractHTTPHost fp conn h
  unfold inspectPayload Flow.inspect visibleName
  rw [if_neg (fun hc => PacketJob.offset_lt h (by omega))]
  generalize fp.tryExtractSNI job conn = x at hs
  generalize fp.tryExtractHTTPHost job conn = y at hh
  generalize tlsName job = x' at hs
  generalize httpName job = y' at hh
  rcases x with e | _ | r <;> rcases x' with e' | _ | n <;> try exact hs.elim
  · exact hs
  · rcases y with e | _ | r <;> rcases y' with e' | _ | n <;> try exact hh.elim
    · exact hh
    · unfold dnsName
      by_cases hd : job.tuple.dstPort = 53 ∨ job.tuple.srcPort = 53
      · simp only [if_pos hd]
        cases DNSExtractor.extractQuery job.payload with
        | error e => exact rfl
        | ok r =>
          cases r with
          | none => exact moves_byPort fp job conn
          | some domain => exact moves_classify fp conn _ _
      · simp only [if_neg hd]
        exact moves_byPort fp job conn
    · exact hh
  · exact hs

theorem noteSyn_eq (c : Connection) (syn ack : Bool) :
    (if syn then
      if ack then { c with synAckSeen := true } else { c with synSeen := true }
    else c) = { c with
      synSeen := c.synSeen || syn && !ack
      synAckSeen := c.synAckSeen || syn && ack } := by
  cases syn <;> cases ack <;> simp

theorem noteFin_eq (c : Connection) (fin : Bool) :
    (if fin then { c with finSeen := true } else c) = { c with finSeen := c.finSeen || fin } := by
  cases fin <;> simp

theorem setState_eq (c : Connection) (p : Bool) (s : ConnectionState) :
    (if p then { c with state := s } else c) = { c with state := if p then s else c.state } := by
  cases p <;> rfl

/-- The flags move what the flow keeps of them and the state, and nothing else. -/
theorem updateTCPState_eq (c : Connection) (flags : UInt8) :
    updateTCPState c flags = { c with
      state := (c.flow.tcp flags).state
      synSeen := (c.flow.tcp flags).synSeen
      synAckSeen := (c.flow.tcp flags).synAckSeen
      finSeen := (c.flow.tcp flags).finSeen } := by
  unfold updateTCPState
  simp only []
  rw [noteSyn_eq, setState_eq, noteFin_eq, setState_eq, setState_eq]
  simp only [Flow.tcp, Flow.closedBy, Connection.flow, Connection.mk.injEq, and_true, true_and]
  simp only [Bool.or_eq_true (hasRst flags)]
  by_cases hc : ((c.finSeen || hasFin flags) && hasAck flags) = true
  · rw [if_pos hc, if_pos (Or.inr hc)]
  · rw [if_neg hc]
    by_cases hr : hasRst flags = true
    · rw [if_pos hr, if_pos (Or.inl hr)]
    · rw [if_neg hr, if_neg (not_or.2 ⟨hr, hc⟩)]
      rfl

theorem flow_updateTCPState (c : Connection) (flags : UInt8) :
    (updateTCPState c flags).flow = c.flow.tcp flags := by
  rw [updateTCPState_eq]
  rfl

theorem flow_recordPacket (c : Connection) (seen : Time) (job : PacketJob) :
    (recordPacket c seen job).flow = c.flow.receive job := by
  unfold recordPacket Flow.receive
  split_ifs
  · rw [flow_updateTCPState, flow_updateConnection]
  · rw [flow_updateConnection]

/-- A decision about a connection is the decision about its flow. -/
def Decides (fp : FastPathProcessor) :
    Checked (PacketAction × FastPathProcessor × Connection) →
      Checked (PacketAction × Flow) → Prop
  | .error e, .error e' => e = e'
  | .ok (action, fp', conn'), .ok (action', f) =>
    SameTable fp fp' ∧ action = action' ∧ conn'.flow = f
  | _, _ => False

theorem decides_checkRules (rm : Option RuleManager) {fp fp' : FastPathProcessor}
    (h : SameTable fp fp') (job : PacketJob) (conn : Connection) :
    Decides fp (.ok (checkRules rm fp' job conn)) (.ok (conn.flow.decide rm job)) := by
  unfold checkRules Flow.decide Flow.matched
  cases rm with
  | none => exact ⟨h, rfl, rfl⟩
  | some rm =>
    cases hx : rm.shouldBlock job.tuple.srcIp job.tuple.dstPort conn.appType conn.sni with
    | none =>
      simp only [Connection.flow, hx, Option.isSome_none]
      exact ⟨h, rfl, rfl⟩
    | some reason =>
      simp only [Connection.flow, hx, Option.isSome_some]
      exact ⟨⟨h.1, h.2, h.3, h.4, h.5⟩, rfl, rfl⟩

/-- The fast path decides a packet from the flow of its connection alone. -/
theorem decides_processConnection (rm : Option RuleManager) (fp : FastPathProcessor)
    (seen : Time) (job : PacketJob) (conn : Connection) :
    Decides fp (processConnection rm fp seen job conn) (conn.flow.step rm job) := by
  unfold processConnection Flow.step
  rw [← flow_recordPacket conn seen job]
  generalize recordPacket conn seen job = c
  by_cases hb : c.state = .blocked
  · rw [if_pos hb, if_pos (show c.flow.state = _ from hb)]
    exact ⟨SameTable.refl fp, rfl, rfl⟩
  · rw [if_neg hb, if_neg (show c.flow.state ≠ _ from hb)]
    unfold Flow.inspected
    by_cases hi : c.state ≠ .classified ∧ job.payloadLength > 0
    · rw [if_pos hi, if_pos (show c.flow.state ≠ _ ∧ _ from hi)]
      have hm := moves_inspectPayload fp c hi.2
      generalize fp.inspectPayload job c = x at hm
      generalize c.flow.inspect job = y at hm
      rcases x with e | ⟨fp', c'⟩ <;> rcases y with e' | f <;> try exact hm.elim
      · exact hm
      · obtain ⟨hsame, rfl⟩ := hm
        exact decides_checkRules rm hsame job c'
    · rw [if_neg hi, if_neg (show ¬ (c.flow.state ≠ _ ∧ _) from hi)]
      exact decides_checkRules rm (SameTable.refl fp) job c

end DPI
