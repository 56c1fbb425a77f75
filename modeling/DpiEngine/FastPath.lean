import DpiEngine.ConnectionTracker
import DpiEngine.Extractors
import DpiEngine.RuleManager

/-!
# Fast path

`FastPathProcessor` of `fast_path.cpp`: the per-packet work of one worker thread.  The thread loop
around it belongs to the engine's pipeline; the log line of a blocked packet carries no state.
-/

namespace DPI

open Bytes

structure FastPathProcessor where
  connTracker : ConnectionTracker := {}
  packetsProcessed : UInt64 := 0
  packetsForwarded : UInt64 := 0
  packetsDropped : UInt64 := 0
  sniExtractions : UInt64 := 0
  classificationHits : UInt64 := 0
  deriving DecidableEq

/-- What the surroundings supply while one packet is processed: the two readings of the clock, and
the iteration order of the table should an entry be evicted. -/
structure Env where
  created : Time
  seen : Time
  order : List FiveTuple
  deriving DecidableEq, Repr

/-- The directions of a packet and of its connection agree; the protocol is part of the key. -/
def isOutbound (job : PacketJob) (c : Connection) : Bool :=
  job.tuple.srcIp == c.tuple.srcIp && job.tuple.dstIp == c.tuple.dstIp &&
    job.tuple.srcPort == c.tuple.srcPort && job.tuple.dstPort == c.tuple.dstPort

namespace TCPFlags

def hasFin (flags : UInt8) : Bool := flags &&& 0x01 != 0
def hasSyn (flags : UInt8) : Bool := flags &&& 0x02 != 0
def hasRst (flags : UInt8) : Bool := flags &&& 0x04 != 0
def hasAck (flags : UInt8) : Bool := flags &&& 0x10 != 0

end TCPFlags

open TCPFlags in
def updateTCPState (c : Connection) (flags : UInt8) : Connection :=
  let c :=
    if hasSyn flags then
      if hasAck flags then { c with synAckSeen := true } else { c with synSeen := true }
    else c
  let c :=
    if c.synSeen && c.synAckSeen && hasAck flags && c.state == .new then
      { c with state := .established }
    else c
  let c := if hasFin flags then { c with finSeen := true } else c
  let c := if hasRst flags then { c with state := .closed } else c
  if c.finSeen && hasAck flags then { c with state := .closed } else c

namespace FastPathProcessor

/-- `none` when the source returns `false`, without a change. -/
def tryExtractSNI (fp : FastPathProcessor) (job : PacketJob) (conn : Connection) :
    Checked (Option (FastPathProcessor × Connection)) := do
  if job.tuple.dstPort ≠ 443 ∧ job.payloadLength < 50 then return none
  if job.payloadOffset ≥ job.data.length ∨ job.payloadLength = 0 then return none
  match ← SNIExtractor.extract job.payload with
  | none => return none
  | some sni =>
    let app := sniToAppType sni
    let (tracker, conn) := fp.connTracker.classifyConnection conn app sni
    let hits := if app ≠ .unknown ∧ app ≠ .https then fp.classificationHits + 1
      else fp.classificationHits
    return some ({ fp with
      connTracker := tracker
      sniExtractions := fp.sniExtractions + 1
      classificationHits := hits }, conn)

/-- `none` when the source returns `false`, without a change. -/
def tryExtractHTTPHost (fp : FastPathProcessor) (job : PacketJob) (conn : Connection) :
    Checked (Option (FastPathProcessor × Connection)) := do
  if job.tuple.dstPort ≠ 80 then return none
  if job.payloadOffset ≥ job.data.length ∨ job.payloadLength = 0 then return none
  match ← HTTPHostExtractor.extract job.payload with
  | none => return none
  | some host =>
    let app := sniToAppType host
    let (tracker, conn) := fp.connTracker.classifyConnection conn app host
    let hits := if app ≠ .unknown ∧ app ≠ .http then fp.classificationHits + 1
      else fp.classificationHits
    return some ({ fp with connTracker := tracker, classificationHits := hits }, conn)

/-- `classifyConnection` through the processor's own tracker. -/
def classify (fp : FastPathProcessor) (conn : Connection) (app : AppType) (sni : Str) :
    FastPathProcessor × Connection :=
  let (tracker, conn) := fp.connTracker.classifyConnection conn app sni
  ({ fp with connTracker := tracker }, conn)

def inspectPayload (fp : FastPathProcessor) (job : PacketJob) (conn : Connection) :
    Checked (FastPathProcessor × Connection) := do
  if job.payloadLength = 0 ∨ job.payloadOffset ≥ job.data.length then return (fp, conn)
  if let some r ← fp.tryExtractSNI job conn then return r
  if let some r ← fp.tryExtractHTTPHost job conn then return r
  if job.tuple.dstPort = 53 ∨ job.tuple.srcPort = 53 then
    if let some domain ← DNSExtractor.extractQuery job.payload then
      return fp.classify conn .dns domain
  -- the fallback by port marks the connection as classified, without a name
  if job.tuple.dstPort = 80 then return fp.classify conn .http []
  if job.tuple.dstPort = 443 then return fp.classify conn .https []
  return (fp, conn)

def checkRules (rm : Option RuleManager) (fp : FastPathProcessor) (job : PacketJob)
    (conn : Connection) : PacketAction × FastPathProcessor × Connection :=
  match rm with
  | none => (.forward, fp, conn)
  | some rm =>
    match rm.shouldBlock job.tuple.srcIp job.tuple.dstPort conn.appType conn.sni with
    | none => (.forward, fp, conn)
    | some _ =>
      let (tracker, conn) := fp.connTracker.blockConnection conn
      (.drop, { fp with connTracker := tracker }, conn)

/-- The entry once a packet is counted and its flags are taken into account. -/
def recordPacket (conn : Connection) (seen : Time) (job : PacketJob) : Connection :=
  let conn := ConnectionTracker.updateConnection conn seen job.data.length (isOutbound job conn)
  if job.tuple.protocol = 6 then updateTCPState conn job.tcpFlags else conn

/-- `processPacket` once the connection is loaded. -/
def processConnection (rm : Option RuleManager) (fp : FastPathProcessor) (seen : Time)
    (job : PacketJob) (conn : Connection) :
    Checked (PacketAction × FastPathProcessor × Connection) := do
  let conn := recordPacket conn seen job
  if conn.state = .blocked then return (.drop, fp, conn)
  let (fp, conn) ←
    if conn.state ≠ .classified ∧ job.payloadLength > 0 then fp.inspectPayload job conn
    else pure (fp, conn)
  return checkRules rm fp job conn

/-- The pointer that `getOrCreateConnection` returns is used for the whole packet, so the packet
faults when the entry is already gone. -/
def processPacket (rm : Option RuleManager) (fp : FastPathProcessor) (env : Env)
    (job : PacketJob) : Checked (PacketAction × FastPathProcessor) := do
  let (tracker, ptr) := fp.connTracker.getOrCreateConnection env.created env.order job.tuple
  let conn ← tracker.load ptr
  let (action, fp, conn) ←
    processConnection rm { fp with connTracker := tracker } env.seen job conn
  return (action, { fp with connTracker := fp.connTracker.store ptr conn })

end FastPathProcessor

end DPI
