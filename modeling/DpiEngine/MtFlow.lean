import DpiEngine.Extractors
import DpiEngine.Lib.Table
import DpiEngine.PacketParser

/-!
# The stand-alone multi-threaded program

The packets, rules and flows of `dpi_mt.cpp`, which has its own copies of them, and what one of its
fast paths does with one packet.  The threads around it are those of `MtEngine`.
-/

namespace DPI.Mt

open Bytes PacketAnalyzer

/-! ## Packets -/

/-- A packet with a payload has it at the end of its data. -/
@[ext] structure Packet where
  id : UInt32 := 0
  tsSec : UInt32 := 0
  tsUsec : UInt32 := 0
  tuple : FiveTuple
  data : Str
  tcpFlags : UInt8 := 0
  payloadOffset : ℕ := 0
  payloadLength : ℕ := 0
  payload_wf : payloadLength ≠ 0 → payloadOffset + payloadLength = data.length
  deriving Repr

instance : DecidableEq Packet := fun _ _ => decidable_of_iff' _ Packet.ext_iff

/-- The bytes that the extractors are given. -/
def Packet.payload (pkt : Packet) : Str := (pkt.data.drop pkt.payloadOffset).take pkt.payloadLength

/-- The payload offset that `process` computes from the packet again. -/
def payloadOffset (parsed : ParsedPacket) (data : Str) : Checked ℕ := do
  if data.length > 14 then
    let ipIhl := (← readByte data 14) &&& 0x0F
    let payloadOffset := 14 + ipIhl.toNat * 4
    if parsed.hasTcp && payloadOffset + 12 < data.length then
      let tcpOff := ((← readByte data (payloadOffset + 12)) >>> 4) &&& 0x0F
      return payloadOffset + tcpOff.toNat * 4
    else if parsed.hasUdp then return payloadOffset + 8
    else return payloadOffset
  else return 14

/-- The source leaves the payload length of a packet of up to 14 bytes unset; no packet that it
gets this far is so short. -/
def createPacket (raw : RawPacket) (parsed : ParsedPacket) (pktId : UInt32) : Checked Packet := do
  let srcIp ← parseIP parsed.srcIp
  let dstIp ← parseIP parsed.destIp
  let tuple : FiveTuple :=
    { srcIp, dstIp, srcPort := parsed.srcPort, dstPort := parsed.destPort,
      protocol := parsed.protocol }
  let data := raw.data
  let payloadOffset ← payloadOffset parsed data
  return {
    id := pktId
    tsSec := raw.header.tsSec
    tsUsec := raw.header.tsUsec
    tuple, data, payloadOffset
    tcpFlags := parsed.tcpFlags
    payloadLength := if payloadOffset < data.length then data.length - payloadOffset else 0
    payload_wf := by split_ifs <;> omega }

/-- The body of the reading loop: only TCP and UDP over IP become packets. -/
def acceptPacket (raw : RawPacket) (pktId : UInt32) : Checked (Option Packet) := do
  match ← PacketParser.parse raw with
  | none => return none
  | some parsed =>
    if !parsed.hasIp || (!parsed.hasTcp && !parsed.hasUdp) then return none
    return some (← createPacket raw parsed pktId)

/-- The reading loop over the records of its file. -/
def readPackets (pktId : UInt32) : List RawPacket → Checked (List Packet)
  | [] => return []
  | raw :: records => do
    match ← acceptPacket raw pktId with
    | none => readPackets pktId records
    | some pkt => return pkt :: (← readPackets (pktId + 1) records)

/-! ## Rules and flows -/

structure Rules where
  blockedIps : Finset UInt32 := ∅
  blockedApps : Finset AppType := ∅
  blockedDomains : List Str := []

def Rules.isBlocked (rules : Rules) (srcIp : UInt32) (app : AppType) (sni : Str) : Bool :=
  decide (srcIp ∈ rules.blockedIps) || decide (app ∈ rules.blockedApps) ||
    rules.blockedDomains.any fun dom => contains sni dom

structure FlowEntry where
  tuple : FiveTuple := ⟨0, 0, 0, 0, 0⟩
  appType : AppType := .unknown
  sni : Str := []
  packets : UInt64 := 0
  bytes : UInt64 := 0
  blocked : Bool := false
  classified : Bool := false
  deriving DecidableEq, Repr

def classifyFlow (pkt : Packet) (flow : FlowEntry) : Checked FlowEntry := do
  if pkt.tuple.dstPort = 443 ∧ pkt.payloadLength > 5 then
    if let some sni ← SNIExtractor.extract pkt.payload then
      return { flow with sni, appType := sniToAppType sni, classified := true }
  if pkt.tuple.dstPort = 80 ∧ pkt.payloadLength > 10 then
    if let some host ← HTTPHostExtractor.extract pkt.payload then
      return { flow with sni := host, appType := sniToAppType host, classified := true }
  if pkt.tuple.dstPort = 53 ∨ pkt.tuple.srcPort = 53 then
    return { flow with appType := .dns, classified := true }
  -- the fallback by port leaves the flow open to a name
  if pkt.tuple.dstPort = 443 then return { flow with appType := .https }
  if pkt.tuple.dstPort = 80 then return { flow with appType := .http }
  return flow

/-- The flow once a packet of it is counted. -/
def FlowEntry.count (flow : FlowEntry) (pkt : Packet) : FlowEntry :=
  let flow := if flow.packets = 0 then { flow with tuple := pkt.tuple } else flow
  { flow with
    packets := flow.packets + 1
    bytes := flow.bytes + UInt64.ofNat pkt.data.length }

/-- What `FastPath::run` does with the flow of a packet, until its verdict is known. -/
def FlowEntry.receive (rules : Rules) (flow : FlowEntry) (pkt : Packet) : Checked FlowEntry := do
  let flow := flow.count pkt
  let flow ← if flow.classified then pure flow else classifyFlow pkt flow
  return if flow.blocked then flow
    else { flow with blocked := rules.isBlocked pkt.tuple.srcIp flow.appType flow.sni }

abbrev Flows := Table FiveTuple FlowEntry

/-- `flows_[tuple]`. -/
def Flows.at (flows : Flows) (tuple : FiveTuple) : FlowEntry := (flows.lookup tuple).getD {}

theorem Flows.at_insert (flows : Flows) (tuple : FiveTuple) (flow : FlowEntry) :
    Flows.at (flows.insert tuple flow) = Function.update flows.at tuple flow :=
  Table.getD_lookup_insert flows tuple flow {}

/-- The flow of a packet after it, and the table with this flow. -/
def Flows.receive (rules : Rules) (flows : Flows) (pkt : Packet) : Checked (FlowEntry × Flows) := do
  let flow ← (flows.at pkt.tuple).receive rules pkt
  return (flow, flows.insert pkt.tuple flow)

/-- The verdicts of a fast path on the packets of its queue. -/
def Flows.processAll (rules : Rules) (flows : Flows) :
    List Packet → Checked (List (Packet × PacketAction))
  | [] => return []
  | pkt :: rest => do
    let (flow, flows) ← flows.receive rules pkt
    let action := if flow.blocked then PacketAction.drop else .forward
    return (pkt, action) :: (← flows.processAll rules rest)

/-! ## Statistics -/

structure Stats where
  totalPackets : UInt64 := 0
  totalBytes : UInt64 := 0
  forwarded : UInt64 := 0
  dropped : UInt64 := 0
  tcpPackets : UInt64 := 0
  udpPackets : UInt64 := 0
  appCounts : Table AppType UInt64 := ∅
  detectedSnis : Table Str AppType := ∅

namespace Stats

/-- What `process` counts before it hands a packet on. -/
def read (stats : Stats) (pkt : Packet) : Stats :=
  let stats := { stats with
    totalPackets := stats.totalPackets + 1
    totalBytes := stats.totalBytes + UInt64.ofNat pkt.data.length }
  if pkt.tuple.protocol = 6 then { stats with tcpPackets := stats.tcpPackets + 1 }
  else { stats with udpPackets := stats.udpPackets + 1 }

def recordApp (stats : Stats) (app : AppType) (sni : Str) : Stats :=
  let stats := { stats with
    appCounts := stats.appCounts.insert app ((stats.appCounts.lookup app).getD 0 + 1) }
  if sni.isEmpty then stats
  else { stats with detectedSnis := stats.detectedSnis.insert sni app }

end Stats

end DPI.Mt
