import DpiEngine.MtFlow

/-!
# The stand-alone single-threaded program

The packet loop of `main_working.cpp`, with its own flows and rules.  It tries the extractors again
on every packet of a flow until one of them has found a name.
-/

namespace DPI.Simple

open Bytes PacketAnalyzer

/-- The rules have the data and the test of those of `dpi_mt.cpp`. -/
abbrev BlockingRules := Mt.Rules

def BlockingRules.isBlocked (rules : BlockingRules) (srcIp : UInt32) (app : AppType) (sni : Str) :
    Bool := Mt.Rules.isBlocked rules srcIp app sni

structure Flow where
  tuple : FiveTuple := ⟨0, 0, 0, 0, 0⟩
  appType : AppType := .unknown
  sni : Str := []
  packets : UInt64 := 0
  bytes : UInt64 := 0
  blocked : Bool := false
  deriving DecidableEq, Repr

/-- A packet that the loop does not skip, with what it has computed of it. -/
structure Packet where
  tuple : FiveTuple
  parsed : ParsedPacket
  data : Str
  deriving DecidableEq, Repr

/-- The beginning of the loop's body: only TCP and UDP over IP are looked at. -/
def accept (raw : RawPacket) : Checked (Option Packet) := do
  match ← PacketParser.parse raw with
  | none => return none
  | some parsed =>
    if !parsed.hasIp || (!parsed.hasTcp && !parsed.hasUdp) then return none
    let srcIp ← parseIP parsed.srcIp
    let dstIp ← parseIP parsed.destIp
    let tuple : FiveTuple :=
      { srcIp, dstIp, srcPort := parsed.srcPort, dstPort := parsed.destPort,
        protocol := parsed.protocol }
    return some { tuple, parsed, data := raw.data }

/-- The slice that both extractions compute, if there is one. -/
def tcpPayload (data : Str) : Checked (Option Str) := do
  let ipIhl := (← readByte data 14) &&& 0x0F
  let payloadOffset := 14 + ipIhl.toNat * 4
  if payloadOffset + 12 < data.length then
    let tcpOffset := ((← readByte data (payloadOffset + 12)) >>> 4) &&& 0x0F
    let payloadOffset := payloadOffset + tcpOffset.toNat * 4
    if payloadOffset < data.length then return some (data.drop payloadOffset)
  return none

def extractSni (pkt : Packet) (flow : Flow) : Checked Flow := do
  if (flow.appType = .unknown ∨ flow.appType = .https) ∧ flow.sni.isEmpty ∧ pkt.parsed.hasTcp ∧
      pkt.parsed.destPort = 443 then
    if let some payload ← tcpPayload pkt.data then
      if payload.length > 5 then
        if let some sni ← SNIExtractor.extract payload then
          return { flow with sni, appType := sniToAppType sni }
  return flow

def extractHost (pkt : Packet) (flow : Flow) : Checked Flow := do
  if (flow.appType = .unknown ∨ flow.appType = .http) ∧ flow.sni.isEmpty ∧ pkt.parsed.hasTcp ∧
      pkt.parsed.destPort = 80 then
    if let some payload ← tcpPayload pkt.data then
      if let some host ← HTTPHostExtractor.extract payload then
        return { flow with sni := host, appType := sniToAppType host }
  return flow

/-- The classification as DNS and the fallback by port. -/
def classifyByPort (pkt : Packet) (flow : Flow) : Flow :=
  let flow :=
    if flow.appType = .unknown ∧ (pkt.parsed.destPort = 53 ∨ pkt.parsed.srcPort = 53) then
      { flow with appType := .dns }
    else flow
  if flow.appType = .unknown then
    if pkt.parsed.destPort = 443 then { flow with appType := .https }
    else if pkt.parsed.destPort = 80 then { flow with appType := .http }
    else flow
  else flow

/-- The flow once a packet of it is counted. -/
def Flow.count (flow : Flow) (pkt : Packet) : Flow :=
  let flow := if flow.packets = 0 then { flow with tuple := pkt.tuple } else flow
  { flow with
    packets := flow.packets + 1
    bytes := flow.bytes + UInt64.ofNat pkt.data.length }

/-- What the loop does with the flow of a packet, until its verdict is known. -/
def Flow.receive (rules : BlockingRules) (flow : Flow) (pkt : Packet) : Checked Flow := do
  let flow := flow.count pkt
  let flow ← extractSni pkt flow
  let flow ← extractHost pkt flow
  let flow := classifyByPort pkt flow
  return if flow.blocked then flow
    else { flow with blocked := rules.isBlocked pkt.tuple.srcIp flow.appType flow.sni }

abbrev Flows := Table FiveTuple Flow

/-- `flows[tuple]`. -/
def Flows.at (flows : Flows) (tuple : FiveTuple) : Flow := (flows.lookup tuple).getD {}

theorem Flows.at_insert (flows : Flows) (tuple : FiveTuple) (flow : Flow) :
    Flows.at (flows.insert tuple flow) = Function.update flows.at tuple flow :=
  Table.getD_lookup_insert flows tuple flow {}

/-- The variables of the loop; `decided` is history, the verdicts in their order. -/
structure State where
  flows : Flows := ∅
  totalPackets : UInt64 := 0
  forwarded : UInt64 := 0
  dropped : UInt64 := 0
  appStats : Table AppType UInt64 := ∅
  output : List RawPacket := []
  decided : List (Packet × PacketAction) := []

/-- The verdict on a packet. -/
def State.decide (st : State) (raw : RawPacket) (pkt : Packet) (flow : Flow) : State :=
  let st := { st with
    flows := st.flows.insert pkt.tuple flow
    appStats := st.appStats.insert flow.appType ((st.appStats.lookup flow.appType).getD 0 + 1) }
  if flow.blocked then
    { st with dropped := st.dropped + 1, decided := st.decided ++ [(pkt, .drop)] }
  else
    { st with
      forwarded := st.forwarded + 1
      output := st.output ++ [raw]
      decided := st.decided ++ [(pkt, .forward)] }

/-- The body of the loop. -/
def State.read (rules : BlockingRules) (st : State) (raw : RawPacket) : Checked State := do
  let st := { st with totalPackets := st.totalPackets + 1 }
  match ← accept raw with
  | none => return st
  | some pkt =>
    let flow ← (st.flows.at pkt.tuple).receive rules pkt
    return st.decide raw pkt flow

/-- The loop over the records of its file. -/
def loop (rules : BlockingRules) (st : State) : List RawPacket → Checked State
  | [] => return st
  | raw :: records => do loop rules (← st.read rules raw) records

end DPI.Simple
