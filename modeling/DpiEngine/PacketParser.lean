import DpiEngine.AddressText
import DpiEngine.PcapReader

/-!
# Packet parsing

`PacketParser` of `packet_parser.cpp`: Ethernet, IPv4, and TCP or UDP headers.  `payload` stands
for the payload pointer and its length.
-/

namespace PacketAnalyzer

open Bytes

/-! ## Network byte order -/

/-- `netToHost16` of the two bytes at an address. -/
def netToHost16 (data : Str) (offset : ℕ) : Checked UInt16 := do
  return swapBytes16 (load16 (← readSlice data offset 2) 0)

/-- `netToHost32` of the four bytes at an address. -/
def netToHost32 (data : Str) (offset : ℕ) : Checked UInt32 := do
  return swapBytes32 (load32 (← readSlice data offset 4) 0)

/-- `std::hex` with a width of two. -/
def hexByte (b : UInt8) : Str :=
  [Nat.digitChar (b.toNat / 16), Nat.digitChar (b.toNat % 16)].map Char.toUInt8

def macToString (mac : Str) : Str := List.intercalate (DPI.text ":") (mac.map hexByte)

/-! ## The parser -/

structure ParsedPacket where
  timestampSec : UInt32 := 0
  timestampUsec : UInt32 := 0
  srcMac : Str := []
  destMac : Str := []
  etherType : UInt16 := 0
  hasIp : Bool := false
  ipVersion : UInt8 := 0
  srcIp : Str := []
  destIp : Str := []
  protocol : UInt8 := 0
  ttl : UInt8 := 0
  hasTcp : Bool := false
  hasUdp : Bool := false
  srcPort : UInt16 := 0
  destPort : UInt16 := 0
  tcpFlags : UInt8 := 0
  seqNumber : UInt32 := 0
  ackNumber : UInt32 := 0
  payload : Str := []
  deriving DecidableEq, Repr

namespace PacketParser

def etherTypeIPv4 : UInt16 := 0x0800
def protocolTCP : UInt8 := 6
def protocolUDP : UInt8 := 17

def parseEthernet (data : Str) (parsed : ParsedPacket) : Checked (Option (ParsedPacket × ℕ)) := do
  if data.length < 14 then return none
  let destMac := macToString (← readSlice data 0 6)
  let srcMac := macToString (← readSlice data 6 6)
  let etherType ← netToHost16 data 12
  return some ({ parsed with destMac, srcMac, etherType }, 14)

def parseIPv4 (data : Str) (parsed : ParsedPacket) (offset : ℕ) :
    Checked (Option (ParsedPacket × ℕ)) := do
  if data.length < offset + 20 then return none
  let versionIhl ← readByte data offset
  let ipVersion := (versionIhl >>> 4) &&& 0x0F
  let ihl := versionIhl &&& 0x0F
  if ipVersion ≠ 4 then return none
  let ipHeaderLen := ihl.toNat * 4
  if ipHeaderLen < 20 ∨ data.length < offset + ipHeaderLen then return none
  let ttl ← readByte data (offset + 8)
  let protocol ← readByte data (offset + 9)
  let srcIp := DPI.ipToString (load32 (← readSlice data (offset + 12) 4) 0)
  let destIp := DPI.ipToString (load32 (← readSlice data (offset + 16) 4) 0)
  return some ({ parsed with ipVersion, ttl, protocol, srcIp, destIp, hasIp := true },
    offset + ipHeaderLen)

def parseTCP (data : Str) (parsed : ParsedPacket) (offset : ℕ) :
    Checked (Option (ParsedPacket × ℕ)) := do
  if data.length < offset + 20 then return none
  let srcPort ← netToHost16 data offset
  let destPort ← netToHost16 data (offset + 2)
  let seqNumber ← netToHost32 data (offset + 4)
  let ackNumber ← netToHost32 data (offset + 8)
  let dataOffset := ((← readByte data (offset + 12)) >>> 4) &&& 0x0F
  let tcpHeaderLen := dataOffset.toNat * 4
  let tcpFlags ← readByte data (offset + 13)
  if tcpHeaderLen < 20 ∨ data.length < offset + tcpHeaderLen then return none
  return some ({ parsed with srcPort, destPort, seqNumber, ackNumber, tcpFlags, hasTcp := true },
    offset + tcpHeaderLen)

def parseUDP (data : Str) (parsed : ParsedPacket) (offset : ℕ) :
    Checked (Option (ParsedPacket × ℕ)) := do
  if data.length < offset + 8 then return none
  let srcPort ← netToHost16 data offset
  let destPort ← netToHost16 data (offset + 2)
  return some ({ parsed with srcPort, destPort, hasUdp := true }, offset + 8)

/-- The transport layer, by the protocol of the IP header; other protocols are left alone. -/
def parseTransport (data : Str) (parsed : ParsedPacket) (offset : ℕ) :
    Checked (Option (ParsedPacket × ℕ)) :=
  if parsed.protocol = protocolTCP then parseTCP data parsed offset
  else if parsed.protocol = protocolUDP then parseUDP data parsed offset
  else return some (parsed, offset)

/-- The network layer, where the frame carries IPv4, and what lies above it. -/
def parseNetwork (data : Str) (parsed : ParsedPacket) (offset : ℕ) :
    Checked (Option (ParsedPacket × ℕ)) := do
  if parsed.etherType = etherTypeIPv4 then
    match ← parseIPv4 data parsed offset with
    | none => return none
    | some (parsed, offset) => parseTransport data parsed offset
  else return some (parsed, offset)

/-- No packet is the result `false`. -/
def parse (raw : RawPacket) : Checked (Option ParsedPacket) := do
  let parsed : ParsedPacket :=
    { timestampSec := raw.header.tsSec, timestampUsec := raw.header.tsUsec }
  match ← parseEthernet raw.data parsed with
  | none => return none
  | some (parsed, offset) =>
    match ← parseNetwork raw.data parsed offset with
    | none => return none
    | some (parsed, offset) => return some { parsed with payload := raw.data.drop offset }

/-! ## No read leaves the packet -/

theorem defined_netToHost16 {data : Str} {offset : ℕ} (h : offset + 2 ≤ data.length) :
    Defined (netToHost16 data offset) := (defined_readSlice h).bind fun _ _ => defined_ok _

theorem defined_netToHost32 {data : Str} {offset : ℕ} (h : offset + 4 ≤ data.length) :
    Defined (netToHost32 data offset) := (defined_readSlice h).bind fun _ _ => defined_ok _

theorem defined_parseEthernet (data : Str) (parsed : ParsedPacket) :
    Defined (parseEthernet data parsed) := by
  unfold parseEthernet
  apply Defined.guard
  intro hlen
  refine (defined_readSlice (by omega)).bind fun _ _ => ?_
  refine (defined_readSlice (by omega)).bind fun _ _ => ?_
  exact (defined_netToHost16 (by omega)).bind fun _ _ => defined_ok _

theorem defined_parseIPv4 (data : Str) (parsed : ParsedPacket) (offset : ℕ) :
    Defined (parseIPv4 data parsed offset) := by
  unfold parseIPv4
  apply Defined.guard
  intro hlen
  refine (defined_readByte (by omega)).bind fun _ _ => ?_
  apply Defined.guard
  intro _
  apply Defined.guard
  intro _
  refine (defined_readByte (by omega)).bind fun _ _ => ?_
  refine (defined_readByte (by omega)).bind fun _ _ => ?_
  refine (defined_readSlice (by omega)).bind fun _ _ => ?_
  exact (defined_readSlice (by omega)).bind fun _ _ => defined_ok _

theorem defined_parseTCP (data : Str) (parsed : ParsedPacket) (offset : ℕ) :
    Defined (parseTCP data parsed offset) := by
  unfold parseTCP
  apply Defined.guard
  intro hlen
  refine (defined_netToHost16 (by omega)).bind fun _ _ => ?_
  refine (defined_netToHost16 (by omega)).bind fun _ _ => ?_
  refine (defined_netToHost32 (by omega)).bind fun _ _ => ?_
  refine (defined_netToHost32 (by omega)).bind fun _ _ => ?_
  refine (defined_readByte (by omega)).bind fun _ _ => ?_
  refine (defined_readByte (by omega)).bind fun _ _ => ?_
  exact .guard fun _ => defined_ok _

theorem defined_parseUDP (data : Str) (parsed : ParsedPacket) (offset : ℕ) :
    Defined (parseUDP data parsed offset) := by
  unfold parseUDP
  apply Defined.guard
  intro hlen
  refine (defined_netToHost16 (by omega)).bind fun _ _ => ?_
  exact (defined_netToHost16 (by omega)).bind fun _ _ => defined_ok _

theorem defined_parseTransport (data : Str) (parsed : ParsedPacket) (offset : ℕ) :
    Defined (parseTransport data parsed offset) := by
  unfold parseTransport
  refine .ite (fun _ => defined_parseTCP ..) fun _ => ?_
  exact .ite (fun _ => defined_parseUDP ..) fun _ => defined_ok _

theorem defined_parseNetwork (data : Str) (parsed : ParsedPacket) (offset : ℕ) :
    Defined (parseNetwork data parsed offset) := by
  unfold parseNetwork
  refine .ite (fun _ => ?_) fun _ => defined_ok _
  refine (defined_parseIPv4 data parsed offset).bind fun r _ => ?_
  cases r with
  | none => exact defined_ok _
  | some r => exact defined_parseTransport ..

theorem defined_parse (raw : RawPacket) : Defined (parse raw) := by
  unfold parse
  refine (defined_parseEthernet _ _).bind fun r _ => ?_
  cases r with
  | none => exact defined_ok _
  | some r =>
    refine (defined_parseNetwork _ _ _).bind fun r _ => ?_
    cases r with
    | none => exact defined_ok _
    | some r => exact defined_ok _

/-- An accepted packet holds an Ethernet header at least. -/
theorem length_of_parse {raw : RawPacket} {p : ParsedPacket} (h : parse raw = .ok (some p)) :
    14 ≤ raw.data.length := by
  obtain ⟨_ | ⟨eth, start⟩, heth, h⟩ := bind_eq_ok_iff.1 h
  · cases h
  rw [parseEthernet, ite_none_eq_ok_some] at heth
  exact Nat.not_lt.1 heth.1

end PacketParser

end PacketAnalyzer
