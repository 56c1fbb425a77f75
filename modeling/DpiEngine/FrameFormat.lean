import DpiEngine.PacketParser
import DpiEngine.PcapFormat

/-!
# The frame format

The headers of `packet_parser.h` as data, and their bytes on the wire.  `PacketParser::parse` finds
TCP or UDP in exactly the byte strings that are frames of this format, and returns the fields of
the frame.
-/

namespace PacketAnalyzer

open Bytes

/-! ## Headers -/

/-- An IPv4 address `a.b.c.d`. -/
structure Address where
  a : UInt8
  b : UInt8
  c : UInt8
  d : UInt8
  deriving DecidableEq, Repr

namespace Address

def bytes (x : Address) : Str := [x.a, x.b, x.c, x.d]

@[simp] theorem length_bytes (x : Address) : x.bytes.length = 4 := rfl

/-- The integer that stands for the address in a five-tuple. -/
def value (x : Address) : UInt32 :=
  UInt32.ofNat (x.a.toNat + 2 ^ 8 * x.b.toNat + 2 ^ 16 * x.c.toNat + 2 ^ 24 * x.d.toNat)

/-- The address as a dotted quad. -/
def text (x : Address) : Str :=
  DPI.decimal x.a.toNat ++ DPI.text "." ++ DPI.decimal x.b.toNat ++ DPI.text "." ++
    DPI.decimal x.c.toNat ++ DPI.text "." ++ DPI.decimal x.d.toNat

end Address

structure EthernetHeader where
  destMac : Str
  srcMac : Str
  etherType : UInt16
  length_destMac : destMac.length = 6
  length_srcMac : srcMac.length = 6

def EthernetHeader.bytes (h : EthernetHeader) : Str :=
  h.destMac ++ h.srcMac ++ beBytes 2 h.etherType.toNat

/-- `IPv4Header` with its options: the version is four, and the header length counts words. -/
structure IPv4Header where
  versionIhl : UInt8
  tos : UInt8
  totalLength : UInt16
  identification : UInt16
  flagsFragment : UInt16
  ttl : UInt8
  protocol : UInt8
  checksum : UInt16
  srcIp : Address
  destIp : Address
  options : Str
  version : versionIhl.toNat / 16 = 4
  ihl : 4 * (versionIhl.toNat % 16) = 20 + options.length

def IPv4Header.bytes (h : IPv4Header) : Str :=
  [h.versionIhl, h.tos] ++ beBytes 2 h.totalLength.toNat ++ beBytes 2 h.identification.toNat ++
    beBytes 2 h.flagsFragment.toNat ++ [h.ttl, h.protocol] ++ beBytes 2 h.checksum.toNat ++
    h.srcIp.bytes ++ h.destIp.bytes ++ h.options

/-- `TCPHeader` with its options; the high half of `dataOffset` counts words. -/
structure TCPHeader where
  srcPort : UInt16
  destPort : UInt16
  seqNumber : UInt32
  ackNumber : UInt32
  dataOffset : UInt8
  flags : UInt8
  window : UInt16
  checksum : UInt16
  urgentPointer : UInt16
  options : Str
  offset : 4 * (dataOffset.toNat / 16) = 20 + options.length

def TCPHeader.bytes (h : TCPHeader) : Str :=
  beBytes 2 h.srcPort.toNat ++ beBytes 2 h.destPort.toNat ++ beBytes 4 h.seqNumber.toNat ++
    beBytes 4 h.ackNumber.toNat ++ [h.dataOffset, h.flags] ++ beBytes 2 h.window.toNat ++
    beBytes 2 h.checksum.toNat ++ beBytes 2 h.urgentPointer.toNat ++ h.options

structure UDPHeader where
  srcPort : UInt16
  destPort : UInt16
  length : UInt16
  checksum : UInt16

def UDPHeader.bytes (h : UDPHeader) : Str :=
  beBytes 2 h.srcPort.toNat ++ beBytes 2 h.destPort.toNat ++ beBytes 2 h.length.toNat ++
    beBytes 2 h.checksum.toNat

@[simp] theorem EthernetHeader.length_bytes (h : EthernetHeader) : h.bytes.length = 14 := by
  simp [EthernetHeader.bytes, h.length_destMac, h.length_srcMac]

@[simp] theorem IPv4Header.length_bytes (h : IPv4Header) :
    h.bytes.length = 4 * (h.versionIhl.toNat % 16) := by
  rw [h.ihl]
  simp [IPv4Header.bytes]
  omega

@[simp] theorem TCPHeader.length_bytes (h : TCPHeader) :
    h.bytes.length = 4 * (h.dataOffset.toNat / 16) := by
  rw [h.offset]
  simp [TCPHeader.bytes]
  omega

@[simp] theorem UDPHeader.length_bytes (h : UDPHeader) : h.bytes.length = 8 := by
  simp [UDPHeader.bytes]

/-! ## Cutting a byte string into fields -/

theorem exists_append {l : Str} {n : ℕ} (h : n ≤ l.length) :
    ∃ a rest, l = a ++ rest ∧ a.length = n ∧ l.length = n + rest.length := by
  refine ⟨l.take n, l.drop n, (List.take_append_drop n l).symm, List.length_take_of_le h, ?_⟩
  rw [List.length_drop]
  omega

theorem exists_byte {l : Str} (h : 1 ≤ l.length) :
    ∃ b rest, l = [b] ++ rest ∧ l.length = 1 + rest.length := by
  obtain ⟨a, rest, hl, ha, hlen⟩ := exists_append h
  obtain ⟨b, rfl⟩ := List.length_eq_one_iff.1 ha
  exact ⟨b, rest, hl, hlen⟩

theorem exists_address {l : Str} (h : 4 ≤ l.length) :
    ∃ (x : Address) (rest : Str), l = x.bytes ++ rest ∧ l.length = 4 + rest.length := by
  obtain ⟨a, la, rfl, -⟩ := exists_byte (l := l) (by omega)
  obtain ⟨b, lb, rfl, -⟩ := exists_byte (l := la) (by simp at h; omega)
  obtain ⟨c, lc, rfl, -⟩ := exists_byte (l := lb) (by simp at h; omega)
  obtain ⟨d, rest, rfl, -⟩ := exists_byte (l := lc) (by simp at h; omega)
  exact ⟨⟨a, b, c, d⟩, rest, rfl, by simp; omega⟩

/-- Any bytes are those of a number in network order. -/
theorem exists_beBytes (a : Str) : ∃ n, n < 256 ^ a.length ∧ a = beBytes a.length n := by
  refine ⟨leValue a.reverse, ?_, ?_⟩
  · have h := leValue_lt a.reverse
    rwa [List.length_reverse] at h
  · have h := beBytes_leValue a.reverse
    rw [List.length_reverse, List.reverse_reverse] at h
    exact h.symm

theorem exists_word16 {l : Str} (h : 2 ≤ l.length) :
    ∃ (v : UInt16) (rest : Str), l = beBytes 2 v.toNat ++ rest ∧ l.length = 2 + rest.length := by
  obtain ⟨a, rest, rfl, ha, hlen⟩ := exists_append h
  obtain ⟨n, hn, hbytes⟩ := exists_beBytes a
  rw [ha] at hn hbytes
  refine ⟨UInt16.ofNat n, rest, ?_, hlen⟩
  rw [UInt16.toNat_ofNat_of_lt' hn, ← hbytes]

theorem exists_word32 {l : Str} (h : 4 ≤ l.length) :
    ∃ (v : UInt32) (rest : Str), l = beBytes 4 v.toNat ++ rest ∧ l.length = 4 + rest.length := by
  obtain ⟨a, rest, rfl, ha, hlen⟩ := exists_append h
  obtain ⟨n, hn, hbytes⟩ := exists_beBytes a
  rw [ha] at hn hbytes
  refine ⟨UInt32.ofNat n, rest, ?_, hlen⟩
  rw [UInt32.toNat_ofNat_of_lt' hn, ← hbytes]

theorem exists_ethernetHeader {l : Str} (h : 14 ≤ l.length) :
    ∃ (h : EthernetHeader) (rest : Str), l = h.bytes ++ rest := by
  obtain ⟨destMac, l₁, e₁, hdest, n₁⟩ := exists_append (l := l) (n := 6) (by omega)
  obtain ⟨srcMac, l₂, e₂, hsrc, n₂⟩ := exists_append (l := l₁) (n := 6) (by omega)
  obtain ⟨etherType, rest, e₃, -⟩ := exists_word16 (l := l₂) (by omega)
  refine ⟨⟨destMac, srcMac, etherType, hdest, hsrc⟩, rest, ?_⟩
  simp only [e₁, e₂, e₃, EthernetHeader.bytes, List.append_assoc]

/-- An IPv4 header is recognised by its first byte. -/
theorem exists_ipv4Header {b : UInt8} {l : Str} (hb : l[0]? = some b) (h : 20 ≤ l.length)
    (hversion : b.toNat / 16 = 4) (hmin : 20 ≤ 4 * (b.toNat % 16))
    (hlen : 4 * (b.toNat % 16) ≤ l.length) :
    ∃ (h : IPv4Header) (rest : Str), l = h.bytes ++ rest := by
  obtain ⟨versionIhl, l₁, e₁, n₁⟩ := exists_byte (l := l) (by omega)
  obtain ⟨tos, l₂, e₂, n₂⟩ := exists_byte (l := l₁) (by omega)
  obtain ⟨totalLength, l₃, e₃, n₃⟩ := exists_word16 (l := l₂) (by omega)
  obtain ⟨identification, l₄, e₄, n₄⟩ := exists_word16 (l := l₃) (by omega)
  obtain ⟨flagsFragment, l₅, e₅, n₅⟩ := exists_word16 (l := l₄) (by omega)
  obtain ⟨ttl, l₆, e₆, n₆⟩ := exists_byte (l := l₅) (by omega)
  obtain ⟨protocol, l₇, e₇, n₇⟩ := exists_byte (l := l₆) (by omega)
  obtain ⟨checksum, l₈, e₈, n₈⟩ := exists_word16 (l := l₇) (by omega)
  obtain ⟨srcIp, l₉, e₉, n₉⟩ := exists_address (l := l₈) (by omega)
  obtain ⟨destIp, l₁₀, e₁₀, n₁₀⟩ := exists_address (l := l₉) (by omega)
  obtain ⟨options, rest, e₁₁, hoptions, -⟩ :=
    exists_append (l := l₁₀) (n := 4 * (b.toNat % 16) - 20) (by omega)
  obtain rfl : versionIhl = b := by simpa [e₁] using hb
  refine ⟨⟨versionIhl, tos, totalLength, identification, flagsFragment, ttl, protocol, checksum,
    srcIp, destIp, options, hversion, by omega⟩, rest, ?_⟩
  simp only [e₁, e₂, e₃, e₄, e₅, e₆, e₇, e₈, e₉, e₁₀, e₁₁, IPv4Header.bytes, List.append_assoc,
    List.cons_append, List.nil_append]

/-- A TCP header is recognised by the byte of its data offset. -/
theorem exists_tcpHeader {b : UInt8} {l : Str} (hb : l[12]? = some b) (h : 20 ≤ l.length)
    (hmin : 20 ≤ 4 * (b.toNat / 16)) (hlen : 4 * (b.toNat / 16) ≤ l.length) :
    ∃ (h : TCPHeader) (rest : Str), l = h.bytes ++ rest := by
  obtain ⟨srcPort, l₁, e₁, n₁⟩ := exists_word16 (l := l) (by omega)
  obtain ⟨destPort, l₂, e₂, n₂⟩ := exists_word16 (l := l₁) (by omega)
  obtain ⟨seqNumber, l₃, e₃, n₃⟩ := exists_word32 (l := l₂) (by omega)
  obtain ⟨ackNumber, l₄, e₄, n₄⟩ := exists_word32 (l := l₃) (by omega)
  obtain ⟨dataOffset, l₅, e₅, n₅⟩ := exists_byte (l := l₄) (by omega)
  obtain ⟨flags, l₆, e₆, n₆⟩ := exists_byte (l := l₅) (by omega)
  obtain ⟨window, l₇, e₇, n₇⟩ := exists_word16 (l := l₆) (by omega)
  obtain ⟨checksum, l₈, e₈, n₈⟩ := exists_word16 (l := l₇) (by omega)
  obtain ⟨urgentPointer, l₉, e₉, n₉⟩ := exists_word16 (l := l₈) (by omega)
  obtain ⟨options, rest, e₁₀, hoptions, -⟩ :=
    exists_append (l := l₉) (n := 4 * (b.toNat / 16) - 20) (by omega)
  obtain rfl : dataOffset = b := by
    rw [e₁, e₂, e₃, e₄, e₅, List.getElem?_append_right (by simp),
      List.getElem?_append_right (by simp), List.getElem?_append_right (by simp),
      List.getElem?_append_right (by simp)] at hb
    simpa using hb
  refine ⟨⟨srcPort, destPort, seqNumber, ackNumber, dataOffset, flags, window, checksum,
    urgentPointer, options, by omega⟩, rest, ?_⟩
  simp only [e₁, e₂, e₃, e₄, e₅, e₆, e₇, e₈, e₉, e₁₀, TCPHeader.bytes, List.append_assoc,
    List.cons_append, List.nil_append]

theorem exists_udpHeader {l : Str} (h : 8 ≤ l.length) :
    ∃ (h : UDPHeader) (rest : Str), l = h.bytes ++ rest := by
  obtain ⟨srcPort, l₁, e₁, n₁⟩ := exists_word16 (l := l) (by omega)
  obtain ⟨destPort, l₂, e₂, n₂⟩ := exists_word16 (l := l₁) (by omega)
  obtain ⟨length, l₃, e₃, n₃⟩ := exists_word16 (l := l₂) (by omega)
  obtain ⟨checksum, rest, e₄, -⟩ := exists_word16 (l := l₃) (by omega)
  refine ⟨⟨srcPort, destPort, length, checksum⟩, rest, ?_⟩
  simp only [e₁, e₂, e₃, e₄, UDPHeader.bytes, List.append_assoc]

/-! ## Frames -/

inductive Transport where
  | tcp (h : TCPHeader)
  | udp (h : UDPHeader)

namespace Transport

def protocol : Transport → UInt8
  | .tcp _ => PacketParser.protocolTCP
  | .udp _ => PacketParser.protocolUDP

def bytes : Transport → Str
  | .tcp h => h.bytes
  | .udp h => h.bytes

def srcPort : Transport → UInt16
  | .tcp h => h.srcPort
  | .udp h => h.srcPort

def destPort : Transport → UInt16
  | .tcp h => h.destPort
  | .udp h => h.destPort

/-- What is stored about the transport layer. -/
def store (parsed : ParsedPacket) : Transport → ParsedPacket
  | .tcp h =>
    { parsed with
      srcPort := h.srcPort
      destPort := h.destPort
      seqNumber := h.seqNumber
      ackNumber := h.ackNumber
      tcpFlags := h.flags
      hasTcp := true }
  | .udp h => { parsed with srcPort := h.srcPort, destPort := h.destPort, hasUdp := true }

end Transport

/-- An Ethernet frame that carries TCP or UDP over IPv4. -/
structure Frame where
  ethernet : EthernetHeader
  ip : IPv4Header
  transport : Transport
  payload : Str
  etherType : ethernet.etherType = PacketParser.etherTypeIPv4
  protocol : ip.protocol = transport.protocol

namespace Frame

def headers (f : Frame) : Str := f.ethernet.bytes ++ f.ip.bytes ++ f.transport.bytes

def bytes (f : Frame) : Str := f.headers ++ f.payload

/-- What the parser returns for the frame in a record with the given header. -/
def parsed (f : Frame) (header : PcapPacketHeader) : ParsedPacket :=
  f.transport.store
    { timestampSec := header.tsSec
      timestampUsec := header.tsUsec
      destMac := macToString f.ethernet.destMac
      srcMac := macToString f.ethernet.srcMac
      etherType := f.ethernet.etherType
      hasIp := true
      ipVersion := 4
      ttl := f.ip.ttl
      protocol := f.ip.protocol
      srcIp := f.ip.srcIp.text
      destIp := f.ip.destIp.text
      payload := f.payload }

variable (f : Frame)

theorem length_headers : f.headers.length = 14 + f.ip.bytes.length + f.transport.bytes.length := by
  rw [headers, List.length_append, List.length_append, EthernetHeader.length_bytes]

theorem length_bytes : f.bytes.length = f.headers.length + f.payload.length :=
  List.length_append

theorem drop_headers : f.bytes.drop f.headers.length = f.payload := by
  rw [bytes, List.drop_left]

theorem tailAt_ethernet :
    TailAt f.bytes 0 (f.ethernet.bytes ++ (f.ip.bytes ++ (f.transport.bytes ++ f.payload))) := by
  rw [bytes, headers, List.append_assoc, List.append_assoc]
  exact .start _

theorem tailAt_ip : TailAt f.bytes 14 (f.ip.bytes ++ (f.transport.bytes ++ f.payload)) :=
  f.tailAt_ethernet.append (by rw [EthernetHeader.length_bytes])

theorem tailAt_transport :
    TailAt f.bytes (14 + f.ip.bytes.length) (f.transport.bytes ++ f.payload) :=
  f.tailAt_ip.append rfl

theorem parsed_ip (header : PcapPacketHeader) :
    (f.parsed header).hasIp = true ∧ (f.parsed header).srcIp = f.ip.srcIp.text ∧
      (f.parsed header).destIp = f.ip.destIp.text ∧ (f.parsed header).protocol = f.ip.protocol ∧
      (f.parsed header).payload = f.payload := by
  rw [parsed]
  cases f.transport with
  | tcp h => exact ⟨rfl, rfl, rfl, rfl, rfl⟩
  | udp h => exact ⟨rfl, rfl, rfl, rfl, rfl⟩

theorem parsed_ports (header : PcapPacketHeader) :
    (f.parsed header).srcPort = f.transport.srcPort ∧
      (f.parsed header).destPort = f.transport.destPort := by
  rw [parsed]
  cases f.transport with
  | tcp h => exact ⟨rfl, rfl⟩
  | udp h => exact ⟨rfl, rfl⟩

end Frame

/-! ## Reading the headers back -/

theorem netToHost16_of_tailAt {data rest : Str} {i : ℕ} {v : UInt16}
    (h : TailAt data i (beBytes 2 v.toNat ++ rest)) : netToHost16 data i = .ok v := by
  have hv : load16 (beBytes 2 v.toNat) 0 = swapBytes16 v := ofNat_leValue_bytes16 .big v
  rw [netToHost16, h.readSlice (by simp), ok_bind, hv, swapBytes16_swapBytes16]
  rfl

theorem netToHost32_of_tailAt {data rest : Str} {i : ℕ} {v : UInt32}
    (h : TailAt data i (beBytes 4 v.toNat ++ rest)) : netToHost32 data i = .ok v := by
  have hv : load32 (beBytes 4 v.toNat) 0 = swapBytes32 v := ofNat_leValue_bytes32 .big v
  rw [netToHost32, h.readSlice (by simp), ok_bind, hv, swapBytes32_swapBytes32]
  rfl

theorem Address.leValue_bytes (x : Address) : leValue x.bytes =
    x.a.toNat + 2 ^ 8 * x.b.toNat + 2 ^ 16 * x.c.toNat + 2 ^ 24 * x.d.toNat := by
  simp only [bytes, leValue]
  omega

theorem Address.toNat_value (x : Address) :
    x.value.toNat = x.a.toNat + 2 ^ 8 * x.b.toNat + 2 ^ 16 * x.c.toNat + 2 ^ 24 * x.d.toNat := by
  have hlt := leValue_lt x.bytes
  rw [x.leValue_bytes, show x.bytes.length = 4 from rfl] at hlt
  rw [value, UInt32.toNat_ofNat_of_lt' (hlt.trans_eq (by decide))]

/-- `memcpy` of the four bytes into an integer. -/
theorem Address.load32_bytes (x : Address) : load32 x.bytes 0 = x.value :=
  congrArg UInt32.ofNat x.leValue_bytes

theorem Address.ipToString_value (x : Address) : DPI.ipToString x.value = x.text := by
  have ha := x.a.toNat_lt
  have hb := x.b.toNat_lt
  have hc := x.c.toNat_lt
  have hd := x.d.toNat_lt
  have h0 : ((x.value >>> 0) &&& 0xff).toNat = x.a.toNat := by
    rw [DPI.toNat_octet x.value (s := 0) (by decide), x.toNat_value]
    change _ / 2 ^ 0 % 256 = _
    omega
  have h1 : ((x.value >>> 8) &&& 0xff).toNat = x.b.toNat := by
    rw [DPI.toNat_octet x.value (s := 8) (by decide), x.toNat_value]
    change _ / 2 ^ 8 % 256 = _
    omega
  have h2 : ((x.value >>> 16) &&& 0xff).toNat = x.c.toNat := by
    rw [DPI.toNat_octet x.value (s := 16) (by decide), x.toNat_value]
    change _ / 2 ^ 16 % 256 = _
    omega
  have h3 : ((x.value >>> 24) &&& 0xff).toNat = x.d.toNat := by
    rw [DPI.toNat_octet x.value (s := 24) (by decide), x.toNat_value]
    change _ / 2 ^ 24 % 256 = _
    omega
  rw [DPI.ipToString, h0, h1, h2, h3, text]

theorem toNat_highNibble (b : UInt8) : ((b >>> 4) &&& 0x0F).toNat = b.toNat / 16 := by
  have hb := b.toNat_lt
  have hand : b.toNat / 16 &&& 15 = b.toNat / 16 % 16 := Nat.and_two_pow_sub_one_eq_mod _ 4
  rw [UInt8.toNat_and, UInt8.toNat_shiftRight]
  simp only [UInt8.reduceToNat, Nat.reduceMod, Nat.shiftRight_eq_div_pow, Nat.reducePow, hand]
  omega

theorem toNat_lowNibble (b : UInt8) : (b &&& 0x0F).toNat = b.toNat % 16 := by
  rw [UInt8.toNat_and]
  exact Nat.and_two_pow_sub_one_eq_mod _ 4

namespace PacketParser

variable {data rest : Str} {parsed : ParsedPacket} {offset : ℕ}

theorem parseEthernet_bytes (h : EthernetHeader) (ht : TailAt data 0 (h.bytes ++ rest)) :
    parseEthernet data parsed = .ok (some ({ parsed with
      destMac := macToString h.destMac
      srcMac := macToString h.srcMac
      etherType := h.etherType }, 14)) := by
  have hlen := ht.1
  rw [List.length_append, h.length_bytes] at hlen
  simp only [EthernetHeader.bytes, List.append_assoc] at ht
  have hsrc := ht.append (n := 6) (by simp [h.length_destMac])
  have htype := hsrc.append (n := 12) (by simp [h.length_srcMac])
  rw [parseEthernet, if_neg (by omega), ht.readSlice h.length_destMac.symm, ok_bind,
    hsrc.readSlice h.length_srcMac.symm, ok_bind, netToHost16_of_tailAt htype]
  rfl

theorem parseIPv4_bytes (h : IPv4Header) (ht : TailAt data offset (h.bytes ++ rest)) :
    parseIPv4 data parsed offset = .ok (some ({ parsed with
      ipVersion := 4
      ttl := h.ttl
      protocol := h.protocol
      srcIp := h.srcIp.text
      destIp := h.destIp.text
      hasIp := true }, offset + h.bytes.length)) := by
  have hlen := ht.1
  have hihl := h.ihl
  rw [List.length_append, h.length_bytes] at hlen
  rw [h.length_bytes]
  simp only [IPv4Header.bytes, List.append_assoc, List.cons_append, List.nil_append] at ht
  have hversion : (h.versionIhl >>> 4) &&& 0x0F = 4 := by
    rw [← UInt8.toNat_inj, toNat_highNibble, h.version]
    rfl
  have hihl : (h.versionIhl &&& 0x0F).toNat * 4 = 4 * (h.versionIhl.toNat % 16) := by
    rw [toNat_lowNibble, Nat.mul_comm]
  have httl := ((ht.tail.tail.append rfl).append rfl).append (n := offset + 8) (by simp)
  have hprotocol := httl.tail
  have hsrc := hprotocol.tail.append (n := offset + 12) (by simp)
  have hdst := hsrc.append (n := offset + 16) (by simp)
  rw [parseIPv4, if_neg (by omega), ht.readByte, ok_bind]
  simp only [hversion, hihl]
  rw [if_neg (by simp), if_neg (by omega), httl.readByte, ok_bind, hprotocol.readByte, ok_bind,
    hsrc.readSlice (n := 4) rfl, ok_bind, hdst.readSlice (n := 4) rfl, ok_bind,
    Address.load32_bytes, Address.load32_bytes, Address.ipToString_value,
    Address.ipToString_value]
  rfl

theorem parseTCP_bytes (h : TCPHeader) (ht : TailAt data offset (h.bytes ++ rest)) :
    parseTCP data parsed offset =
      .ok (some (Transport.store parsed (.tcp h), offset + h.bytes.length)) := by
  have hlen := ht.1
  have hoffset := h.offset
  rw [List.length_append, h.length_bytes] at hlen
  rw [h.length_bytes]
  simp only [TCPHeader.bytes, List.append_assoc, List.cons_append, List.nil_append] at ht
  have hheader : ((h.dataOffset >>> 4) &&& 0x0F).toNat * 4 = 4 * (h.dataOffset.toNat / 16) := by
    rw [toNat_highNibble, Nat.mul_comm]
  have hdst := ht.append (n := offset + 2) (by simp)
  have hseq := hdst.append (n := offset + 4) (by simp)
  have hack := hseq.append (n := offset + 8) (by simp)
  have hdata := hack.append (n := offset + 12) (by simp)
  rw [parseTCP, if_neg (by omega), netToHost16_of_tailAt ht, ok_bind, netToHost16_of_tailAt hdst,
    ok_bind, netToHost32_of_tailAt hseq, ok_bind, netToHost32_of_tailAt hack, ok_bind,
    hdata.readByte, ok_bind, hdata.tail.readByte, ok_bind]
  simp only [hheader]
  rw [if_neg (by omega)]
  rfl

theorem parseUDP_bytes (h : UDPHeader) (ht : TailAt data offset (h.bytes ++ rest)) :
    parseUDP data parsed offset =
      .ok (some (Transport.store parsed (.udp h), offset + h.bytes.length)) := by
  have hlen := ht.1
  rw [List.length_append, h.length_bytes] at hlen
  simp only [UDPHeader.bytes, List.append_assoc] at ht
  have hdst := ht.append (n := offset + 2) (by simp)
  rw [parseUDP, if_neg (by omega), netToHost16_of_tailAt ht, ok_bind, netToHost16_of_tailAt hdst,
    ok_bind, h.length_bytes]
  rfl

theorem parseTransport_bytes (t : Transport) (ht : TailAt data offset (t.bytes ++ rest))
    (hprotocol : parsed.protocol = t.protocol) :
    parseTransport data parsed offset =
      .ok (some (t.store parsed, offset + t.bytes.length)) := by
  cases t with
  | tcp h =>
    have htcp : parsed.protocol = protocolTCP := hprotocol
    rw [parseTransport, if_pos htcp, parseTCP_bytes h ht]
    rfl
  | udp h =>
    have hudp : parsed.protocol = protocolUDP := hprotocol
    rw [parseTransport, if_neg (by rw [hudp]; decide), if_pos hudp, parseUDP_bytes h ht]
    rfl

/-- Every frame is accepted, with its fields. -/
theorem parse_bytes {raw : RawPacket} (f : Frame) (h : raw.data = f.bytes) :
    parse raw = .ok (some (f.parsed raw.header)) := by
  have hpayload : f.bytes.drop (14 + f.ip.bytes.length + f.transport.bytes.length) = f.payload := by
    rw [← f.length_headers, f.drop_headers]
  rw [parse, h, parseEthernet_bytes _ f.tailAt_ethernet, ok_bind]
  simp only [parseNetwork, f.etherType, if_true]
  rw [parseIPv4_bytes _ f.tailAt_ip, ok_bind]
  simp only []
  rw [parseTransport_bytes _ f.tailAt_transport f.protocol, ok_bind]
  simp only [hpayload, Frame.parsed, f.etherType]
  cases f.transport with
  | tcp h => rfl
  | udp h => rfl

/-! ## Nothing else is accepted -/

theorem parseIPv4_sound {p : ParsedPacket} {next : ℕ} {tail : Str} (ht : TailAt data offset tail)
    (h : parseIPv4 data parsed offset = .ok (some (p, next))) :
    ∃ (h : IPv4Header) (rest : Str), tail = h.bytes ++ rest := by
  have hlen := ht.1
  simp only [parseIPv4, bind_eq_ok_iff, ite_none_eq_ok_some] at h
  obtain ⟨hmin, b, hb, hversion, hihl, -⟩ := h
  have hb' : tail[0]? = some b := by
    rw [← ht.2, List.getElem?_drop]
    exact readByte_eq_ok_iff.1 hb
  have hversion' := congrArg UInt8.toNat (not_ne_iff.1 hversion)
  rw [toNat_highNibble] at hversion'
  rw [toNat_lowNibble] at hihl
  exact exists_ipv4Header hb' (by omega) hversion' (by omega) (by omega)

theorem parseTCP_sound {p : ParsedPacket} {next : ℕ} {tail : Str} (ht : TailAt data offset tail)
    (h : parseTCP data parsed offset = .ok (some (p, next))) :
    ∃ (h : TCPHeader) (rest : Str), tail = h.bytes ++ rest := by
  have hlen := ht.1
  simp only [parseTCP, bind_eq_ok_iff, ite_none_eq_ok_some] at h
  obtain ⟨hmin, src, -, dst, -, seq, -, ack, -, b, hb, flags, -, hoffset, -⟩ := h
  have hb' : tail[12]? = some b := by
    rw [← ht.2, List.getElem?_drop]
    exact readByte_eq_ok_iff.1 hb
  rw [toNat_highNibble] at hoffset
  exact exists_tcpHeader hb' (by omega) (by omega) (by omega)

theorem parseUDP_sound {p : ParsedPacket} {next : ℕ} {tail : Str} (ht : TailAt data offset tail)
    (h : parseUDP data parsed offset = .ok (some (p, next))) :
    ∃ (h : UDPHeader) (rest : Str), tail = h.bytes ++ rest := by
  have hlen := ht.1
  simp only [parseUDP, bind_eq_ok_iff, ite_none_eq_ok_some] at h
  obtain ⟨hmin, -⟩ := h
  exact exists_udpHeader (by omega)

/-- Behind an IPv4 header, TCP and UDP are recognised by the protocol and by their own header. -/
theorem parseTransport_sound {p : ParsedPacket} {next : ℕ} {tail : Str}
    (ht : TailAt data offset tail) (h : parseTransport data parsed offset = .ok (some (p, next)))
    (htcp : parsed.hasTcp = false) (hudp : parsed.hasUdp = false)
    (hkind : p.hasTcp = true ∨ p.hasUdp = true) :
    ∃ (t : Transport) (rest : Str), tail = t.bytes ++ rest ∧ parsed.protocol = t.protocol := by
  unfold parseTransport at h
  split_ifs at h with hproto hproto'
  · obtain ⟨header, rest, rfl⟩ := parseTCP_sound ht h
    exact ⟨.tcp header, rest, rfl, hproto⟩
  · obtain ⟨header, rest, rfl⟩ := parseUDP_sound ht h
    exact ⟨.udp header, rest, rfl, hproto'⟩
  · cases h
    simp [htcp, hudp] at hkind

theorem parse_sound {raw : RawPacket} {p : ParsedPacket} (h : parse raw = .ok (some p))
    (hkind : p.hasTcp = true ∨ p.hasUdp = true) : ∃ f : Frame, raw.data = f.bytes := by
  obtain ⟨ethernet, rest, hdata⟩ := exists_ethernetHeader (length_of_parse h)
  have ht : TailAt raw.data 0 (ethernet.bytes ++ rest) := hdata ▸ .start _
  have hip := ht.append (n := 14) (by simp)
  rw [parse, parseEthernet_bytes _ ht, ok_bind] at h
  obtain ⟨_ | ⟨net, next⟩, hnet, h⟩ := bind_eq_ok_iff.1 h
  · cases h
  cases h
  unfold parseNetwork at hnet
  split_ifs at hnet with htype
  · obtain ⟨_ | ⟨ip, transport⟩, hipv4, hnet⟩ := bind_eq_ok_iff.1 hnet
    · cases hnet
    obtain ⟨header, rest, rfl⟩ := parseIPv4_sound hip hipv4
    rw [parseIPv4_bytes _ hip] at hipv4
    cases hipv4
    obtain ⟨t, payload, rfl, hprotocol⟩ :=
      parseTransport_sound (hip.append rfl) hnet rfl rfl hkind
    refine ⟨⟨ethernet, header, t, payload, htype, hprotocol⟩, ?_⟩
    rw [hdata, Frame.bytes, Frame.headers, List.append_assoc, List.append_assoc]
  · cases hnet
    simp at hkind

/-- TCP or UDP is found exactly in the frames, and the result is what the frame says. -/
theorem parse_eq_iff_frame {raw : RawPacket} {p : ParsedPacket} :
    (parse raw = .ok (some p) ∧ (p.hasTcp = true ∨ p.hasUdp = true)) ↔
      ∃ f : Frame, raw.data = f.bytes ∧ p = f.parsed raw.header := by
  constructor
  · rintro ⟨h, hkind⟩
    obtain ⟨f, hf⟩ := parse_sound h hkind
    rw [parse_bytes f hf] at h
    cases h
    exact ⟨f, hf, rfl⟩
  · rintro ⟨f, hf, rfl⟩
    refine ⟨parse_bytes f hf, ?_⟩
    rw [Frame.parsed]
    cases f.transport with
    | tcp h => exact .inl rfl
    | udp h => exact .inr rfl

/-- The parser reads inside the packet only.  It finds TCP exactly in the frames with a TCP header,
and UDP in those with a UDP header, and returns their fields and the rest of the packet. -/
theorem parse_accepts_iff (raw : RawPacket) :
    Defined (parse raw) ∧
    (∀ p, (parse raw = .ok (some p) ∧ p.hasTcp = true) ↔
      ∃ (f : Frame) (h : TCPHeader), f.transport = .tcp h ∧ raw.data = f.bytes ∧
        p = f.parsed raw.header) ∧
    ∀ p, (parse raw = .ok (some p) ∧ p.hasUdp = true) ↔
      ∃ (f : Frame) (h : UDPHeader), f.transport = .udp h ∧ raw.data = f.bytes ∧
        p = f.parsed raw.header := by
  refine ⟨defined_parse raw, fun p => ⟨?_, ?_⟩, fun p => ⟨?_, ?_⟩⟩
  · rintro ⟨h, htcp⟩
    obtain ⟨f, hf, rfl⟩ := parse_eq_iff_frame.1 ⟨h, .inl htcp⟩
    rcases ht : f.transport with header | header
    · exact ⟨f, header, ht, hf, rfl⟩
    · simp [Frame.parsed, ht, Transport.store] at htcp
  · rintro ⟨f, header, ht, hf, rfl⟩
    exact ⟨parse_bytes f hf, by simp [Frame.parsed, ht, Transport.store]⟩
  · rintro ⟨h, hudp⟩
    obtain ⟨f, hf, rfl⟩ := parse_eq_iff_frame.1 ⟨h, .inr hudp⟩
    rcases ht : f.transport with header | header
    · simp [Frame.parsed, ht, Transport.store] at hudp
    · exact ⟨f, header, ht, hf, rfl⟩
  · rintro ⟨f, header, ht, hf, rfl⟩
    exact ⟨parse_bytes f hf, by simp [Frame.parsed, ht, Transport.store]⟩

end PacketParser

end PacketAnalyzer
