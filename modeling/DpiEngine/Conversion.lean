import DpiEngine.FrameFormat
import DpiEngine.PacketJobs
import DpiEngine.SimpleLoop

/-!
# Packet conversion

The three programs compute the offsets of a packet again once it is parsed: `createPacketJob` of
`dpi_engine.cpp`, the process loop of `dpi_mt.cpp`, and the name extraction of `main_working.cpp`.
On what the parser has accepted all of them agree with it.
-/

namespace DPI

open Bytes PacketAnalyzer PacketAnalyzer.PacketParser

/-- The five-tuple that stands in the headers. -/
def tupleOf (f : Frame) : FiveTuple where
  srcIp := f.ip.srcIp.value
  dstIp := f.ip.destIp.value
  srcPort := f.transport.srcPort
  dstPort := f.transport.destPort
  protocol := f.ip.protocol

theorem parseIP_text (x : Address) : parseIP x.text = .ok x.value := by
  rw [← x.ipToString_value, parseIP_ipToString]

section Frame

variable (f : Frame) (header : PcapPacketHeader)

/-! ## Offsets -/

theorem readByte_versionIhl : readByte f.bytes 14 = .ok f.ip.versionIhl := by
  have h := f.tailAt_ip
  simp only [IPv4Header.bytes, List.append_assoc, List.cons_append] at h
  exact h.readByte

theorem length_ip : 14 + (f.ip.versionIhl &&& 0x0F).toNat * 4 = 14 + f.ip.bytes.length := by
  rw [toNat_lowNibble, f.ip.length_bytes, Nat.mul_comm]

theorem readByte_dataOffset {h : TCPHeader} (ht : f.transport = .tcp h) :
    readByte f.bytes (14 + f.ip.bytes.length + 12) = .ok h.dataOffset := by
  have htail := f.tailAt_transport
  simp only [ht, Transport.bytes, TCPHeader.bytes, List.append_assoc, List.cons_append] at htail
  exact (((htail.append rfl).append rfl).append rfl).append (by simp) |>.readByte

theorem length_tcp {h : TCPHeader} (ht : f.transport = .tcp h) :
    14 + f.ip.bytes.length + ((h.dataOffset >>> 4) &&& 0x0F).toNat * 4 = f.headers.length := by
  rw [toNat_highNibble, f.length_headers, ht]
  simp only [Transport.bytes, h.length_bytes]
  omega

theorem length_udp {h : UDPHeader} (ht : f.transport = .udp h) :
    14 + f.ip.bytes.length + 8 = f.headers.length := by
  rw [f.length_headers, ht]
  simp only [Transport.bytes, h.length_bytes]

/-- The transport header stands inside the packet. -/
theorem room : 14 + f.ip.bytes.length + 8 ≤ f.bytes.length := by
  rw [f.length_bytes, f.length_headers]
  cases f.transport with
  | tcp h =>
    have hoffset := h.offset
    simp only [Transport.bytes, h.length_bytes]
    omega
  | udp h =>
    simp only [Transport.bytes, h.length_bytes]
    omega

theorem parsed_of_tcp {h : TCPHeader} (ht : f.transport = .tcp h) :
    (f.parsed header).hasTcp = true ∧ (f.parsed header).hasUdp = false := by
  simp [Frame.parsed, ht, Transport.store]

theorem parsed_of_udp {h : UDPHeader} (ht : f.transport = .udp h) :
    (f.parsed header).hasTcp = false ∧ (f.parsed header).hasUdp = true := by
  simp [Frame.parsed, ht, Transport.store]

theorem headerOffsets_frame :
    headerOffsets (f.parsed header) f.bytes = .ok (14 + f.ip.bytes.length, f.headers.length) := by
  have hroom := room f
  rw [headerOffsets, if_pos (by omega), readByte_versionIhl, ok_bind]
  simp only [length_ip]
  rcases ht : f.transport with h | h
  · have hguard : ((f.parsed header).hasTcp &&
        decide (f.bytes.length > 14 + f.ip.bytes.length)) = true := by
      rw [(parsed_of_tcp f header ht).1, Bool.true_and]
      exact decide_eq_true (by omega)
    rw [if_pos hguard, readByte_dataOffset f ht, ok_bind, length_tcp f ht]
    rfl
  · obtain ⟨htcp, hudp⟩ := parsed_of_udp f header ht
    rw [htcp, Bool.false_and, if_neg Bool.false_ne_true, if_pos hudp, length_udp f ht]
    rfl

theorem Mt.payloadOffset_frame :
    Mt.payloadOffset (f.parsed header) f.bytes = .ok f.headers.length := by
  have hroom := room f
  rw [Mt.payloadOffset, if_pos (by omega), readByte_versionIhl, ok_bind]
  simp only [length_ip]
  rcases ht : f.transport with h | h
  · have htransport : 14 + f.ip.bytes.length + 12 < f.bytes.length :=
      lt_of_readByte (readByte_dataOffset f ht)
    rw [(parsed_of_tcp f header ht).1, Bool.true_and, if_pos (decide_eq_true htransport),
      readByte_dataOffset f ht, ok_bind, length_tcp f ht]
    rfl
  · obtain ⟨htcp, hudp⟩ := parsed_of_udp f header ht
    rw [htcp, Bool.false_and, if_neg Bool.false_ne_true, if_pos hudp, length_udp f ht]
    rfl

/-- The slice that is searched for a name is the payload, and an empty one is not searched. -/
theorem Simple.tcpPayload_frame {h : TCPHeader} (ht : f.transport = .tcp h) :
    Simple.tcpPayload f.bytes = .ok (if f.payload = [] then none else some f.payload) := by
  have htransport : 14 + f.ip.bytes.length + 12 < f.bytes.length :=
    lt_of_readByte (readByte_dataOffset f ht)
  have hlen := f.length_bytes
  rw [Simple.tcpPayload, readByte_versionIhl, ok_bind]
  simp only [length_ip]
  rw [if_pos htransport, readByte_dataOffset f ht, ok_bind, length_tcp f ht, f.drop_headers]
  by_cases hempty : f.payload = []
  · rw [if_pos hempty, if_neg (by rw [hlen, hempty]; simp)]
    rfl
  · have hpos := List.length_pos_iff.2 hempty
    rw [if_neg hempty, if_pos (by omega)]
    rfl

/-! ## Jobs and packets -/

/-- The payload of a job or packet, as an offset and a length into the data `data`. -/
def Denotes (payload data : Str) (offset length : ℕ) : Prop :=
  offset + length = data.length ∧ length = payload.length ∧ payload = data.drop offset

theorem denotes_frame : Denotes f.payload f.bytes f.headers.length f.payload.length :=
  ⟨f.length_bytes.symm, rfl, f.drop_headers.symm⟩

theorem createPacketJob_frame {raw : RawPacket} (hraw : raw.data = f.bytes) (packetId : UInt32) :
    ∃ job, createPacketJob raw (f.parsed raw.header) packetId = .ok job ∧
      job.tuple = tupleOf f ∧ job.data = f.bytes ∧ job.payloadOffset = f.headers.length ∧
      job.payloadLength = f.payload.length := by
  obtain ⟨-, hsrc, hdst, hprotocol, -⟩ := f.parsed_ip raw.header
  obtain ⟨hsrcPort, hdstPort⟩ := f.parsed_ports raw.header
  have hroom := room f
  have hlen := f.length_bytes
  rw [createPacketJob, hsrc, hdst, parseIP_text, parseIP_text, ok_bind, ok_bind]
  simp only [hraw]
  rw [headerOffsets_frame, ok_bind]
  refine ⟨_, rfl, ?_, rfl, rfl, ?_⟩
  · simp only [hsrcPort, hdstPort, hprotocol, tupleOf]
  · change (if f.bytes.length > 14 then f.bytes.length - f.headers.length else 0) = _
    rw [if_pos (by omega)]
    omega

theorem Mt.createPacket_frame {raw : RawPacket} (hraw : raw.data = f.bytes) (pktId : UInt32) :
    ∃ pkt, Mt.createPacket raw (f.parsed raw.header) pktId = .ok pkt ∧
      pkt.tuple = tupleOf f ∧ pkt.data = f.bytes ∧ pkt.payloadOffset = f.headers.length ∧
      pkt.payloadLength = f.payload.length := by
  obtain ⟨-, hsrc, hdst, hprotocol, -⟩ := f.parsed_ip raw.header
  obtain ⟨hsrcPort, hdstPort⟩ := f.parsed_ports raw.header
  have hlen := f.length_bytes
  rw [Mt.createPacket, hsrc, hdst, parseIP_text, parseIP_text, ok_bind, ok_bind]
  simp only [hraw]
  rw [Mt.payloadOffset_frame, ok_bind]
  refine ⟨_, rfl, ?_, rfl, rfl, ?_⟩
  · simp only [hsrcPort, hdstPort, hprotocol, tupleOf]
  · change (if f.headers.length < f.bytes.length then f.bytes.length - f.headers.length else 0) = _
    split_ifs with hlt
    · omega
    · omega

theorem kept_frame : (!(f.parsed header).hasIp ||
    (!(f.parsed header).hasTcp && !(f.parsed header).hasUdp)) = false := by
  rw [(f.parsed_ip header).1]
  rcases ht : f.transport with h | h
  · rw [(parsed_of_tcp f header ht).1]
    rfl
  · rw [(parsed_of_udp f header ht).2, Bool.not_true, Bool.and_false]
    rfl

theorem Simple.accept_frame {raw : RawPacket} (hraw : raw.data = f.bytes) :
    ∃ pkt, Simple.accept raw = .ok (some pkt) ∧ pkt.tuple = tupleOf f ∧
      pkt.parsed = f.parsed raw.header ∧ pkt.data = f.bytes := by
  obtain ⟨-, hsrc, hdst, hprotocol, -⟩ := f.parsed_ip raw.header
  obtain ⟨hsrcPort, hdstPort⟩ := f.parsed_ports raw.header
  rw [Simple.accept, parse_bytes f hraw, ok_bind]
  simp only [kept_frame]
  rw [if_neg Bool.false_ne_true, hsrc, hdst, parseIP_text, parseIP_text, ok_bind, ok_bind]
  refine ⟨_, rfl, ?_, rfl, hraw⟩
  simp only [hsrcPort, hdstPort, hprotocol, tupleOf]

end Frame

/-- A record is not accepted by the parser, is skipped by the programs, or holds a frame. -/
theorem record_cases (raw : RawPacket) :
    parse raw = .ok none ∨
    (∃ parsed, parse raw = .ok (some parsed) ∧
      (!parsed.hasIp || (!parsed.hasTcp && !parsed.hasUdp)) = true) ∨
    ∃ f : Frame, raw.data = f.bytes ∧ parse raw = .ok (some (f.parsed raw.header)) := by
  obtain ⟨_ | parsed, hparse⟩ := defined_parse raw
  · exact Or.inl hparse
  by_cases hskip : (!parsed.hasIp || (!parsed.hasTcp && !parsed.hasUdp)) = true
  · exact Or.inr (Or.inl ⟨parsed, hparse, hskip⟩)
  · have hkind : parsed.hasTcp = true ∨ parsed.hasUdp = true := by
      by_contra hnone
      simp_all
    obtain ⟨f, hraw, rfl⟩ := parse_eq_iff_frame.1 ⟨hparse, hkind⟩
    exact Or.inr (Or.inr ⟨f, hraw, hparse⟩)

/-! ## The reader meets no fault -/

theorem defined_acceptPacket (raw : RawPacket) (packetId : UInt32) :
    Defined (acceptPacket raw packetId) := by
  unfold acceptPacket
  rcases record_cases raw with hparse | ⟨parsed, hparse, hskip⟩ | ⟨f, hraw, hparse⟩
  · rw [hparse]
    exact defined_ok _
  · rw [hparse, ok_bind]
    exact .ite (fun _ => defined_ok _) fun hkeep => absurd hskip hkeep
  · obtain ⟨job, hjob, -⟩ := createPacketJob_frame f hraw packetId
    rw [hparse, ok_bind]
    simp only [kept_frame, hjob]
    exact defined_ok _

/-- The reader gets through every file. -/
theorem defined_readerJobs (packetId : UInt32) (records : List RawPacket) :
    Defined (readerJobs packetId records) := by
  induction records generalizing packetId with
  | nil => exact defined_ok _
  | cons raw records ih =>
    refine (defined_acceptPacket raw packetId).bind fun r _ => ?_
    cases r with
    | none => exact ih packetId
    | some job => exact (ih (packetId + 1)).bind fun _ _ => defined_ok _

/-! ## The three programs -/

/-- On every packet with TCP or UDP over IP that the parser accepts, each program reads inside the
packet, finds the payload slice of the parser, and the five-tuple that stands in the headers. -/
theorem offsets_agree {raw : RawPacket} {parsed : ParsedPacket}
    (h : parse raw = .ok (some parsed)) (hkind : parsed.hasTcp = true ∨ parsed.hasUdp = true)
    (id : UInt32) :
    ∃ f : Frame, raw.data = f.bytes ∧
      (∃ job, createPacketJob raw parsed id = .ok job ∧ job.tuple = tupleOf f ∧
        job.data = raw.data ∧
        Denotes parsed.payload raw.data job.payloadOffset job.payloadLength) ∧
      (∃ pkt, Mt.createPacket raw parsed id = .ok pkt ∧ pkt.tuple = tupleOf f ∧
        pkt.data = raw.data ∧
        Denotes parsed.payload raw.data pkt.payloadOffset pkt.payloadLength) ∧
      ∃ pkt, Simple.accept raw = .ok (some pkt) ∧ pkt.tuple = tupleOf f ∧ pkt.data = raw.data ∧
        (parsed.hasTcp = true → Simple.tcpPayload raw.data =
          .ok (if parsed.payload = [] then none else some parsed.payload)) := by
  obtain ⟨f, hraw, rfl⟩ := parse_eq_iff_frame.1 ⟨h, hkind⟩
  obtain ⟨-, -, -, -, hpayload⟩ := f.parsed_ip raw.header
  obtain ⟨job, hjob, jobTuple, jobData, jobOffset, jobLength⟩ := createPacketJob_frame f hraw id
  obtain ⟨pkt, hpkt, pktTuple, pktData, pktOffset, pktLength⟩ := Mt.createPacket_frame f hraw id
  obtain ⟨simple, hsimple, simpleTuple, -, simpleData⟩ := Simple.accept_frame f hraw
  rw [hpayload, hraw]
  refine ⟨f, rfl, ⟨job, hjob, jobTuple, jobData, ?_⟩, ⟨pkt, hpkt, pktTuple, pktData, ?_⟩,
    simple, hsimple, simpleTuple, simpleData, ?_⟩
  · rw [jobOffset, jobLength]
    exact denotes_frame f
  · rw [pktOffset, pktLength]
    exact denotes_frame f
  · intro htcp
    rcases ht : f.transport with header | header
    · exact Simple.tcpPayload_frame f ht
    · simp [Frame.parsed, ht, Transport.store] at htcp

/-- A TCP segment without data from 10.0.0.1:12345 to 10.0.0.2:443. -/
def emptySegment : Frame where
  ethernet := ⟨[0, 1, 2, 3, 4, 5], [6, 7, 8, 9, 10, 11], 0x0800, rfl, rfl⟩
  ip := ⟨0x45, 0, 40, 0, 0, 64, 6, 0, ⟨10, 0, 0, 1⟩, ⟨10, 0, 0, 2⟩, [], rfl, rfl⟩
  transport := .tcp ⟨12345, 443, 1, 2, 0x50, 0x10, 1024, 0, 0, [], rfl⟩
  payload := []
  etherType := rfl
  protocol := rfl

/-- A segment from 10.0.0.1 to a web server. -/
def webSegment (srcPort : UInt16) (payload : Str) : Frame where
  ethernet := ⟨[0, 1, 2, 3, 4, 5], [6, 7, 8, 9, 10, 11], 0x0800, rfl, rfl⟩
  ip := ⟨0x45, 0, UInt16.ofNat (40 + payload.length), 0, 0, 64, 6, 0, ⟨10, 0, 0, 1⟩, ⟨10, 0, 0, 2⟩,
    [], rfl, rfl⟩
  transport := .tcp ⟨srcPort, 80, 1, 2, 0x50, 0x18, 1024, 0, 0, [], rfl⟩
  payload := payload
  etherType := rfl
  protocol := rfl

/-- The segment in a capture file. -/
def webRecord (srcPort : UInt16) (payload : Str) : RawPacket :=
  let data := (webSegment srcPort payload).bytes
  ⟨⟨0, 0, UInt32.ofNat data.length, UInt32.ofNat data.length⟩, data⟩

/-- A client that asks for a host after a packet and before another, and a second client. -/
def visitRecords : List RawPacket :=
  [webRecord 40000 (text "x"), webRecord 40001 (requestText "ok.com"),
    webRecord 40000 (requestText "bad.com"), webRecord 40000 (text "y")]

def firstClient : FiveTuple := ⟨0x0100000a, 0x0200000a, 40000, 80, 6⟩

theorem offsets_agree_webSegment :
    let segment := webSegment 40000 (requestText "ok.com")
    let record := webRecord 40000 (requestText "ok.com")
    ∃ job, createPacketJob record (segment.parsed record.header) 0 = .ok job ∧
      Denotes (requestText "ok.com") segment.bytes job.payloadOffset job.payloadLength := by
  have hdata : (webRecord 40000 (requestText "ok.com")).data = _ := rfl
  have hparse := parse_bytes (webSegment 40000 (requestText "ok.com")) hdata
  obtain ⟨-, -, ⟨job, hjob, -, -, hpayload⟩, -⟩ := offsets_agree hparse (.inl rfl) 0
  exact ⟨job, hjob, hpayload⟩

end DPI
