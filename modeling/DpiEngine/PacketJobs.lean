import DpiEngine.PacketParser
import DpiEngine.PcapFormat

/-!
# Packet jobs

What the reader thread of `dpi_engine.cpp` makes of the records of its input file, and what the
output thread writes for a job.
-/

namespace DPI

open Bytes PacketAnalyzer

/-- The transport and the payload offset that `createPacketJob` computes from the packet again. -/
def headerOffsets (parsed : ParsedPacket) (data : Str) : Checked (ℕ × ℕ) := do
  if data.length > 14 then
    let ipIhl := (← readByte data 14) &&& 0x0F
    let transportOffset := 14 + ipIhl.toNat * 4
    if parsed.hasTcp && data.length > transportOffset then
      let tcpDataOffset := ((← readByte data (transportOffset + 12)) >>> 4) &&& 0x0F
      return (transportOffset, transportOffset + tcpDataOffset.toNat * 4)
    else if parsed.hasUdp then return (transportOffset, transportOffset + 8)
    else return (transportOffset, 0)
  else return (0, 0)

def createPacketJob (raw : RawPacket) (parsed : ParsedPacket) (packetId : UInt32) :
    Checked PacketJob := do
  let srcIp ← parseIP parsed.srcIp
  let dstIp ← parseIP parsed.destIp
  let tuple : FiveTuple :=
    { srcIp, dstIp, srcPort := parsed.srcPort, dstPort := parsed.destPort,
      protocol := parsed.protocol }
  let data := raw.data
  let (transportOffset, payloadOffset) ← headerOffsets parsed data
  return {
    packetId, tuple, data, transportOffset, payloadOffset
    tsSec := raw.header.tsSec
    tsUsec := raw.header.tsUsec
    tcpFlags := parsed.tcpFlags
    ethOffset := 0
    ipOffset := 14
    payloadLength := if data.length > 14 then data.length - payloadOffset else 0
    payload_wf := by split_ifs <;> omega }

/-- The body of the reader's loop: only TCP and UDP over IP become jobs. -/
def acceptPacket (raw : RawPacket) (packetId : UInt32) : Checked (Option PacketJob) := do
  match ← PacketParser.parse raw with
  | none => return none
  | some parsed =>
    if !parsed.hasIp || (!parsed.hasTcp && !parsed.hasUdp) then return none
    return some (← createPacketJob raw parsed packetId)

/-- The reader's loop over the records of its file. -/
def readerJobs (packetId : UInt32) : List RawPacket → Checked (List PacketJob)
  | [] => return []
  | raw :: records => do
    match ← acceptPacket raw packetId with
    | none => readerJobs packetId records
    | some job => return job :: (← readerJobs (packetId + 1) records)

/-! ## Output -/

/-- `writeOutputHeader`: the structure as it lies in memory. -/
def writeOutputHeader (header : PcapGlobalHeader) : Str := header.bytes .little

/-- `writeOutputPacket`: both lengths are that of the data. -/
def writeOutputPacket (job : PacketJob) : Str :=
  let header : PcapPacketHeader :=
    { tsSec := job.tsSec
      tsUsec := job.tsUsec
      inclLen := UInt32.ofNat job.data.length
      origLen := UInt32.ofNat job.data.length }
  header.bytes .little ++ job.data

/-- The output file after the given jobs have been written. -/
def outputFile (header : PcapGlobalHeader) (jobs : List PacketJob) : Str :=
  writeOutputHeader header ++ jobs.flatMap writeOutputPacket

/-! ## Jobs and records -/

theorem createPacketJob_ok {raw : RawPacket} {parsed : ParsedPacket} {packetId : UInt32}
    {job : PacketJob} (h : createPacketJob raw parsed packetId = .ok job) :
    job.data = raw.data ∧ job.tsSec = raw.header.tsSec ∧ job.tsUsec = raw.header.tsUsec := by
  simp only [createPacketJob, bind_eq_ok_iff] at h
  obtain ⟨src, -, dst, -, offsets, -, h⟩ := h
  cases h
  exact ⟨rfl, rfl, rfl⟩

/-- A job has the timestamps and the data of its record, and the record holds an Ethernet
header at least. -/
theorem acceptPacket_some {raw : RawPacket} {packetId : UInt32} {job : PacketJob}
    (h : acceptPacket raw packetId = .ok (some job)) :
    job.data = raw.data ∧ job.tsSec = raw.header.tsSec ∧ job.tsUsec = raw.header.tsUsec ∧
      14 ≤ raw.data.length := by
  obtain ⟨_ | parsed, hparse, h⟩ := bind_eq_ok_iff.1 h
  · cases h
  obtain ⟨-, h⟩ := ite_none_eq_ok_some.1 h
  obtain ⟨job', hjob, h⟩ := bind_eq_ok_iff.1 h
  cases h
  obtain ⟨hdata, hsec, husec⟩ := createPacketJob_ok hjob
  exact ⟨hdata, hsec, husec, PacketParser.length_of_parse hparse⟩

theorem mem_readerJobs {records : List RawPacket} {packetId : UInt32} {jobs : List PacketJob}
    (h : readerJobs packetId records = .ok jobs) :
    ∀ job ∈ jobs, ∃ raw ∈ records, ∃ id, acceptPacket raw id = .ok (some job) := by
  induction records generalizing packetId jobs with
  | nil =>
    cases h
    simp
  | cons raw records ih =>
    obtain ⟨_ | job, haccept, h⟩ := bind_eq_ok_iff.1 h
    · intro job hjob
      obtain ⟨raw', hraw, id, hid⟩ := ih h job hjob
      exact ⟨raw', List.mem_cons_of_mem _ hraw, id, hid⟩
    · obtain ⟨rest, hrest, h⟩ := bind_eq_ok_iff.1 h
      cases h
      intro job' hjob
      rcases List.mem_cons.1 hjob with rfl | hjob
      · exact ⟨raw, List.mem_cons_self, packetId, haccept⟩
      · obtain ⟨raw', hraw, id, hid⟩ := ih hrest job' hjob
        exact ⟨raw', List.mem_cons_of_mem _ hraw, id, hid⟩

end DPI
