import DpiEngine.PacketJobs
import DpiEngine.Shutdown

/-!
# PCAP in, PCAP out

The output file is read back as the forwarded records exactly when nothing was forwarded, or the
input was in the byte order of the machine and every forwarded record was captured whole.  The
writer puts a native packet header under whatever magic number it was given, and announces the
stored length as the original one.
-/

namespace DPI

open Bytes PacketAnalyzer PacketAnalyzer.PcapReader

/-- The jobs were made of the records `sent` of the capture, in this order. -/
def Forwards (c : Capture) (sent : List RawPacket) (jobs : List PacketJob) : Prop :=
  List.Forall₂ (fun raw job => raw ∈ c.records ∧ ∃ id, acceptPacket raw id = .ok (some job)) sent
    jobs

theorem exists_forwards {c : Capture} {jobs : List PacketJob}
    (h : ∀ job ∈ jobs, ∃ raw ∈ c.records, ∃ id, acceptPacket raw id = .ok (some job)) :
    ∃ sent, Forwards c sent jobs := by
  induction jobs with
  | nil => exact ⟨[], .nil⟩
  | cons job jobs ih =>
    obtain ⟨raw, hraw⟩ := h job List.mem_cons_self
    obtain ⟨sent, hsent⟩ := ih fun job' hjob => h job' (List.mem_cons_of_mem _ hjob)
    exact ⟨raw :: sent, .cons hraw hsent⟩

/-- In every run on the jobs of a capture, what has been written was made of its records. -/
theorem forwards_written {cfg : Config} {rm : RuleManager} {c : Capture} {input : List PacketJob}
    {ts : List (Taken Engine Label)} {e : Engine} (hf : 0 < cfg.fpsPerLb)
    (hinput : readerJobs 0 c.records = .ok input)
    (hrun : Run (Engine.Step cfg rm) (Engine.start input) ts e) :
    ∃ sent, Forwards c sent e.written := by
  have hsound : Engine.Sound cfg input e := (hrun.invariant (Engine.Sound cfg input)
    (fun _ => True) (fun _ _ _ hs _ h => h.step hf hs) (fun _ _ => trivial)
    (Engine.sound_start cfg input)).1
  refine exists_forwards fun job hjob => mem_readerJobs hinput job ?_
  have haccepted := hsound.ordered.mem_accepted_of_written cfg.shape hjob
  exact hsound.accepted ▸ List.mem_append_left _ haccepted

/-- A record as the output thread writes it. -/
def asWritten (raw : RawPacket) : RawPacket :=
  { raw with header := { raw.header with origLen := raw.header.inclLen } }

theorem asWritten_eq_self_iff {raw : RawPacket} :
    asWritten raw = raw ↔ raw.header.origLen = raw.header.inclLen := by
  obtain ⟨⟨sec, usec, incl, orig⟩, data⟩ := raw
  simp [asWritten, eq_comm]

theorem writeOutputPacket_eq {raw : RawPacket} {id : UInt32} {job : PacketJob} {snaplen : UInt32}
    (hjob : acceptPacket raw id = .ok (some job)) (hfits : raw.Fits snaplen) :
    writeOutputPacket job = (asWritten raw).bytes .little := by
  obtain ⟨hdata, hsec, husec, -⟩ := acceptPacket_some hjob
  have hlen : UInt32.ofNat raw.data.length = raw.header.inclLen := by
    rw [hfits.length, UInt32.ofNat_toNat]
  simp only [writeOutputPacket, hdata, hsec, husec, hlen]
  rfl

theorem Forwards.flatMap_writeOutputPacket {c : Capture} {sent : List RawPacket}
    {jobs : List PacketJob} (h : Forwards c sent jobs) :
    jobs.flatMap writeOutputPacket = (sent.map asWritten).flatMap (RawPacket.bytes .little) := by
  induction h with
  | nil => rfl
  | cons hjob _ ih =>
    obtain ⟨hraw, id, hjob⟩ := hjob
    rw [List.map_cons, List.flatMap_cons, List.flatMap_cons, ih,
      writeOutputPacket_eq hjob (c.fits _ hraw)]

theorem Forwards.mem_records {c : Capture} {sent : List RawPacket} {jobs : List PacketJob}
    (h : Forwards c sent jobs) {raw : RawPacket} (hraw : raw ∈ sent) :
    raw ∈ c.records ∧ 14 ≤ raw.data.length := by
  induction h with
  | nil => cases hraw
  | cons hjob _ ih =>
    obtain ⟨hrec, id, hjob⟩ := hjob
    rcases List.mem_cons.1 hraw with rfl | hraw
    · exact ⟨hrec, (acceptPacket_some hjob).2.2.2⟩
    · exact ih hraw

/-! ## Input in the order of the machine -/

/-- The output is a capture of the records as they are written. -/
theorem readAll_outputFile_little {c : Capture} {sent : List RawPacket} {jobs : List PacketJob}
    (h : Forwards c sent jobs) (ho : c.order = .little) :
    (openFile (outputFile c.storedHeader jobs)).map readAll = some (sent.map asWritten) := by
  let out : Capture :=
    { order := .little
      header := c.header
      records := sent.map asWritten
      magic := c.magic
      fits := by
        intro p hp
        obtain ⟨raw, hraw, rfl⟩ := List.mem_map.1 hp
        have hfits := c.fits raw (h.mem_records hraw).1
        exact ⟨hfits.length, hfits.snaplen, hfits.max⟩ }
  have hout : outputFile c.storedHeader jobs = out.bytes := by
    rw [outputFile, Capture.storedHeader_of_little ho, h.flatMap_writeOutputPacket]
    rfl
  rw [hout, out.readAll_bytes]

/-! ## Input in the other order -/

/-- A short length is a very long one when it is swapped. -/
theorem lt_swapBytes32 {v : UInt32} (h0 : 0 < v) (h : v ≤ 65535) : 65535 < swapBytes32 v := by
  rw [UInt32.lt_iff_toNat_lt, toNat_swapBytes32]
  rw [UInt32.lt_iff_toNat_lt] at h0
  rw [UInt32.le_iff_toNat_le] at h
  simp [beBytes, leBytes, leValue] at h0 h ⊢
  omega

/-- Under a swapped magic number the reader takes no native packet header. -/
theorem readAll_native_record {header : PcapGlobalHeader} {raw : RawPacket} {rest : Str}
    {snaplen : UInt32} (hfits : raw.Fits snaplen) (hdata : raw.data ≠ []) :
    readAll { file := (asWritten raw).bytes .little ++ rest, globalHeader := header,
              needsByteSwap := true } = [] := by
  apply readAll_of_none
  by_contra hsome
  obtain ⟨⟨packet, next⟩, hread⟩ := Option.ne_none_iff_exists'.1 hsome
  obtain ⟨bytes, hfile, hbytes, hheader, -, hmax, -⟩ := readNextPacket_eq_some_iff.1 hread
  rw [RawPacket.bytes, List.append_assoc] at hfile
  obtain ⟨rfl, -⟩ := List.append_inj hfile (by simp [hbytes])
  rw [PcapPacketHeader.ofBytes_bytes] at hheader
  have hlen : packet.header.inclLen = swapBytes32 raw.header.inclLen := by
    rw [hheader]
    rfl
  have hpos : 0 < raw.header.inclLen := by
    rw [UInt32.lt_iff_toNat_lt, ← hfits.length]
    exact List.length_pos_iff.2 hdata
  exact UInt32.not_lt.2 (hlen ▸ hmax) (lt_swapBytes32 hpos hfits.max)

theorem openFile_swapped {header : PcapGlobalHeader} (h : header.magicNumber = pcapMagicSwapped)
    (rest : Str) :
    ∃ header', openFile (header.bytes .little ++ rest) = some
      { file := rest, globalHeader := header', needsByteSwap := true } := by
  unfold openFile
  rw [readBytes_append (PcapGlobalHeader.length_bytes _ _)]
  simp only [Option.bind_eq_bind, Option.bind_some, PcapGlobalHeader.ofBytes_bytes, h]
  rw [if_neg (by decide), if_pos (by decide)]
  exact ⟨_, rfl⟩

/-- The output opens, and nothing is read from it. -/
theorem readAll_outputFile_big {c : Capture} {sent : List RawPacket} {jobs : List PacketJob}
    (h : Forwards c sent jobs) (ho : c.order = .big) :
    (openFile (outputFile c.storedHeader jobs)).map readAll = some [] := by
  have hmagic : c.storedHeader.magicNumber = pcapMagicSwapped := by
    simp only [Capture.storedHeader, ho, c.magic]
    decide
  obtain ⟨header', hopen⟩ := openFile_swapped hmagic (jobs.flatMap writeOutputPacket)
  rw [outputFile, writeOutputHeader, hopen, Option.map_some, h.flatMap_writeOutputPacket]
  apply congrArg some
  cases sent with
  | nil => exact readAll_of_none (readNextPacket_nil header' true)
  | cons raw sent =>
    obtain ⟨hrec, hlen⟩ := h.mem_records List.mem_cons_self
    exact readAll_native_record (c.fits raw hrec) (by rintro hnil; simp [hnil] at hlen)

/-! ## The round trip -/

/-- The engine reads every well-formed capture, and what it writes for the forwarded records is
read back as these records exactly when there are none, or the input was in the order of the
machine and each of them was captured whole. -/
theorem roundTrip_iff {c : Capture} {sent : List RawPacket} {jobs : List PacketJob}
    (h : Forwards c sent jobs) :
    ∃ reader, openFile c.bytes = some reader ∧ reader.readAll = c.records ∧
      ((openFile (outputFile reader.globalHeader jobs)).map readAll = some sent ↔
        sent = [] ∨ c.order = .little ∧ ∀ raw ∈ sent, raw.header.origLen = raw.header.inclLen) := by
  have hread := c.readAll_bytes
  rw [c.openFile_bytes] at hread
  refine ⟨_, c.openFile_bytes, Option.some.inj hread, ?_⟩
  have hwhole : sent.map asWritten = sent ↔
      ∀ raw ∈ sent, raw.header.origLen = raw.header.inclLen := by
    have hmap := List.map_inj_left (l := sent) (f := asWritten) (g := id)
    rw [List.map_id] at hmap
    exact hmap.trans (forall₂_congr fun _ _ => asWritten_eq_self_iff)
  rcases ho : c.order with _ | _
  · rw [readAll_outputFile_little h ho, Option.some_inj, hwhole]
    constructor
    · exact fun hall => Or.inr ⟨rfl, hall⟩
    · rintro (rfl | ⟨-, hall⟩)
      · simp
      · exact hall
  · rw [readAll_outputFile_big h ho, Option.some_inj]
    constructor
    · exact fun hnil => Or.inl hnil.symm
    · rintro (rfl | ⟨hlittle, -⟩)
      · rfl
      · cases hlittle

/-- A UDP datagram of one byte from 10.0.0.1 to 10.0.0.2. -/
def datagram : Str :=
  [0, 1, 2, 3, 4, 5, 6, 7, 8, 9, 10, 11, 0x08, 0x00,
    0x45, 0, 0, 29, 0, 0, 0, 0, 64, 17, 0, 0, 10, 0, 0, 1, 10, 0, 0, 2,
    0x30, 0x39, 0, 53, 0, 9, 0, 0, 0x2a]

/-- A file that holds the datagram and announces `origLen` bytes on the wire. -/
def datagramCapture (o : ByteOrder) (origLen : UInt32) : Capture where
  order := o
  header := { magicNumber := pcapMagicNative, versionMajor := 2, versionMinor := 4, thiszone := 0,
              sigfigs := 0, snaplen := 65535, network := 1 }
  records := [{ header := { tsSec := 1, tsUsec := 2, inclLen := 43, origLen }, data := datagram }]
  magic := rfl
  fits := by
    intro p hp
    cases List.mem_singleton.1 hp
    exact ⟨rfl, show (43 : UInt32) ≤ 65535 by decide,
      show (43 : UInt32) ≤ 65535 by decide⟩

def datagramJob : PacketJob where
  tuple :=
    { srcIp := 0x0100000a, dstIp := 0x0200000a, srcPort := 12345, dstPort := 53, protocol := 17 }
  data := datagram
  ipOffset := 14
  transportOffset := 34
  payloadOffset := 42
  payloadLength := 1
  tsSec := 1
  tsUsec := 2
  payload_wf := by decide

theorem forwards_datagramJob (o : ByteOrder) (origLen : UInt32)
    (h : origLen = 43 ∨ origLen = 100) :
    Forwards (datagramCapture o origLen) (datagramCapture o origLen).records [datagramJob] := by
  have haccept : acceptPacket ⟨⟨1, 2, 43, origLen⟩, datagram⟩ 0 = .ok (some datagramJob) := by
    rcases h with rfl | rfl <;> decide +kernel
  exact .cons ⟨List.mem_cons_self, 0, haccept⟩ .nil

/-- A run on the datagram writes a file that is read back as its records. -/
theorem roundTrip_iff_datagram :
    ∃ ts e reader, Run (Engine.Step oneWorker {}) (Engine.start [datagramJob]) ts e ∧
      e.written = [datagramJob] ∧ openFile (datagramCapture .little 43).bytes = some reader ∧
      (openFile (outputFile reader.globalHeader e.written)).map readAll =
        some (datagramCapture .little 43).records := by
  have h : ((Engine.exec oneWorker {} (Engine.start [datagramJob]) patientStop).map fun r =>
      decide (r.2.written = [datagramJob])) = some true := by decide +kernel
  obtain ⟨⟨ts, e⟩, hexec, h⟩ := Option.map_eq_some_iff.1 h
  have hwritten : e.written = [datagramJob] := of_decide_eq_true h
  have hrun := Engine.run_of_exec hexec
  have hread : readerJobs 0 (datagramCapture .little 43).records = .ok [datagramJob] := by
    decide +kernel
  obtain ⟨sent, hsent⟩ := forwards_written (by decide) hread hrun
  obtain ⟨reader, hopen, -, hiff⟩ := roundTrip_iff hsent
  rw [hwritten] at hsent
  cases hsent with
  | @cons raw _ _ _ hraw hrest =>
    cases hrest
    obtain rfl := List.mem_singleton.1 hraw.1
    refine ⟨ts, e, reader, hrun, hwritten, hopen, hiff.2 (Or.inr ⟨rfl, ?_⟩)⟩
    intro raw hraw
    obtain rfl := List.mem_singleton.1 hraw
    rfl

/-- A swapped file loses its packets, and a native one their original length. -/
theorem capture_not_restored :
    (Forwards (datagramCapture .big 43) (datagramCapture .big 43).records [datagramJob] ∧
      (openFile (outputFile (datagramCapture .big 43).storedHeader [datagramJob])).map readAll ≠
        some (datagramCapture .big 43).records) ∧
    Forwards (datagramCapture .little 100) (datagramCapture .little 100).records [datagramJob] ∧
      (openFile (outputFile (datagramCapture .little 100).storedHeader [datagramJob])).map readAll ≠
        some (datagramCapture .little 100).records := by
  have hbig := forwards_datagramJob .big 43 (.inl rfl)
  have hlittle := forwards_datagramJob .little 100 (.inr rfl)
  refine ⟨⟨hbig, ?_⟩, hlittle, ?_⟩
  · rw [readAll_outputFile_big hbig rfl]
    decide
  · rw [readAll_outputFile_little hlittle rfl]
    decide

end DPI
