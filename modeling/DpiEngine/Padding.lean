import DpiEngine.Conversion
import DpiEngine.FastPath

/-!
# Link-layer padding

Neither the parser nor `createPacketJob` reads the total length in the IP header, so whatever
follows the datagram in the frame counts as payload.  The payload is the one that was sent exactly
when there is no padding; an empty segment to the port of HTTPS that is padded to the Ethernet
minimum classifies its connection, and ends its inspection.
-/

namespace DPI

open Bytes PacketAnalyzer PacketAnalyzer.PacketParser

/-- The total length that the IP header announces is the length of the datagram. -/
def TrueLength (f : Frame) : Prop :=
  f.ip.totalLength.toNat = f.ip.bytes.length + f.transport.bytes.length + f.payload.length

instance (f : Frame) : Decidable (TrueLength f) := inferInstanceAs (Decidable (_ = _))

/-- With `padding` behind the frame, the parser reports the same payload, and the job has the same
payload length. -/
def PaddingIgnored (f : Frame) (padding : Str) : Prop :=
  ∀ raw padded : RawPacket, raw.data = f.bytes → padded.data = f.bytes ++ padding →
    ∃ p q, parse raw = .ok (some p) ∧ parse padded = .ok (some q) ∧ q.payload = p.payload ∧
      ∀ id id', ∃ job job', createPacketJob raw p id = .ok job ∧
        createPacketJob padded q id' = .ok job' ∧ job'.payloadLength = job.payloadLength

/-- The frame that the parser sees in a padded one. -/
def padded (f : Frame) (padding : Str) : Frame := { f with payload := f.payload ++ padding }

theorem bytes_padded (f : Frame) (padding : Str) : (padded f padding).bytes = f.bytes ++ padding :=
  (List.append_assoc f.headers f.payload padding).symm

theorem PaddingIgnored.eq_nil {f : Frame} {padding : Str} (h : PaddingIgnored f padding) :
    padding = [] := by
  let header : PcapPacketHeader := ⟨0, 0, 0, 0⟩
  obtain ⟨p, q, hp, hq, hpayload, -⟩ :=
    h ⟨header, f.bytes⟩ ⟨header, f.bytes ++ padding⟩ rfl rfl
  rw [parse_bytes f rfl] at hp
  rw [parse_bytes (padded f padding) (bytes_padded f padding).symm] at hq
  cases hp
  cases hq
  obtain ⟨-, -, -, -, hsent⟩ := f.parsed_ip header
  obtain ⟨-, -, -, -, hseen⟩ := (padded f padding).parsed_ip header
  rw [hsent, hseen] at hpayload
  exact List.append_right_eq_self.1 hpayload

/-- The padding is told from the payload exactly when there is none. -/
theorem paddingIgnored_iff (f : Frame) (padding : Str) :
    PaddingIgnored f padding ↔ padding = [] := by
  refine ⟨PaddingIgnored.eq_nil, ?_⟩
  rintro rfl raw raw' hraw hraw'
  rw [List.append_nil] at hraw'
  obtain ⟨-, -, -, -, hpayload⟩ := f.parsed_ip raw.header
  obtain ⟨-, -, -, -, hpayload'⟩ := f.parsed_ip raw'.header
  refine ⟨_, _, parse_bytes f hraw, parse_bytes f hraw', hpayload'.trans hpayload.symm, ?_⟩
  intro id id'
  obtain ⟨job, hjob, -, -, -, hlen⟩ := createPacketJob_frame f hraw id
  obtain ⟨job', hjob', -, -, -, hlen'⟩ := createPacketJob_frame f hraw' id'
  exact ⟨job, job', hjob, hjob', hlen'.trans hlen.symm⟩

/-- What a fresh processor knows of a connection after the packet of the given bytes. -/
def classifiedBy (data : Str) : Checked (Option (ConnectionState × AppType)) := do
  match ← acceptPacket ⟨⟨0, 0, UInt32.ofNat data.length, UInt32.ofNat data.length⟩, data⟩ 0 with
  | none => return none
  | some job =>
    let (_, fp) ← FastPathProcessor.processPacket none {} ⟨0, 0, []⟩ job
    return (fp.connTracker.connections.lookup (canonicalTuple job.tuple)).map fun conn =>
      (conn.state, conn.appType)

/-- Six bytes of padding behind an empty segment are its payload, and are inspected. -/
theorem padding_inspected :
    (¬ ∀ f padding, TrueLength f → PaddingIgnored f padding) ∧
      classifiedBy emptySegment.bytes = .ok (some (.new, .unknown)) ∧
      classifiedBy (emptySegment.bytes ++ List.replicate 6 0) =
        .ok (some (.classified, .https)) := by
  refine ⟨fun h => ?_, by decide +kernel, by decide +kernel⟩
  have hnil := (h emptySegment (List.replicate 6 0) (by decide)).eq_nil
  cases hnil

end DPI
