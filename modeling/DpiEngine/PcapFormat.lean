import DpiEngine.PcapReader

/-!
# The PCAP format

Capture files in either byte order as data, and their bytes.  `PcapReader` inverts the format: it
opens the bytes of a well-formed capture and reads its records.
-/

namespace PacketAnalyzer

open Bytes PcapReader

/-! ## Bytes of the structures -/

/-- The global header with all its integers in the given order. -/
def PcapGlobalHeader.bytes (o : ByteOrder) (h : PcapGlobalHeader) : Str :=
  o.bytes 4 h.magicNumber.toNat ++ o.bytes 2 h.versionMajor.toNat ++
    o.bytes 2 h.versionMinor.toNat ++ o.bytes 4 h.thiszone.toUInt32.toNat ++
    o.bytes 4 h.sigfigs.toNat ++ o.bytes 4 h.snaplen.toNat ++ o.bytes 4 h.network.toNat

def PcapPacketHeader.bytes (o : ByteOrder) (h : PcapPacketHeader) : Str :=
  o.bytes 4 h.tsSec.toNat ++ o.bytes 4 h.tsUsec.toNat ++ o.bytes 4 h.inclLen.toNat ++
    o.bytes 4 h.origLen.toNat

def RawPacket.bytes (o : ByteOrder) (p : RawPacket) : Str := p.header.bytes o ++ p.data

@[simp] theorem PcapGlobalHeader.length_bytes (o : ByteOrder) (h : PcapGlobalHeader) :
    (h.bytes o).length = 24 := by
  simp [PcapGlobalHeader.bytes]

@[simp] theorem PcapPacketHeader.length_bytes (o : ByteOrder) (h : PcapPacketHeader) :
    (h.bytes o).length = 16 := by
  simp [PcapPacketHeader.bytes]

/-- The order that the machine has to swap. -/
def swapped (o : ByteOrder) : Bool := o == .big

theorem swapBytes16_swapBytes16 (v : UInt16) : swapBytes16 (swapBytes16 v) = v := by
  apply UInt16.toNat_inj.mp
  have h := beBytes_leValue (beBytes 2 v.toNat)
  rw [length_beBytes] at h
  rw [toNat_swapBytes16, toNat_swapBytes16, h, beBytes, List.reverse_reverse,
    leValue_leBytes (by have := v.toNat_lt; omega)]

theorem swapBytes32_swapBytes32 (v : UInt32) : swapBytes32 (swapBytes32 v) = v := by
  apply UInt32.toNat_inj.mp
  have h := beBytes_leValue (beBytes 4 v.toNat)
  rw [length_beBytes] at h
  rw [toNat_swapBytes32, toNat_swapBytes32, h, beBytes, List.reverse_reverse,
    leValue_leBytes (by have := v.toNat_lt; omega)]

@[simp] theorem maybeSwap16_maybeSwap16 (b : Bool) (v : UInt16) :
    maybeSwap16 b (maybeSwap16 b v) = v := by
  cases b with
  | false => rfl
  | true => exact swapBytes16_swapBytes16 v

@[simp] theorem maybeSwap32_maybeSwap32 (b : Bool) (v : UInt32) :
    maybeSwap32 b (maybeSwap32 b v) = v := by
  cases b with
  | false => rfl
  | true => exact swapBytes32_swapBytes32 v

/-- An integer of the file as the machine finds it in memory. -/
theorem ofNat_leValue_bytes16 (o : ByteOrder) (v : UInt16) :
    UInt16.ofNat (leValue (o.bytes 2 v.toNat)) = maybeSwap16 (swapped o) v := by
  cases o with
  | little =>
    change UInt16.ofNat (leValue (leBytes 2 v.toNat)) = v
    rw [leValue_leBytes (by have := v.toNat_lt; omega), UInt16.ofNat_toNat]
  | big =>
    change UInt16.ofNat (leValue (beBytes 2 v.toNat)) = swapBytes16 v
    rw [← toNat_swapBytes16, UInt16.ofNat_toNat]

theorem ofNat_leValue_bytes32 (o : ByteOrder) (v : UInt32) :
    UInt32.ofNat (leValue (o.bytes 4 v.toNat)) = maybeSwap32 (swapped o) v := by
  cases o with
  | little =>
    change UInt32.ofNat (leValue (leBytes 4 v.toNat)) = v
    rw [leValue_leBytes (by have := v.toNat_lt; omega), UInt32.ofNat_toNat]
  | big =>
    change UInt32.ofNat (leValue (beBytes 4 v.toNat)) = swapBytes32 v
    rw [← toNat_swapBytes32, UInt32.ofNat_toNat]

theorem PcapPacketHeader.ofBytes_bytes (o : ByteOrder) (h : PcapPacketHeader) :
    PcapPacketHeader.ofBytes (h.bytes o) = swapHeader (swapped o) h := by
  have hfields : PcapPacketHeader.ofBytes (h.bytes o) =
      ⟨UInt32.ofNat (leValue (o.bytes 4 h.tsSec.toNat)),
        UInt32.ofNat (leValue (o.bytes 4 h.tsUsec.toNat)),
        UInt32.ofNat (leValue (o.bytes 4 h.inclLen.toNat)),
        UInt32.ofNat (leValue (o.bytes 4 h.origLen.toNat))⟩ := by cases o <;> rfl
  rw [hfields]
  simp only [ofNat_leValue_bytes32]
  cases o <;> rfl

@[simp] theorem swapHeader_swapHeader (b : Bool) (h : PcapPacketHeader) :
    swapHeader b (swapHeader b h) = h := by
  cases b with
  | false => rfl
  | true => simp [swapHeader]

/-- The global header as it lies in memory before any swap. -/
theorem PcapGlobalHeader.ofBytes_bytes (o : ByteOrder) (h : PcapGlobalHeader) :
    PcapGlobalHeader.ofBytes (h.bytes o) =
      { magicNumber := maybeSwap32 (swapped o) h.magicNumber
        versionMajor := maybeSwap16 (swapped o) h.versionMajor
        versionMinor := maybeSwap16 (swapped o) h.versionMinor
        thiszone := (maybeSwap32 (swapped o) h.thiszone.toUInt32).toInt32
        sigfigs := maybeSwap32 (swapped o) h.sigfigs
        snaplen := maybeSwap32 (swapped o) h.snaplen
        network := maybeSwap32 (swapped o) h.network } := by
  have hfields : PcapGlobalHeader.ofBytes (h.bytes o) =
      ⟨UInt32.ofNat (leValue (o.bytes 4 h.magicNumber.toNat)),
        UInt16.ofNat (leValue (o.bytes 2 h.versionMajor.toNat)),
        UInt16.ofNat (leValue (o.bytes 2 h.versionMinor.toNat)),
        (UInt32.ofNat (leValue (o.bytes 4 h.thiszone.toUInt32.toNat))).toInt32,
        UInt32.ofNat (leValue (o.bytes 4 h.sigfigs.toNat)),
        UInt32.ofNat (leValue (o.bytes 4 h.snaplen.toNat)),
        UInt32.ofNat (leValue (o.bytes 4 h.network.toNat))⟩ := by cases o <;> rfl
  rw [hfields]
  simp only [ofNat_leValue_bytes32, ofNat_leValue_bytes16]

/-! ## Captures -/

/-- A record that may stand in a file with the given snapshot length. -/
structure RawPacket.Fits (snaplen : UInt32) (p : RawPacket) : Prop where
  length : p.data.length = p.header.inclLen.toNat
  snaplen : p.header.inclLen ≤ snaplen
  max : p.header.inclLen ≤ 65535

/-- A well-formed capture file; `header.magicNumber` is the magic number as its writer sees it. -/
structure Capture where
  order : ByteOrder
  header : PcapGlobalHeader
  records : List RawPacket
  magic : header.magicNumber = pcapMagicNative
  fits : ∀ p ∈ records, p.Fits header.snaplen

namespace Capture

def bytes (c : Capture) : Str :=
  c.header.bytes c.order ++ c.records.flatMap (RawPacket.bytes c.order)

/-- What `getGlobalHeader` returns: the fields that `open` does not swap are as in the file. -/
def storedHeader (c : Capture) : PcapGlobalHeader :=
  { c.header with
    magicNumber := maybeSwap32 (swapped c.order) c.header.magicNumber
    thiszone := (maybeSwap32 (swapped c.order) c.header.thiszone.toUInt32).toInt32
    sigfigs := maybeSwap32 (swapped c.order) c.header.sigfigs }

theorem storedHeader_of_little {c : Capture} (h : c.order = .little) :
    c.storedHeader = c.header := by
  simp [storedHeader, h, swapped, maybeSwap32]

end Capture

theorem readBytes_append {bs rest : Str} {n : ℕ} (h : bs.length = n) :
    readBytes (bs ++ rest) n = some (bs, rest) := readBytes_eq_some_iff.2 ⟨rfl, h⟩

theorem Capture.openFile_header (c : Capture) (rest : Str) :
    openFile (c.header.bytes c.order ++ rest) = some
      { file := rest, globalHeader := c.storedHeader, needsByteSwap := swapped c.order } := by
  unfold openFile
  rw [readBytes_append (PcapGlobalHeader.length_bytes _ _)]
  simp only [Option.bind_eq_bind, Option.bind_some, PcapGlobalHeader.ofBytes_bytes, c.magic,
    Capture.storedHeader]
  cases c.order with
  | little => rfl
  | big =>
    rw [if_neg (by decide), if_pos (by decide)]
    simp [swapped]

theorem Capture.openFile_bytes (c : Capture) :
    openFile c.bytes = some
      { file := c.records.flatMap (RawPacket.bytes c.order)
        globalHeader := c.storedHeader
        needsByteSwap := swapped c.order } := c.openFile_header _

/-- One record is read back as it stands, wherever the file goes on. -/
theorem readNextPacket_bytes {o : ByteOrder} {header : PcapGlobalHeader} {p : RawPacket}
    (hp : p.Fits header.snaplen) (rest : Str) :
    readNextPacket
        { file := p.bytes o ++ rest, globalHeader := header, needsByteSwap := swapped o } =
      some (p, { file := rest, globalHeader := header, needsByteSwap := swapped o }) := by
  refine readNextPacket_eq_some_iff.2 ⟨p.header.bytes o, ?_, ?_, ?_, ?_⟩
  · simp [RawPacket.bytes]
  · simp
  · rw [PcapPacketHeader.ofBytes_bytes, swapHeader_swapHeader]
  · exact ⟨hp.snaplen, hp.max, hp.length, rfl⟩

theorem readNextPacket_nil (header : PcapGlobalHeader) (b : Bool) :
    readNextPacket { file := [], globalHeader := header, needsByteSwap := b } = none := rfl

/-! ## Successive calls -/

/-- The calls of `readNextPacket` return `records` one after the other, and then false. -/
inductive Returns : PcapReader → List RawPacket → Prop
  | done {reader : PcapReader} (h : reader.readNextPacket = none) : Returns reader []
  | next {reader reader' : PcapReader} {p : RawPacket} {records : List RawPacket}
      (h : reader.readNextPacket = some (p, reader')) (hrest : Returns reader' records) :
      Returns reader (p :: records)

theorem Returns.readAll {reader : PcapReader} {records : List RawPacket}
    (h : Returns reader records) : reader.readAll = records := by
  induction h with
  | done h => exact readAll_of_none h
  | next h _ ih => rw [readAll_of_some h, ih]

/-- No call returns a record that is cut off. -/
theorem readNextPacket_take {o : ByteOrder} {header : PcapGlobalHeader} {p : RawPacket} {k : ℕ}
    (hp : p.Fits header.snaplen) (hk : k < (p.bytes o).length) :
    readNextPacket
        { file := (p.bytes o).take k, globalHeader := header, needsByteSwap := swapped o } =
      none := by
  by_contra hsome
  obtain ⟨⟨packet, next⟩, hread⟩ := Option.ne_none_iff_exists'.1 hsome
  obtain ⟨bytes, hfile, hbytes, hheader, -, -, hdata, -⟩ := readNextPacket_eq_some_iff.1 hread
  change (p.bytes o).take k = bytes ++ (packet.data ++ next.file) at hfile
  -- the header that was read is that of the record, so all of its data should follow
  have hwhole : p.header.bytes o ++ p.data =
      bytes ++ (packet.data ++ next.file ++ (p.bytes o).drop k) := by
    rw [← List.append_assoc, ← hfile, List.take_append_drop]
    rfl
  obtain ⟨rfl, -⟩ := List.append_inj hwhole (by simp [hbytes])
  rw [PcapPacketHeader.ofBytes_bytes, swapHeader_swapHeader] at hheader
  have hlen := congrArg List.length hfile
  rw [List.length_take_of_le hk.le] at hlen
  simp only [List.length_append, PcapPacketHeader.length_bytes, hdata, hheader] at hlen
  simp only [RawPacket.bytes, List.length_append, PcapPacketHeader.length_bytes, hp.length] at hk
  omega

/-- Of the first `k` bytes of a file of records, those are returned that are whole. -/
theorem returns_take {o : ByteOrder} {header : PcapGlobalHeader} {records : List RawPacket}
    (h : ∀ p ∈ records, p.Fits header.snaplen) (k : ℕ) :
    ∃ whole, whole <+: records ∧
      Returns { file := (records.flatMap (RawPacket.bytes o)).take k, globalHeader := header,
                needsByteSwap := swapped o } whole ∧
      ∀ ps, ps <+: records → (ps <+: whole ↔ (ps.flatMap (RawPacket.bytes o)).length ≤ k) := by
  induction records generalizing k with
  | nil =>
    refine ⟨[], List.nil_prefix, .done ?_, ?_⟩
    · rw [List.flatMap_nil, List.take_nil, readNextPacket_nil]
    · intro ps hps
      simp [List.prefix_nil.1 hps]
  | cons p records ih =>
    have hp := h p List.mem_cons_self
    rw [List.flatMap_cons]
    rcases Nat.lt_or_ge k (p.bytes o).length with hk | hk
    · refine ⟨[], List.nil_prefix, .done ?_, ?_⟩
      · rw [List.take_append_of_le_length hk.le, readNextPacket_take hp hk]
      · intro ps hps
        rcases List.prefix_cons_iff.1 hps with rfl | ⟨qs, rfl, -⟩
        · simp
        · simp only [List.prefix_nil, List.flatMap_cons, List.length_append, reduceCtorEq,
            false_iff]
          omega
    · obtain ⟨whole, hpart, hreturns, hmax⟩ :=
        ih (fun q hq => h q (List.mem_cons_of_mem p hq)) (k - (p.bytes o).length)
      refine ⟨p :: whole, (List.prefix_cons_inj p).2 hpart, ?_, ?_⟩
      · rw [List.take_append, List.take_of_length_le hk]
        exact .next (readNextPacket_bytes hp _) hreturns
      · intro ps hps
        rcases List.prefix_cons_iff.1 hps with rfl | ⟨qs, rfl, hqs⟩
        · simp
        · rw [List.prefix_cons_inj, hmax qs hqs, List.flatMap_cons, List.length_append]
          omega

theorem returns_flatMap_bytes {o : ByteOrder} {header : PcapGlobalHeader}
    {records : List RawPacket} (h : ∀ p ∈ records, p.Fits header.snaplen) :
    Returns { file := records.flatMap (RawPacket.bytes o), globalHeader := header,
              needsByteSwap := swapped o } records := by
  obtain ⟨whole, hpart, hreturns, hmax⟩ :=
    returns_take (o := o) h (records.flatMap (RawPacket.bytes o)).length
  rw [List.take_length] at hreturns
  have hrecords : records <+: whole := (hmax records List.prefix_rfl).2 le_rfl
  rwa [hpart.eq_of_length_le hrecords.length_le] at hreturns

namespace Capture

/-- Reading inverts the format. -/
theorem readAll_bytes (c : Capture) :
    (openFile c.bytes).map PcapReader.readAll = some c.records := by
  have h : ∀ p ∈ c.records, p.Fits c.storedHeader.snaplen := c.fits
  rw [c.openFile_bytes, Option.map_some, (returns_flatMap_bytes h).readAll]

theorem openFile_take (c : Capture) {n : ℕ} (hn : 24 ≤ n) :
    openFile (c.bytes.take n) = some
      { file := (c.records.flatMap (RawPacket.bytes c.order)).take (n - 24)
        globalHeader := c.storedHeader
        needsByteSwap := swapped c.order } := by
  rw [bytes, List.take_append, PcapGlobalHeader.length_bytes, List.take_of_length_le (by simpa)]
  exact c.openFile_header _

/-- A capture is read back in either byte order, and of a capture that was cut after its global
header all the records that are whole. -/
theorem returns_records (c : Capture) :
    (∃ reader, openFile c.bytes = some reader ∧ Returns reader c.records) ∧
    ∀ n, 24 ≤ n → ∃ reader whole, openFile (c.bytes.take n) = some reader ∧
      Returns reader whole ∧ whole <+: c.records ∧
      ∀ ps, ps <+: c.records →
        (ps <+: whole ↔ 24 + (ps.flatMap (RawPacket.bytes c.order)).length ≤ n) := by
  have h : ∀ p ∈ c.records, p.Fits c.storedHeader.snaplen := c.fits
  refine ⟨⟨_, c.openFile_bytes, returns_flatMap_bytes h⟩, ?_⟩
  intro n hn
  obtain ⟨whole, hpart, hreturns, hmax⟩ := returns_take (o := c.order) h (n - 24)
  refine ⟨_, whole, c.openFile_take hn, hreturns, hpart, ?_⟩
  intro ps hps
  rw [hmax ps hps]
  omega

end Capture

end PacketAnalyzer
