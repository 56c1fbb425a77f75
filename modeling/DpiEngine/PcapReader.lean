import DpiEngine.Lib.Bytes

/-!
# PCAP input

`PcapReader` of `pcap_reader.cpp`, on a little-endian machine: the global header and the packet
headers are read into their structures byte by byte, and swapped afterwards where the magic number
says so.
-/

namespace PacketAnalyzer

open Bytes

/-! ## Integers in memory -/

/-- The integer at index `i` of a structure in memory. -/
def load16 (bs : Str) (i : ℕ) : UInt16 := UInt16.ofNat (leValue ((bs.drop i).take 2))
def load32 (bs : Str) (i : ℕ) : UInt32 := UInt32.ofNat (leValue ((bs.drop i).take 4))

/-- The swap of `maybeSwap16` and of `PortableNet::swapBytes16`. -/
def swapBytes16 (value : UInt16) : UInt16 :=
  ((value &&& 0xFF00) >>> 8) ||| ((value &&& 0x00FF) <<< 8)

/-- The swap of `maybeSwap32` and of `PortableNet::swapBytes32`. -/
def swapBytes32 (value : UInt32) : UInt32 :=
  ((value &&& 0xFF000000) >>> 24) ||| ((value &&& 0x00FF0000) >>> 8) |||
    ((value &&& 0x0000FF00) <<< 8) ||| ((value &&& 0x000000FF) <<< 24)

theorem toNat_swapBytes16 (v : UInt16) : (swapBytes16 v).toNat = leValue (beBytes 2 v.toNat) := by
  have hv := v.toNat_lt
  have h1 : ((v &&& 0xFF00) >>> 8).toNat = v.toNat / 2 ^ 8 := by
    have h : v.toNat &&& 65280 = _ := and_byteMask v.toNat 1
    simp only [UInt16.toNat_shiftRight, UInt16.toNat_and, UInt16.reduceToNat, h,
      Nat.shiftRight_eq_div_pow, Nat.reduceMul, Nat.reduceMod]
    omega
  have h0 : ((v &&& 0x00FF) <<< 8).toNat = v.toNat % 256 * 2 ^ 8 := by
    have h : v.toNat &&& 255 = _ := and_byteMask v.toNat 0
    simp only [UInt16.toNat_shiftLeft, UInt16.toNat_and, UInt16.reduceToNat, h, Nat.shiftLeft_eq,
      Nat.reduceMul, Nat.reduceMod]
    omega
  calc (swapBytes16 v).toNat
      = v.toNat / 2 ^ 8 ||| v.toNat % 256 * 2 ^ 8 := by
        simp only [swapBytes16, UInt16.toNat_or, h0, h1]
    _ = v.toNat / 2 ^ 8 + v.toNat % 256 * 2 ^ 8 :=
        or_eq_add (by omega) (Dvd.intro_left _ rfl)
    _ = leValue (beBytes 2 v.toNat) := by
        simp [beBytes, leBytes, leValue]
        omega

theorem toNat_swapBytes32 (v : UInt32) : (swapBytes32 v).toNat = leValue (beBytes 4 v.toNat) := by
  have hv := v.toNat_lt
  have h3 : ((v &&& 0xFF000000) >>> 24).toNat = v.toNat / 2 ^ 24 := by
    have h : v.toNat &&& 4278190080 = _ := and_byteMask v.toNat 3
    simp only [UInt32.toNat_shiftRight, UInt32.toNat_and, UInt32.reduceToNat, h,
      Nat.shiftRight_eq_div_pow, Nat.reduceMul, Nat.reduceMod]
    omega
  have h2 : ((v &&& 0x00FF0000) >>> 8).toNat = v.toNat / 2 ^ 16 % 256 * 2 ^ 8 := by
    have h : v.toNat &&& 16711680 = _ := and_byteMask v.toNat 2
    simp only [UInt32.toNat_shiftRight, UInt32.toNat_and, UInt32.reduceToNat, h,
      Nat.shiftRight_eq_div_pow, Nat.reduceMul, Nat.reduceMod]
    omega
  have h1 : ((v &&& 0x0000FF00) <<< 8).toNat = v.toNat / 2 ^ 8 % 256 * 2 ^ 16 := by
    have h : v.toNat &&& 65280 = _ := and_byteMask v.toNat 1
    simp only [UInt32.toNat_shiftLeft, UInt32.toNat_and, UInt32.reduceToNat, h, Nat.shiftLeft_eq,
      Nat.reduceMul, Nat.reduceMod]
    omega
  have h0 : ((v &&& 0x000000FF) <<< 24).toNat = v.toNat % 256 * 2 ^ 24 := by
    have h : v.toNat &&& 255 = _ := and_byteMask v.toNat 0
    simp only [UInt32.toNat_shiftLeft, UInt32.toNat_and, UInt32.reduceToNat, h, Nat.shiftLeft_eq,
      Nat.reduceMul, Nat.reduceMod]
    omega
  calc (swapBytes32 v).toNat
      = v.toNat / 2 ^ 24 ||| v.toNat / 2 ^ 16 % 256 * 2 ^ 8 ||| v.toNat / 2 ^ 8 % 256 * 2 ^ 16 |||
          v.toNat % 256 * 2 ^ 24 := by
        simp only [swapBytes32, UInt32.toNat_or, h0, h1, h2, h3]
    _ = v.toNat / 2 ^ 24 + v.toNat / 2 ^ 16 % 256 * 2 ^ 8 + v.toNat / 2 ^ 8 % 256 * 2 ^ 16 +
          v.toNat % 256 * 2 ^ 24 := by
        rw [or_eq_add (i := 8) (by omega) (Dvd.intro_left _ rfl),
          or_eq_add (i := 16) (by omega) (Dvd.intro_left _ rfl),
          or_eq_add (i := 24) (by omega) (Dvd.intro_left _ rfl)]
    _ = leValue (beBytes 4 v.toNat) := by
        simp [beBytes, leBytes, leValue, Nat.div_div_eq_div_mul]
        omega

/-! ## The reader -/

/-- `PcapGlobalHeader`. -/
structure PcapGlobalHeader where
  magicNumber : UInt32
  versionMajor : UInt16
  versionMinor : UInt16
  thiszone : Int32
  sigfigs : UInt32
  snaplen : UInt32
  network : UInt32
  deriving DecidableEq, Repr

/-- `PcapPacketHeader`. -/
structure PcapPacketHeader where
  tsSec : UInt32
  tsUsec : UInt32
  inclLen : UInt32
  origLen : UInt32
  deriving DecidableEq, Repr

structure RawPacket where
  header : PcapPacketHeader
  data : Str
  deriving DecidableEq, Repr

def pcapMagicNative : UInt32 := 0xa1b2c3d4
def pcapMagicSwapped : UInt32 := 0xd4c3b2a1

/-- The structure that 24 bytes of memory hold. -/
def PcapGlobalHeader.ofBytes (bs : Str) : PcapGlobalHeader where
  magicNumber := load32 bs 0
  versionMajor := load16 bs 4
  versionMinor := load16 bs 6
  thiszone := (load32 bs 8).toInt32
  sigfigs := load32 bs 12
  snaplen := load32 bs 16
  network := load32 bs 20

/-- The structure that 16 bytes of memory hold. -/
def PcapPacketHeader.ofBytes (bs : Str) : PcapPacketHeader where
  tsSec := load32 bs 0
  tsUsec := load32 bs 4
  inclLen := load32 bs 8
  origLen := load32 bs 12

/-- An open file is the bytes that are still unread. -/
structure PcapReader where
  file : Str
  globalHeader : PcapGlobalHeader
  needsByteSwap : Bool
  deriving DecidableEq, Repr

/-- `file_.read` of `n` bytes. -/
def readBytes (file : Str) (n : ℕ) : Option (Str × Str) :=
  if n ≤ file.length then some (file.take n, file.drop n) else none

theorem readBytes_eq_some_iff {file bytes rest : Str} {n : ℕ} :
    readBytes file n = some (bytes, rest) ↔ file = bytes ++ rest ∧ bytes.length = n := by
  unfold readBytes
  constructor
  · intro h
    split_ifs at h with hn
    obtain ⟨rfl, rfl⟩ := Prod.mk.inj (Option.some.inj h)
    exact ⟨(List.take_append_drop n file).symm, List.length_take_of_le hn⟩
  · rintro ⟨rfl, rfl⟩
    simp

namespace PcapReader

def maybeSwap16 (needsByteSwap : Bool) (value : UInt16) : UInt16 :=
  if !needsByteSwap then value else swapBytes16 value

def maybeSwap32 (needsByteSwap : Bool) (value : UInt32) : UInt32 :=
  if !needsByteSwap then value else swapBytes32 value

/-- `PcapReader::open` on a file of the given content; `thiszone` and `sigfigs` are never swapped,
and neither is the magic number. -/
def openFile (content : Str) : Option PcapReader := do
  let (bytes, file) ← readBytes content 24
  let globalHeader := PcapGlobalHeader.ofBytes bytes
  if globalHeader.magicNumber = pcapMagicNative then
    return { file, globalHeader, needsByteSwap := false }
  else if globalHeader.magicNumber = pcapMagicSwapped then
    let needsByteSwap := true
    let globalHeader := { globalHeader with
      versionMajor := maybeSwap16 needsByteSwap globalHeader.versionMajor
      versionMinor := maybeSwap16 needsByteSwap globalHeader.versionMinor
      snaplen := maybeSwap32 needsByteSwap globalHeader.snaplen
      network := maybeSwap32 needsByteSwap globalHeader.network }
    return { file, globalHeader, needsByteSwap }
  else none

/-- The packet header as it is stored once it has been read. -/
def swapHeader (needsByteSwap : Bool) (header : PcapPacketHeader) : PcapPacketHeader :=
  if needsByteSwap then
    { tsSec := maybeSwap32 needsByteSwap header.tsSec
      tsUsec := maybeSwap32 needsByteSwap header.tsUsec
      inclLen := maybeSwap32 needsByteSwap header.inclLen
      origLen := maybeSwap32 needsByteSwap header.origLen }
  else header

/-- A packet is lost with its reader when it is cut off or too long: no caller reads on. -/
def readNextPacket (reader : PcapReader) : Option (RawPacket × PcapReader) := do
  let (bytes, file) ← readBytes reader.file 16
  let header := swapHeader reader.needsByteSwap (PcapPacketHeader.ofBytes bytes)
  if header.inclLen > reader.globalHeader.snaplen ∨ header.inclLen > 65535 then none
  else
    let (data, file) ← readBytes file header.inclLen.toNat
    return ({ header, data }, { reader with file })

/-- What one call reads: a header, and as many bytes as it announces within the limits. -/
theorem readNextPacket_eq_some_iff {reader next : PcapReader} {packet : RawPacket} :
    reader.readNextPacket = some (packet, next) ↔
      ∃ bytes : Str, reader.file = bytes ++ (packet.data ++ next.file) ∧ bytes.length = 16 ∧
        packet.header = swapHeader reader.needsByteSwap (PcapPacketHeader.ofBytes bytes) ∧
        packet.header.inclLen ≤ reader.globalHeader.snaplen ∧ packet.header.inclLen ≤ 65535 ∧
        packet.data.length = packet.header.inclLen.toNat ∧
        next = { reader with file := next.file } := by
  simp only [readNextPacket, Option.bind_eq_bind, Option.bind_eq_some_iff, Prod.exists,
    readBytes_eq_some_iff]
  constructor
  · rintro ⟨bytes, file, ⟨hfile, hbytes⟩, h⟩
    split_ifs at h with hlen
    obtain ⟨⟨data, rest⟩, hread, hnext⟩ := Option.bind_eq_some_iff.1 h
    obtain ⟨rfl, hdata⟩ := readBytes_eq_some_iff.1 hread
    obtain ⟨rfl, rfl⟩ := Prod.mk.inj (Option.some.inj hnext)
    obtain ⟨hsnap, hmax⟩ := not_or.1 hlen
    exact ⟨bytes, hfile, hbytes, rfl, UInt32.not_lt.1 hsnap, UInt32.not_lt.1 hmax, hdata, rfl⟩
  · rintro ⟨bytes, hfile, hbytes, hheader, hsnap, hmax, hdata, hnext⟩
    refine ⟨bytes, packet.data ++ next.file, ⟨hfile, hbytes⟩, ?_⟩
    rw [← hheader, if_neg (by simp [hsnap, hmax])]
    refine Option.bind_eq_some_iff.2 ⟨(packet.data, next.file), ?_, ?_⟩
    · exact readBytes_eq_some_iff.2 ⟨rfl, hdata⟩
    · exact congrArg (fun r => some (packet, r)) hnext.symm

theorem readNextPacket_lt {reader next : PcapReader} {packet : RawPacket}
    (h : reader.readNextPacket = some (packet, next)) :
    next.file.length < reader.file.length := by
  obtain ⟨bytes, hfile, hbytes, -⟩ := readNextPacket_eq_some_iff.1 h
  rw [hfile, List.length_append, List.length_append]
  omega

/-- `while (reader.readNextPacket(raw))`. -/
def readAll (reader : PcapReader) : List RawPacket :=
  match _h : reader.readNextPacket with
  | none => []
  | some (packet, next) => packet :: readAll next
termination_by reader.file.length
decreasing_by exact readNextPacket_lt _h

theorem readAll_of_none {reader : PcapReader} (h : reader.readNextPacket = none) :
    reader.readAll = [] := by
  rw [readAll]
  split
  · rfl
  · simp_all

theorem readAll_of_some {reader next : PcapReader} {packet : RawPacket}
    (h : reader.readNextPacket = some (packet, next)) :
    reader.readAll = packet :: next.readAll := by
  rw [readAll]
  split
  · simp_all
  · simp_all

end PcapReader

end PacketAnalyzer
