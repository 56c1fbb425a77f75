import DpiEngine.Types

/-!
# Payload extractors

The extractors of `sni_extractor.cpp`.  Every access to the
payload goes through `readByte` or `readSlice`, so a read outside the payload shows as a fault; the
loops run on the offset that the source advances.
-/

namespace DPI

open Bytes

/-- `readUint16BE(payload + offset)`. -/
def readUint16BE (payload : Str) (offset : ℕ) : Checked UInt16 := do
  let hi ← readByte payload offset
  let lo ← readByte payload (offset + 1)
  return (hi.toUInt16 <<< 8) ||| lo.toUInt16

/-- `readUint24BE(payload + offset)`. -/
def readUint24BE (payload : Str) (offset : ℕ) : Checked UInt32 := do
  let hi ← readByte payload offset
  let mid ← readByte payload (offset + 1)
  let lo ← readByte payload (offset + 2)
  return (hi.toUInt32 <<< 16) ||| (mid.toUInt32 <<< 8) ||| lo.toUInt32

theorem readUint16BE_of_tailAt {payload rest : Str} {offset n : ℕ} (hn : n < 65536)
    (h : TailAt payload offset (beBytes 2 n ++ rest)) :
    readUint16BE payload offset = .ok (UInt16.ofNat n) := by
  change TailAt payload offset (UInt8.ofNat (n / 256) :: UInt8.ofNat n :: rest) at h
  rw [readUint16BE, h.readByte, h.tail.readByte]
  refine congrArg Except.ok (UInt16.toNat_inj.mp ?_)
  have hhi : (UInt8.toUInt16 (UInt8.ofNat (n / 256)) <<< 8).toNat = n / 256 * 2 ^ 8 := by
    simp [Nat.shiftLeft_eq]
    omega
  rw [UInt16.toNat_or, hhi, Nat.or_comm, UInt8.toNat_toUInt16, UInt8.toNat_ofNat',
    or_eq_add (Nat.mod_lt n (by norm_num)) (Dvd.intro_left _ rfl), UInt16.toNat_ofNat_of_lt' hn]
  omega

theorem readUint16BE_word {payload rest : Str} {offset : ℕ} (v : UInt16)
    (h : TailAt payload offset (beBytes 2 v.toNat ++ rest)) :
    readUint16BE payload offset = .ok v := by
  rw [readUint16BE_of_tailAt v.toNat_lt h, UInt16.ofNat_toNat]

theorem readUint24BE_of_tailAt {payload rest : Str} {offset n : ℕ} (hn : n < 16777216)
    (h : TailAt payload offset (beBytes 3 n ++ rest)) :
    readUint24BE payload offset = .ok (UInt32.ofNat n) := by
  change TailAt payload offset
    (UInt8.ofNat (n / 256 / 256) :: UInt8.ofNat (n / 256) :: UInt8.ofNat n :: rest) at h
  rw [readUint24BE, h.readByte, h.tail.readByte, h.tail.tail.readByte]
  refine congrArg Except.ok (UInt32.toNat_inj.mp ?_)
  have hhi : (UInt8.toUInt32 (UInt8.ofNat (n / 256 / 256)) <<< 16).toNat =
      n / 256 / 256 * 2 ^ 16 := by
    simp [Nat.shiftLeft_eq]
    omega
  have hmid : (UInt8.toUInt32 (UInt8.ofNat (n / 256)) <<< 8).toNat = n / 256 % 256 * 2 ^ 8 := by
    simp [Nat.shiftLeft_eq]
    omega
  rw [UInt32.toNat_or, UInt32.toNat_or, hhi, hmid, UInt8.toNat_toUInt32, UInt8.toNat_ofNat',
    Nat.or_comm (n / 256 / 256 * 2 ^ 16), or_eq_add (i := 16) (by omega) (Dvd.intro_left _ rfl),
    Nat.or_comm, or_eq_add (i := 8) (by omega) (by omega),
    UInt32.toNat_ofNat_of_lt' (hn.trans (by decide))]
  omega

/-! ## TLS server names -/

namespace SNIExtractor

def contentTypeHandshake : UInt8 := 0x16
def handshakeClientHello : UInt8 := 0x01
def extensionSni : UInt16 := 0x0000
def sniTypeHostname : UInt8 := 0x00

def isTLSClientHello (payload : Str) : Checked Bool := do
  let length := payload.length
  if length < 9 then return false
  if (← readByte payload 0) ≠ contentTypeHandshake then return false
  let version ← readUint16BE payload 1
  if version < 0x0300 ∨ version > 0x0304 then return false
  let recordLength ← readUint16BE payload 3
  if recordLength.toNat > length - 5 then return false
  if (← readByte payload 5) ≠ handshakeClientHello then return false
  return true

/-- The body of the branch for the server name extension; every `break` leaves the loop without a
name. -/
def readServerName (payload : Str) (offset : ℕ) (extensionLength : UInt16) :
    Checked (Option Str) := do
  if extensionLength.toNat < 5 then return none
  let sniListLength ← readUint16BE payload offset
  if sniListLength.toNat < 3 then return none
  let sniType ← readByte payload (offset + 2)
  let sniLength ← readUint16BE payload (offset + 3)
  if sniType ≠ sniTypeHostname then return none
  if sniLength.toNat > extensionLength.toNat - 5 then return none
  let sni ← readSlice payload (offset + 5) sniLength.toNat
  return some sni

/-- The loop over the extensions. -/
def findServerName (payload : Str) (extensionsEnd offset : ℕ) : Checked (Option Str) :=
  if offset + 4 ≤ extensionsEnd then do
    let extensionType ← readUint16BE payload offset
    let extensionLength ← readUint16BE payload (offset + 2)
    let offset := offset + 4
    if offset + extensionLength.toNat > extensionsEnd then return none
    if extensionType = extensionSni then
      readServerName payload offset extensionLength
    else
      findServerName payload extensionsEnd (offset + extensionLength.toNat)
  else return none
termination_by extensionsEnd - offset

def extract (payload : Str) : Checked (Option Str) := do
  let length := payload.length
  if !(← isTLSClientHello payload) then return none
  let offset := 5
  let _handshakeLength ← readUint24BE payload (offset + 1)
  let offset := offset + 4 + 2 + 32
  if offset ≥ length then return none
  let sessionIdLength ← readByte payload offset
  let offset := offset + 1 + sessionIdLength.toNat
  if offset + 2 > length then return none
  let cipherSuitesLength ← readUint16BE payload offset
  let offset := offset + 2 + cipherSuitesLength.toNat
  if offset ≥ length then return none
  let compressionMethodsLength ← readByte payload offset
  let offset := offset + 1 + compressionMethodsLength.toNat
  if offset + 2 > length then return none
  let extensionsLength ← readUint16BE payload offset
  let offset := offset + 2
  let extensionsEnd := min (offset + extensionsLength.toNat) length
  findServerName payload extensionsEnd offset

end SNIExtractor

/-! ## HTTP hosts -/

namespace HTTPHostExtractor

/-- The first four bytes of the recognised methods. -/
def methods : List Str := ["GET ", "POST", "PUT ", "HEAD", "DELE", "PATC", "OPTI"].map text

def isHTTPRequest (payload : Str) : Checked Bool := do
  if payload.length < 4 then return false
  let start ← readSlice payload 0 4
  return methods.any fun method => start == method

/-- The five comparisons against `host:` at byte `i`, the colon last. -/
def isHostAt (payload : Str) (i : ℕ) : Checked Bool := do
  let b ← readByte payload i
  if !(b == 0x48 || b == 0x68) then return false
  let b ← readByte payload (i + 1)
  if !(b == 0x6f || b == 0x4f) then return false
  let b ← readByte payload (i + 2)
  if !(b == 0x73 || b == 0x53) then return false
  let b ← readByte payload (i + 3)
  if !(b == 0x74 || b == 0x54) then return false
  let b ← readByte payload (i + 4)
  return b == 0x3a

def isBlank (b : UInt8) : Bool := b == 0x20 || b == 0x09

def isLineEnd (b : UInt8) : Bool := b == 0x0d || b == 0x0a

/-- `while (i < length && p(payload[i])) i++`. -/
def skipWhile (p : UInt8 → Bool) (payload : Str) (i : ℕ) : Checked ℕ :=
  if i < payload.length then do
    if p (← readByte payload i) then skipWhile p payload (i + 1) else return i
  else return i
termination_by payload.length - i

/-- The loop over the byte positions of the request. -/
def findHost (payload : Str) (i : ℕ) : Checked (Option Str) :=
  if i + 6 < payload.length then do
    if ← isHostAt payload i then
      let start ← skipWhile isBlank payload (i + 5)
      let stop ← skipWhile (fun b => !isLineEnd b) payload start
      if stop > start then
        let host ← readSlice payload start (stop - start)
        return some (host.takeWhile fun b => b != 0x3a)
      else findHost payload (i + 1)
    else findHost payload (i + 1)
  else return none
termination_by payload.length - i

def extract (payload : Str) : Checked (Option Str) := do
  if !(← isHTTPRequest payload) then return none
  findHost payload 0

end HTTPHostExtractor

/-! ## DNS queries -/

namespace DNSExtractor

def isDNSQuery (payload : Str) : Checked Bool := do
  if payload.length < 12 then return false
  let flags ← readByte payload 2
  if flags &&& 0x80 ≠ 0 then return false
  let qdcount ← readUint16BE payload 4
  if qdcount = 0 then return false
  return true

/-- The loop over the labels; it ends at a zero byte, at a length over 63 or at a cut-off label. -/
def readLabels (payload : Str) (offset : ℕ) (domain : Str) : Checked Str :=
  if offset < payload.length then do
    let labelLength ← readByte payload offset
    if labelLength = 0 then return domain
    if labelLength > 63 then return domain
    let offset := offset + 1
    if offset + labelLength.toNat > payload.length then return domain
    let label ← readSlice payload offset labelLength.toNat
    let domain := if domain.isEmpty then domain else domain ++ text "."
    readLabels payload (offset + labelLength.toNat) (domain ++ label)
  else return domain
termination_by payload.length - offset

def extractQuery (payload : Str) : Checked (Option Str) := do
  if !(← isDNSQuery payload) then return none
  let domain ← readLabels payload 12 []
  return if domain.isEmpty then none else some domain

end DNSExtractor

/-! ## QUIC -/

namespace QUICSNIExtractor

def isQUICInitial (payload : Str) : Checked Bool := do
  if payload.length < 5 then return false
  let firstByte ← readByte payload 0
  if firstByte &&& 0x80 = 0 then return false
  return true

/-- The `n` bytes from `payload + start` on, which are handed to the other extractor.  It reads the
first of any nine bytes and more, so a slice that starts before the payload is a fault. -/
def slice (payload : Str) (start : ℤ) (n : ℕ) : Checked Str :=
  if 0 ≤ start then readSlice payload start.toNat n else .error .outOfBounds

/-- The loop over the positions of the handshake type. -/
def findClientHello (payload : Str) (i : ℕ) : Checked (Option Str) :=
  if i + 50 < payload.length then do
    if (← readByte payload i) = 0x01 then
      let inner ← slice payload ((i : ℤ) - 5) (payload.length - i + 5)
      if let some sni ← SNIExtractor.extract inner then return some sni
    findClientHello payload (i + 1)
  else return none
termination_by payload.length - i

def extract (payload : Str) : Checked (Option Str) := do
  if !(← isQUICInitial payload) then return none
  findClientHello payload 0

end QUICSNIExtractor

/-- A request for a host. -/
def requestText (host : String) : Str := text ("GET / HTTP/1.1\r\nHost: " ++ host ++ "\r\n\r\n")

end DPI
