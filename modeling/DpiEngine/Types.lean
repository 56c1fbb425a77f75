import DpiEngine.Lib.Bytes

/-!
# Core types

Five-tuples and their hash, application types and their classification by host name, connection
entries and packet jobs (`types.h`, `types.cpp`).  Strings are byte strings, `size_t` offsets into
a packet are natural numbers, and counters keep their width.
-/

namespace DPI

open Bytes

/-- The bytes of an ASCII literal. -/
def text (s : String) : Str := s.toList.map Char.toUInt8

/-! ## Five-tuples -/

/-- A directed flow; TCP is protocol 6 and UDP is protocol 17. -/
structure FiveTuple where
  srcIp : UInt32
  dstIp : UInt32
  srcPort : UInt16
  dstPort : UInt16
  protocol : UInt8
  deriving DecidableEq, Repr

namespace FiveTuple

def reverse (t : FiveTuple) : FiveTuple :=
  { srcIp := t.dstIp, dstIp := t.srcIp, srcPort := t.dstPort, dstPort := t.srcPort,
    protocol := t.protocol }

@[simp] theorem reverse_reverse (t : FiveTuple) : t.reverse.reverse = t := rfl

/-- The endpoints are out of order: the test that both `FiveTupleHash` and `canonicalTuple` make
before they swap them. -/
def Descending (t : FiveTuple) : Prop :=
  t.dstIp < t.srcIp ∨ t.srcIp = t.dstIp ∧ t.dstPort < t.srcPort

instance (t : FiveTuple) : Decidable t.Descending := inferInstanceAs (Decidable (_ ∨ _))

end FiveTuple

/-- One round of the hash.  `std::hash` of an unsigned integer is its value. -/
def hashCombine (h x : UInt64) : UInt64 :=
  h ^^^ (x + 0x9e3779b9 + (h <<< (6 : UInt64)) + (h >>> (2 : UInt64)))

/-- `FiveTupleHash::operator()`: the endpoints are ordered before they are hashed. -/
def fiveTupleHash (t : FiveTuple) : UInt64 :=
  let e := if t.Descending then t.reverse else t
  let h := hashCombine 0 e.srcIp.toUInt64
  let h := hashCombine h e.dstIp.toUInt64
  let h := hashCombine h e.srcPort.toUInt64
  let h := hashCombine h e.dstPort.toUInt64
  hashCombine h e.protocol.toUInt64

/-! ## Application types -/

/-- `AppType`; the enumerator `APP_COUNT` only counts the others. -/
inductive AppType where
  | unknown | http | https | dns | tls | quic
  | google | facebook | youtube | twitter | instagram | netflix | amazon | microsoft | apple
  | whatsapp | telegram | tiktok | spotify | zoom | discord | github | cloudflare
  deriving DecidableEq, Repr

def appTypeToString : AppType → Str
  | .unknown => text "Unknown"
  | .http => text "HTTP"
  | .https => text "HTTPS"
  | .dns => text "DNS"
  | .tls => text "TLS"
  | .quic => text "QUIC"
  | .google => text "Google"
  | .facebook => text "Facebook"
  | .youtube => text "YouTube"
  | .twitter => text "Twitter/X"
  | .instagram => text "Instagram"
  | .netflix => text "Netflix"
  | .amazon => text "Amazon"
  | .microsoft => text "Microsoft"
  | .apple => text "Apple"
  | .whatsapp => text "WhatsApp"
  | .telegram => text "Telegram"
  | .tiktok => text "TikTok"
  | .spotify => text "Spotify"
  | .zoom => text "Zoom"
  | .discord => text "Discord"
  | .github => text "GitHub"
  | .cloudflare => text "Cloudflare"

/-- `std::tolower` in the C locale. -/
def toLowerByte (c : UInt8) : UInt8 := if 0x41 ≤ c ∧ c ≤ 0x5a then c + 0x20 else c

def toLower (s : Str) : Str := s.map toLowerByte

/-- `s.find(pattern) != npos`. -/
def contains (s pattern : Str) : Bool := decide (pattern <:+: s)

/-- The substrings that `sniToAppType` looks for, in the order in which it looks for them. -/
def appPatterns : List (AppType × List String) :=
  [(.google, ["google", "gstatic", "googleapis", "ggpht", "gvt1"]),
    (.youtube, ["youtube", "ytimg", "youtu.be", "yt3.ggpht"]),
    (.facebook, ["facebook", "fbcdn", "fb.com", "fbsbx", "meta.com"]),
    (.instagram, ["instagram", "cdninstagram"]),
    (.whatsapp, ["whatsapp", "wa.me"]),
    (.twitter, ["twitter", "twimg", "x.com", "t.co"]),
    (.netflix, ["netflix", "nflxvideo", "nflximg"]),
    (.amazon, ["amazon", "amazonaws", "cloudfront", "aws"]),
    (.microsoft, ["microsoft", "msn.com", "office", "azure", "live.com", "outlook", "bing"]),
    (.apple, ["apple", "icloud", "mzstatic", "itunes"]),
    (.telegram, ["telegram", "t.me"]),
    (.tiktok, ["tiktok", "tiktokcdn", "musical.ly", "bytedance"]),
    (.spotify, ["spotify", "scdn.co"]),
    (.zoom, ["zoom"]),
    (.discord, ["discord", "discordapp"]),
    (.github, ["github", "githubusercontent"]),
    (.cloudflare, ["cloudflare", "cf-"])]

/-- The application a host name stands for; a name that matches no pattern is still HTTPS. -/
def sniToAppType (sni : Str) : AppType :=
  if sni.isEmpty then .unknown
  else
    let lowerSni := toLower sni
    match appPatterns.find? (fun row => row.2.any fun p => contains lowerSni (text p)) with
    | some row => row.1
    | none => .https

/-! ## Connections and packets -/

inductive ConnectionState where
  | new | established | classified | blocked | closed
  deriving DecidableEq, Repr

inductive PacketAction where
  | forward | drop | inspect | logOnly
  deriving DecidableEq, Repr

/-- Readings of `steady_clock`, in nanoseconds. -/
abbrev Time := ℕ

/-- A tracked flow; `tuple` is the tuple of the packet that created the entry. -/
structure Connection where
  tuple : FiveTuple
  state : ConnectionState := .new
  appType : AppType := .unknown
  sni : Str := []
  packetsIn : UInt64 := 0
  packetsOut : UInt64 := 0
  bytesIn : UInt64 := 0
  bytesOut : UInt64 := 0
  firstSeen : Time
  lastSeen : Time
  action : PacketAction := .forward
  synSeen : Bool := false
  synAckSeen : Bool := false
  finSeen : Bool := false
  deriving DecidableEq, Repr

/-- A packet on its way through the queues.  A job with a payload has it at the end of its data. -/
structure PacketJob where
  packetId : UInt32 := 0
  tuple : FiveTuple
  data : Str
  ethOffset : ℕ := 0
  ipOffset : ℕ := 0
  transportOffset : ℕ := 0
  payloadOffset : ℕ := 0
  payloadLength : ℕ := 0
  tcpFlags : UInt8 := 0
  tsSec : UInt32 := 0
  tsUsec : UInt32 := 0
  payload_wf : payloadLength ≠ 0 → payloadOffset + payloadLength = data.length
  deriving DecidableEq, Repr

/-- The bytes that the extractors are given. -/
def PacketJob.payload (job : PacketJob) : Str :=
  (job.data.drop job.payloadOffset).take job.payloadLength

end DPI
