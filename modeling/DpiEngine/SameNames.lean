import DpiEngine.Conversion
import DpiEngine.ExtractorSafety
import DpiEngine.HttpHost

/-!
# The same packet in both stand-alone programs

Both programs skip the same packets and give a packet the same five-tuple.  `dpi_mt.cpp` looks for
a name in every packet to port 443 or 80, and `main_working.cpp` in the same packets over TCP, where
it finds the same name.
-/

namespace DPI

open Bytes PacketAnalyzer

/-! ## Hosts in short requests -/

namespace HTTPHostExtractor

theorem firstHost_of_length_le {s : Str} (h : s.length ≤ 6) : firstHost s = none := by
  cases s with
  | nil => rfl
  | cons b s =>
    rw [List.length_cons] at h
    rw [firstHost, if_pos (by omega)]

theorem firstHost_cons {b : UInt8} {s : Str} (hb : startsWithHost (b :: s) = false)
    (hs : firstHost s = none) : firstHost (b :: s) = none := by
  rw [firstHost, hb]
  split_ifs with hlen hhost
  · rfl
  · exact absurd hhost.1 (by decide)
  · exact hs

theorem startsWithHost_eq_false {b c : UInt8} {s : Str}
    (h : ¬ (toLowerByte b = 0x68 ∧ toLowerByte c = 0x6f)) :
    startsWithHost (b :: c :: s) = false := by
  by_contra hhost
  rw [Bool.not_eq_false, startsWithHost, text_host, beq_iff_eq] at hhost
  simp only [toLower, List.take_succ_cons, List.map_cons, List.cons.injEq] at hhost
  exact h ⟨hhost.1, hhost.2.1⟩

/-- The name of a method holds no `h` before which a host could start. -/
theorem firstHost_of_method {m : Str} (hm : m ∈ methods) {tail : Str} (h : tail.length ≤ 6) :
    firstHost (m ++ tail) = none := by
  have hall : ∀ m ∈ methods, m.length = 4 ∧ (∀ b ∈ m.drop 1, toLowerByte b ≠ 0x68) ∧
      ¬ (m.take 2).map toLowerByte = [0x68, 0x6f] := by decide +kernel
  obtain ⟨hlen, hrest, hstart⟩ := hall m hm
  obtain ⟨a, b, c, d, rfl⟩ : ∃ a b c d, m = [a, b, c, d] := by
    match m, hlen with
    | [a, b, c, d], _ => exact ⟨a, b, c, d, rfl⟩
  have hne (x y : UInt8) (s : Str) (hx : x ∈ [b, c, d]) : startsWithHost (x :: y :: s) = false :=
    startsWithHost_eq_false fun hxy => hrest x hx hxy.1
  have hlast : startsWithHost (d :: tail) = false := by
    cases tail with
    | nil => simp [startsWithHost, text_host, toLower]
    | cons y s => exact hne d y s (by simp)
  apply firstHost_cons (startsWithHost_eq_false fun hab => hstart ?_)
  · apply firstHost_cons (hne b c _ (by simp))
    apply firstHost_cons (hne c d _ (by simp))
    exact firstHost_cons hlast (firstHost_of_length_le h)
  · simp [hab.1, hab.2]

/-- A request of up to ten bytes has no room for a host behind its method. -/
theorem extract_of_length_le {payload : Str} (h : payload.length ≤ 10) :
    extract payload = .ok none := by
  unfold extract
  obtain ⟨isRequest, hrequest⟩ := defined_isHTTPRequest payload
  rw [hrequest, ok_bind]
  cases isRequest with
  | false => rfl
  | true =>
    have hlen : 4 ≤ payload.length := by
      by_contra hshort
      rw [isHTTPRequest, if_pos (by omega)] at hrequest
      cases hrequest
    rw [isHTTPRequest, if_neg (by omega), readSlice_of_le (by omega), ok_bind,
      List.drop_zero] at hrequest
    obtain ⟨m, hm, hstart⟩ := List.any_eq_true.1 (Except.ok.inj hrequest)
    rw [beq_iff_eq] at hstart
    have htail : (payload.drop 4).length ≤ 6 := by
      rw [List.length_drop]
      omega
    have hfirst := firstHost_of_method hm htail
    rw [← hstart, List.take_append_drop] at hfirst
    exact (findHost_of_tailAt (TailAt.start payload)).trans (congrArg Except.ok hfirst)

end HTTPHostExtractor

/-! ## Names in packets -/

/-- A flow under this tuple counts as DNS after its first packet without a name. -/
def IsDns (t : FiveTuple) : Prop := t.dstPort = 53 ∨ t.srcPort = 53

instance (t : FiveTuple) : Decidable (IsDns t) := inferInstanceAs (Decidable (_ ∨ _))

/-- What the fallback by port makes of other flows without a name. -/
def appOfPort (t : FiveTuple) : AppType :=
  if t.dstPort = 443 then .https else if t.dstPort = 80 then .http else .unknown

/-- No packet is looked into for names of both kinds. -/
theorem port_ne_http {t : FiveTuple} (h : t.dstPort = 443) : t.dstPort ≠ 80 := by
  rw [h]
  decide

/-- What both programs make of a flow without a name. -/
def unnamedApp (t : FiveTuple) : AppType := if IsDns t then .dns else appOfPort t

namespace Mt

/-- The name that `classifyFlow` finds in a packet. -/
def extractName (pkt : Packet) : Checked (Option Str) :=
  if pkt.tuple.dstPort = 443 ∧ pkt.payloadLength > 5 then SNIExtractor.extract pkt.payload
  else if pkt.tuple.dstPort = 80 ∧ pkt.payloadLength > 10 then
    HTTPHostExtractor.extract pkt.payload
  else .ok none

theorem defined_extractName (pkt : Packet) : Defined (extractName pkt) :=
  .ite (fun _ => SNIExtractor.defined_extract _) fun _ =>
    .ite (fun _ => HTTPHostExtractor.defined_extract _) fun _ => defined_ok _

namespace FlowEntry

def named (flow : FlowEntry) (name : Str) : FlowEntry :=
  { flow with sni := name, appType := sniToAppType name, classified := true }

def unnamed (flow : FlowEntry) (t : FiveTuple) : FlowEntry :=
  if IsDns t then { flow with appType := .dns, classified := true }
  else if appOfPort t = .unknown then flow
  else { flow with appType := appOfPort t }

end FlowEntry

/-- `classifyFlow` by the name it finds. -/
theorem classifyFlow_eq (pkt : Packet) (flow : FlowEntry) :
    classifyFlow pkt flow =
      (fun name => name.elim (flow.unnamed pkt.tuple) flow.named) <$> extractName pkt := by
  have hfallback : (if pkt.tuple.dstPort = 53 ∨ pkt.tuple.srcPort = 53 then
      pure { flow with appType := .dns, classified := true }
    else if pkt.tuple.dstPort = 443 then pure { flow with appType := .https }
    else if pkt.tuple.dstPort = 80 then pure { flow with appType := .http }
    else pure flow : Checked FlowEntry) = .ok (flow.unnamed pkt.tuple) := by
    rw [FlowEntry.unnamed]
    by_cases hdns : IsDns pkt.tuple
    · rw [if_pos hdns]
      exact if_pos hdns
    · rw [if_neg hdns]
      refine (if_neg hdns).trans ?_
      unfold appOfPort
      split_ifs <;> first | rfl | contradiction
  unfold classifyFlow extractName
  by_cases htls : pkt.tuple.dstPort = 443 ∧ pkt.payloadLength > 5
  · obtain ⟨name, hname⟩ := SNIExtractor.defined_extract pkt.payload
    have hhttp : ¬ (pkt.tuple.dstPort = 80 ∧ pkt.payloadLength > 10) :=
      fun h => port_ne_http htls.1 h.1
    rw [if_pos htls, if_pos htls, hname]
    cases name with
    | some sni => rfl
    | none => exact (if_neg hhttp).trans hfallback
  · rw [if_neg htls, if_neg htls]
    by_cases hhttp : pkt.tuple.dstPort = 80 ∧ pkt.payloadLength > 10
    · obtain ⟨name, hname⟩ := HTTPHostExtractor.defined_extract pkt.payload
      rw [if_pos hhttp, if_pos hhttp, hname]
      cases name with
      | some host => rfl
      | none => exact hfallback
    · rw [if_neg hhttp, if_neg hhttp]
      exact hfallback

theorem Packet.length_payload (pkt : Packet) : pkt.payload.length = pkt.payloadLength := by
  have h := pkt.payload_wf
  rw [payload, List.length_take, List.length_drop]
  omega

theorem extractName_tls {pkt : Packet} (h : pkt.tuple.dstPort = 443) :
    extractName pkt =
      if pkt.payloadLength > 5 then SNIExtractor.extract pkt.payload else .ok none := by
  have hhttp : ¬ (pkt.tuple.dstPort = 80 ∧ pkt.payloadLength > 10) :=
    fun hx => port_ne_http h hx.1
  rw [extractName, if_neg hhttp]
  simp only [h, true_and]

/-- Shorter packets hold no host. -/
theorem extractName_http {pkt : Packet} (h : pkt.tuple.dstPort = 80) :
    extractName pkt = HTTPHostExtractor.extract pkt.payload := by
  have htls : ¬ (pkt.tuple.dstPort = 443 ∧ pkt.payloadLength > 5) :=
    fun hx => port_ne_http hx.1 h
  rw [extractName, if_neg htls]
  by_cases hlen : pkt.payloadLength > 10
  · rw [if_pos ⟨h, hlen⟩]
  · rw [if_neg fun hx => hlen hx.2, HTTPHostExtractor.extract_of_length_le]
    rw [pkt.length_payload]
    omega

/-- Only packets to the ports of HTTPS and HTTP have names. -/
theorem port_of_extractName {pkt : Packet} {name : Str} (h : extractName pkt = .ok (some name)) :
    pkt.tuple.dstPort = 443 ∨ pkt.tuple.dstPort = 80 := by
  unfold extractName at h
  split_ifs at h with htls hhttp
  · exact Or.inl htls.1
  · exact Or.inr hhttp.1
  · cases h

end Mt

/-! ## One record in both programs -/

/-- The two packets come of one record. -/
structure SamePacket (sp : Simple.Packet) (mp : Mt.Packet) : Prop where
  tuple : sp.tuple = mp.tuple
  srcPort : sp.parsed.srcPort = mp.tuple.srcPort
  destPort : sp.parsed.destPort = mp.tuple.dstPort
  hasTcp : sp.parsed.hasTcp = true ↔ mp.tuple.protocol = 6
  payload : mp.tuple.protocol = 6 →
    Simple.tcpPayload sp.data = .ok (if mp.payloadLength = 0 then none else some mp.payload)

/-- A frame is the same packet in both programs. -/
theorem samePacket_frame (f : Frame) {raw : RawPacket} (hraw : raw.data = f.bytes) (id : UInt32) :
    ∃ sp mp, Simple.accept raw = .ok (some sp) ∧ Mt.acceptPacket raw id = .ok (some mp) ∧
      SamePacket sp mp := by
  obtain ⟨sp, hsp, spTuple, spParsed, spData⟩ := Simple.accept_frame f hraw
  obtain ⟨mp, hmp, mpTuple, mpData, mpOffset, mpLength⟩ := Mt.createPacket_frame f hraw id
  obtain ⟨hsrcPort, hdstPort⟩ := f.parsed_ports raw.header
  have hudp : PacketParser.protocolUDP ≠ 6 := by decide
  refine ⟨sp, mp, hsp, ?_, ?_⟩
  · rw [Mt.acceptPacket, PacketParser.parse_bytes f hraw, ok_bind]
    simp only [kept_frame, hmp]
    rfl
  · have hpayload : mp.payload = f.payload := by
      rw [Mt.Packet.payload, mpData, mpOffset, mpLength, f.drop_headers, List.take_length]
    exact
      { tuple := spTuple.trans mpTuple.symm
        srcPort := by rw [spParsed, mpTuple, hsrcPort]; rfl
        destPort := by rw [spParsed, mpTuple, hdstPort]; rfl
        hasTcp := by
          rw [spParsed, mpTuple, tupleOf, f.protocol]
          rcases ht : f.transport with h | h
          · exact iff_of_true (parsed_of_tcp f raw.header ht).1 rfl
          · exact iff_of_false (by simp [(parsed_of_udp f raw.header ht).1]) hudp
        payload := fun hproto => by
          rw [mpTuple, tupleOf, f.protocol] at hproto
          rcases ht : f.transport with h | h
          · rw [spData, Simple.tcpPayload_frame f ht, hpayload, mpLength]
            simp only [List.length_eq_zero_iff]
          · rw [ht] at hproto
            exact absurd hproto hudp }

/-- Both programs skip the record, or both take it as the same packet. -/
theorem accept_cases (raw : RawPacket) (id : UInt32) :
    (Simple.accept raw = .ok none ∧ Mt.acceptPacket raw id = .ok none) ∨
      ∃ sp mp, Simple.accept raw = .ok (some sp) ∧ Mt.acceptPacket raw id = .ok (some mp) ∧
        SamePacket sp mp := by
  rcases record_cases raw with hparse | ⟨parsed, hparse, hskip⟩ | ⟨f, hraw, -⟩
  · exact Or.inl ⟨by rw [Simple.accept, hparse]; rfl, by rw [Mt.acceptPacket, hparse]; rfl⟩
  · apply Or.inl
    constructor
    · rw [Simple.accept, hparse, ok_bind]
      exact if_pos hskip
    · rw [Mt.acceptPacket, hparse, ok_bind]
      exact if_pos hskip
  · exact Or.inr (samePacket_frame f hraw id)

/-! ## What becomes of a flow -/

namespace Mt

namespace FlowEntry

/-- A flow under `t` after a packet with the given name, or without one. -/
def next (flow : FlowEntry) (t : FiveTuple) (name : Option Str) : FlowEntry :=
  if flow.classified then flow else name.elim (flow.unnamed t) flow.named

def judge (flow : FlowEntry) (rules : Rules) (srcIp : UInt32) : FlowEntry :=
  if flow.blocked then flow
  else { flow with blocked := rules.isBlocked srcIp flow.appType flow.sni }

theorem count_eq (flow : FlowEntry) (pkt : Packet) :
    flow.count pkt = { flow with
      tuple := if flow.packets = 0 then pkt.tuple else flow.tuple
      packets := flow.packets + 1
      bytes := flow.bytes + UInt64.ofNat pkt.data.length } := by
  unfold count
  dsimp only
  split_ifs <;> rfl

theorem judge_eq (flow : FlowEntry) (rules : Rules) (srcIp : UInt32) :
    flow.judge rules srcIp =
      { flow with blocked := flow.blocked || rules.isBlocked srcIp flow.appType flow.sni } := by
  unfold judge
  split_ifs with hblocked
  · rw [hblocked, Bool.true_or, ← hblocked]
  · rw [Bool.eq_false_iff.2 hblocked, Bool.false_or]

theorem receive_eq {pkt : Packet} {name : Option Str} (hname : extractName pkt = .ok name)
    (rules : Rules) (flow : FlowEntry) :
    flow.receive rules pkt =
      .ok (((flow.count pkt).next pkt.tuple name).judge rules pkt.tuple.srcIp) := by
  rw [receive, next, classifyFlow_eq, hname]
  dsimp only
  by_cases hclassified : (flow.count pkt).classified = true
  · rw [if_pos hclassified, if_pos hclassified]
    rfl
  · rw [if_neg hclassified, if_neg hclassified]
    rfl

end FlowEntry

end Mt

namespace Simple

namespace Flow

def named (flow : Flow) (name : Str) : Flow :=
  { flow with sni := name, appType := sniToAppType name }

/-- The tests before the two extractions, for a flow under `t`. -/
def Looks (flow : Flow) (t : FiveTuple) : Prop :=
  t.protocol = 6 ∧ flow.sni = [] ∧
    (t.dstPort = 443 ∧ (flow.appType = .unknown ∨ flow.appType = .https) ∨
      t.dstPort = 80 ∧ (flow.appType = .unknown ∨ flow.appType = .http))

instance (flow : Flow) (t : FiveTuple) : Decidable (flow.Looks t) :=
  inferInstanceAs (Decidable (_ ∧ _))

/-- `classifyByPort` for a flow under `t`. -/
def fallback (flow : Flow) (t : FiveTuple) : Flow :=
  if flow.appType = .unknown then { flow with appType := unnamedApp t } else flow

end Flow

variable {sp : Packet} {mp : Mt.Packet}

theorem extractSni_eq (h : SamePacket sp mp) (flow : Flow) :
    extractSni sp flow =
      if flow.Looks mp.tuple ∧ mp.tuple.dstPort = 443 then
        (fun name => name.elim flow flow.named) <$> Mt.extractName mp
      else .ok flow := by
  have hguard : ((flow.appType = .unknown ∨ flow.appType = .https) ∧ flow.sni.isEmpty ∧
      sp.parsed.hasTcp ∧ sp.parsed.destPort = 443) ↔
      flow.Looks mp.tuple ∧ mp.tuple.dstPort = 443 := by
    rw [h.hasTcp, h.destPort, List.isEmpty_iff, Flow.Looks]
    constructor
    · rintro ⟨happ, hsni, hproto, hport⟩
      exact ⟨⟨hproto, hsni, Or.inl ⟨hport, happ⟩⟩, hport⟩
    · rintro ⟨⟨hproto, hsni, ⟨-, happ⟩ | ⟨hport', -⟩⟩, hport⟩
      · exact ⟨happ, hsni, hproto, hport⟩
      · exact absurd hport' (port_ne_http hport)
  unfold extractSni
  by_cases hg : flow.Looks mp.tuple ∧ mp.tuple.dstPort = 443
  · rw [if_pos hg, if_pos (hguard.2 hg), h.payload hg.1.1, ok_bind, Mt.extractName_tls hg.2]
    by_cases hlen : mp.payloadLength > 5
    · obtain ⟨name, hname⟩ := SNIExtractor.defined_extract mp.payload
      rw [if_neg (by omega), if_pos hlen, hname]
      dsimp only
      rw [mp.length_payload, if_pos hlen, hname]
      cases name <;> rfl
    · rw [if_neg hlen]
      split_ifs
      · rfl
      · dsimp only
        rw [mp.length_payload]
        exact if_neg hlen
  · rw [if_neg hg]
    exact if_neg fun hx => hg (hguard.1 hx)

theorem extractHost_eq (h : SamePacket sp mp) (flow : Flow) :
    extractHost sp flow =
      if flow.Looks mp.tuple ∧ mp.tuple.dstPort = 80 then
        (fun name => name.elim flow flow.named) <$> Mt.extractName mp
      else .ok flow := by
  have hguard : ((flow.appType = .unknown ∨ flow.appType = .http) ∧ flow.sni.isEmpty ∧
      sp.parsed.hasTcp ∧ sp.parsed.destPort = 80) ↔
      flow.Looks mp.tuple ∧ mp.tuple.dstPort = 80 := by
    rw [h.hasTcp, h.destPort, List.isEmpty_iff, Flow.Looks]
    constructor
    · rintro ⟨happ, hsni, hproto, hport⟩
      exact ⟨⟨hproto, hsni, Or.inr ⟨hport, happ⟩⟩, hport⟩
    · rintro ⟨⟨hproto, hsni, ⟨hport', -⟩ | ⟨-, happ⟩⟩, hport⟩
      · exact absurd hport (port_ne_http hport')
      · exact ⟨happ, hsni, hproto, hport⟩
  unfold extractHost
  by_cases hg : flow.Looks mp.tuple ∧ mp.tuple.dstPort = 80
  · rw [if_pos hg, if_pos (hguard.2 hg), h.payload hg.1.1, ok_bind, Mt.extractName_http hg.2]
    by_cases hlen : mp.payloadLength = 0
    · have hnone : HTTPHostExtractor.extract mp.payload = .ok none :=
        HTTPHostExtractor.extract_of_length_le (by rw [mp.length_payload]; omega)
      rw [if_pos hlen, hnone]
      rfl
    · obtain ⟨name, hname⟩ := HTTPHostExtractor.defined_extract mp.payload
      rw [if_neg hlen, hname]
      dsimp only
      rw [hname]
      cases name <;> rfl
  · rw [if_neg hg]
    exact if_neg fun hx => hg (hguard.1 hx)

theorem classifyByPort_eq (h : SamePacket sp mp) (flow : Flow) :
    classifyByPort sp flow = flow.fallback mp.tuple := by
  unfold classifyByPort Flow.fallback unnamedApp IsDns appOfPort
  rw [h.destPort, h.srcPort]
  by_cases happ : flow.appType = .unknown
  · by_cases hdns : mp.tuple.dstPort = 53 ∨ mp.tuple.srcPort = 53
    · simp [happ, hdns]
    · simp only [happ, hdns, and_false, if_false, if_true]
      split_ifs <;> first | rfl | rw [← happ]
  · simp [happ]

namespace Flow

/-- A flow under `t` after a packet with the given name, or without one. -/
def next (flow : Flow) (t : FiveTuple) (name : Option Str) : Flow :=
  (if flow.Looks t then name.elim flow flow.named else flow).fallback t

def judge (flow : Flow) (rules : BlockingRules) (srcIp : UInt32) : Flow :=
  if flow.blocked then flow
  else { flow with blocked := rules.isBlocked srcIp flow.appType flow.sni }

theorem blocked_next (flow : Flow) (t : FiveTuple) (name : Option Str) :
    (flow.next t name).blocked = flow.blocked := by
  unfold next fallback
  cases name <;> split_ifs <;> rfl

theorem count_eq (flow : Flow) (pkt : Packet) :
    flow.count pkt = { flow with
      tuple := if flow.packets = 0 then pkt.tuple else flow.tuple
      packets := flow.packets + 1
      bytes := flow.bytes + UInt64.ofNat pkt.data.length } := by
  unfold count
  dsimp only
  split_ifs <;> rfl

theorem judge_eq (flow : Flow) (rules : BlockingRules) (srcIp : UInt32) :
    flow.judge rules srcIp =
      { flow with blocked := flow.blocked || rules.isBlocked srcIp flow.appType flow.sni } := by
  unfold judge
  split_ifs with hblocked
  · rw [hblocked, Bool.true_or, ← hblocked]
  · rw [Bool.eq_false_iff.2 hblocked, Bool.false_or]

theorem receive_eq (h : SamePacket sp mp) {name : Option Str}
    (hname : Mt.extractName mp = .ok name) (rules : BlockingRules) (flow : Flow) :
    flow.receive rules sp =
      .ok (((flow.count sp).next mp.tuple name).judge rules mp.tuple.srcIp) := by
  have hextract (f : Flow) : (extractSni sp f >>= extractHost sp) =
      .ok (if f.Looks mp.tuple then name.elim f f.named else f) := by
    by_cases hlooks : f.Looks mp.tuple
    · rw [if_pos hlooks, extractSni_eq h, hname]
      rcases hlooks.2.2 with ⟨hport, -⟩ | ⟨hport, -⟩
      · rw [if_pos ⟨hlooks, hport⟩]
        exact (extractHost_eq h _).trans (if_neg fun hx => port_ne_http hport hx.2)
      · rw [if_neg fun hx => port_ne_http hx.2 hport, ok_bind, extractHost_eq h,
          if_pos ⟨hlooks, hport⟩, hname]
        rfl
    · rw [if_neg hlooks, extractSni_eq h, if_neg fun hx => hlooks hx.1, ok_bind, extractHost_eq h,
        if_neg fun hx => hlooks hx.1]
  have hbind : flow.receive rules sp = (extractSni sp (flow.count sp) >>= extractHost sp) >>=
      fun f => .ok ((classifyByPort sp f).judge rules sp.tuple.srcIp) := by
    rw [receive, bind_assoc]
    rfl
  rw [hbind, hextract, ok_bind, classifyByPort_eq h, h.tuple]
  rfl

end Flow

end Simple

end DPI
