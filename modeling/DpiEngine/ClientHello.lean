import DpiEngine.SniLayout

/-!
# ClientHello messages

A ClientHello in one TLS record, laid out as in `sni_extractor.h`, with arbitrary fields that fit
their length bytes.  `SNIExtractor::extract` undoes the encoding: it finds the server name behind
any fields and any other extensions, whatever follows the record.
-/

namespace DPI

open Bytes

/-! ## Messages -/

/-- One extension; its data fits the two length bytes. -/
structure Extension where
  type : UInt16
  data : Str
  fits : data.length < 65536

def Extension.bytes (e : Extension) : Str :=
  beBytes 2 e.type.toNat ++ beBytes 2 e.data.length ++ e.data

theorem Extension.length_bytes (e : Extension) : e.bytes.length = 4 + e.data.length := by
  simp only [bytes, List.length_append, length_beBytes]

/-- The data of a server name extension whose list is one host name. -/
def serverNameData (name : Str) : Str :=
  beBytes 2 (3 + name.length) ++ [SNIExtractor.sniTypeHostname] ++ beBytes 2 name.length ++ name

/-- The fields of a ClientHello and of the record around it.  The message fits its record, so the
lengths that take two or three bytes fit as well. -/
structure ClientHello where
  recordVersion : UInt16
  clientVersion : UInt16
  random : Str
  sessionId : Str
  cipherSuites : Str
  compressionMethods : Str
  extensions : List Extension
  recordVersion_range : 0x0300 ≤ recordVersion ∧ recordVersion ≤ 0x0304
  random_length : random.length = 32
  sessionId_fits : sessionId.length < 256
  compressionMethods_fits : compressionMethods.length < 256
  record_fits : 44 + sessionId.length + cipherSuites.length + compressionMethods.length +
    (extensions.flatMap Extension.bytes).length < 65536

namespace ClientHello

variable (hello : ClientHello)

def extensionBytes : Str := hello.extensions.flatMap Extension.bytes

/-- The body of the handshake message. -/
def body : Str :=
  beBytes 2 hello.clientVersion.toNat ++ hello.random ++
    UInt8.ofNat hello.sessionId.length :: hello.sessionId ++
    beBytes 2 hello.cipherSuites.length ++ hello.cipherSuites ++
    UInt8.ofNat hello.compressionMethods.length :: hello.compressionMethods ++
    beBytes 2 hello.extensionBytes.length ++ hello.extensionBytes

def handshake : Str :=
  SNIExtractor.handshakeClientHello :: beBytes 3 hello.body.length ++ hello.body

/-- The TLS record that holds the message. -/
def record : Str :=
  SNIExtractor.contentTypeHandshake :: beBytes 2 hello.recordVersion.toNat ++
    beBytes 2 hello.handshake.length ++ hello.handshake

/-- The offset of the first extension. -/
def extensionsStart : ℕ :=
  49 + hello.sessionId.length + hello.cipherSuites.length + hello.compressionMethods.length

/-- The lengths that the message declares. -/
def layout : SNIExtractor.Layout where
  recordLength := UInt16.ofNat hello.handshake.length
  handshakeLength := UInt32.ofNat hello.body.length
  sessionIdLength := UInt8.ofNat hello.sessionId.length
  cipherSuitesLength := UInt16.ofNat hello.cipherSuites.length
  compressionMethodsLength := UInt8.ofNat hello.compressionMethods.length
  extensionsLength := UInt16.ofNat hello.extensionBytes.length

theorem length_body : hello.body.length = 40 + hello.sessionId.length + hello.cipherSuites.length +
    hello.compressionMethods.length + hello.extensionBytes.length := by
  simp only [body, List.length_append, List.length_cons, length_beBytes, hello.random_length]
  omega

theorem length_handshake : hello.handshake.length = 4 + hello.body.length := by
  simp only [handshake, List.length_append, List.length_cons, length_beBytes]

theorem length_record : hello.record.length = 5 + hello.handshake.length := by
  simp only [record, List.length_append, List.length_cons, length_beBytes]

theorem body_fits : hello.body.length < 65536 - 4 := by
  have h := hello.record_fits
  rw [hello.length_body, extensionBytes]
  omega

theorem handshake_fits : hello.handshake.length < 65536 := by
  have h := hello.body_fits
  rw [hello.length_handshake]
  omega

/-- The version of the record passes the check of `isTLSClientHello`. -/
theorem recordVersion_accepted :
    ¬ (hello.recordVersion < 0x0300 ∨ hello.recordVersion > 0x0304) := by
  have := hello.recordVersion_range
  rw [not_or, UInt16.not_lt, gt_iff_lt, UInt16.not_lt]
  exact this

/-! ## Where the lengths stand -/

theorem layout_cipherSuites : hello.layout.cipherSuites = 44 + hello.sessionId.length := by
  rw [SNIExtractor.Layout.cipherSuites, layout, UInt8.toNat_ofNat_of_lt' hello.sessionId_fits]

theorem layout_compressionMethods : hello.layout.compressionMethods =
    46 + hello.sessionId.length + hello.cipherSuites.length := by
  have h := hello.body_fits
  rw [hello.length_body] at h
  rw [SNIExtractor.Layout.compressionMethods, layout_cipherSuites, layout,
    UInt16.toNat_ofNat_of_lt' (by rw [UInt16.size]; omega)]
  omega

theorem layout_extensions : hello.layout.extensions =
    47 + hello.sessionId.length + hello.cipherSuites.length + hello.compressionMethods.length := by
  rw [SNIExtractor.Layout.extensions, layout_compressionMethods, layout,
    UInt8.toNat_ofNat_of_lt' hello.compressionMethods_fits]
  omega

theorem layout_firstExtension : hello.layout.firstExtension = hello.extensionsStart := by
  rw [SNIExtractor.Layout.firstExtension, layout_extensions, extensionsStart]
  omega

theorem layout_extensionsEnd :
    hello.layout.extensionsEnd = hello.extensionsStart + hello.extensionBytes.length := by
  have h := hello.body_fits
  rw [hello.length_body] at h
  rw [SNIExtractor.Layout.extensionsEnd, layout_firstExtension, layout,
    UInt16.toNat_ofNat_of_lt' (by rw [UInt16.size]; omega)]

end ClientHello

namespace SNIExtractor

variable {payload rest : Str} {hello : ClientHello}

/-! ## The way to the extensions -/

theorem length_of_eq_record (hp : payload = hello.record ++ rest) :
    payload.length = 49 + hello.sessionId.length + hello.cipherSuites.length +
      hello.compressionMethods.length + hello.extensionBytes.length + rest.length := by
  rw [hp, List.length_append, hello.length_record, hello.length_handshake, hello.length_body]
  omega

theorem tailAt_record (hp : payload = hello.record ++ rest) :
    TailAt payload 0 (contentTypeHandshake ::
      (beBytes 2 hello.recordVersion.toNat ++ (beBytes 2 hello.handshake.length ++
        handshakeClientHello :: (beBytes 3 hello.body.length ++ (hello.body ++ rest))))) := by
  have h := TailAt.start payload
  nth_rewrite 2 [hp] at h
  simpa [ClientHello.record, ClientHello.handshake] using h

/-- From the length of the session identifier on. -/
theorem tailAt_sessionId (hp : payload = hello.record ++ rest) :
    TailAt payload 43 (UInt8.ofNat hello.sessionId.length :: (hello.sessionId ++
      (beBytes 2 hello.cipherSuites.length ++ (hello.cipherSuites ++
        (UInt8.ofNat hello.compressionMethods.length :: (hello.compressionMethods ++
          (beBytes 2 hello.extensionBytes.length ++ (hello.extensionBytes ++ rest)))))))) := by
  have h5 := ((tailAt_record hp).tail.append (n := 3) (by simp)).append (n := 5) (by simp)
  have h9 := h5.tail.append (n := 9) (by simp)
  simp only [ClientHello.body, List.append_assoc, List.cons_append] at h9
  exact (h9.append (n := 11) (by simp)).append (by rw [hello.random_length])

theorem isTLSClientHello_record (hp : payload = hello.record ++ rest) :
    isTLSClientHello payload = .ok true := by
  have hlen := length_of_eq_record hp
  have hfits := hello.handshake_fits
  have hlen' : payload.length = 5 + hello.handshake.length + rest.length := by
    rw [hp, List.length_append, hello.length_record]
  have h0 := tailAt_record hp
  have h3 := h0.tail.append (n := 3) (by simp)
  have h5 := h3.append (n := 5) (by simp)
  rw [isTLSClientHello, if_neg (by omega), h0.readByte, ok_bind, if_neg (by simp),
    readUint16BE_word hello.recordVersion h0.tail, ok_bind, if_neg hello.recordVersion_accepted,
    readUint16BE_of_tailAt hfits h3, ok_bind, UInt16.toNat_ofNat_of_lt' hfits, if_neg (by omega),
    h5.readByte, ok_bind, if_neg (by simp)]
  rfl

theorem tailAt_extensions (hp : payload = hello.record ++ rest) :
    TailAt payload hello.extensionsStart (hello.extensionBytes ++ rest) := by
  have h44 := (tailAt_sessionId hp).tail.append (n := 44 + hello.sessionId.length) rfl
  have h46 := (h44.append (n := 46 + hello.sessionId.length) (by simp; omega)).append rfl
  exact (h46.tail.append rfl).append (by simp [ClientHello.extensionsStart]; omega)

theorem layout_record (hp : payload = hello.record ++ rest) : hello.layout.Of payload := by
  have hbody := hello.body_fits
  have hlen := hello.length_body
  have h3 := (tailAt_record hp).tail.append (n := 3) (by simp)
  have h6 := (h3.append (n := 5) (by simp)).tail
  have h43 := tailAt_sessionId hp
  have h44 := h43.tail.append (n := 44 + hello.sessionId.length) rfl
  have h46 := (h44.append (n := 46 + hello.sessionId.length) (by simp; omega)).append
    (n := 46 + hello.sessionId.length + hello.cipherSuites.length) rfl
  have h47 := h46.tail.append (n := 47 + hello.sessionId.length + hello.cipherSuites.length +
    hello.compressionMethods.length) (by omega)
  refine ⟨?_, ?_, h43.readByte, ?_, ?_, ?_⟩
  · exact readUint16BE_of_tailAt hello.handshake_fits h3
  · exact readUint24BE_of_tailAt (by omega) h6
  · rw [hello.layout_cipherSuites]
    exact readUint16BE_of_tailAt (by omega) h44
  · rw [hello.layout_compressionMethods]
    exact h46.readByte
  · rw [hello.layout_extensions]
    exact readUint16BE_of_tailAt (by omega) h47

/-- Everything before the extensions is skipped, and their block lies in the payload. -/
theorem extract_record (hp : payload = hello.record ++ rest) :
    extract payload =
      findServerName payload (hello.extensionsStart + hello.extensionBytes.length)
        hello.extensionsStart := by
  have hlen := (tailAt_extensions hp).1
  rw [List.length_append] at hlen
  rw [extract_of_layout (layout_record hp) (isTLSClientHello_record hp),
    hello.layout_firstExtension, hello.layout_extensionsEnd, min_eq_left (by omega)]

/-! ## The loop over the extensions -/

variable {exts : List Extension} {offset : ℕ}

/-- An extension of another type is skipped. -/
theorem findServerName_skip {e : Extension} {tail : Str} {stop : ℕ}
    (h : TailAt payload offset (e.bytes ++ tail)) (htype : e.type ≠ extensionSni)
    (hstop : offset + e.bytes.length ≤ stop) :
    findServerName payload stop offset =
      findServerName payload stop (offset + e.bytes.length) := by
  have hlen := e.length_bytes
  simp only [Extension.bytes, List.append_assoc] at h
  have hty := readUint16BE_word e.type h
  have hlength := readUint16BE_of_tailAt e.fits (h.append (n := offset + 2) (by simp))
  conv_lhs => unfold findServerName
  rw [if_pos (by omega), hty, ok_bind, hlength, ok_bind, UInt16.toNat_ofNat_of_lt' e.fits,
    if_neg (by omega), if_neg htype]
  congr 1
  omega

theorem findServerName_none (h : TailAt payload offset (exts.flatMap Extension.bytes ++ rest))
    (hexts : ∀ e ∈ exts, e.type ≠ extensionSni) :
    findServerName payload (offset + (exts.flatMap Extension.bytes).length) offset = .ok none := by
  induction exts generalizing offset with
  | nil =>
    unfold findServerName
    exact if_neg (by simp)
  | cons e exts ih =>
    rw [List.flatMap_cons, List.append_assoc] at h
    rw [List.flatMap_cons, List.length_append, findServerName_skip h
      (hexts e List.mem_cons_self) (by omega), ← Nat.add_assoc]
    exact ih (h.append rfl) fun e' hext => hexts e' (List.mem_cons_of_mem _ hext)

/-- A server name extension that fits the block gives its name. -/
theorem findServerName_here {e : Extension} {tail name : Str} {stop : ℕ}
    (h : TailAt payload offset (e.bytes ++ tail)) (htype : e.type = extensionSni)
    (hdata : e.data = serverNameData name) (hstop : offset + e.bytes.length ≤ stop) :
    findServerName payload stop offset = .ok (some name) := by
  have hlen := e.length_bytes
  have hext := e.fits
  have hname : e.data.length = 5 + name.length := by
    simp only [hdata, serverNameData, List.length_append, length_beBytes, List.length_singleton]
  simp only [Extension.bytes, List.append_assoc] at h
  have h2 := h.append (n := offset + 2) (by simp)
  have h4 := h2.append (n := offset + 4) (by simp)
  rw [hdata, serverNameData] at h4
  simp only [List.append_assoc, List.cons_append, List.nil_append] at h4
  have h6 := h4.append (n := offset + 6) (by simp)
  have h9 := h6.tail.append (n := offset + 9) (by simp)
  have hty := readUint16BE_word e.type h
  rw [htype] at hty
  have hnameLen : (UInt16.ofNat name.length).toNat = name.length :=
    UInt16.toNat_ofNat_of_lt' (by rw [UInt16.size]; omega)
  have hextLen : (UInt16.ofNat e.data.length).toNat = e.data.length :=
    UInt16.toNat_ofNat_of_lt' hext
  have hlistLen : (UInt16.ofNat (3 + name.length)).toNat = 3 + name.length :=
    UInt16.toNat_ofNat_of_lt' (by rw [UInt16.size]; omega)
  refine findServerName_some_iff.2 ⟨⟨offset, UInt16.ofNat e.data.length,
    UInt16.ofNat (3 + name.length), UInt16.ofNat name.length⟩, ⟨.here offset, hty, ?_, ?_, ?_⟩,
    ⟨?_, ?_, ?_, ?_, ?_⟩, ?_⟩
  · exact readUint16BE_of_tailAt hext h2
  · exact readUint16BE_of_tailAt (by omega) h4
  · exact readUint16BE_of_tailAt (by omega) h6.tail
  · simp only [ServerName.extensionEnd, ServerName.data, hextLen]
    omega
  · simp only [hextLen]
    omega
  · simp only [hlistLen]
    omega
  · exact h6.readByte
  · simp only [hnameLen, hextLen]
    omega
  · exact h9.readSlice hnameLen

/-- The first server name extension gives the name, whatever stands around it. -/
theorem findServerName_some {before after : List Extension} {e : Extension} {name : Str}
    (h : TailAt payload offset ((before ++ e :: after).flatMap Extension.bytes ++ rest))
    (hbefore : ∀ e ∈ before, e.type ≠ extensionSni) (htype : e.type = extensionSni)
    (hdata : e.data = serverNameData name) :
    findServerName payload
      (offset + ((before ++ e :: after).flatMap Extension.bytes).length) offset =
        .ok (some name) := by
  induction before generalizing offset with
  | nil =>
    rw [List.nil_append, List.flatMap_cons, List.append_assoc] at h
    apply findServerName_here h htype hdata
    rw [List.nil_append, List.flatMap_cons, List.length_append]
    omega
  | cons e' before ih =>
    rw [List.cons_append, List.flatMap_cons, List.append_assoc] at h
    rw [List.cons_append, List.flatMap_cons, List.length_append, findServerName_skip h
      (hbefore e' List.mem_cons_self) (by omega), ← Nat.add_assoc]
    exact ih (h.append rfl) fun e hext => hbefore e (List.mem_cons_of_mem _ hext)

/-! ## Decoding undoes encoding -/

theorem extract_record_some {e : Extension} {name : Str}
    (hfind : hello.extensions.find? (fun e => e.type == extensionSni) = some e)
    (hdata : e.data = serverNameData name) (rest : Str) :
    extract (hello.record ++ rest) = .ok (some name) := by
  have htail : TailAt (hello.record ++ rest) hello.extensionsStart (hello.extensionBytes ++ rest) :=
    tailAt_extensions rfl
  obtain ⟨htype, before, after, hsplit, hbefore⟩ := List.find?_eq_some_iff_append.1 hfind
  rw [extract_record rfl]
  rw [ClientHello.extensionBytes, hsplit] at htail ⊢
  exact findServerName_some htail (by simpa using hbefore) (by simpa using htype) hdata

/-- From a ClientHello in one record, followed by anything, `extract` returns the host name of the
first server name extension, and nothing when there is no such extension. -/
theorem extract_encode (hello : ClientHello) (rest : Str) :
    (∀ e name, hello.extensions.find? (fun e => e.type == extensionSni) = some e →
      e.data = serverNameData name → extract (hello.record ++ rest) = .ok (some name)) ∧
    ((∀ e ∈ hello.extensions, e.type ≠ extensionSni) →
      extract (hello.record ++ rest) = .ok none) := by
  refine ⟨fun e name hfind hdata => extract_record_some hfind hdata rest, fun hnone => ?_⟩
  rw [extract_record rfl]
  exact findServerName_none (tailAt_extensions rfl) hnone

/-- A resumed session that offers one cipher suite and two extensions. -/
def resumption : ClientHello where
  recordVersion := 0x0301
  clientVersion := 0x0303
  random := List.replicate 32 7
  sessionId := [1, 2, 3]
  cipherSuites := [0x13, 0x01]
  compressionMethods := [0]
  extensions := [⟨0x002b, [2, 3, 4], by decide⟩, ⟨0, serverNameData (text "ok.com"), by decide⟩]
  recordVersion_range := by decide
  random_length := by decide
  sessionId_fits := by decide
  compressionMethods_fits := by decide
  record_fits := by decide

theorem extract_encode_resumption :
    extract (resumption.record ++ [0x17, 3, 3]) = .ok (some (text "ok.com")) :=
  (extract_encode resumption [0x17, 3, 3]).1
    ⟨0, serverNameData (text "ok.com"), by decide⟩ (text "ok.com") rfl rfl

/-! ## Records that are cut off -/

/-- A record of which the end is missing is not taken for a ClientHello, since its declared length
is compared with what is there. -/
theorem isTLSClientHello_take {n : ℕ} (hn : n < hello.record.length) :
    isTLSClientHello (hello.record.take n) = .ok false := by
  have hfits := hello.handshake_fits
  rw [hello.length_record] at hn
  rcases Nat.lt_or_ge n 9 with hshort | hlong
  · rw [isTLSClientHello, if_pos (by rw [List.length_take]; omega)]
    rfl
  obtain ⟨payload, hpayload⟩ : ∃ payload, payload = hello.record.take n := ⟨_, rfl⟩
  have hlen : payload.length = n := by
    rw [hpayload, List.length_take, hello.length_record]
    omega
  have h0 : TailAt payload 0 (contentTypeHandshake :: (beBytes 2 hello.recordVersion.toNat ++
      (beBytes 2 hello.handshake.length ++ hello.handshake.take (n - 5)))) := by
    have hsplit : payload = contentTypeHandshake :: (beBytes 2 hello.recordVersion.toNat ++
        (beBytes 2 hello.handshake.length ++ hello.handshake.take (n - 5))) := by
      rw [hpayload, ClientHello.record, List.take_append, List.take_of_length_le (by simp; omega)]
      simp
    rw [← hsplit]
    exact .start payload
  have h3 := h0.tail.append (n := 3) (by simp)
  rw [← hpayload, isTLSClientHello, if_neg (by omega), h0.readByte, ok_bind, if_neg (by simp),
    readUint16BE_word hello.recordVersion h0.tail, ok_bind, if_neg hello.recordVersion_accepted,
    readUint16BE_of_tailAt hfits h3, ok_bind, UInt16.toNat_ofNat_of_lt' hfits, if_pos (by omega)]
  rfl

theorem extract_take {n : ℕ} (hn : n < hello.record.length) :
    extract (hello.record.take n) = .ok none := by
  rw [extract, isTLSClientHello_take hn]
  rfl

/-- The first `n` bytes of a record give its server name exactly when they are all of it, also where
the whole server name extension is among them. -/
theorem extract_take_iff {e : Extension} {name : Str}
    (hfind : hello.extensions.find? (fun e => e.type == extensionSni) = some e)
    (hdata : e.data = serverNameData name) {n : ℕ} (hn : n ≤ hello.record.length) :
    extract (hello.record.take n) = .ok (some name) ↔ n = hello.record.length := by
  constructor
  · intro h
    by_contra hne
    rw [extract_take (by omega)] at h
    cases h
  · rintro rfl
    have hwhole := extract_record_some hfind hdata []
    rw [List.append_nil] at hwhole
    rwa [List.take_length]

theorem extract_take_iff_resumption :
    extract (resumption.record.take (resumption.record.length - 1)) ≠
        .ok (some (text "ok.com")) ∧
      extract (resumption.record.take resumption.record.length) = .ok (some (text "ok.com")) := by
  let e : Extension := ⟨0, serverNameData (text "ok.com"), by decide⟩
  refine ⟨fun h => ?_, (extract_take_iff (e := e) rfl rfl le_rfl).2 rfl⟩
  have hwhole := (extract_take_iff (e := e) rfl rfl (Nat.sub_le _ 1)).1 h
  exact absurd hwhole (by decide)

/-- The server name comes before another extension. -/
def nameFirst : ClientHello where
  recordVersion := 0x0301
  clientVersion := 0x0303
  random := List.replicate 32 7
  sessionId := []
  cipherSuites := [0x13, 0x01]
  compressionMethods := [0]
  extensions := [⟨0, serverNameData (text "ok.com"), by decide⟩, ⟨0x002b, [2, 3, 4], by decide⟩]
  recordVersion_range := by decide
  random_length := by decide
  sessionId_fits := by decide
  compressionMethods_fits := by decide
  record_fits := by decide

/-- A record that is cut behind its server name extension gives no name. -/
theorem truncated_name_lost :
    ∃ e, nameFirst.extensions.find? (fun e => e.type == extensionSni) = some e ∧
      nameFirst.extensions.head? = some e ∧ e.data = serverNameData (text "ok.com") ∧
      nameFirst.extensionsStart + e.bytes.length ≤ 70 ∧ 70 ≤ nameFirst.record.length ∧
      extract (nameFirst.record.take 70) = .ok none :=
  ⟨⟨0, serverNameData (text "ok.com"), by decide⟩, rfl, rfl, rfl, by decide, by decide,
    extract_take (by decide)⟩

end SNIExtractor

end DPI
