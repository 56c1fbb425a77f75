import DpiEngine.ExtractorSafety

/-!
# Where a server name is announced

The length fields of a ClientHello, at the offsets where `SNIExtractor::extract` reads them, and
the regions they declare.  `extract` takes a name exactly when its own checks on these fields
hold; a name lies inside every declared region exactly when the lengths that are never compared
agree as well.
-/

namespace DPI

open Bytes

namespace SNIExtractor

/-! ## Declared lengths -/

/-- The lengths in front of the extensions. -/
structure Layout where
  recordLength : UInt16
  handshakeLength : UInt32
  sessionIdLength : UInt8
  cipherSuitesLength : UInt16
  compressionMethodsLength : UInt8
  extensionsLength : UInt16

namespace Layout

/-- The offset of the length of the cipher suites. -/
def cipherSuites (l : Layout) : ℕ := 44 + l.sessionIdLength.toNat

def compressionMethods (l : Layout) : ℕ := l.cipherSuites + 2 + l.cipherSuitesLength.toNat

def extensions (l : Layout) : ℕ := l.compressionMethods + 1 + l.compressionMethodsLength.toNat

/-- The offset of the first extension. -/
def firstExtension (l : Layout) : ℕ := l.extensions + 2

/-- The declared end of the extensions block. -/
def extensionsEnd (l : Layout) : ℕ := l.firstExtension + l.extensionsLength.toNat

/-- The declared end of the body of the handshake message. -/
def handshakeEnd (l : Layout) : ℕ := 9 + l.handshakeLength.toNat

/-- The declared end of the record. -/
def recordEnd (l : Layout) : ℕ := 5 + l.recordLength.toNat

end Layout

/-- The payload has these lengths. -/
structure Layout.Of (payload : Str) (l : Layout) : Prop where
  recordLength : readUint16BE payload 3 = .ok l.recordLength
  handshakeLength : readUint24BE payload 6 = .ok l.handshakeLength
  sessionIdLength : readByte payload 43 = .ok l.sessionIdLength
  cipherSuitesLength : readUint16BE payload l.cipherSuites = .ok l.cipherSuitesLength
  compressionMethodsLength :
    readByte payload l.compressionMethods = .ok l.compressionMethodsLength
  extensionsLength : readUint16BE payload l.extensions = .ok l.extensionsLength

/-- `Skips payload offset target`: from the extension at `offset` the lengths lead over extensions
of other types to the one at `target`. -/
inductive Skips (payload : Str) : ℕ → ℕ → Prop
  | here (offset : ℕ) : Skips payload offset offset
  | skip {offset target : ℕ} {type length : UInt16}
      (htype : readUint16BE payload offset = .ok type) (hne : type ≠ extensionSni)
      (hlength : readUint16BE payload (offset + 2) = .ok length)
      (h : Skips payload (offset + 4 + length.toNat) target) : Skips payload offset target

/-- A server name extension at an offset and the lengths in it. -/
structure ServerName where
  offset : ℕ
  extensionLength : UInt16
  listLength : UInt16
  nameLength : UInt16

namespace ServerName

def data (s : ServerName) : ℕ := s.offset + 4

def extensionEnd (s : ServerName) : ℕ := s.data + s.extensionLength.toNat

def listEnd (s : ServerName) : ℕ := s.data + 2 + s.listLength.toNat

def name (s : ServerName) : ℕ := s.data + 5

def nameEnd (s : ServerName) : ℕ := s.name + s.nameLength.toNat

end ServerName

/-- The first server name extension from `start` on is `s`. -/
structure ServerName.Of (payload : Str) (start : ℕ) (s : ServerName) : Prop where
  skips : Skips payload start s.offset
  type : readUint16BE payload s.offset = .ok extensionSni
  extensionLength : readUint16BE payload (s.offset + 2) = .ok s.extensionLength
  listLength : readUint16BE payload s.data = .ok s.listLength
  nameLength : readUint16BE payload (s.data + 3) = .ok s.nameLength

/-- What `extract` checks of a server name extension in a block that ends at `extensionsEnd`. -/
structure ServerName.Taken (payload : Str) (extensionsEnd : ℕ) (s : ServerName) : Prop where
  extension : s.extensionEnd ≤ extensionsEnd
  extensionLength : 5 ≤ s.extensionLength.toNat
  listLength : 3 ≤ s.listLength.toNat
  type : readByte payload (s.data + 2) = .ok sniTypeHostname
  nameLength : s.nameLength.toNat ≤ s.extensionLength.toNat - 5

/-! ## What the loop returns -/

variable {payload name : Str} {offset target extensionsEnd : ℕ}

theorem Skips.le (h : Skips payload offset target) : offset ≤ target := by
  induction h with
  | here => exact le_rfl
  | skip _ _ _ _ ih => omega

theorem readServerName_some_iff {extensionLength : UInt16} :
    readServerName payload offset extensionLength = .ok (some name) ↔
      5 ≤ extensionLength.toNat ∧ ∃ listLength, readUint16BE payload offset = .ok listLength ∧
        3 ≤ listLength.toNat ∧ readByte payload (offset + 2) = .ok sniTypeHostname ∧
        ∃ nameLength, readUint16BE payload (offset + 3) = .ok nameLength ∧
          nameLength.toNat ≤ extensionLength.toNat - 5 ∧
          readSlice payload (offset + 5) nameLength.toNat = .ok name := by
  simp only [readServerName, bind_eq_ok_iff, ite_none_eq_ok_some]
  constructor
  · rintro ⟨hext, list, hlist, hlistlen, type, htype, len, hlen, hhost, hname, sni, hsni, h⟩
    cases h
    rw [not_not] at hhost
    exact ⟨not_lt.1 hext, list, hlist, not_lt.1 hlistlen, hhost ▸ htype, len, hlen, not_lt.1 hname,
      hsni⟩
  · rintro ⟨hext, list, hlist, hlistlen, htype, len, hlen, hname, hsni⟩
    exact ⟨not_lt.2 hext, list, hlist, not_lt.2 hlistlen, _, htype, len, hlen, not_not.2 rfl,
      not_lt.2 hname, name, hsni, rfl⟩

theorem findServerName_some_iff :
    findServerName payload extensionsEnd offset = .ok (some name) ↔
      ∃ s, ServerName.Of payload offset s ∧ s.Taken payload extensionsEnd ∧
        readSlice payload s.name s.nameLength.toNat = .ok name := by
  constructor
  · intro h
    induction hn : extensionsEnd - offset using Nat.strong_induction_on generalizing offset with
    | _ n ih =>
      unfold findServerName at h
      split_ifs at h with hoff
      · simp only [bind_eq_ok_iff, ite_none_eq_ok_some] at h
        obtain ⟨type, htype, len, hlen, hend, h⟩ := h
        split_ifs at h with hsni
        · obtain ⟨hext, list, hlist, hlistlen, hhost, nameLen, hname, hnameLen, hslice⟩ :=
            readServerName_some_iff.1 h
          refine ⟨⟨offset, len, list, nameLen⟩, ?_, ?_, hslice⟩
          · exact ⟨.here offset, hsni ▸ htype, hlen, hlist, hname⟩
          · exact ⟨not_lt.1 hend, hext, hlistlen, hhost, hnameLen⟩
        · obtain ⟨s, hs, htaken, hslice⟩ := ih _ (by omega) h rfl
          exact ⟨s, { hs with skips := .skip htype hsni hlen hs.skips }, htaken, hslice⟩
      · cases h
  · rintro ⟨s, hs, htaken, hslice⟩
    obtain ⟨hskips, htype, hlen, hlist, hname⟩ := hs
    have hend := htaken.extension
    rw [ServerName.extensionEnd, ServerName.data] at hend
    generalize ht : s.offset = target at hskips
    induction hskips with
    | here offset =>
      subst ht
      unfold findServerName
      rw [if_pos (by omega), htype, ok_bind, hlen, ok_bind, if_neg (by omega), if_pos rfl,
        readServerName_some_iff]
      exact ⟨htaken.extensionLength, _, hlist, htaken.listLength, htaken.type, _, hname,
        htaken.nameLength, hslice⟩
    | skip htype' hne hlen' hskips ih =>
      subst ht
      have hle := hskips.le
      unfold findServerName
      rw [if_pos (by omega), htype', ok_bind, hlen', ok_bind, if_neg (by omega), if_neg hne]
      exact ih rfl

/-! ## What `extract` returns -/

theorem lt_of_readUint16BE {i : ℕ} {v : UInt16} (h : readUint16BE payload i = .ok v) :
    i + 1 < payload.length := by
  simp only [readUint16BE, bind_eq_ok_iff] at h
  obtain ⟨hi, -, lo, hlo, -⟩ := h
  exact lt_of_readByte hlo

theorem extract_of_layout {l : Layout} (hl : l.Of payload)
    (hello : isTLSClientHello payload = .ok true) :
    extract payload = findServerName payload (min l.extensionsEnd payload.length)
      l.firstExtension := by
  obtain ⟨-, hhl, hsl, hcl, hml, hel⟩ := hl
  have hsid := lt_of_readByte hsl
  have hcs := lt_of_readUint16BE hcl
  have hcm := lt_of_readByte hml
  have hext := lt_of_readUint16BE hel
  simp only [Layout.extensions, Layout.compressionMethods, Layout.cipherSuites]
    at hcl hml hel hcs hcm hext
  unfold extract
  simp only [hello, ok_bind, Nat.reduceAdd, hhl, hsl]
  rw [if_neg (by simp), if_neg (by omega), if_neg (by omega), hcl, ok_bind, if_neg (by omega), hml,
    ok_bind, if_neg (by omega), hel, ok_bind]
  rfl

theorem layout_of_extract (h : extract payload = .ok (some name)) :
    isTLSClientHello payload = .ok true ∧ ∃ l : Layout, l.Of payload := by
  simp only [extract, bind_eq_ok_iff, ite_none_eq_ok_some, Nat.reduceAdd] at h
  obtain ⟨hello, hhello, htrue, hl, hhl, -, sl, hsl, -, cl, hcl, -, ml, hml, -, el, hel, -⟩ := h
  have htrue : isTLSClientHello payload = .ok true := by
    rw [hhello]
    simpa using htrue
  refine ⟨htrue, ?_⟩
  have hlen := length_of_isTLSClientHello htrue
  obtain ⟨rl, hrl⟩ := defined_readUint16BE (show 3 + 1 < payload.length by omega)
  exact ⟨⟨rl, hl, sl, cl, ml, el⟩, hrl, hhl, hsl, hcl, hml, hel⟩

/-- A name is returned exactly when there is a server name extension that passes the checks. -/
theorem extract_some_iff :
    extract payload = .ok (some name) ↔
      isTLSClientHello payload = .ok true ∧ ∃ l : Layout, l.Of payload ∧
        ∃ s, ServerName.Of payload l.firstExtension s ∧
          s.Taken payload (min l.extensionsEnd payload.length) ∧
          readSlice payload s.name s.nameLength.toNat = .ok name := by
  constructor
  · intro h
    obtain ⟨hello, l, hl⟩ := layout_of_extract h
    rw [extract_of_layout hl hello] at h
    exact ⟨hello, l, hl, findServerName_some_iff.1 h⟩
  · rintro ⟨hello, l, hl, hs⟩
    rw [extract_of_layout hl hello]
    exact findServerName_some_iff.2 hs

/-- The checks keep the name inside the block. -/
theorem ServerName.Taken.nameEnd_le {s : ServerName} (h : s.Taken payload extensionsEnd) :
    s.nameEnd ≤ extensionsEnd := by
  have hext := h.extension
  have hlen := h.extensionLength
  have hname := h.nameLength
  simp only [ServerName.extensionEnd] at hext
  simp only [ServerName.nameEnd, ServerName.name]
  omega

/-- Where the checks of `extract` pass, a name of the declared length is returned. -/
theorem exists_extract {l : Layout} {s : ServerName} (hello : isTLSClientHello payload = .ok true)
    (hl : l.Of payload) (hs : s.Of payload l.firstExtension)
    (htaken : s.Taken payload (min l.extensionsEnd payload.length)) :
    ∃ name, extract payload = .ok (some name) ∧ name.length = s.nameLength.toNat := by
  have hroom : s.nameEnd ≤ payload.length := htaken.nameEnd_le.trans (Nat.min_le_right _ _)
  have hslice := readSlice_of_le hroom
  exact ⟨_, extract_some_iff.2 ⟨hello, l, hl, s, hs, htaken, hslice⟩, length_of_readSlice hslice⟩

/-! ## The declared lengths are unique -/

theorem Layout.Of.unique {l l' : Layout} (h : l.Of payload) (h' : l'.Of payload) : l = l' := by
  obtain ⟨rl, hl, sl, cl, ml, el⟩ := l
  obtain ⟨rl', hl', sl', cl', ml', el'⟩ := l'
  obtain ⟨h1, h2, h3, h4, h5, h6⟩ := h
  obtain ⟨h1', h2', h3', h4', h5', h6'⟩ := h'
  obtain rfl := Except.ok.inj (h1.symm.trans h1')
  obtain rfl := Except.ok.inj (h2.symm.trans h2')
  obtain rfl := Except.ok.inj (h3.symm.trans h3')
  obtain rfl := Except.ok.inj (h4.symm.trans h4')
  obtain rfl := Except.ok.inj (h5.symm.trans h5')
  obtain rfl := Except.ok.inj (h6.symm.trans h6')
  rfl

theorem Skips.unique {target' : ℕ} (h : Skips payload offset target)
    (ht : readUint16BE payload target = .ok extensionSni) (h' : Skips payload offset target')
    (ht' : readUint16BE payload target' = .ok extensionSni) : target = target' := by
  induction h with
  | here offset =>
    cases h' with
    | here => rfl
    | skip htype hne _ _ => exact absurd (Except.ok.inj (htype.symm.trans ht)) hne
  | skip htype hne hlength _ ih =>
    cases h' with
    | here => exact absurd (Except.ok.inj (htype.symm.trans ht')) hne
    | skip htype' hne' hlength' h' =>
      obtain rfl := Except.ok.inj (hlength.symm.trans hlength')
      exact ih ht h'

theorem ServerName.Of.unique {start : ℕ} {s s' : ServerName} (h : s.Of payload start)
    (h' : s'.Of payload start) : s = s' := by
  obtain ⟨offset, len, list, nameLen⟩ := s
  obtain ⟨offset', len', list', nameLen'⟩ := s'
  obtain ⟨h1, h2, h3, h4, h5⟩ := h
  obtain ⟨h1', h2', h3', h4', h5'⟩ := h'
  obtain rfl : offset = offset' := h1.unique h2 h1' h2'
  obtain rfl := Except.ok.inj (h3.symm.trans h3')
  obtain rfl := Except.ok.inj (h4.symm.trans h4')
  obtain rfl := Except.ok.inj (h5.symm.trans h5')
  rfl

/-! ## Names inside the declared regions -/

/-- The bytes from `start` up to `stop`. -/
structure Region where
  start : ℕ
  stop : ℕ

def Region.Inside (r r' : Region) : Prop := r'.start ≤ r.start ∧ r.stop ≤ r'.stop

/-- The name stands where the payload announces it, inside the server name list, which lies inside
the extension, the extensions block, the handshake body and the record. -/
structure Announced (payload name : Str) (l : Layout) (s : ServerName) : Prop where
  layout : l.Of payload
  serverName : s.Of payload l.firstExtension
  bytes : readSlice payload s.name s.nameLength.toNat = .ok name
  list : Region.Inside ⟨s.name, s.nameEnd⟩ ⟨s.data, s.listEnd⟩
  extension : Region.Inside ⟨s.data, s.listEnd⟩ ⟨s.data, s.extensionEnd⟩
  extensions : Region.Inside ⟨s.data, s.listEnd⟩ ⟨l.firstExtension, l.extensionsEnd⟩
  handshake : Region.Inside ⟨s.data, s.listEnd⟩ ⟨9, l.handshakeEnd⟩
  record : Region.Inside ⟨s.data, s.listEnd⟩ ⟨5, l.recordEnd⟩

/-- The relations between the declared lengths that `extract` never checks. -/
structure Agree (l : Layout) (s : ServerName) : Prop where
  name : 3 + s.nameLength.toNat ≤ s.listLength.toNat
  list : 2 + s.listLength.toNat ≤ s.extensionLength.toNat
  handshake : s.listEnd ≤ l.handshakeEnd
  record : s.listEnd ≤ l.recordEnd

/-- Where the unchecked lengths agree, the checked ones put the name inside every region. -/
theorem Agree.announced {l : Layout} {s : ServerName} (h : Agree l s) (hl : l.Of payload)
    (hs : s.Of payload l.firstExtension) (htaken : s.Taken payload extensionsEnd)
    (hend : extensionsEnd ≤ l.extensionsEnd)
    (hslice : readSlice payload s.name s.nameLength.toNat = .ok name) :
    Announced payload name l s := by
  obtain ⟨hname, hlist, hhandshake, hrecord⟩ := h
  have hskips := hs.skips.le
  have hext := htaken.extension
  have hstart : 49 ≤ l.firstExtension := by
    simp only [Layout.firstExtension, Layout.extensions, Layout.compressionMethods,
      Layout.cipherSuites]
    omega
  have hlistEnd : s.listEnd ≤ s.extensionEnd := by
    simp only [ServerName.listEnd, ServerName.extensionEnd]
    omega
  have hdata : s.data = s.offset + 4 := rfl
  refine ⟨hl, hs, hslice, ⟨?_, ?_⟩, ⟨le_rfl, hlistEnd⟩, ⟨?_, ?_⟩, ⟨?_, hhandshake⟩, ⟨?_, hrecord⟩⟩
  · exact Nat.le_add_right _ _
  · simp only [ServerName.nameEnd, ServerName.name, ServerName.listEnd]
    omega
  · simp only
    omega
  · exact hlistEnd.trans (hext.trans hend)
  · simp only
    omega
  · simp only
    omega

theorem Announced.agree {l : Layout} {s : ServerName} (h : Announced payload name l s) :
    Agree l s := by
  have hname := h.list.2
  have hlist := h.extension.2
  simp only [ServerName.nameEnd, ServerName.name, ServerName.listEnd,
    ServerName.extensionEnd] at hname hlist
  exact ⟨by omega, by omega, h.handshake.2, h.record.2⟩

/-- Every name that is returned lies inside all regions declared around it exactly when, wherever
the checks of `extract` pass, the lengths that it never compares agree. -/
theorem announced_iff (payload : Str) :
    (∀ name, extract payload = .ok (some name) → ∃ l s, Announced payload name l s) ↔
      ∀ (l : Layout) (s : ServerName), isTLSClientHello payload = .ok true → l.Of payload →
        s.Of payload l.firstExtension → s.Taken payload (min l.extensionsEnd payload.length) →
        Agree l s := by
  constructor
  · intro h l s hello hl hs htaken
    obtain ⟨name, hname, -⟩ := exists_extract hello hl hs htaken
    obtain ⟨l', s', hann⟩ := h name hname
    obtain rfl := hl.unique hann.layout
    obtain rfl := hs.unique hann.serverName
    exact hann.agree
  · intro h name hname
    obtain ⟨hello, l, hl, s, hs, htaken, hslice⟩ := extract_some_iff.1 hname
    exact ⟨l, s, (h l s hello hl hs htaken).announced hl hs htaken (Nat.min_le_left _ _) hslice⟩

/-- A ClientHello for `evil.com` whose handshake header declares an empty body. -/
def emptyHandshake : Str :=
  [0x16, 3, 1, 0, 64, 0x01, 0, 0, 0, 3, 3] ++ List.replicate 32 0 ++
    [0, 0, 2, 0x13, 1, 1, 0, 0, 17, 0, 0, 0, 13, 0, 11, 0, 0, 8] ++ text "evil.com"

theorem name_outside_handshake :
    extract emptyHandshake = .ok (some (text "evil.com")) ∧
      ¬ ∃ l s, Announced emptyHandshake (text "evil.com") l s := by
  refine ⟨by decide +kernel, ?_⟩
  rintro ⟨l, s, h⟩
  have hzero : readUint24BE emptyHandshake 6 = .ok 0 := by decide
  have hlen : l.handshakeLength = 0 := Except.ok.inj (h.layout.handshakeLength.symm.trans hzero)
  have hin := h.handshake
  simp only [Region.Inside, Layout.handshakeEnd, hlen, ServerName.listEnd] at hin
  simp at hin
  omega

end SNIExtractor

end DPI
