import DpiEngine.DnsName
import DpiEngine.FlowTable
import DpiEngine.HttpHost
import DpiEngine.SniLayout

/-!
# Empty names

A name that an extractor returns classifies the connection, also when it is empty.  A server name of
length zero passes all checks, and a host is tested for emptiness before the port behind it is cut
off.  Only the extractor for DNS tests what it returns.
-/

namespace DPI

open Bytes

/-! ## Server names -/

namespace SNIExtractor

/-- No server name that passes the checks of `extract` has length zero. -/
def NamesSomething (payload : Str) : Prop :=
  ∀ (l : Layout) (s : ServerName), isTLSClientHello payload = .ok true → l.Of payload →
    s.Of payload l.firstExtension → s.Taken payload (min l.extensionsEnd payload.length) →
    s.nameLength ≠ 0

theorem name_ne_nil_iff (payload : Str) :
    (∀ name, extract payload = .ok (some name) → name ≠ []) ↔ NamesSomething payload := by
  constructor
  · intro h l s hello hl hs htaken hzero
    obtain ⟨name, hname, hlen⟩ := exists_extract hello hl hs htaken
    rw [hzero] at hlen
    exact h name hname (List.length_eq_zero_iff.1 hlen)
  · rintro h name hname rfl
    obtain ⟨hello, l, hl, s, hs, htaken, hslice⟩ := extract_some_iff.1 hname
    refine h l s hello hl hs htaken (UInt16.toNat_inj.1 ?_)
    exact (length_of_readSlice hslice).symm

end SNIExtractor

/-! ## Hosts -/

namespace HTTPHostExtractor

variable {payload name : Str}

/-- The scan takes a host at the start of `s`. -/
def TakesHost (s : Str) : Prop := 7 ≤ s.length ∧ startsWithHost s = true ∧ hostText s ≠ []

/-- The host is taken at `s`, the earliest place where the scan takes one. -/
structure TakenAt (payload s : Str) : Prop where
  suffix : s <:+ payload
  takes : TakesHost s
  first : ∀ t, t <:+ payload → s.length < t.length → ¬ TakesHost t

theorem takenAt_self (h : TakesHost payload) : TakenAt payload payload :=
  ⟨List.suffix_rfl, h, fun _ ht hlen => absurd ht.length_le (by omega)⟩

theorem TakenAt.eq_self {s : Str} (h : TakesHost payload) (hs : TakenAt payload s) :
    s = payload := by
  by_contra hne
  have hlt := Nat.lt_of_le_of_ne hs.suffix.length_le fun hlen => hne (hs.suffix.eq_of_length hlen)
  exact hs.first payload List.suffix_rfl hlt h

theorem takenAt_cons_iff {b : UInt8} {s t : Str} (h : ¬ TakesHost (b :: s)) :
    TakenAt (b :: s) t ↔ TakenAt s t := by
  constructor
  · rintro ⟨hsuffix, htakes, hfirst⟩
    rcases List.suffix_cons_iff.1 hsuffix with rfl | ht
    · exact absurd htakes h
    · exact ⟨ht, htakes, fun u hu => hfirst u (hu.trans (List.suffix_cons b s))⟩
  · rintro ⟨hsuffix, htakes, hfirst⟩
    refine ⟨hsuffix.trans (List.suffix_cons b s), htakes, fun u hu hlen => ?_⟩
    rcases List.suffix_cons_iff.1 hu with rfl | hu
    · exact h
    · exact hfirst u hu hlen

theorem firstHost_eq_some_iff :
    firstHost payload = some name ↔ ∃ s, TakenAt payload s ∧ name = upToColon (hostText s) := by
  induction payload with
  | nil =>
    refine iff_of_false (fun h => ?_) ?_
    · cases h
    · rintro ⟨s, hs, -⟩
      have hlen := hs.takes.1
      rw [List.suffix_nil.1 hs.suffix] at hlen
      simp at hlen
  | cons b s ih =>
    rw [firstHost]
    by_cases hshort : s.length < 6
    · rw [if_pos hshort]
      refine iff_of_false (fun h => ?_) ?_
      · cases h
      · rintro ⟨t, ht, -⟩
        have hlen := ht.takes.1
        have hle := ht.suffix.length_le
        rw [List.length_cons] at hle
        omega
    rw [if_neg hshort]
    by_cases htakes : TakesHost (b :: s)
    · rw [if_pos htakes.2]
      constructor
      · intro h
        exact ⟨_, takenAt_self htakes, (Option.some.inj h).symm⟩
      · rintro ⟨t, ht, rfl⟩
        rw [ht.eq_self htakes]
    · rw [if_neg fun h => htakes ⟨by rw [List.length_cons]; omega, h⟩, ih]
      simp only [takenAt_cons_iff htakes]

/-- The text that is taken for the host of a request does not begin with a colon. -/
def NamesSomething (payload : Str) : Prop :=
  isHTTPRequest payload = .ok true → ∀ s, TakenAt payload s → (hostText s).head? ≠ some 0x3a

theorem upToColon_eq_nil_iff {s : Str} (h : s ≠ []) :
    upToColon s = [] ↔ s.head? = some 0x3a := by
  obtain ⟨b, rest, rfl⟩ := List.exists_cons_of_ne_nil h
  simp [upToColon]

theorem name_ne_nil_iff (payload : Str) :
    (∀ name, extract payload = .ok (some name) → name ≠ []) ↔ NamesSomething payload := by
  simp only [extract_eq_some_iff, firstHost_eq_some_iff]
  constructor
  · intro h hrequest s hs hcolon
    exact h _ ⟨hrequest, s, hs, rfl⟩ ((upToColon_eq_nil_iff hs.takes.2.2).2 hcolon)
  · rintro h name ⟨hrequest, s, hs, rfl⟩ hempty
    exact h hrequest s hs ((upToColon_eq_nil_iff hs.takes.2.2).1 hempty)

end HTTPHostExtractor

/-! ## Names that classify a connection -/

theorem DNSExtractor.name_ne_nil {payload name : Str} (h : extractQuery payload = .ok (some name)) :
    name ≠ [] := by
  rintro rfl
  simp only [extractQuery, bind_eq_ok_iff, ite_none_eq_ok_some] at h
  obtain ⟨query, -, -, domain, -, h⟩ := h
  split_ifs at h with hempty
  · cases h
  · cases h
    exact hempty rfl

/-- A visible name was returned by one of the extractors. -/
theorem extracted_of_visibleName {job : PacketJob} {app : AppType} {name : Str}
    (h : visibleName job = .ok (some (app, name))) :
    SNIExtractor.extract job.payload = .ok (some name) ∨
      HTTPHostExtractor.extract job.payload = .ok (some name) ∨
      DNSExtractor.extractQuery job.payload = .ok (some name) := by
  have hmap {x : Checked (Option Str)} {f : Str → AppType × Str} {p : Prop} [Decidable p]
      (hf : ∀ s, (f s).2 = s)
      (h : (if p then Option.map f <$> x else .ok none) = .ok (some (app, name))) :
      x = .ok (some name) := by
    split_ifs at h
    · rcases x with e | _ | s
      · cases h
      · cases h
      · have hs : (f s).2 = name := congrArg Prod.snd (Option.some.inj (Except.ok.inj h))
        rw [← hs, hf]
    · cases h
  obtain ⟨_ | tls, htls, h⟩ := bind_eq_ok_iff.1 h
  · obtain ⟨_ | http, hhttp, h⟩ := bind_eq_ok_iff.1 h
    · exact Or.inr (Or.inr (hmap (fun _ => rfl) h))
    · cases h
      exact Or.inr (Or.inl (hmap (fun _ => rfl) hhttp))
  · cases h
    exact Or.inl (hmap (fun _ => rfl) htls)

/-- Every name that an extractor returns, and every extracted name that a connection is classified
by, has a byte exactly when no server name that passes the checks has length zero and the text taken
for a host does not begin with a colon. -/
theorem names_ne_nil_iff (payload : Str) :
    ((∀ name, SNIExtractor.extract payload = .ok (some name) → name ≠ []) ∧
      (∀ name, HTTPHostExtractor.extract payload = .ok (some name) → name ≠ []) ∧
      (∀ name, DNSExtractor.extractQuery payload = .ok (some name) → name ≠ []) ∧
      ∀ job : PacketJob, job.payload = payload →
        ∀ app name, visibleName job = .ok (some (app, name)) → name ≠ []) ↔
    SNIExtractor.NamesSomething payload ∧ HTTPHostExtractor.NamesSomething payload := by
  rw [← SNIExtractor.name_ne_nil_iff, ← HTTPHostExtractor.name_ne_nil_iff]
  constructor
  · exact fun h => ⟨h.1, h.2.1⟩
  · rintro ⟨htls, hhttp⟩
    refine ⟨htls, hhttp, fun name => DNSExtractor.name_ne_nil, ?_⟩
    rintro job rfl app name hname
    rcases extracted_of_visibleName hname with h | h | h
    · exact htls name h
    · exact hhttp name h
    · exact DNSExtractor.name_ne_nil h

/-- A request whose host is empty and has a port. -/
def portOnly : Str := text "GET / HTTP/1.1\r\nHost: :8080\r\n\r\n"

def portOnlyJob : PacketJob where
  tuple := { srcIp := 1, dstIp := 2, srcPort := 50000, dstPort := 80, protocol := 6 }
  data := portOnly
  payloadLength := portOnly.length
  payload_wf := by simp

/-- The connection is classified by the empty name, and is not inspected again. -/
theorem portOnly_unknown :
    HTTPHostExtractor.extract portOnly = .ok (some []) ∧
      visibleName portOnlyJob = .ok (some (.unknown, [])) ∧
      ({} : Flow).inspect portOnlyJob = .ok { appType := .unknown, state := .classified } ∧
      ¬ ∀ name, HTTPHostExtractor.extract portOnly = .ok (some name) → name ≠ [] := by
  have hname : HTTPHostExtractor.extract portOnly = .ok (some []) := by decide +kernel
  refine ⟨hname, by decide +kernel, by decide +kernel, fun h => h [] hname rfl⟩

end DPI
