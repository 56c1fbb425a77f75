import DpiEngine.ExtractorSafety
import DpiEngine.Lib.Labels

/-!
# Names of DNS queries

`DNSExtractor::extractQuery` reads labels behind their lengths.  It undoes the encoding of a whole
name, whatever follows it.  All four ways out of its loop return the labels read so far, so that a
name that is cut off or goes on with a length over 63 is returned without its end.
-/

namespace DPI

open Bytes

namespace DNSExtractor

/-! ## Queries as data -/

structure Label where
  bytes : Str
  ne_nil : bytes ≠ []
  length_le : bytes.length ≤ 63

/-- A label behind its length. -/
def Label.encode (l : Label) : Str := UInt8.ofNat l.bytes.length :: l.bytes

def encodeLabels (labels : List Label) : Str := labels.flatMap Label.encode

/-- The labels joined by dots. -/
def dotted (labels : List Label) : Str := List.intercalate (text ".") (labels.map Label.bytes)

/-- The header of a query with a question: the bit QR is the highest of the flags. -/
structure QueryHeader where
  id : UInt16
  flags : UInt16
  qdcount : UInt16
  ancount : UInt16
  nscount : UInt16
  arcount : UInt16
  query : flags.toNat < 0x8000
  question : qdcount ≠ 0

def QueryHeader.bytes (h : QueryHeader) : Str :=
  beBytes 2 h.id.toNat ++ beBytes 2 h.flags.toNat ++ beBytes 2 h.qdcount.toNat ++
    beBytes 2 h.ancount.toNat ++ beBytes 2 h.nscount.toNat ++ beBytes 2 h.arcount.toNat

/-- No whole label stands at the start: there is a zero byte, a length over 63, a label that is cut
off, or nothing at all. -/
def Stops (rest : Str) : Prop := ∀ l : Label, ¬ l.encode <+: rest

@[simp] theorem QueryHeader.length_bytes (h : QueryHeader) : h.bytes.length = 12 := by
  simp [QueryHeader.bytes]

@[simp] theorem Label.length_encode (l : Label) : l.encode.length = 1 + l.bytes.length := by
  rw [Label.encode, List.length_cons, Nat.add_comm]

theorem Label.toNat_length (l : Label) : (UInt8.ofNat l.bytes.length).toNat = l.bytes.length := by
  have := l.length_le
  rw [UInt8.toNat_ofNat']
  exact Nat.mod_eq_of_lt (by omega)

theorem Label.length_pos (l : Label) : 0 < l.bytes.length := List.length_pos_iff.2 l.ne_nil

theorem encodeLabels_cons_append (l : Label) (labels : List Label) (s : Str) :
    encodeLabels (l :: labels) ++ s = l.encode ++ (encodeLabels labels ++ s) := by
  rw [encodeLabels, List.flatMap_cons, List.append_assoc, encodeLabels]

theorem not_stops_labels (l : Label) (labels : List Label) (s : Str) :
    ¬ Stops (encodeLabels (l :: labels) ++ s) := by
  intro h
  apply h l
  rw [encodeLabels_cons_append]
  exact List.prefix_append _ _

/-- The ways to stop at a byte are those in which the loop is left. -/
theorem stops_cons_iff {b : UInt8} {s : Str} :
    Stops (b :: s) ↔ b = 0 ∨ b > 63 ∨ s.length < b.toNat := by
  constructor
  · intro h
    by_contra hnone
    rw [not_or, not_or, not_lt] at hnone
    obtain ⟨hzero, hlimit, hroom⟩ := hnone
    have hb : b.toNat ≤ 63 := by
      rw [gt_iff_lt, UInt8.lt_iff_toNat_lt] at hlimit
      simpa using hlimit
    have htake : (s.take b.toNat).length = b.toNat := List.length_take_of_le hroom
    have hne : s.take b.toNat ≠ [] := by
      rw [← List.length_pos_iff, htake, Nat.pos_iff_ne_zero]
      exact fun hz => hzero (UInt8.toNat_inj.1 hz)
    have hhead : UInt8.ofNat (s.take b.toNat).length = b := by rw [htake, UInt8.ofNat_toNat]
    -- a whole label stands at `b`
    refine h ⟨s.take b.toNat, hne, by omega⟩ ⟨s.drop b.toNat, ?_⟩
    change UInt8.ofNat (s.take b.toNat).length :: s.take b.toNat ++ s.drop b.toNat = b :: s
    rw [hhead, List.cons_append, List.take_append_drop]
  · rintro h l ⟨tail, htail⟩
    obtain ⟨hhead, hbytes⟩ := List.cons.inj htail
    have hvalue := congrArg UInt8.toNat hhead
    have hlen : l.bytes.length + tail.length = s.length :=
      List.length_append.symm.trans (congrArg List.length hbytes)
    rw [l.toNat_length] at hvalue
    have hpos := l.length_pos
    have hle := l.length_le
    rcases h with rfl | hlimit | hroom
    · exact hpos.ne' hvalue
    · rw [gt_iff_lt, UInt8.lt_iff_toNat_lt, ← hvalue] at hlimit
      simp at hlimit
      omega
    · omega

theorem stops_zero (s : Str) : Stops (0 :: s) := stops_cons_iff.2 (Or.inl rfl)

theorem dotted_ne_nil {labels : List Label} (h : labels ≠ []) : dotted labels ≠ [] := by
  apply Labels.intercalate_ne_nil (by simpa using h)
  intro l hl
  obtain ⟨label, -, rfl⟩ := List.mem_map.1 hl
  exact label.ne_nil

/-- The text grows by a dot, unless it is empty, and a label. -/
theorem dotted_concat (labels : List Label) (l : Label) : dotted (labels ++ [l]) =
    (if (dotted labels).isEmpty then dotted labels else dotted labels ++ text ".") ++ l.bytes := by
  by_cases h : labels = []
  · rw [h]
    simp [dotted]
  · rw [if_neg (by simpa using dotted_ne_nil h), dotted, List.map_append]
    apply (Labels.intercalate_append (by simpa using h) (by simp)).trans
    rw [List.map_singleton, List.intercalate_singleton, List.append_assoc]
    rfl

/-! ## The loop over the labels -/

variable {payload rest : Str} {i : ℕ}

theorem readLabels_label (read : List Label) (l : Label)
    (h : TailAt payload i (l.encode ++ rest)) :
    readLabels payload i (dotted read) =
      readLabels payload (i + l.encode.length) (dotted (read ++ [l])) := by
  have hlen := h.1
  have hpos := l.length_pos
  have hle := l.length_le
  have hvalue := l.toNat_length
  rw [List.length_append, Label.length_encode] at hlen
  have hzero : UInt8.ofNat l.bytes.length ≠ 0 := by
    intro hz
    rw [hz] at hvalue
    simp at hvalue
    omega
  have hlimit : ¬ UInt8.ofNat l.bytes.length > 63 := by
    rw [gt_iff_lt, UInt8.lt_iff_toNat_lt, hvalue]
    simp
    omega
  rw [readLabels, if_pos (by omega), h.readByte, ok_bind, if_neg hzero, if_neg hlimit, hvalue,
    if_neg (by omega), h.tail.readSlice rfl, ok_bind, dotted_concat, Label.length_encode,
    Nat.add_assoc]

theorem readLabels_labels (read labels : List Label)
    (h : TailAt payload i (encodeLabels labels ++ rest)) :
    readLabels payload i (dotted read) =
      readLabels payload (i + (encodeLabels labels).length) (dotted (read ++ labels)) := by
  induction labels generalizing i read with
  | nil => simp [encodeLabels]
  | cons l labels ih =>
    rw [encodeLabels_cons_append] at h
    rw [readLabels_label read l h, ih (read ++ [l]) (h.append rfl), encodeLabels, encodeLabels,
      List.flatMap_cons, List.length_append, Nat.add_assoc, List.append_assoc,
      List.singleton_append]

theorem readLabels_of_stops (h : TailAt payload i rest) (hstops : Stops rest) (domain : Str) :
    readLabels payload i domain = .ok domain := by
  have hlen := h.1
  rw [readLabels]
  match rest with
  | [] => exact if_neg (by simp at hlen; omega)
  | b :: s =>
    rw [List.length_cons] at hlen
    rw [if_pos (by omega), h.readByte, ok_bind]
    by_cases hzero : b = 0
    · exact if_pos hzero
    by_cases hlimit : b > 63
    · rw [if_neg hzero]
      exact if_pos hlimit
    have hcut := ((stops_cons_iff.1 hstops).resolve_left hzero).resolve_left hlimit
    rw [if_neg hzero, if_neg hlimit]
    exact if_pos (by omega)

/-- The loop returns the whole labels that stand at its start. -/
theorem readLabels_eq (labels : List Label) (h : TailAt payload i (encodeLabels labels ++ rest))
    (hstops : Stops rest) : readLabels payload i [] = .ok (dotted labels) := by
  rw [show ([] : Str) = dotted [] from rfl, readLabels_labels [] labels h,
    readLabels_of_stops (h.append rfl) hstops, List.nil_append]

/-! ## Every byte string as labels and what stops them -/

theorem exists_labels (s : Str) : ∃ labels rest, s = encodeLabels labels ++ rest ∧ Stops rest := by
  induction hn : s.length using Nat.strong_induction_on generalizing s with
  | _ n ih =>
    by_cases hstops : Stops s
    · exact ⟨[], s, rfl, hstops⟩
    · obtain ⟨l, hl⟩ := not_forall.1 hstops
      obtain ⟨tail, rfl⟩ := not_not.1 hl
      rw [List.length_append, Label.length_encode] at hn
      obtain ⟨labels, rest, rfl, hrest⟩ := ih _ (by omega) tail rfl
      exact ⟨l :: labels, rest, (encodeLabels_cons_append l labels rest).symm, hrest⟩

theorem Label.encode_append_inj {l l' : Label} {s s' : Str}
    (h : l.encode ++ s = l'.encode ++ s') : l = l' ∧ s = s' := by
  obtain ⟨hhead, htail⟩ := List.cons.inj h
  have hlen := congrArg UInt8.toNat hhead
  rw [l.toNat_length, l'.toNat_length] at hlen
  obtain ⟨hbytes, hs⟩ := List.append_inj htail hlen
  obtain ⟨bytes, _, _⟩ := l
  obtain ⟨bytes', _, _⟩ := l'
  obtain rfl : bytes = bytes' := hbytes
  exact ⟨rfl, hs⟩

theorem labels_unique {labels labels' : List Label} {rest rest' : Str}
    (h : encodeLabels labels ++ rest = encodeLabels labels' ++ rest') (hrest : Stops rest)
    (hrest' : Stops rest') : labels = labels' ∧ rest = rest' := by
  induction labels generalizing labels' with
  | nil =>
    cases labels' with
    | nil => exact ⟨rfl, h⟩
    | cons l' labels' =>
      obtain rfl : rest = _ := h
      exact absurd hrest (not_stops_labels l' labels' rest')
  | cons l labels ih =>
    cases labels' with
    | nil =>
      obtain rfl : _ = rest' := h
      exact absurd hrest' (not_stops_labels l labels rest)
    | cons l' labels' =>
      rw [encodeLabels_cons_append, encodeLabels_cons_append] at h
      obtain ⟨rfl, htail⟩ := Label.encode_append_inj h
      obtain ⟨rfl, rfl⟩ := ih htail
      exact ⟨rfl, rfl⟩

/-! ## What `extractQuery` returns -/

theorem length_of_isDNSQuery (h : isDNSQuery payload = .ok true) : 12 ≤ payload.length := by
  by_contra hlen
  rw [isDNSQuery, if_pos (by omega)] at h
  cases h

theorem isDNSQuery_bytes (h : QueryHeader) (tail : Str) :
    isDNSQuery (h.bytes ++ tail) = .ok true := by
  have hall : ∀ n : Fin 128, UInt8.ofNat n &&& 0x80 = 0 := by decide
  have hflags := hall ⟨h.flags.toNat / 256, by have := h.query; omega⟩
  have h0 := TailAt.start (h.bytes ++ tail)
  nth_rewrite 2 [QueryHeader.bytes] at h0
  simp only [List.append_assoc] at h0
  have h2 := h0.append (n := 2) rfl
  have h4 := h2.append (n := 4) rfl
  change TailAt _ 2 (UInt8.ofNat (h.flags.toNat / 256) :: _) at h2
  rw [isDNSQuery, if_neg (by simp), h2.readByte, ok_bind, if_neg (not_not.2 hflags),
    readUint16BE_word h.qdcount h4, ok_bind, if_neg h.question]
  rfl

/-- The result is what the whole labels behind the header make. -/
theorem extractQuery_eq {labels : List Label} (hquery : isDNSQuery payload = .ok true)
    (h : payload.drop 12 = encodeLabels labels ++ rest) (hstops : Stops rest) :
    extractQuery payload = .ok (if labels = [] then none else some (dotted labels)) := by
  have hlen := length_of_isDNSQuery hquery
  have htail : TailAt payload 12 (encodeLabels labels ++ rest) := by
    refine ⟨?_, h⟩
    rw [← h, List.length_drop]
    omega
  rw [extractQuery, hquery, ok_bind, if_neg (by simp), readLabels_eq labels htail hstops, ok_bind]
  by_cases hlabels : labels = []
  · rw [if_pos hlabels, hlabels]
    rfl
  · rw [if_neg hlabels, if_neg (by simpa using dotted_ne_nil hlabels)]
    rfl

/-- Decoding undoes encoding. -/
theorem extractQuery_encode (h : QueryHeader) {labels : List Label} (hne : labels ≠ [])
    (following : Str) :
    extractQuery (h.bytes ++ encodeLabels labels ++ 0 :: following) =
      .ok (some (dotted labels)) := by
  rw [List.append_assoc]
  have hdrop : (h.bytes ++ (encodeLabels labels ++ 0 :: following)).drop 12 =
      encodeLabels labels ++ 0 :: following := List.drop_left' h.length_bytes
  rw [extractQuery_eq (isDNSQuery_bytes h _) hdrop (stops_zero following), if_neg hne]

/-- A recursive query with one question. -/
def standardQuery : QueryHeader where
  id := 0x1234
  flags := 0x0100
  qdcount := 1
  ancount := 0
  nscount := 0
  arcount := 0
  query := by decide
  question := by decide

theorem extractQuery_encode_org :
    extractQuery (standardQuery.bytes ++
        encodeLabels [⟨text "wiki", by decide, by decide⟩, ⟨text "org", by decide, by decide⟩] ++
        0 :: [0, 1, 0, 1]) =
      .ok (some (dotted
        [⟨text "wiki", by decide, by decide⟩, ⟨text "org", by decide, by decide⟩])) :=
  extractQuery_encode standardQuery (by simp) [0, 1, 0, 1]

/-- A name is returned only as a whole, and a name without its end not at all, exactly when a zero
byte follows the whole labels of every query that has any. -/
theorem whole_names_iff (payload : Str) :
    (∀ d, extractQuery payload = .ok (some d) →
      ∃ labels rest, payload.drop 12 = encodeLabels labels ++ 0 :: rest ∧ d = dotted labels) ↔
    (isDNSQuery payload = .ok true → ∀ labels rest, labels ≠ [] →
      payload.drop 12 = encodeLabels labels ++ rest → Stops rest → rest.head? = some 0) := by
  constructor
  · intro h hquery labels rest hne hdrop hstops
    have hname := extractQuery_eq hquery hdrop hstops
    rw [if_neg hne] at hname
    obtain ⟨labels', rest', hdrop', -⟩ := h _ hname
    rw [hdrop] at hdrop'
    rw [(labels_unique hdrop' hstops (stops_zero rest')).2]
    rfl
  · intro h d hname
    obtain ⟨query, hquery, hrest⟩ := bind_eq_ok_iff.1 hname
    obtain rfl : query = true := by simpa using (ite_none_eq_ok_some.1 hrest).1
    obtain ⟨labels, rest, hdrop, hstops⟩ := exists_labels (payload.drop 12)
    rw [extractQuery_eq hquery hdrop hstops] at hname
    by_cases hne : labels = []
    · simp [hne] at hname
    · rw [if_neg hne] at hname
      obtain ⟨rest', rfl⟩ := List.head?_eq_some_iff.1 (h hquery labels rest hne hdrop hstops)
      exact ⟨labels, rest', hdrop, (Option.some.inj (Except.ok.inj hname)).symm⟩

/-- A query for a name whose second label is cut off. -/
def cutOff : Str := standardQuery.bytes ++ [3, 0x77, 0x77, 0x77, 9, 0x77, 0x69, 0x6b, 0x69]

/-- The first label is returned as the name. -/
theorem cutOff_shortened :
    extractQuery cutOff = .ok (some (text "www")) ∧
      ¬ ∃ labels rest, cutOff.drop 12 = encodeLabels labels ++ 0 :: rest ∧
        text "www" = dotted labels := by
  have hstops : Stops [9, 0x77, 0x69, 0x6b, 0x69] := stops_cons_iff.2 (Or.inr (Or.inr (by decide)))
  have hdrop : cutOff.drop 12 = encodeLabels [⟨text "www", by decide, by decide⟩] ++
      [9, 0x77, 0x69, 0x6b, 0x69] := by decide
  constructor
  · exact extractQuery_eq (isDNSQuery_bytes standardQuery _) hdrop hstops
  · rintro ⟨labels, rest, h, -⟩
    rw [hdrop] at h
    have := (labels_unique h hstops (stops_zero rest)).2
    simp at this

end DNSExtractor

end DPI
