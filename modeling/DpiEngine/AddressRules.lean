import DpiEngine.Conversion
import DpiEngine.RuleFile

/-!
# Rules for addresses

An address rule is a text, and the source of a packet is printed by the parser and read again for
its job.  All of them agree on dotted quads, so a rule hits the address it names and no other.
Texts that are no dotted quads are read by the same function, which leaves the range of its integers
when there are too many dots or digits.
-/

namespace PacketAnalyzer.PacketParser

open Bytes

variable {data : Str} {parsed p : ParsedPacket} {offset next : ℕ}

theorem srcIp_of_parseTransport (h : parseTransport data parsed offset = .ok (some (p, next))) :
    p.srcIp = parsed.srcIp := by
  unfold parseTransport at h
  split_ifs at h
  · simp only [parseTCP, bind_eq_ok_iff, ite_none_eq_ok_some] at h
    obtain ⟨-, src, -, dst, -, seq, -, ack, -, b, -, flags, -, -, h⟩ := h
    cases h
    rfl
  · simp only [parseUDP, bind_eq_ok_iff, ite_none_eq_ok_some] at h
    obtain ⟨-, src, -, dst, -, h⟩ := h
    cases h
    rfl
  · cases h
    rfl

theorem srcIp_of_parseIPv4 (h : parseIPv4 data parsed offset = .ok (some (p, next))) :
    ∃ src, readSlice data (offset + 12) 4 = .ok src ∧ p.srcIp = DPI.ipToString (load32 src 0) := by
  simp only [parseIPv4, bind_eq_ok_iff, ite_none_eq_ok_some] at h
  obtain ⟨-, versionIhl, -, -, -, ttl, -, protocol, -, src, hsrc, dst, -, h⟩ := h
  cases h
  exact ⟨src, hsrc, rfl⟩

/-- The source of an accepted packet is the text of the four bytes at offset 26. -/
theorem srcIp_of_parse {raw : RawPacket} (h : parse raw = .ok (some p)) (hip : p.hasIp = true) :
    ∃ src, readSlice raw.data 26 4 = .ok src ∧ p.srcIp = DPI.ipToString (load32 src 0) := by
  obtain ⟨_ | ⟨eth, start⟩, heth, h⟩ := bind_eq_ok_iff.1 h
  · cases h
  simp only [parseEthernet, bind_eq_ok_iff, ite_none_eq_ok_some] at heth
  obtain ⟨-, dstMac, -, srcMac, -, etherType, -, heth⟩ := heth
  cases heth
  obtain ⟨_ | ⟨net, next⟩, hnet, h⟩ := bind_eq_ok_iff.1 h
  · cases h
  cases h
  unfold parseNetwork at hnet
  split_ifs at hnet
  · obtain ⟨_ | ⟨ip, transport⟩, hipv4, hnet⟩ := bind_eq_ok_iff.1 hnet
    · cases hnet
    obtain ⟨src, hsrc, htext⟩ := srcIp_of_parseIPv4 hipv4
    exact ⟨src, hsrc, (srcIp_of_parseTransport hnet).trans htext⟩
  · cases hnet
    cases hip

end PacketAnalyzer.PacketParser

namespace DPI

open Bytes PacketAnalyzer PacketAnalyzer.PacketParser

theorem value_inj {a b : Address} : a.value = b.value ↔ a = b := by
  constructor
  · intro h
    have hvalue : leValue a.bytes = leValue b.bytes := by
      rw [a.leValue_bytes, b.leValue_bytes, ← a.toNat_value, ← b.toNat_value, h]
    have hbytes : a.bytes = b.bytes := by
      rw [← leBytes_leValue a.bytes, hvalue]
      exact leBytes_leValue b.bytes
    obtain ⟨a₁, a₂, a₃, a₄⟩ := a
    obtain ⟨b₁, b₂, b₃, b₄⟩ := b
    simpa [Address.bytes] using hbytes
  · rintro rfl
    rfl

/-- An address rule blocks the packets whose source is the address it names, and what is printed of
an address is read as that address. -/
theorem ip_rule_exact (a b : Address) {raw : RawPacket} {parsed : ParsedPacket} {packetId : UInt32}
    {job : PacketJob} (hparse : parse raw = .ok (some parsed)) (hip : parsed.hasIp = true)
    (hsource : readSlice raw.data 26 4 = .ok b.bytes)
    (hjob : createPacketJob raw parsed packetId = .ok job) :
    (∃ rm, ({} : RuleManager).blockIPText a.text = .ok rm ∧
      (rm.isIPBlocked job.tuple.srcIp = true ↔ a = b)) ∧
    ∀ ip, parseIP (ipToString ip) = .ok ip := by
  refine ⟨⟨({} : RuleManager).blockIP a.value, ?_, ?_⟩, parseIP_ipToString⟩
  · rw [RuleManager.blockIPText, parseIP_text]
    rfl
  · obtain ⟨src, hsrc, htext⟩ := srcIp_of_parse hparse hip
    rw [hsource] at hsrc
    obtain rfl := Except.ok.inj hsrc
    rw [Address.load32_bytes, Address.ipToString_value] at htext
    have hjobIp : job.tuple.srcIp = b.value := by
      rw [createPacketJob, htext, parseIP_text, ok_bind] at hjob
      simp only [bind_eq_ok_iff] at hjob
      obtain ⟨dst, -, offsets, -, hjob⟩ := hjob
      cases hjob
      rfl
    rw [hjobIp, RuleManager.isIPBlocked_iff]
    have hnone : ¬ ({} : RuleManager).InForce (.ip b.value) := Finset.notMem_empty b.value
    refine (RuleManager.inForce_block {} (.ip a.value) (.ip b.value)).trans ?_
    rw [or_iff_left hnone, Rule.ip.injEq, value_inj]

theorem ip_rule_exact_webSegment :
    let segment := webSegment 40000 (requestText "ok.com")
    let record := webRecord 40000 (requestText "ok.com")
    ∃ job, createPacketJob record (segment.parsed record.header) 0 = .ok job ∧
      (∃ rm, ({} : RuleManager).blockIPText (text "10.0.0.1") = .ok rm ∧
        rm.isIPBlocked job.tuple.srcIp = true) ∧
      ∃ rm, ({} : RuleManager).blockIPText (text "10.0.0.10") = .ok rm ∧
        rm.isIPBlocked job.tuple.srcIp ≠ true := by
  have hdata : (webRecord 40000 (requestText "ok.com")).data = _ := rfl
  have hparse := parse_bytes (webSegment 40000 (requestText "ok.com")) hdata
  obtain ⟨job, hjob, -⟩ := createPacketJob_frame (webSegment 40000 (requestText "ok.com")) hdata 0
  have hexact (a : Address) := (ip_rule_exact a ⟨10, 0, 0, 1⟩ hparse rfl rfl hjob).1
  obtain ⟨rm, hblock, hiff⟩ := hexact ⟨10, 0, 0, 1⟩
  obtain ⟨rm', hblock', hiff'⟩ := hexact ⟨10, 0, 0, 10⟩
  have htext : (⟨10, 0, 0, 1⟩ : Address).text = text "10.0.0.1" := by decide
  have htext' : (⟨10, 0, 0, 10⟩ : Address).text = text "10.0.0.10" := by decide
  exact ⟨job, hjob, ⟨rm, htext ▸ hblock, hiff.2 rfl⟩, rm', htext' ▸ hblock',
    fun h => absurd (hiff'.1 h) (by decide)⟩

/-! ## Texts that can be read -/

/-- The octet after the digits of a field; its other bytes are skipped. -/
def octetAfter (octet : ℕ) (field : Str) : ℕ :=
  (field.filter isDigit).foldl (fun n c => 10 * n + (c.toNat - 0x30)) octet

/-- The number that the digits of a field make. -/
def fieldValue (field : Str) : ℕ := digitsValue (field.filter isDigit)

theorem octetAfter_zero (field : Str) : octetAfter 0 field = fieldValue field := rfl

theorem octetAfter_digit {c : UInt8} (hc : isDigit c = true) (octet : ℕ) (field : Str) :
    octetAfter octet (c :: field) = octetAfter (octet * 10 + (c.toNat - 0x30)) field := by
  rw [octetAfter, List.filter_cons_of_pos hc, List.foldl_cons, Nat.mul_comm 10]
  rfl

theorem octetAfter_skip {c : UInt8} (hc : ¬ isDigit c = true) (octet : ℕ) (field : Str) :
    octetAfter octet (c :: field) = octetAfter octet field := by
  rw [octetAfter, List.filter_cons_of_neg hc, octetAfter]

/-- The octet only grows within a field. -/
theorem le_octetAfter (octet : ℕ) (field : Str) : octet ≤ octetAfter octet field := by
  induction field generalizing octet with
  | nil => exact le_rfl
  | cons c field ih =>
    by_cases hc : isDigit c = true
    · rw [octetAfter_digit hc]
      exact le_trans (by omega) (ih _)
    · rw [octetAfter_skip hc]
      exact ih octet

/-- What is left of an address can be read from a field on, with its octet so far. -/
def Readable (octet : ℕ) : List Str → Prop
  | [] => True
  | field :: fields => octetAfter octet field ≤ intMax ∧ ∀ f ∈ fields, fieldValue f ≤ intMax

theorem readable_zero_iff (fields : List Str) :
    Readable 0 fields ↔ ∀ f ∈ fields, fieldValue f ≤ intMax := by
  cases fields with
  | nil => simp [Readable]
  | cons field fields => rw [Readable, octetAfter_zero, List.forall_mem_cons]

theorem defined_orOctet_iff (result : UInt32) (octet shift : ℕ) :
    Defined (orOctet result octet shift) ↔ shift < 32 := by
  unfold orOctet
  split_ifs with h
  · exact iff_of_true (defined_ok _) h
  · exact iff_of_false nofun h

/-- The loop over the rest of a text, from an octet that is still in range. -/
theorem defined_parseIPFrom_iff (result : UInt32) {octet shift : ℕ} (ho : octet ≤ intMax)
    (s : Str) :
    Defined (parseIPFrom result octet shift s) ↔
      shift + 8 * s.count 0x2e < 32 ∧ Readable octet (s.splitOn 0x2e) := by
  induction s generalizing result octet shift with
  | nil =>
    rw [parseIPFrom, defined_orOctet_iff]
    simp [Readable, octetAfter, ho]
  | cons c s ih =>
    rw [parseIPFrom]
    by_cases hdot : c = 0x2e
    · subst hdot
      have hsplit : (0x2e :: s).splitOn 0x2e = [] :: s.splitOn 0x2e :=
        List.splitOn_append_cons_self [] s
      rw [if_pos rfl, hsplit, Readable, ← readable_zero_iff, List.count_cons_self]
      by_cases hshift : shift < 32
      · rw [orOctet, if_pos hshift, ok_bind, ih _ (Nat.zero_le _),
          and_iff_right (show octetAfter octet [] ≤ intMax from ho)]
        exact and_congr_left fun _ => by omega
      · rw [orOctet, if_neg hshift]
        exact iff_of_false (not_defined_error _) fun h => by omega
    · have hcount : (c :: s).count 0x2e = s.count 0x2e := List.count_cons_of_ne hdot
      obtain ⟨field, fields, hfields⟩ :=
        List.exists_cons_of_ne_nil (List.splitOn_ne_nil (0x2e : UInt8) s)
      have hsplit : (c :: s).splitOn 0x2e = (c :: field) :: fields := by
        rw [List.splitOn_cons_eq_if_modifyHead, if_neg (by simpa using hdot), hfields]
        rfl
      rw [if_neg hdot, hcount, hsplit, Readable]
      by_cases hdigit : 0x30 ≤ c ∧ c ≤ 0x39
      · have hc : isDigit c = true := decide_eq_true hdigit
        rw [if_pos hdigit, octetAfter_digit hc]
        by_cases hmax : octet * 10 + (c.toNat - 0x30) ≤ intMax
        · simp only [if_pos hmax]
          rw [ih _ hmax, hfields, Readable]
        · simp only [if_neg hmax]
          refine iff_of_false (not_defined_error _) fun h => hmax ?_
          exact (le_octetAfter _ field).trans h.2.1
      · have hc : ¬ isDigit c = true := by simpa [isDigit] using hdigit
        rw [if_neg hdigit, octetAfter_skip hc, ih _ ho, hfields, Readable]

/-- Every shift is by less than 32 and the octet stays in the range of `int` exactly when the text
has at most three dots and no field between them whose digits make more than `INT_MAX`. -/
theorem defined_parseIP_iff (ip : Str) :
    Defined (parseIP ip) ↔
      ip.count 0x2e ≤ 3 ∧ ∀ field ∈ ip.splitOn 0x2e, fieldValue field ≤ intMax := by
  rw [parseIP, defined_parseIPFrom_iff 0 (Nat.zero_le _), readable_zero_iff]
  exact and_congr_left fun _ => by omega

/-- A fifth field is shifted by 32, and ten digits are too many for an octet. -/
theorem undefined_address :
    ¬ Defined (parseIP (text "10.0.0.1.5")) ∧ ¬ Defined (parseIP (text "4294967296")) := by
  have hdots : parseIP (text "10.0.0.1.5") = .error .shiftTooFar := by decide
  have hdigits : parseIP (text "4294967296") = .error .signedOverflow := by decide
  rw [hdots, hdigits]
  exact ⟨not_defined_error _, not_defined_error _⟩

end DPI
