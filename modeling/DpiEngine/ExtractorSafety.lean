import DpiEngine.Extractors

/-!
# Safety of the extractors

The extractors are defined on every payload: no read leaves it.
-/

namespace DPI

open Bytes

theorem defined_readUint16BE {payload : Str} {offset : ℕ} (h : offset + 1 < payload.length) :
    Defined (readUint16BE payload offset) :=
  (defined_readByte (by omega)).bind fun _ _ => (defined_readByte h).bind fun _ _ => defined_ok _

theorem defined_readUint24BE {payload : Str} {offset : ℕ} (h : offset + 2 < payload.length) :
    Defined (readUint24BE payload offset) :=
  (defined_readByte (by omega)).bind fun _ _ => (defined_readByte (by omega)).bind fun _ _ =>
    (defined_readByte h).bind fun _ _ => defined_ok _

namespace SNIExtractor

theorem defined_isTLSClientHello (payload : Str) : Defined (isTLSClientHello payload) := by
  unfold isTLSClientHello
  apply Defined.guard
  intro hlen
  refine (defined_readByte (by omega)).bind fun _ _ => ?_
  apply Defined.guard
  intro _
  refine (defined_readUint16BE (by omega)).bind fun _ _ => ?_
  apply Defined.guard
  intro _
  refine (defined_readUint16BE (by omega)).bind fun _ _ => ?_
  apply Defined.guard
  intro _
  refine (defined_readByte (by omega)).bind fun _ _ => ?_
  exact .guard fun _ => defined_ok _

/-- A payload that is taken for a ClientHello has the nine bytes that were looked at. -/
theorem length_of_isTLSClientHello {payload : Str} (h : isTLSClientHello payload = .ok true) :
    9 ≤ payload.length := by
  by_contra hlen
  rw [isTLSClientHello, if_pos (by omega)] at h
  cases h

theorem defined_readServerName {payload : Str} {offset : ℕ} {extensionLength : UInt16}
    (h : offset + extensionLength.toNat ≤ payload.length) :
    Defined (readServerName payload offset extensionLength) := by
  unfold readServerName
  apply Defined.guard
  intro hext
  refine (defined_readUint16BE (by omega)).bind fun _ _ => ?_
  apply Defined.guard
  intro _
  refine (defined_readByte (by omega)).bind fun _ _ => ?_
  refine (defined_readUint16BE (by omega)).bind fun _ _ => ?_
  apply Defined.guard
  intro _
  apply Defined.guard
  intro hsni
  exact (defined_readSlice (by omega)).bind fun _ _ => defined_ok _

theorem defined_findServerName {payload : Str} {extensionsEnd : ℕ}
    (h : extensionsEnd ≤ payload.length) (offset : ℕ) :
    Defined (findServerName payload extensionsEnd offset) := by
  induction hn : extensionsEnd - offset using Nat.strong_induction_on generalizing offset with
  | _ n ih =>
    unfold findServerName
    refine .ite (fun hoff => ?_) fun _ => defined_ok _
    refine (defined_readUint16BE (by omega)).bind fun _ _ => ?_
    refine (defined_readUint16BE (by omega)).bind fun extensionLength _ => ?_
    apply Defined.guard
    intro hext
    refine .ite (fun _ => defined_readServerName (by omega)) fun _ => ?_
    exact ih _ (by omega) _ rfl

theorem defined_extract (payload : Str) : Defined (extract payload) := by
  unfold extract
  refine (defined_isTLSClientHello payload).bind fun hello hhello => ?_
  apply Defined.guard
  intro htrue
  have hlen := length_of_isTLSClientHello (hhello.trans (by simpa using htrue))
  refine (defined_readUint24BE (by omega)).bind fun _ _ => ?_
  apply Defined.guard
  intro hoff
  refine (defined_readByte (by omega)).bind fun _ _ => ?_
  apply Defined.guard
  intro hoff
  refine (defined_readUint16BE (by omega)).bind fun _ _ => ?_
  apply Defined.guard
  intro hoff
  refine (defined_readByte (by omega)).bind fun _ _ => ?_
  apply Defined.guard
  intro hoff
  refine (defined_readUint16BE (by omega)).bind fun _ _ => ?_
  exact defined_findServerName (Nat.min_le_right _ _) _

end SNIExtractor

namespace HTTPHostExtractor

theorem defined_isHTTPRequest (payload : Str) : Defined (isHTTPRequest payload) := by
  unfold isHTTPRequest
  apply Defined.guard
  intro _
  exact (defined_readSlice (by omega)).bind fun _ _ => defined_ok _

theorem defined_isHostAt {payload : Str} {i : ℕ} (h : i + 4 < payload.length) :
    Defined (isHostAt payload i) := by
  unfold isHostAt
  refine (defined_readByte (by omega)).bind fun _ _ => ?_
  apply Defined.guard
  intro _
  refine (defined_readByte (by omega)).bind fun _ _ => ?_
  apply Defined.guard
  intro _
  refine (defined_readByte (by omega)).bind fun _ _ => ?_
  apply Defined.guard
  intro _
  refine (defined_readByte (by omega)).bind fun _ _ => ?_
  apply Defined.guard
  intro _
  exact (defined_readByte h).bind fun _ _ => defined_ok _

/-- Skipping stays inside the payload. -/
theorem skipWhile_le (p : UInt8 → Bool) {payload : Str} {i : ℕ} (h : i ≤ payload.length) :
    ∃ j, skipWhile p payload i = .ok j ∧ i ≤ j ∧ j ≤ payload.length := by
  induction hn : payload.length - i using Nat.strong_induction_on generalizing i with
  | _ n ih =>
    unfold skipWhile
    by_cases hi : i < payload.length
    · rw [if_pos hi, readByte_of_lt hi]
      by_cases hp : p payload[i] = true
      · obtain ⟨j, hj, hij, hle⟩ := ih _ (by omega) (i := i + 1) (by omega) rfl
        exact ⟨j, (if_pos hp).trans hj, by omega, hle⟩
      · exact ⟨i, if_neg hp, le_rfl, h⟩
    · exact ⟨i, if_neg hi, le_rfl, h⟩

theorem defined_findHost (payload : Str) (i : ℕ) : Defined (findHost payload i) := by
  induction hn : payload.length - i using Nat.strong_induction_on generalizing i with
  | _ n ih =>
    unfold findHost
    refine .ite (fun hi => ?_) fun _ => defined_ok _
    refine (defined_isHostAt (by omega)).bind fun _ _ => ?_
    refine .ite (fun _ => ?_) fun _ => ih _ (by omega) _ rfl
    obtain ⟨start, hstart, -, hle⟩ := skipWhile_le isBlank (show i + 5 ≤ payload.length by omega)
    obtain ⟨stop, hstop, -, hle'⟩ := skipWhile_le (fun b => !isLineEnd b) hle
    refine Defined.bind ⟨start, hstart⟩ fun start' hs => ?_
    obtain rfl : start = start' := Except.ok.inj (hstart.symm.trans hs)
    refine Defined.bind ⟨stop, hstop⟩ fun stop' hs => ?_
    obtain rfl : stop = stop' := Except.ok.inj (hstop.symm.trans hs)
    refine .ite (fun _ => ?_) fun _ => ih _ (by omega) _ rfl
    exact (defined_readSlice (by omega)).bind fun _ _ => defined_ok _

theorem defined_extract (payload : Str) : Defined (extract payload) := by
  unfold extract
  refine (defined_isHTTPRequest payload).bind fun _ _ => ?_
  exact .guard fun _ => defined_findHost payload 0

end HTTPHostExtractor

namespace DNSExtractor

theorem defined_isDNSQuery (payload : Str) : Defined (isDNSQuery payload) := by
  unfold isDNSQuery
  apply Defined.guard
  intro hlen
  refine (defined_readByte (by omega)).bind fun _ _ => ?_
  apply Defined.guard
  intro _
  refine (defined_readUint16BE (by omega)).bind fun _ _ => ?_
  exact .guard fun _ => defined_ok _

theorem defined_readLabels (payload : Str) (offset : ℕ) (domain : Str) :
    Defined (readLabels payload offset domain) := by
  induction hn : payload.length - offset using Nat.strong_induction_on
    generalizing offset domain with
  | _ n ih =>
    unfold readLabels
    refine .ite (fun hoff => ?_) fun _ => defined_ok _
    refine (defined_readByte hoff).bind fun _ _ => ?_
    apply Defined.guard
    intro _
    apply Defined.guard
    intro _
    apply Defined.guard
    intro hlabel
    refine (defined_readSlice (by omega)).bind fun _ _ => ?_
    exact ih _ (by omega) _ _ rfl

theorem defined_extractQuery (payload : Str) : Defined (extractQuery payload) := by
  unfold extractQuery
  refine (defined_isDNSQuery payload).bind fun _ _ => ?_
  apply Defined.guard
  intro _
  exact (defined_readLabels payload 12 []).bind fun _ _ => defined_ok _

end DNSExtractor

end DPI
