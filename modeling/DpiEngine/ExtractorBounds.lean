import DpiEngine.HttpHost
import DpiEngine.SniLayout

/-!
# Bounds of the extractors

The names that the extractors for TLS and HTTP return are parts of the payload.  The extractor for
QUIC hands out slices that start five bytes before a candidate, and leaves the payload exactly when
it finds a candidate among the bytes of the version.
-/

namespace DPI

open Bytes

theorem SNIExtractor.infix_of_extract {payload name : Str}
    (h : extract payload = .ok (some name)) : name <:+: payload := by
  obtain ⟨-, -, -, s, -, -, hslice⟩ := extract_some_iff.1 h
  exact infix_of_readSlice hslice

namespace HTTPHostExtractor

theorem infix_of_firstHost {payload name : Str} (h : firstHost payload = some name) :
    name <:+: payload := by
  induction payload with
  | nil => cases h
  | cons b s ih =>
    unfold firstHost at h
    split_ifs at h with hlen hhost
    · cases h
      have hvalue : ((b :: s).drop 5).dropWhile isBlank <:+ b :: s :=
        (List.dropWhile_suffix _).trans (List.drop_suffix 5 (b :: s))
      have hname : upToColon (hostText (b :: s)) <+: ((b :: s).drop 5).dropWhile isBlank :=
        (List.takeWhile_prefix _).trans (List.takeWhile_prefix _)
      exact hname.isInfix.trans hvalue.isInfix
    · exact (ih h).trans (List.suffix_cons b s).isInfix

theorem infix_of_extract {payload name : Str} (h : extract payload = .ok (some name)) :
    name <:+: payload :=
  infix_of_firstHost (extract_eq_some_iff.1 h).2

end HTTPHostExtractor

/-- On every payload the extractors come to an end without a read outside of it, and a name in TLS
or HTTP is a contiguous part of it. -/
theorem extractors_safe (payload : Str) :
    Defined (SNIExtractor.extract payload) ∧ Defined (HTTPHostExtractor.extract payload) ∧
      Defined (DNSExtractor.extractQuery payload) ∧
      (∀ name, SNIExtractor.extract payload = .ok (some name) → name <:+: payload) ∧
      ∀ name, HTTPHostExtractor.extract payload = .ok (some name) → name <:+: payload :=
  ⟨SNIExtractor.defined_extract payload, HTTPHostExtractor.defined_extract payload,
    DNSExtractor.defined_extractQuery payload, fun _ => SNIExtractor.infix_of_extract,
    fun _ => HTTPHostExtractor.infix_of_extract⟩

/-! ## QUIC -/

namespace QUICSNIExtractor

variable {payload : Str} {i : ℕ}

/-- A candidate at index five or later is handed out with a slice of the payload. -/
theorem slice_of_le (h5 : 5 ≤ i) (hi : i < payload.length) :
    slice payload ((i : ℤ) - 5) (payload.length - i + 5) = .ok (payload.drop (i - 5)) := by
  have hstart : ((i : ℤ) - 5).toNat = i - 5 := by omega
  rw [slice, if_pos (by omega), hstart, readSlice_of_le (by omega), List.take_of_length_le]
  rw [List.length_drop]
  omega

theorem slice_of_lt (h5 : i < 5) (n : ℕ) :
    slice payload ((i : ℤ) - 5) n = .error .outOfBounds := if_neg (by omega)

/-- From index five on every candidate leaves the loop inside the payload. -/
theorem findClientHello_candidate (h5 : 5 ≤ i) (hi : i + 50 < payload.length)
    (hnext : Defined (findClientHello payload (i + 1))) : Defined (findClientHello payload i) := by
  unfold findClientHello
  rw [if_pos hi]
  refine (defined_readByte (by omega)).bind fun b _ => .ite (fun _ => ?_) fun _ => hnext
  rw [slice_of_le h5 (by omega), ok_bind]
  refine (SNIExtractor.defined_extract _).bind fun r _ => ?_
  cases r with
  | none => exact hnext
  | some sni => exact defined_ok _

/-- A candidate before index five is a fault, and any other byte is passed over. -/
theorem defined_findClientHello_early (h5 : i < 5) (hi : i + 50 < payload.length) :
    Defined (findClientHello payload i) ↔
      payload[i]? ≠ some 0x01 ∧ Defined (findClientHello payload (i + 1)) := by
  have hlt : i < payload.length := by omega
  conv_lhs => unfold findClientHello
  rw [if_pos hi, readByte_of_lt hlt, ok_bind, List.getElem?_eq_getElem hlt, Ne, Option.some_inj]
  by_cases hb : payload[i] = 0x01
  · rw [if_pos hb, slice_of_lt h5]
    refine iff_of_false ?_ fun h => h.1 hb
    rintro ⟨r, hr⟩
    cases hr
  · rw [if_neg hb]
    exact (and_iff_right hb).symm

theorem defined_findClientHello_iff :
    Defined (findClientHello payload i) ↔
      ∀ j, i ≤ j → j < 5 → j + 50 < payload.length → payload[j]? ≠ some 0x01 := by
  induction hn : payload.length - i using Nat.strong_induction_on generalizing i with
  | _ n ih =>
    by_cases hi : i + 50 < payload.length
    · have hnext := ih _ (by omega) (i := i + 1) rfl
      rcases Nat.lt_or_ge i 5 with h5 | h5
      · rw [defined_findClientHello_early h5 hi, hnext]
        constructor
        · rintro ⟨hb, hrest⟩ j hij hj hlen
          rcases Nat.eq_or_lt_of_le hij with rfl | hlt
          · exact hb
          · exact hrest j hlt hj hlen
        · exact fun h => ⟨h i le_rfl h5 hi, fun j hij => h j (by omega)⟩
      · refine iff_of_true (findClientHello_candidate h5 hi (hnext.2 ?_)) ?_
        · exact fun j hij hj => absurd hj (by omega)
        · exact fun j hij hj => absurd hj (by omega)
    · unfold findClientHello
      rw [if_neg hi]
      exact iff_of_true (defined_ok _) fun j hij _ hlen => absurd hlen (by omega)

theorem defined_isQUICInitial (payload : Str) : Defined (isQUICInitial payload) := by
  unfold isQUICInitial
  apply Defined.guard
  intro hlen
  exact (defined_readByte (by omega)).bind fun _ _ => .guard fun _ => defined_ok _

/-- The first byte of a packet in the long form is no candidate. -/
theorem ne_one_of_isQUICInitial (h : isQUICInitial payload = .ok true) :
    payload[0]? ≠ some 0x01 := by
  intro hb
  unfold isQUICInitial at h
  split_ifs at h with hlen
  · cases h
  · rw [readByte_eq_ok_iff.2 hb, ok_bind] at h
    revert h
    decide

/-- What the loop of `extract` is defined on. -/
theorem defined_extract_iff_loop :
    Defined (extract payload) ↔
      (isQUICInitial payload = .ok true → Defined (findClientHello payload 0)) := by
  obtain ⟨initial, hinitial⟩ := defined_isQUICInitial payload
  unfold extract
  rw [hinitial, ok_bind]
  cases initial with
  | false => exact iff_of_true (defined_ok _) fun h => by cases h
  | true => exact ⟨fun h _ => h, fun h => h rfl⟩

/-- Every slice that is handed out lies inside the payload, and nothing is read outside of it,
exactly when no byte of the version of a long packet of more than 50 further bytes is the handshake
type. -/
theorem slices_inside_iff (payload : Str) :
    Defined (extract payload) ↔
      (isQUICInitial payload = .ok true →
        ∀ i, 1 ≤ i → i < 5 → i + 50 < payload.length → payload[i]? ≠ some 0x01) := by
  rw [defined_extract_iff_loop]
  refine forall_congr' fun hinitial => ?_
  rw [defined_findClientHello_iff]
  constructor
  · exact fun h i _ => h i i.zero_le
  · intro h i _ hi hlen
    rcases Nat.eq_zero_or_pos i with rfl | hpos
    · exact ne_one_of_isQUICInitial hinitial
    · exact h i hpos hi hlen

/-- The start of an Initial packet of QUIC version 1. -/
def versionOne : Str := [0xc3, 0, 0, 0, 1] ++ List.replicate 50 0

/-- The last byte of the version is taken for a candidate, whose slice starts before the packet. -/
theorem versionOne_outside :
    findClientHello versionOne 4 = .error .outOfBounds ∧ ¬ Defined (extract versionOne) := by
  constructor
  · unfold findClientHello
    rfl
  · rw [defined_extract_iff_loop, defined_findClientHello_iff]
    intro h
    exact h (by decide) 4 (by decide) (by decide) (by decide) rfl

end QUICSNIExtractor

end DPI
