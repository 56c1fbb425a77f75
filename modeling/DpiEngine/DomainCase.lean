import DpiEngine.RuleSet

/-!
# Letter case of domain rules

Patterns and the names they are compared with are brought to lower case first.  Exact domains are
looked up as they are, so the case of the rule and of the name decides.
-/

namespace DPI

open Bytes

/-- The two strings differ in the case of ASCII letters only. -/
def CaseVariants (s t : Str) : Prop := toLower s = toLower t

instance (s t : Str) : Decidable (CaseVariants s t) := inferInstanceAs (Decidable (_ = _))

/-- Bytes other than letters are the lower case of themselves only. -/
theorem toLowerByte_eq_iff_of_not_letter {b : UInt8} (hupper : ¬ (0x41 ≤ b ∧ b ≤ 0x5a))
    (hlower : ¬ (0x61 ≤ b ∧ b ≤ 0x7a)) (c : UInt8) : toLowerByte c = b ↔ c = b := by
  have hshift : ∀ n : Fin 256, 0x41 ≤ UInt8.ofNat n ∧ UInt8.ofNat n ≤ 0x5a →
      0x61 ≤ UInt8.ofNat n + 0x20 ∧ UInt8.ofNat n + 0x20 ≤ 0x7a := by decide +kernel
  unfold toLowerByte
  split_ifs with h
  · have hc := hshift ⟨c.toNat, c.toNat_lt⟩
    simp only [UInt8.ofNat_toNat] at hc
    apply iff_of_false
    · rintro rfl
      exact hlower (hc h)
    · rintro rfl
      exact hupper h
  · rfl

theorem star_mem_toLower (s : Str) : 0x2a ∈ toLower s ↔ 0x2a ∈ s := by
  simp only [toLower, List.mem_map, toLowerByte_eq_iff_of_not_letter (b := 0x2a) (by decide)
    (by decide), exists_eq_right]

namespace CaseVariants

variable {s t : Str}

theorem star_mem_iff (h : CaseVariants s t) : 0x2a ∈ s ↔ 0x2a ∈ t := by
  rw [← star_mem_toLower s, ← star_mem_toLower t, h]

end CaseVariants

namespace RuleManager

/-- Some pattern matches the name. -/
def patternMatches (rm : RuleManager) (name : Str) : Bool :=
  rm.domainPatterns.any fun pattern => domainMatchesPattern (toLower name) (toLower pattern)

theorem isDomainBlocked_iff_mem_or (rm : RuleManager) (name : Str) :
    rm.isDomainBlocked name = true ↔ name ∈ rm.blockedDomains ∨ rm.patternMatches name = true := by
  rw [isDomainBlocked, Bool.or_eq_true, decide_eq_true_iff]
  rfl

/-- Patterns do not see the case of a name. -/
theorem patternMatches_congr (rm : RuleManager) {d d' : Str} (h : CaseVariants d d') :
    rm.patternMatches d = rm.patternMatches d' := by
  unfold patternMatches
  rw [h]

/-- The case of a name is ignored iff a pattern matches it or the exact domains hold both spellings
or none. -/
theorem isDomainBlocked_congr_iff (rm : RuleManager) {d d' : Str} (h : CaseVariants d d') :
    rm.isDomainBlocked d = rm.isDomainBlocked d' ↔
      rm.patternMatches d = true ∨ (d ∈ rm.blockedDomains ↔ d' ∈ rm.blockedDomains) := by
  rw [Bool.eq_iff_iff, isDomainBlocked_iff_mem_or, isDomainBlocked_iff_mem_or,
    ← patternMatches_congr rm h]
  tauto

/-- The case of a pattern that is blocked is ignored. -/
theorem isDomainBlocked_blockDomain_wildcard (rm : RuleManager) {r r' : Str}
    (h : CaseVariants r r') (hr : 0x2a ∈ r) (name : Str) :
    (rm.blockDomain r).isDomainBlocked name = (rm.blockDomain r').isDomainBlocked name := by
  have hr' := h.star_mem_iff.1 hr
  simp only [blockDomain, if_pos hr, if_pos hr', isDomainBlocked, List.any_append, List.any_cons,
    show toLower r = toLower r' from h]

theorem isDomainBlocked_blockDomain_exact (rm : RuleManager) {r : Str} (hr : 0x2a ∉ r)
    (name : Str) :
    (rm.blockDomain r).isDomainBlocked name = true ↔
      name = r ∨ rm.isDomainBlocked name = true := by
  rw [blockDomain, if_neg hr, isDomainBlocked_iff_mem_or, isDomainBlocked_iff_mem_or,
    Finset.mem_insert, or_assoc]
  rfl

/-- Two spellings of an exact domain have the same effect iff they are the same, or both are blocked
already. -/
theorem blockDomain_congr_iff (rm : RuleManager) {r r' : Str} (h : CaseVariants r r')
    (hr : 0x2a ∉ r) :
    (∀ name, (rm.blockDomain r).isDomainBlocked name = (rm.blockDomain r').isDomainBlocked name) ↔
      r = r' ∨ rm.isDomainBlocked r = true ∧ rm.isDomainBlocked r' = true := by
  have hr' : 0x2a ∉ r' := fun hs => hr (h.star_mem_iff.2 hs)
  have hname (name : Str) :
      (rm.blockDomain r).isDomainBlocked name = (rm.blockDomain r').isDomainBlocked name ↔
        (name = r ∨ rm.isDomainBlocked name = true ↔
          name = r' ∨ rm.isDomainBlocked name = true) := by
    rw [Bool.eq_iff_iff, isDomainBlocked_blockDomain_exact rm hr,
      isDomainBlocked_blockDomain_exact rm hr']
  simp only [hname]
  constructor
  · intro hall
    by_cases heq : r = r'
    · exact Or.inl heq
    · right
      constructor
      · exact ((hall r).1 (Or.inl rfl)).resolve_left heq
      · exact ((hall r').2 (Or.inl rfl)).resolve_left (Ne.symm heq)
  · rintro (rfl | ⟨hb, hb'⟩) name
    · rfl
    · constructor
      · rintro (rfl | hblocked)
        · exact Or.inr hb
        · exact Or.inr hblocked
      · rintro (rfl | hblocked)
        · exact Or.inr hb'
        · exact Or.inr hblocked

/-- Letter case is ignored, of a name and of a rule to block, iff the name is matched by a pattern
or spelled both ways or neither way among the exact domains, and the rule is a pattern, or spelled
the same, or matched by a pattern, or spelled both ways among the exact domains. -/
theorem letter_case_ignored_iff (es : List RuleEdit) {d d' r r' : Str} (hd : CaseVariants d d')
    (hr : CaseVariants r r') :
    ((after es).isDomainBlocked d = (after es).isDomainBlocked d' ∧
      ∀ name, ((after es).blockDomain r).isDomainBlocked name =
        ((after es).blockDomain r').isDomainBlocked name) ↔
    ((after es).patternMatches d = true ∨
      (d ∈ (after es).blockedDomains ↔ d' ∈ (after es).blockedDomains)) ∧
    (0x2a ∈ r ∨ r = r' ∨ (after es).patternMatches r = true ∨
      r ∈ (after es).blockedDomains ∧ r' ∈ (after es).blockedDomains) := by
  apply and_congr (isDomainBlocked_congr_iff _ hd)
  by_cases hstar : 0x2a ∈ r
  · exact iff_of_true (isDomainBlocked_blockDomain_wildcard _ hr hstar) (Or.inl hstar)
  · rw [blockDomain_congr_iff _ hr hstar, isDomainBlocked_iff_mem_or, isDomainBlocked_iff_mem_or,
      ← patternMatches_congr _ hr]
    tauto

theorem letter_case_ignored_lowercase_rule :
    (after [.add (.domain (text "*.bad.com"))]).isDomainBlocked (text "A.Bad.com") =
        (after [.add (.domain (text "*.bad.com"))]).isDomainBlocked (text "a.bad.com") ∧
      ∀ name, ((after [.add (.domain (text "*.bad.com"))]).blockDomain
            (text "*.X")).isDomainBlocked name =
          ((after [.add (.domain (text "*.bad.com"))]).blockDomain
            (text "*.x")).isDomainBlocked name :=
  (letter_case_ignored_iff _ (by decide) (by decide)).2 ⟨Or.inl (by decide), Or.inl (by decide)⟩

/-- An exact rule does not block the name in another spelling. -/
theorem exact_rule_sees_case :
    CaseVariants (text "Bad.com") (text "bad.com") ∧
      (after [.add (.domain (text "Bad.com"))]).isDomainBlocked (text "Bad.com") = true ∧
      (after [.add (.domain (text "Bad.com"))]).isDomainBlocked (text "bad.com") = false := by
  decide

end RuleManager

end DPI
