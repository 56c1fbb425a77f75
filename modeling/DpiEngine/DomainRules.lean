import DpiEngine.DomainCase
import DpiEngine.Lib.Labels

/-!
# What a domain rule blocks

`isDomainBlocked` compares the characters at the ends of two names and the whole names, which
decides whether the labels of the one end with those of the other.  `blockDomain` files every rule
with a star among the patterns, and the comparison gives up a pattern that does not begin with `*.`,
so that such a rule blocks nothing.
-/

namespace DPI

open Bytes Labels

namespace RuleManager

theorem domainMatchesPattern_wildcard (d s : Str) :
    domainMatchesPattern d (0x2a :: 0x2e :: s) = true ↔ s.splitOn 0x2e <:+ d.splitOn 0x2e := by
  simp only [domainMatchesPattern, Bool.or_eq_true, decide_eq_true_iff, beq_iff_eq]
  rw [splitOn_suffix_iff, or_comm, eq_comm]

theorem toLower_wildcard (s : Str) : toLower (text "*." ++ s) = 0x2a :: 0x2e :: toLower s := rfl

/-- A manager whose only domain rule is a wildcard blocks the names whose labels end with the labels
of the rule. -/
theorem wildcard_blocks_iff {rm : RuleManager} {s : Str} (hdomains : rm.blockedDomains = ∅)
    (hpatterns : ∀ p, p ∈ rm.domainPatterns ↔ p = text "*." ++ s) (d : Str) :
    rm.isDomainBlocked d = true ↔ (toLower s).splitOn 0x2e <:+ (toLower d).splitOn 0x2e := by
  rw [isDomainBlocked_iff_mem_or, hdomains, or_iff_right (Finset.notMem_empty d), patternMatches,
    List.any_eq_true]
  simp only [hpatterns, exists_eq_left]
  rw [toLower_wildcard, domainMatchesPattern_wildcard]

theorem wildcard_blocks_subdomain :
    (({} : RuleManager).blockDomain (text "*.Facebook.com")).isDomainBlocked
        (text "www.facebook.com") = true ↔
      (toLower (text "Facebook.com")).splitOn 0x2e <:+
        (toLower (text "www.facebook.com")).splitOn 0x2e :=
  wildcard_blocks_iff (by decide) (by intro p; exact List.mem_singleton) (text "www.facebook.com")

/-! ## Rules without effect -/

/-- Only a pattern that begins with `*.` matches a name. -/
theorem wildcard_of_matches {d r : Str}
    (h : domainMatchesPattern (toLower d) (toLower r) = true) : text "*." <+: r := by
  match r with
  | [] => simp [toLower, domainMatchesPattern] at h
  | [a] => simp [toLower, domainMatchesPattern] at h
  | a :: b :: s =>
    by_cases hab : toLowerByte a = 0x2a ∧ toLowerByte b = 0x2e
    · rw [toLowerByte_eq_iff_of_not_letter (by decide) (by decide),
        toLowerByte_eq_iff_of_not_letter (by decide) (by decide)] at hab
      obtain ⟨rfl, rfl⟩ := hab
      exact ⟨s, rfl⟩
    · unfold domainMatchesPattern at h
      split at h
      · rename_i heq
        simp only [toLower, List.map_cons, List.cons.injEq] at heq
        exact absurd ⟨heq.1, heq.2.1⟩ hab
      · cases h

theorem wildcard_of_blocks {rm : RuleManager} {d r : Str} (hstar : 0x2a ∈ r)
    (h : (rm.clearAll.blockDomain r).isDomainBlocked d = true) : text "*." <+: r := by
  rw [isDomainBlocked_iff_mem_or, blockDomain, if_pos hstar] at h
  refine wildcard_of_matches (d := d) ?_
  simpa [clearAll, patternMatches] using h

/-- A rule blocks some name by itself exactly when it holds no star or begins with `*.`. -/
theorem blockDomain_effective_iff (rm : RuleManager) {r : Str} (hr : r ≠ []) :
    (∃ d, d ≠ [] ∧ (rm.clearAll.blockDomain r).isDomainBlocked d = true ∧
      (rm.blockDomain r).isDomainBlocked d = true) ↔ 0x2a ∉ r ∨ text "*." <+: r := by
  by_cases hstar : 0x2a ∈ r
  · rw [or_iff_right (not_not.2 hstar)]
    have hrule (rm : RuleManager) {d : Str}
        (h : domainMatchesPattern (toLower d) (toLower r) = true) :
        (rm.blockDomain r).isDomainBlocked d = true := by
      rw [isDomainBlocked_iff_mem_or, blockDomain, if_pos hstar, patternMatches, List.any_append,
        List.any_cons, h]
      simp
    constructor
    · rintro ⟨d, -, h, -⟩
      exact wildcard_of_blocks hstar h
    · rintro ⟨s, rfl⟩
      have hmatch :
          domainMatchesPattern (toLower (0x2e :: s)) (toLower (text "*." ++ s)) = true := by
        rw [toLower_wildcard, domainMatchesPattern, Bool.or_eq_true, decide_eq_true_iff]
        exact Or.inl (List.suffix_refl _)
      exact ⟨0x2e :: s, List.cons_ne_nil _ _, hrule _ hmatch, hrule _ hmatch⟩
  · exact iff_of_true ⟨r, hr, (isDomainBlocked_blockDomain_exact _ hstar r).2 (Or.inl rfl),
      (isDomainBlocked_blockDomain_exact _ hstar r).2 (Or.inl rfl)⟩ (Or.inl hstar)

theorem blockDomain_effective_wildcard :
    ∃ d, d ≠ [] ∧ (({} : RuleManager).clearAll.blockDomain (text "*.x")).isDomainBlocked d = true ∧
      (({} : RuleManager).blockDomain (text "*.x")).isDomainBlocked d = true :=
  (blockDomain_effective_iff {} (by decide)).2 (Or.inr (by decide))

/-- A rule with a star inside a label is accepted and blocks no name. -/
theorem inner_star_blocks_nothing :
    text "ads*.com" ≠ [] ∧ ¬ ∃ d, d ≠ [] ∧
      (({} : RuleManager).clearAll.blockDomain (text "ads*.com")).isDomainBlocked d = true ∧
      (({} : RuleManager).blockDomain (text "ads*.com")).isDomainBlocked d = true := by
  refine ⟨by decide, ?_⟩
  rintro ⟨d, -, h, -⟩
  exact absurd (wildcard_of_blocks (by decide) h) (by decide)

end RuleManager

end DPI
