import DpiEngine.Types
import DpiEngine.Lib.Labels

/-!
# Applications of host names

`sniToAppType` takes the first application one of whose patterns occurs anywhere in the name.  A
pattern that is a domain, such as `x.com`, occurs in other domains as well, across the boundaries of
their labels, and its application is then taken before the patterns of later ones are tried.
-/

namespace DPI

open Bytes Labels

/-- Some pattern of the application occurs in the name. -/
def Occurs (row : AppType × List String) (name : Str) : Prop := ∃ p ∈ row.2, text p <:+: name

/-- The name is one of the application: a pattern of it occurs, and one with a dot as whole
labels. -/
def OwnName (row : AppType × List String) (name : Str) : Prop :=
  ∃ p ∈ row.2, text p <:+: name ∧ (0x2e ∈ text p → Within 0x2e (text p) name)

instance (row : AppType × List String) (name : Str) : Decidable (Occurs row name) :=
  inferInstanceAs (Decidable (∃ p ∈ row.2, _))

instance (row : AppType × List String) (name : Str) : Decidable (OwnName row name) :=
  inferInstanceAs (Decidable (∃ p ∈ row.2, _))

theorem any_contains_iff (row : AppType × List String) (name : Str) :
    (row.2.any fun p => contains name (text p)) = true ↔ Occurs row name := by
  simp only [List.any_eq_true, contains, decide_eq_true_iff]
  rfl

/-- Every application has its patterns in one place, and the two fallbacks have none. -/
theorem appPatterns_distinct :
    (∀ row ∈ appPatterns, ∀ row' ∈ appPatterns, row.1 = row'.1 → row = row') ∧
      ∀ row ∈ appPatterns, row.1 ≠ .unknown ∧ row.1 ≠ .https := by decide

/-- An application is taken when a pattern of it occurs and no pattern of an earlier one does. -/
theorem sniToAppType_eq_iff {row : AppType × List String} (hrow : row ∈ appPatterns) (s : Str) :
    sniToAppType s = row.1 ↔ s ≠ [] ∧ Occurs row (toLower s) ∧ ∃ before after,
      appPatterns = before ++ row :: after ∧ ∀ r ∈ before, ¬ Occurs r (toLower s) := by
  obtain ⟨hinj, hnone⟩ := appPatterns_distinct
  obtain ⟨hunknown, hhttps⟩ := hnone row hrow
  rw [sniToAppType]
  by_cases hs : s = []
  · rw [if_pos (by simp [hs])]
    exact iff_of_false (Ne.symm hunknown) fun h => h.1 hs
  rw [if_neg (by simpa using hs)]
  have hfind : (appPatterns.find? fun r => r.2.any fun p => contains (toLower s) (text p)) =
      some row ↔ Occurs row (toLower s) ∧ ∃ before after,
        appPatterns = before ++ row :: after ∧ ∀ r ∈ before, ¬ Occurs r (toLower s) := by
    rw [List.find?_eq_some_iff_append, any_contains_iff]
    simp only [Bool.not_eq_true', ← Bool.not_eq_true, any_contains_iff]
  rw [and_iff_right hs, ← hfind]
  dsimp only
  cases hx : appPatterns.find? fun r => r.2.any fun p => contains (toLower s) (text p) with
  | none => exact iff_of_false (Ne.symm hhttps) nofun
  | some r =>
    refine ⟨fun h => ?_, fun h => congrArg Prod.fst (Option.some.inj h)⟩
    rw [hinj r (List.mem_of_find?_eq_some hx) row hrow h]

/-- A host is classified by a name of the application itself exactly when every domain among the
patterns that occurs in it is a pattern of an application it is a name of, or comes after a pattern
of another application that occurs as well. -/
theorem own_name_iff (s : Str) :
    (∀ row ∈ appPatterns, sniToAppType s = row.1 → OwnName row (toLower s)) ↔
      ∀ before row after p, appPatterns = before ++ row :: after → p ∈ row.2 → 0x2e ∈ text p →
        text p <:+: toLower s →
        OwnName row (toLower s) ∨ ∃ r ∈ before, Occurs r (toLower s) := by
  constructor
  · intro h before row after p hsplit hp hdot hoccurs
    have hrow : row ∈ appPatterns := hsplit ▸ List.mem_append_right _ List.mem_cons_self
    refine or_iff_not_imp_right.2 fun hnone => h row hrow ?_
    rw [not_exists] at hnone
    refine (sniToAppType_eq_iff hrow s).2 ⟨?_, ⟨p, hp, hoccurs⟩, before, after, hsplit, ?_⟩
    · rintro rfl
      rw [List.infix_nil.1 hoccurs] at hdot
      cases hdot
    · exact fun r hr hr' => hnone r ⟨hr, hr'⟩
  · intro h row hrow happ
    obtain ⟨-, ⟨p, hp, hoccurs⟩, before, after, hsplit, hfirst⟩ :=
      (sniToAppType_eq_iff hrow s).1 happ
    by_cases hdot : 0x2e ∈ text p
    · refine (h before row after p hsplit hp hdot hoccurs).resolve_right ?_
      rintro ⟨r, hr, hr'⟩
      exact hfirst r hr hr'
    · exact ⟨p, hp, hoccurs, fun h => absurd h hdot⟩

/-- Hosts of Netflix and Microsoft are classified as Twitter, by `x.com` and by `t.co`. -/
theorem straddling_pattern :
    sniToAppType (text "www.netflix.com") = .twitter ∧
      sniToAppType (text "www.microsoft.com") = .twitter ∧
      ¬ ∀ row ∈ appPatterns, sniToAppType (text "www.netflix.com") = row.1 →
        OwnName row (toLower (text "www.netflix.com")) := by
  decide +kernel

end DPI
