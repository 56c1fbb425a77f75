import Mathlib.Tactic

/-!
# Labels of a name

A name is a text whose labels stand between separators, and `List.splitOn` gives the list of them.
A name ends with another one at a label boundary iff the labels of the one are a suffix of the
labels of the other, and it holds another one between two boundaries iff they are an infix.
-/

namespace Labels

variable {α : Type*} {sep : α} {s t : List α}

theorem intercalate_append {ls ls' : List (List α)} (h : ls ≠ []) (h' : ls' ≠ []) :
    [sep].intercalate (ls ++ ls') = [sep].intercalate ls ++ sep :: [sep].intercalate ls' := by
  induction ls with
  | nil => exact absurd rfl h
  | cons l ls ih =>
    by_cases hls : ls = []
    · rw [hls, List.singleton_append, List.intercalate_cons_of_ne_nil h',
        List.intercalate_singleton, List.append_assoc, List.singleton_append]
    · rw [List.cons_append, List.intercalate_cons_of_ne_nil (by simp [hls]), ih hls,
        List.intercalate_cons_of_ne_nil hls, List.append_assoc (l ++ [sep])]

/-- Labels that are not empty make a name that is not empty. -/
theorem intercalate_ne_nil {ls : List (List α)} (h : ls ≠ []) (hl : ∀ l ∈ ls, l ≠ []) :
    [sep].intercalate ls ≠ [] := by
  obtain ⟨l, rest, rfl⟩ := List.exists_cons_of_ne_nil h
  obtain ⟨c, l', rfl⟩ := List.exists_cons_of_ne_nil (hl l List.mem_cons_self)
  rw [List.intercalate_cons_cons_left]
  exact List.cons_ne_nil _ _

/-- `s` stands in `t` between two label boundaries, which are the ends of `t` and its separators. -/
def Within (sep : α) (s t : List α) : Prop :=
  ∃ before after, t = before ++ (s ++ after) ∧ (before = [] ∨ ∃ init, before = init ++ [sep]) ∧
    (after = [] ∨ ∃ tail, after = sep :: tail)

variable [DecidableEq α]

/-- The labels of `s` end those of `t` iff `s` is `t` or follows a separator at the end of `t`. -/
theorem splitOn_suffix_iff : s.splitOn sep <:+ t.splitOn sep ↔ s = t ∨ sep :: s <:+ t := by
  constructor
  · rintro ⟨init, h⟩
    have hjoin := congrArg [sep].intercalate h
    rw [List.intercalate_splitOn] at hjoin
    by_cases hinit : init = []
    · rw [hinit, List.nil_append, List.intercalate_splitOn] at hjoin
      exact Or.inl hjoin
    · rw [intercalate_append hinit (List.splitOn_ne_nil _ _), List.intercalate_splitOn] at hjoin
      exact Or.inr ⟨_, hjoin⟩
  · rintro (rfl | ⟨init, rfl⟩)
    · exact List.suffix_rfl
    · rw [List.splitOn_append_cons_self]
      exact List.suffix_append _ _

theorem within_iff : Within sep s t ↔ s.splitOn sep <:+: t.splitOn sep := by
  constructor
  · rintro ⟨before, after, rfl, hbefore, hafter⟩
    have hright : s.splitOn sep <+: (s ++ after).splitOn sep := by
      rcases hafter with rfl | ⟨tail, rfl⟩
      · rw [List.append_nil]
      · rw [List.splitOn_append_cons_self]
        exact List.prefix_append _ _
    rcases hbefore with rfl | ⟨init, rfl⟩
    · exact hright.isInfix
    · rw [List.append_assoc, List.singleton_append, List.splitOn_append_cons_self]
      exact hright.isInfix.trans (List.suffix_append _ _).isInfix
  · rintro ⟨init, tail, h⟩
    have hs := List.splitOn_ne_nil sep s
    have hjoin := congrArg [sep].intercalate h
    rw [List.intercalate_splitOn, List.append_assoc] at hjoin
    -- the part from `s` on
    have hright : ∃ after, [sep].intercalate (s.splitOn sep ++ tail) = s ++ after ∧
        (after = [] ∨ ∃ rest, after = sep :: rest) := by
      by_cases htail : tail = []
      · exact ⟨[], by simp [htail], Or.inl rfl⟩
      · refine ⟨sep :: [sep].intercalate tail, ?_, Or.inr ⟨_, rfl⟩⟩
        rw [intercalate_append hs htail, List.intercalate_splitOn]
    obtain ⟨after, hafter, hend⟩ := hright
    by_cases hinit : init = []
    · rw [hinit, List.nil_append, hafter] at hjoin
      exact ⟨[], after, hjoin.symm, Or.inl rfl, hend⟩
    · rw [intercalate_append hinit (by simp [hs]), hafter] at hjoin
      refine ⟨[sep].intercalate init ++ [sep], after, ?_, Or.inr ⟨_, rfl⟩, hend⟩
      rw [← hjoin, List.append_assoc, List.singleton_append]

instance (sep : α) (s t : List α) : Decidable (Within sep s t) :=
  decidable_of_iff _ within_iff.symm

end Labels
