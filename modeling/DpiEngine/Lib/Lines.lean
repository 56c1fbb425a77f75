import Mathlib.Tactic

/-!
# Lines of a text

A text read line by line: `lines` cuts it after every separator, and text after the last separator
is a line of its own.  `unlines` writes lines without escaping them, so what is read back of a line
that holds a separator is the line in pieces.
-/

namespace Lines

variable {α : Type*} [DecidableEq α] (sep : α)

/-- The lines of a text. -/
def lines : List α → List (List α)
  | [] => []
  | c :: rest =>
    if c = sep then [] :: lines rest
    else
      match lines rest with
      | [] => [[c]]
      | l :: ls => (c :: l) :: ls

/-- The text that ends each line with a separator. -/
def unlines (ls : List (List α)) : List α := ls.flatMap fun l => l ++ [sep]

variable {sep}

theorem lines_sep_cons (rest : List α) : lines sep (sep :: rest) = [] :: lines sep rest :=
  if_pos rfl

theorem lines_cons_of_ne {c : α} (h : c ≠ sep) (rest : List α) :
    lines sep (c :: rest) =
      match lines sep rest with
      | [] => [[c]]
      | l :: ls => (c :: l) :: ls := if_neg h

theorem lines_ne_nil {s : List α} (h : s ≠ []) : lines sep s ≠ [] := by
  cases s with
  | nil => exact absurd rfl h
  | cons c rest =>
    by_cases hc : c = sep
    · rw [hc, lines_sep_cons]
      exact List.cons_ne_nil _ _
    · rw [lines_cons_of_ne hc]
      cases lines sep rest <;> exact List.cons_ne_nil _ _

/-- A separator ends the lines of what precedes it.  The other facts follow from this one. -/
theorem lines_append_sep (s rest : List α) :
    lines sep (s ++ sep :: rest) = lines sep (s ++ [sep]) ++ lines sep rest := by
  induction s with
  | nil => rw [List.nil_append, List.nil_append, lines_sep_cons, lines_sep_cons]; rfl
  | cons c s ih =>
    rw [List.cons_append, List.cons_append]
    by_cases hc : c = sep
    · rw [hc, lines_sep_cons, lines_sep_cons, ih, List.cons_append]
    · rw [lines_cons_of_ne hc, lines_cons_of_ne hc, ih]
      cases hs : lines sep (s ++ [sep]) with
      | nil => exact absurd hs (lines_ne_nil (by simp))
      | cons l ls => rfl

/-- A line without a separator is read back as it was written. -/
theorem lines_append_singleton {l : List α} (h : sep ∉ l) : lines sep (l ++ [sep]) = [l] := by
  induction l with
  | nil => rw [List.nil_append, lines_sep_cons]; rfl
  | cons c l ih =>
    rw [List.mem_cons, not_or] at h
    rw [List.cons_append, lines_cons_of_ne (Ne.symm h.1), ih h.2]

theorem lines_cons_line {l : List α} (h : sep ∉ l) (rest : List α) :
    lines sep (l ++ sep :: rest) = l :: lines sep rest := by
  rw [lines_append_sep, lines_append_singleton h]
  rfl

/-- The pieces in which a line is read back. -/
def pieces (sep : α) (l : List α) : List (List α) := lines sep (l ++ [sep])

theorem lines_unlines_append (ls : List (List α)) (rest : List α) :
    lines sep (unlines sep ls ++ rest) = ls.flatMap (pieces sep) ++ lines sep rest := by
  induction ls with
  | nil => rfl
  | cons l ls ih =>
    rw [unlines, List.flatMap_cons, List.flatMap_cons, List.append_assoc, List.append_assoc,
      List.append_assoc, ← ih, List.singleton_append, lines_append_sep]
    rfl

/-- Lines without separators are read back as they were written. -/
theorem flatMap_pieces {ls : List (List α)} (h : ∀ l ∈ ls, sep ∉ l) :
    ls.flatMap (pieces sep) = ls := by
  induction ls with
  | nil => rfl
  | cons l ls ih =>
    rw [List.flatMap_cons, pieces, lines_append_singleton (h l List.mem_cons_self),
      ih fun x hx => h x (List.mem_cons_of_mem _ hx)]
    rfl

end Lines
