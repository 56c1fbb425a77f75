import Mathlib.Tactic
import Mathlib.Data.List.Count

/-!
# Sets under edits

Additions, removals and clearings of elements, as a list of edits.  `Stands` is what a set promises
about an element: some addition of it is not cancelled later.  A container that keeps copies
promises less: an element is in it while a stretch of edits at the end adds it more often than it
removes it.
-/

inductive Edit (R : Type*) where
  | add (r : R)
  | remove (r : R)
  | clear
  deriving DecidableEq

namespace Edit

variable {R S : Type*}

/-- The edit takes `r` out of a set. -/
def Cancels (e : Edit R) (r : R) : Prop := e = .remove r ∨ e = .clear

/-- Some addition of `r` is followed by no edit that cancels it. -/
def Stands (es : List (Edit R)) (r : R) : Prop :=
  ∃ before after, es = before ++ .add r :: after ∧ ∀ e ∈ after, ¬ e.Cancels r

theorem not_stands_nil (r : R) : ¬ Stands [] r := by
  rintro ⟨before, after, h, -⟩
  simp at h

theorem stands_snoc {es : List (Edit R)} {e : Edit R} {r : R} :
    Stands (es ++ [e]) r ↔ e = .add r ∨ Stands es r ∧ ¬ e.Cancels r := by
  constructor
  · rintro ⟨before, after, h, hafter⟩
    rcases List.eq_nil_or_concat after with rfl | ⟨init, last, rfl⟩
    · exact Or.inl (List.append_inj_right' h rfl |> List.singleton_inj.1)
    · rw [List.concat_eq_append, ← List.cons_append, ← List.append_assoc] at h
      obtain ⟨rfl, hlast⟩ := List.append_inj' h rfl
      obtain rfl := List.singleton_inj.1 hlast
      rw [List.concat_eq_append] at hafter
      refine Or.inr ⟨⟨before, init, rfl, ?_⟩, hafter _ (by simp)⟩
      exact fun x hx => hafter x (List.mem_append_left _ hx)
  · rintro (rfl | ⟨⟨before, after, rfl, hafter⟩, he⟩)
    · exact ⟨es, [], rfl, by simp⟩
    · refine ⟨before, after ++ [e], by simp, ?_⟩
      simpa [or_imp, forall_and] using ⟨hafter, he⟩

/-! ## Sets -/

/-- An edit of `r` decides whether `r` is held, and every other edit but a clearing leaves it as it
was. -/
def KeepsSet (apply : S → Edit R → S) (holds : S → R → Prop) (r : R) : Prop :=
  ∀ s e, holds (apply s e) r ↔ e = .add r ∨ holds s r ∧ ¬ e.Cancels r

/-- A container that keeps a set holds what stands. -/
theorem KeepsSet.holds_foldl {apply : S → Edit R → S} {holds : S → R → Prop} {r : R}
    (h : KeepsSet apply holds r) {s : S} (hs : ¬ holds s r) (es : List (Edit R)) :
    holds (es.foldl apply s) r ↔ Stands es r := by
  induction es using List.reverseRecOn with
  | nil => exact iff_of_false hs (not_stands_nil r)
  | append_singleton es e ih => rw [List.foldl_append, List.foldl_cons, List.foldl_nil, h, ih,
      stands_snoc]

/-! ## Copies -/

variable [DecidableEq R]

/-- The number of copies of `r` after one more edit. -/
def recount (r : R) (n : ℕ) : Edit R → ℕ
  | .add x => if x = r then n + 1 else n
  | .remove x => if x = r then n - 1 else n
  | .clear => 0

/-- The number of copies of `r` that the edits leave. -/
def copies (r : R) (es : List (Edit R)) : ℕ := es.foldl (recount r) 0

/-- At the end of `es`, and since the last clearing, `r` is added at least `n` times more than it
is removed. -/
def Surplus (es : List (Edit R)) (r : R) (n : ℕ) : Prop :=
  ∃ last, last <:+ es ∧ .clear ∉ last ∧ last.count (.remove r) + n ≤ last.count (.add r)

theorem surplus_snoc {es : List (Edit R)} {e : Edit R} {r : R} {n : ℕ} (hn : 0 < n) :
    Surplus (es ++ [e]) r n ↔ ∃ last, last <:+ es ∧ .clear ∉ last ∧ e ≠ .clear ∧
      (last ++ [e]).count (.remove r) + n ≤ (last ++ [e]).count (.add r) := by
  constructor
  · rintro ⟨last, hlast, hclear, hcount⟩
    rcases List.eq_nil_or_concat last with rfl | ⟨init, x, rfl⟩
    · simp at hcount
      omega
    · rw [List.concat_eq_append] at hlast hclear hcount
      obtain ⟨before, hbefore⟩ := hlast
      rw [← List.append_assoc] at hbefore
      obtain ⟨rfl, hx⟩ := List.append_inj' hbefore rfl
      obtain rfl := List.singleton_inj.1 hx
      refine ⟨init, List.suffix_append _ _, fun h => hclear (List.mem_append_left _ h), ?_, hcount⟩
      rintro rfl
      exact hclear (by simp)
  · rintro ⟨last, hlast, hclear, he, hcount⟩
    refine ⟨last ++ [e], ?_, ?_, hcount⟩
    · obtain ⟨before, rfl⟩ := hlast
      exact ⟨before, by simp⟩
    · simpa [hclear] using he.symm

theorem surplus_snoc_add {es : List (Edit R)} {r : R} {n : ℕ} :
    Surplus (es ++ [.add r]) r (n + 1) ↔ n = 0 ∨ Surplus es r n := by
  have hcount (last : List (Edit R)) :
      (last ++ [Edit.add r]).count (.remove r) + (n + 1) ≤ (last ++ [Edit.add r]).count (.add r) ↔
        last.count (.remove r) + n ≤ last.count (.add r) := by
    simp only [List.count_append, List.count_singleton]
    simp
    omega
  rw [surplus_snoc n.succ_pos]
  simp only [hcount, ne_eq, reduceCtorEq, not_false_eq_true, true_and]
  refine ⟨Or.inr, ?_⟩
  rintro (rfl | h)
  · exact ⟨[], List.nil_suffix, by simp, by simp⟩
  · exact h

theorem surplus_snoc_remove {es : List (Edit R)} {r : R} {n : ℕ} (hn : 0 < n) :
    Surplus (es ++ [.remove r]) r n ↔ Surplus es r (n + 1) := by
  have hcount (last : List (Edit R)) :
      (last ++ [Edit.remove r]).count (.remove r) + n ≤ (last ++ [Edit.remove r]).count (.add r) ↔
        last.count (.remove r) + (n + 1) ≤ last.count (.add r) := by
    simp only [List.count_append, List.count_singleton]
    simp
    omega
  rw [surplus_snoc hn]
  simp only [hcount, ne_eq, reduceCtorEq, not_false_eq_true, true_and]
  exact Iff.rfl

theorem not_surplus_snoc_clear {es : List (Edit R)} {r : R} {n : ℕ} (hn : 0 < n) :
    ¬ Surplus (es ++ [.clear]) r n := by
  rw [surplus_snoc hn]
  rintro ⟨_, _, _, hc, _⟩
  exact hc rfl

/-- An edit of another element changes no surplus. -/
theorem surplus_snoc_of_ne {es : List (Edit R)} {e : Edit R} {r : R} {n : ℕ} (hn : 0 < n)
    (hc : e ≠ .clear) (ha : e ≠ .add r) (hr : e ≠ .remove r) :
    Surplus (es ++ [e]) r n ↔ Surplus es r n := by
  rw [surplus_snoc hn]
  simp only [List.count_append, List.count_singleton, beq_iff_eq, ha, hr, if_false, Nat.add_zero]
  exact exists_congr fun last => and_congr_right fun _ => and_congr_right fun _ => and_iff_right hc

/-- There are `n` copies of an element iff it has a surplus of `n` additions. -/
theorem le_copies_iff (r : R) (es : List (Edit R)) {n : ℕ} (hn : 0 < n) :
    n ≤ copies r es ↔ Surplus es r n := by
  induction es using List.reverseRecOn generalizing n with
  | nil =>
    apply iff_of_false
    · simp [copies]
      omega
    · rintro ⟨last, hlast, -, hcount⟩
      rw [List.suffix_nil.1 hlast] at hcount
      simp at hcount
      omega
  | append_singleton es e ih =>
    have hcopies : copies r (es ++ [e]) = recount r (copies r es) e := by
      rw [copies, List.foldl_append]
      rfl
    rw [hcopies]
    cases e with
    | add x =>
      by_cases hx : x = r
      · subst hx
        obtain ⟨k, rfl⟩ := Nat.exists_eq_add_of_lt hn
        rw [Nat.zero_add, surplus_snoc_add, recount, if_pos rfl, Nat.add_le_add_iff_right]
        rcases Nat.eq_zero_or_pos k with rfl | hk
        · exact iff_of_true (Nat.zero_le _) (Or.inl rfl)
        · exact (ih hk).trans (or_iff_right hk.ne').symm
      · rw [recount, if_neg hx, ih hn]
        exact (surplus_snoc_of_ne (e := .add x) hn nofun (by simpa using hx) nofun).symm
    | remove x =>
      by_cases hx : x = r
      · subst hx
        rw [surplus_snoc_remove hn, ← ih n.succ_pos, recount, if_pos rfl]
        omega
      · rw [recount, if_neg hx, ih hn]
        exact (surplus_snoc_of_ne (e := .remove x) hn nofun nofun (by simpa using hx)).symm
    | clear => exact iff_of_false (by rw [recount]; omega) (not_surplus_snoc_clear hn)

/-- An element that stands has a copy. -/
theorem surplus_of_stands {es : List (Edit R)} {r : R} (h : Stands es r) : Surplus es r 1 := by
  obtain ⟨before, after, rfl, hafter⟩ := h
  refine ⟨.add r :: after, List.suffix_append _ _, ?_, ?_⟩
  · intro hmem
    rcases List.mem_cons.1 hmem with h | h
    · cases h
    · exact hafter _ h (Or.inr rfl)
  · have hremove : after.count (.remove r) = 0 :=
      List.count_eq_zero.2 fun h => hafter _ h (Or.inl rfl)
    simp [hremove]

end Edit
