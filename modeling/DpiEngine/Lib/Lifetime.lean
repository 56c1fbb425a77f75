import DpiEngine.Lib.Run

/-!
# Lifetimes

A finite set that changes along a run.  An element lives from a step that puts it into the set until
a step that takes it out, and steps count elements of the set.  What is counted at most once in each
lifetime is counted at most as often as elements are put in.
-/

namespace Lifetime

variable {S L K : Type*}

/-- The element is in the set after each of the steps. -/
def Lives (keys : S → Finset K) (k : K) (ts : List (Taken S L)) : Prop :=
  ∀ t ∈ ts, k ∈ keys t.post

/-- The element is counted in the lifetime that lasts at the end of the steps. -/
def Marked (keys : S → Finset K) (counted : Taken S L → Option K) (ts : List (Taken S L)) (k : K) :
    Prop :=
  ∃ us, us <:+ ts ∧ Lives keys k us ∧ ∃ t ∈ us, counted t = some k

def countings (counted : Taken S L → Option K) (ts : List (Taken S L)) : ℕ :=
  ts.countP fun t => (counted t).isSome

variable {keys : S → Finset K} {counted : Taken S L → Option K} {ts us : List (Taken S L)}
  {t : Taken S L} {k : K}

theorem Lives.concat (h : Lives keys k us) (ht : k ∈ keys t.post) :
    Lives keys k (us ++ [t]) := by
  intro u hu
  rcases List.mem_append.1 hu with hu | hu
  · exact h u hu
  · rwa [List.mem_singleton.1 hu]

theorem Marked.concat (h : Marked keys counted ts k) (ht : k ∈ keys t.post) :
    Marked keys counted (ts ++ [t]) k := by
  obtain ⟨us, ⟨before, rfl⟩, hlives, u, hu, hcount⟩ := h
  exact ⟨us ++ [t], ⟨before, (List.append_assoc _ _ _).symm⟩, hlives.concat ht, u,
    List.mem_append_left _ hu, hcount⟩

theorem marked_of_counted (hcount : counted t = some k) (ht : k ∈ keys t.post) :
    Marked keys counted (ts ++ [t]) k := by
  refine ⟨[t], List.suffix_append ts [t], ?_, t, List.mem_singleton_self t, hcount⟩
  intro u hu
  rwa [List.mem_singleton.1 hu]

theorem countings_concat :
    countings counted (ts ++ [t]) = countings counted ts + (counted t).toList.length := by
  rw [countings, List.countP_append, List.countP_singleton]
  cases counted t <;> rfl

theorem countings_eq_sum :
    countings counted ts = (ts.map fun t => (counted t).toList.length).sum := by
  induction ts using List.reverseRecOn with
  | nil => rfl
  | append_singleton ts t ih => rw [countings_concat, ih, List.map_append, List.sum_append]; rfl

variable [DecidableEq K]

/-- How many elements the steps put into the set. -/
def created (keys : S → Finset K) (ts : List (Taken S L)) : ℕ :=
  (ts.map fun t => (keys t.post \ keys t.pre).card).sum

def timesCounted (counted : Taken S L → Option K) (k : K) (ts : List (Taken S L)) : ℕ :=
  ts.countP fun t => counted t = some k

/-- No element is counted twice in one lifetime. -/
def OncePerLife (keys : S → Finset K) (counted : Taken S L → Option K) (ts : List (Taken S L)) :
    Prop :=
  ∀ k us, us <:+: ts → Lives keys k us → timesCounted counted k us ≤ 1

theorem created_concat :
    created keys (ts ++ [t]) = created keys ts + (keys t.post \ keys t.pre).card := by
  simp [created]

theorem OncePerLife.of_append (h : OncePerLife keys counted (ts ++ us)) :
    OncePerLife keys counted ts :=
  fun k vs hvs => h k vs (hvs.trans (List.prefix_append ts us).isInfix)

theorem OncePerLife.not_marked (h : OncePerLife keys counted (ts ++ [t]))
    (hcount : counted t = some k) (ht : k ∈ keys t.post) : ¬ Marked keys counted ts k := by
  rintro ⟨us, ⟨before, rfl⟩, hlives, u, hu, hcount'⟩
  have hinfix : us ++ [t] <:+: before ++ us ++ [t] :=
    ⟨before, [], by rw [List.append_nil, List.append_assoc]⟩
  have honce := h k (us ++ [t]) hinfix (hlives.concat ht)
  have hus : 0 < us.countP fun t => counted t = some k :=
    List.countP_pos_iff.2 ⟨u, hu, decide_eq_true hcount'⟩
  rw [timesCounted, List.countP_append, List.countP_singleton, if_pos (decide_eq_true hcount)]
    at honce
  omega

open Classical in
/-- One step: the elements that are not counted yet make up for those that are. -/
theorem card_unmarked_concat (h : OncePerLife keys counted (ts ++ [t]))
    (hmem : ∀ k, counted t = some k → k ∈ keys t.post) :
    (counted t).toList.length +
        ((keys t.post).filter fun k => ¬ Marked keys counted (ts ++ [t]) k).card ≤
      ((keys t.pre).filter fun k => ¬ Marked keys counted ts k).card +
        (keys t.post \ keys t.pre).card := by
  have hsub : ((keys t.post).filter fun k => ¬ Marked keys counted (ts ++ [t]) k) ⊆
      ((keys t.pre).filter fun k => ¬ Marked keys counted ts k) ∪ (keys t.post \ keys t.pre) := by
    intro k hk
    obtain ⟨hpost, hk⟩ := Finset.mem_filter.1 hk
    by_cases hpre : k ∈ keys t.pre
    · exact Finset.mem_union_left _ (Finset.mem_filter.2 ⟨hpre, fun hm => hk (hm.concat hpost)⟩)
    · exact Finset.mem_union_right _ (Finset.mem_sdiff.2 ⟨hpost, hpre⟩)
  refine le_trans ?_ (Finset.card_union_le _ _)
  cases hcount : counted t with
  | none =>
    rw [Option.toList_none, List.length_nil, Nat.zero_add]
    exact Finset.card_le_card hsub
  | some k =>
    have hpost := hmem k hcount
    -- the element that is counted was there without a mark, or is new
    have hold : k ∈ ((keys t.pre).filter fun k => ¬ Marked keys counted ts k) ∪
        (keys t.post \ keys t.pre) := by
      by_cases hpre : k ∈ keys t.pre
      · exact Finset.mem_union_left _
          (Finset.mem_filter.2 ⟨hpre, h.not_marked hcount hpost⟩)
      · exact Finset.mem_union_right _ (Finset.mem_sdiff.2 ⟨hpost, hpre⟩)
    rw [Option.toList_some, List.length_singleton, ← Finset.card_erase_add_one hold, Nat.add_comm]
    refine Nat.succ_le_succ (Finset.card_le_card fun k' hk' => ?_)
    refine Finset.mem_erase.2 ⟨?_, hsub hk'⟩
    rintro rfl
    exact (Finset.mem_filter.1 hk').2 (marked_of_counted hcount hpost)

/-- What is counted once in each lifetime is counted at most as often as elements are put in. -/
theorem countings_le_created {step : S → L → S → Prop} {s s' : S} (hrun : Run step s ts s')
    (hempty : keys s = ∅) (hmem : ∀ t ∈ ts, ∀ k, counted t = some k → k ∈ keys t.post)
    (honce : OncePerLife keys counted ts) : countings counted ts ≤ created keys ts := by
  classical
  have hstrong : countings counted ts +
      ((keys s').filter fun k => ¬ Marked keys counted ts k).card ≤ created keys ts := by
    induction ts using List.reverseRecOn generalizing s' with
    | nil =>
      cases hrun
      simp [countings, created, hempty]
    | append_singleton ts t ih =>
      obtain ⟨m, hfirst, hlast⟩ := Run.append_iff.1 hrun
      cases hlast with
      | cons hstep hnil =>
        cases hnil
        have hbefore := ih hfirst (fun u hu => hmem u (List.mem_append_left _ hu)) honce.of_append
        have hone := card_unmarked_concat honce (hmem _ (by simp))
        rw [countings_concat, created_concat]
        dsimp only at hone ⊢
        omega
  omega

/-! ## Twice in one lifetime -/

/-- What is found twice in a list is found first and last in a part of it. -/
theorem exists_twice {α : Type*} {p : α → Bool} {l : List α} (h : 2 ≤ l.countP p) :
    ∃ a mid b, a :: mid ++ [b] <:+: l ∧ p a = true ∧ p b = true := by
  induction l with
  | nil => simp at h
  | cons a l ih =>
    by_cases ha : p a = true
    · rw [List.countP_cons_of_pos ha] at h
      obtain ⟨b, hb, hpb⟩ := List.countP_pos_iff.1 (show 0 < l.countP p by omega)
      obtain ⟨mid, after, rfl⟩ := List.append_of_mem hb
      exact ⟨a, mid, b, ⟨[], after, by simp⟩, ha, hpb⟩
    · rw [List.countP_cons_of_neg ha] at h
      obtain ⟨b, mid, c, hin, hb, hc⟩ := ih h
      exact ⟨b, mid, c, hin.trans (List.suffix_cons a l).isInfix, hb, hc⟩

theorem oncePerLife_iff : OncePerLife keys counted ts ↔
    ∀ k t mid u, t :: mid ++ [u] <:+: ts → Lives keys k (t :: mid ++ [u]) →
      counted t = some k → counted u ≠ some k := by
  constructor
  · intro h k t mid u hin hlives ht hu
    have honce := h k _ hin hlives
    simp only [timesCounted, List.countP_append, List.countP_cons, List.countP_nil, ht, hu,
      decide_true, if_true] at honce
    omega
  · intro h k us hin hlives
    by_contra htwice
    obtain ⟨t, mid, u, hpart, ht, hu⟩ := exists_twice (not_le.1 htwice)
    exact h k t mid u (hpart.trans hin) (fun v hv => hlives v (hpart.subset hv))
      (of_decide_eq_true ht) (of_decide_eq_true hu)

end Lifetime
