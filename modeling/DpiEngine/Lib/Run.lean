import Mathlib.Tactic

/-!
# Runs of a transition system

A run records the steps it takes, each with the states before and after it, so a statement can be
about every step of a run.  `Run.invariant` is the induction rule; its side condition `C` may use
that every step taken satisfies `C`.
-/

variable {S L : Type*}

/-- A step taken in a run. -/
structure Taken (S L : Type*) where
  pre : S
  label : L
  post : S

/-- `Run step s ts s'`: the steps `ts` lead from `s` to `s'`. -/
inductive Run (step : S → L → S → Prop) : S → List (Taken S L) → S → Prop
  | nil (s : S) : Run step s [] s
  | cons {s s' s'' : S} {l : L} {ts : List (Taken S L)} :
      step s l s' → Run step s' ts s'' → Run step s (⟨s, l, s'⟩ :: ts) s''

/-- `s` is reached by a run from an initial state. -/
def Reachable (init : S → Prop) (step : S → L → S → Prop) (s : S) : Prop :=
  ∃ s₀ ts, init s₀ ∧ Run step s₀ ts s

namespace Run

variable {step : S → L → S → Prop} {s s' : S} {ts : List (Taken S L)}

theorem snoc {l : L} {s'' : S} (h : Run step s ts s') (hs : step s' l s'') :
    Run step s (ts ++ [⟨s', l, s''⟩]) s'' := by
  induction h with
  | nil s => exact .cons hs (.nil _)
  | cons h₁ _ ih => exact .cons h₁ (ih hs)

/-- What holds at the start and is preserved by every step that satisfies `C` holds before and
after every step, and at the end. -/
theorem invariant (I : S → Prop) (C : Taken S L → Prop)
    (hstep : ∀ s l s', step s l s' → C ⟨s, l, s'⟩ → I s → I s') (h : Run step s ts s')
    (hC : ∀ t ∈ ts, C t) (hs : I s) : I s' ∧ ∀ t ∈ ts, I t.pre ∧ I t.post := by
  induction h with
  | nil s => exact ⟨hs, by simp⟩
  | cons h₁ _ ih =>
    have hs' := hstep _ _ _ h₁ (hC _ (by simp)) hs
    obtain ⟨hend, hall⟩ := ih (fun t ht => hC t (by simp [ht])) hs'
    refine ⟨hend, fun t ht => ?_⟩
    rcases List.mem_cons.1 ht with rfl | ht
    · exact ⟨hs, hs'⟩
    · exact hall t ht

/-- Every step of a run is a step of the system. -/
theorem step_of_mem (h : Run step s ts s') {t : Taken S L} (ht : t ∈ ts) :
    step t.pre t.label t.post := by
  induction h with
  | nil s => cases ht
  | cons h₁ _ ih =>
    rcases List.mem_cons.1 ht with rfl | ht
    · exact h₁
    · exact ih ht

end Run

theorem Reachable.start {init : S → Prop} {step : S → L → S → Prop} {s : S} (h : init s) :
    Reachable init step s := ⟨s, [], h, .nil s⟩

theorem Reachable.step {init : S → Prop} {step : S → L → S → Prop} {s s' : S} {l : L}
    (h : Reachable init step s) (hs : step s l s') : Reachable init step s' := by
  obtain ⟨s₀, ts, h₀, hrun⟩ := h
  exact ⟨s₀, _, h₀, hrun.snoc hs⟩

/-- An inductive invariant holds in every reachable state. -/
theorem Reachable.invariant {init : S → Prop} {step : S → L → S → Prop} {s : S} (I : S → Prop)
    (hinit : ∀ s, init s → I s) (hstep : ∀ s l s', step s l s' → I s → I s')
    (h : Reachable init step s) : I s := by
  obtain ⟨s₀, ts, h₀, hrun⟩ := h
  exact (hrun.invariant I (fun _ => True) (fun s l s' hs _ => hstep s l s' hs)
    (fun _ _ => trivial) (hinit s₀ h₀)).1

/-! ## Two moments of a run -/

namespace Run

variable {step : S → L → S → Prop} {s s' : S} {ts : List (Taken S L)} {R : S → S → Prop}

/-- A transitive relation that every step keeps holds between any two moments of a run, the earlier
one first. -/
theorem pairwise (htrans : ∀ a b c, R a b → R b c → R a c)
    (h : Run step s ts s') (hR : ∀ t ∈ ts, R t.pre t.post) :
    (s :: ts.map Taken.post).Pairwise R := by
  induction h with
  | nil s => exact List.pairwise_singleton R s
  | @cons s s₁ s' l ts _ _ ih =>
    have hrest := ih fun t ht => hR t (List.mem_cons_of_mem _ ht)
    have hfirst : R s s₁ := hR _ List.mem_cons_self
    rw [List.map_cons, List.pairwise_cons, List.forall_mem_cons]
    refine ⟨⟨hfirst, fun x hx => htrans _ _ _ hfirst ?_⟩, hrest⟩
    exact (List.pairwise_cons.1 hrest).1 x hx

/-- What holds between any two moments holds across every step. -/
theorem of_pairwise (h : Run step s ts s') (hR : (s :: ts.map Taken.post).Pairwise R) :
    ∀ t ∈ ts, R t.pre t.post := by
  induction h with
  | nil s => simp
  | cons _ _ ih =>
    rw [List.map_cons] at hR
    rw [List.forall_mem_cons]
    exact ⟨(List.pairwise_cons.1 hR).1 _ List.mem_cons_self, ih (List.pairwise_cons.1 hR).2⟩

/-- The moments before the steps are among all moments. -/
theorem pre_sublist (h : Run step s ts s') :
    (ts.map Taken.pre).Sublist (s :: ts.map Taken.post) := by
  induction h with
  | nil s => exact List.nil_sublist _
  | cons _ _ ih => exact ih.cons_cons _

/-- What holds at the start and after every step holds at the end. -/
theorem last {P : S → Prop} (h : Run step s ts s') (hs : P s) (hpost : ∀ t ∈ ts, P t.post) :
    P s' := by
  induction h with
  | nil s => exact hs
  | cons _ _ ih =>
    exact ih (hpost _ List.mem_cons_self) fun t ht => hpost t (List.mem_cons_of_mem _ ht)

/-- What holds at the start and after every step holds before every step. -/
theorem forall_pre {P : S → Prop} (h : Run step s ts s') (hs : P s)
    (hpost : ∀ t ∈ ts, P t.post) : ∀ t ∈ ts, P t.pre := by
  intro t ht
  rcases List.mem_cons.1 (h.pre_sublist.subset (List.mem_map_of_mem ht)) with heq | hmem
  · exact heq ▸ hs
  · obtain ⟨u, hu, heq⟩ := List.mem_map.1 hmem
    exact heq ▸ hpost u hu

/-- What the steps in `C` bring about and no step undoes holds at the end of a run that takes a
step in `C`, and otherwise only if it held at the start. -/
theorem holds_iff_exists {P : S → Prop} {C : Taken S L → Prop} (h : Run step s ts s')
    (hP : ∀ t ∈ ts, (P t.post ↔ P t.pre ∨ C t)) : P s' ↔ P s ∨ ∃ t ∈ ts, C t := by
  induction h with
  | nil s => simp
  | cons _ _ ih =>
    rw [ih fun t ht => hP t (List.mem_cons_of_mem _ ht), hP _ List.mem_cons_self, or_assoc]
    simp only [List.exists_mem_cons_iff]

/-- What holds at the end has held all along, or since the last time that it came to hold. -/
theorem always_or_since {P : S → Prop} (h : Run step s ts s') (hs' : P s') :
    (P s ∧ ∀ u ∈ ts, P u.post) ∨
      ∃ before t rest, ts = before ++ t :: rest ∧ ¬ P t.pre ∧ P t.post ∧ ∀ u ∈ rest, P u.post := by
  induction h with
  | nil s => exact Or.inl ⟨hs', by simp⟩
  | @cons s s₁ s' l ts _ _ ih =>
    rcases ih hs' with ⟨h₁, hall⟩ | ⟨before, t, rest, rfl, hlast⟩
    · by_cases hs : P s
      · exact Or.inl ⟨hs, List.forall_mem_cons.2 ⟨h₁, hall⟩⟩
      · exact Or.inr ⟨[], ⟨s, l, s₁⟩, ts, rfl, hs, h₁, hall⟩
    · exact Or.inr ⟨⟨s, l, s₁⟩ :: before, t, rest, rfl, hlast⟩

/-- What a step in `C` sets up bars other steps in `C` until a step in `R` undoes it. -/
theorem exists_reset {P : S → Prop} {C R : Taken S L → Prop} {t u : Taken S L}
    {mid : List (Taken S L)} (h : Run step s (t :: mid ++ [u]) s')
    (hset : ∀ t, step t.pre t.label t.post → C t → P t.post)
    (hkeep : ∀ t, step t.pre t.label t.post → P t.pre → ¬ R t → P t.post ∧ ¬ C t) (ht : C t)
    (hu : C u) : ∃ v ∈ mid ++ [u], R v := by
  by_contra hnone
  push Not at hnone
  cases h with
  | cons hstep hrest =>
    obtain ⟨-, hall⟩ := hrest.invariant P (fun v => ¬ R v)
      (fun s l s' hs hr hP => (hkeep ⟨s, l, s'⟩ hs hP hr).1) hnone (hset _ hstep ht)
    have hlast : u ∈ mid ++ [u] := List.mem_append_right _ (List.mem_singleton_self u)
    exact (hkeep u (hrest.step_of_mem hlast) (hall u hlast).1 (hnone u hlast)).2 hu

end Run

/-! ## Parts of a run -/

namespace Run

variable {step : S → L → S → Prop} {s s' : S} {ts us : List (Taken S L)}

theorem append_iff :
    Run step s (ts ++ us) s' ↔ ∃ m, Run step s ts m ∧ Run step m us s' := by
  constructor
  · intro h
    induction ts generalizing s with
    | nil => exact ⟨s, .nil s, h⟩
    | cons t ts ih =>
      cases h with
      | cons h₁ hrest =>
        obtain ⟨m, hm, hm'⟩ := ih hrest
        exact ⟨m, .cons h₁ hm, hm'⟩
  · rintro ⟨m, h, h'⟩
    induction h with
    | nil _ => exact h'
    | cons h₁ _ ih => exact .cons h₁ (ih h')

/-- A run up to one of its steps. -/
theorem upto (h : Run step s ts s') {t : Taken S L} (ht : t ∈ ts) :
    ∃ before after, ts = before ++ [t] ++ after ∧ Run step s (before ++ [t]) t.post := by
  obtain ⟨before, after, rfl⟩ := List.append_of_mem ht
  rw [List.append_cons] at h
  obtain ⟨m, hfirst, -⟩ := append_iff.1 h
  obtain ⟨m', hbefore, hlast⟩ := append_iff.1 hfirst
  refine ⟨before, after, List.append_cons before t after, ?_⟩
  rcases hlast with _ | ⟨hstep, _⟩
  exact hbefore.snoc hstep

end Run

/-! ## Runs of a step function -/

namespace Run

/-- The relation of a step function, which has no value where a step is not enabled. -/
def StepOf (step : S → L → Option S) (s : S) (l : L) (s' : S) : Prop := step s l = some s'

/-- The run that takes the labels in turn, step by step, with its end. -/
def trace (step : S → L → Option S) (s : S) : List L → Option (List (Taken S L) × S)
  | [] => some ([], s)
  | l :: ls =>
    (step s l).bind fun next => (trace step next ls).map fun r => (⟨s, l, next⟩ :: r.1, r.2)

theorem of_trace {step : S → L → Option S} {s s' : S} {ls : List L} {ts : List (Taken S L)}
    (h : trace step s ls = some (ts, s')) : Run (StepOf step) s ts s' := by
  induction ls generalizing s ts with
  | nil =>
    cases h
    exact .nil _
  | cons l ls ih =>
    obtain ⟨next, hnext, h⟩ := Option.bind_eq_some_iff.1 h
    obtain ⟨⟨ts, last⟩, hlast, h⟩ := Option.map_eq_some_iff.1 h
    cases h
    exact .cons hnext (ih hlast)

/-- The end of the run that takes the labels in turn. -/
def exec (step : S → L → Option S) (s : S) (ls : List L) : Option S := ls.foldlM step s

theorem of_exec {step : S → L → Option S} {s s' : S} {ls : List L}
    (h : exec step s ls = some s') : ∃ ts, Run (StepOf step) s ts s' := by
  induction ls generalizing s with
  | nil =>
    cases h
    exact ⟨[], .nil _⟩
  | cons l ls ih =>
    obtain ⟨next, hnext, h⟩ := Option.bind_eq_some_iff.1 h
    obtain ⟨ts, hts⟩ := ih h
    exact ⟨_, .cons hnext hts⟩

end Run

/-! ## Simulations -/

namespace Run

/-- A map of states under which each step of one system is a step of the other, with a label that
stands for its own, maps runs to runs. -/
theorem simulate {S' L' : Type*} {step : S → L → S → Prop} {step' : S' → L' → S' → Prop}
    {G : L → L' → Prop} (f : S → S')
    (hstep : ∀ s l s', step s l s' → ∀ l', G l l' → step' (f s) l' (f s')) {s s' : S}
    {ts : List (Taken S L)} (h : Run step s ts s') {ls : List L'}
    (hls : List.Forall₂ G (ts.map Taken.label) ls) :
    ∃ us, Run step' (f s) us (f s') ∧ us.map Taken.label = ls := by
  induction h generalizing ls with
  | nil s =>
    cases hls
    exact ⟨[], .nil _, rfl⟩
  | cons h₁ _ ih =>
    cases hls with
    | cons hl hrest =>
      obtain ⟨us, hus, hlabels⟩ := ih hrest
      exact ⟨_, .cons (hstep _ _ _ h₁ _ hl) hus, congrArg _ hlabels⟩

end Run

/-! ## States that can be reached -/

/-- Some run from `s` ends in a state that satisfies `P`. -/
def Leads (step : S → L → S → Prop) (s : S) (P : S → Prop) : Prop :=
  ∃ ts s', Run step s ts s' ∧ P s'

namespace Leads

variable {step : S → L → S → Prop} {s s' : S} {P Q : S → Prop}

theorem refl (h : P s) : Leads step s P := ⟨[], s, .nil s, h⟩

theorem step_next {l : L} (hs : step s l s') (h : Leads step s' P) : Leads step s P := by
  obtain ⟨ts, s'', hrun, hP⟩ := h
  exact ⟨_, s'', .cons hs hrun, hP⟩

theorem trans (h : Leads step s P) (hQ : ∀ s', P s' → Leads step s' Q) : Leads step s Q := by
  obtain ⟨ts, s', hrun, hP⟩ := h
  obtain ⟨us, s'', hrun', hQ⟩ := hQ s' hP
  exact ⟨ts ++ us, s'', Run.append_iff.2 ⟨s', hrun, hrun'⟩, hQ⟩

/-- A variant that can always be taken down by one can be taken down to zero. -/
theorem descend {P : ℕ → S → Prop} (hP : ∀ n s, P (n + 1) s → Leads step s (P n)) (n : ℕ)
    (h : P n s) : Leads step s (P 0) := by
  induction n generalizing s with
  | zero => exact refl h
  | succ n ih => exact (hP n s h).trans fun _ => ih

/-- Where some step takes the variant down until the goal is reached, the goal can be reached. -/
theorem of_variant {I : S → Prop} (μ : S → ℕ)
    (hI : ∀ s l s', step s l s' → I s → I s')
    (hμ : ∀ s, I s → ¬ P s → ∃ l s', step s l s' ∧ μ s' < μ s) (h : I s) : Leads step s P := by
  induction hn : μ s using Nat.strong_induction_on generalizing s with
  | _ n ih =>
    by_cases hP : P s
    · exact refl hP
    · obtain ⟨l, s', hs, hlt⟩ := hμ s h hP
      exact step_next hs (ih _ (hn ▸ hlt) (hI _ _ _ hs h) rfl)

end Leads

/-- A sum over threads when one of them moves. -/
theorem sum_range_update {T M : Type*} [AddCommMonoid M] {n i : ℕ} (hi : i < n) (w : T → M)
    (f : ℕ → T) (t : T) :
    ∑ k ∈ Finset.range n, w (Function.update f i t k) + w (f i) =
      ∑ k ∈ Finset.range n, w (f k) + w t := by
  have hmem := Finset.mem_range.2 hi
  have hrest : ∑ k ∈ (Finset.range n).erase i, w (Function.update f i t k) =
      ∑ k ∈ (Finset.range n).erase i, w (f k) := by
    apply Finset.sum_congr rfl
    intro k hk
    rw [Function.update_of_ne (Finset.ne_of_mem_erase hk)]
  rw [← Finset.sum_erase_add _ _ hmem, ← Finset.sum_erase_add _ _ hmem, hrest,
    Function.update_self]
  exact add_right_comm ..

/-! ## What goes in and what comes out -/

namespace Run

/-- A run of some of the steps is a run. -/
theorem mono {step step' : S → L → S → Prop} {s s' : S} {ts : List (Taken S L)}
    (hmono : ∀ s l s', step s l s' → step' s l s') (h : Run step s ts s') : Run step' s ts s' := by
  induction h with
  | nil s => exact .nil s
  | cons h₁ _ ih => exact .cons (hmono _ _ _ h₁) ih

/-- A counter of 64 bits adds up what the steps add to it. -/
theorem counter {step : S → L → S → Prop} {s s' : S} {ts : List (Taken S L)} {c : S → UInt64}
    {w : Taken S L → ℕ} (h : Run step s ts s')
    (hstep : ∀ t ∈ ts, c t.post = c t.pre + UInt64.ofNat (w t)) :
    c s' = c s + UInt64.ofNat (ts.map w).sum := by
  induction h with
  | nil s => exact (UInt64.add_zero _).symm
  | @cons s s₁ s' l ts _ _ ih =>
    have hfirst : c s₁ = c s + UInt64.ofNat (w ⟨s, l, s₁⟩) := hstep _ List.mem_cons_self
    rw [ih fun t ht => hstep t (List.mem_cons_of_mem _ ht), hfirst, List.map_cons, List.sum_cons,
      UInt64.ofNat_add, UInt64.add_assoc]

/-- A store that every step fills from one end and empties from the other hands out, in order, what
it has taken in. -/
theorem fifo {α : Type*} {step : S → L → S → Prop} {s s' : S} {ts : List (Taken S L)}
    (contents : S → List α) {ins outs : Taken S L → List α} (h : Run step s ts s')
    (hstep : ∀ t ∈ ts, outs t ++ contents t.post = contents t.pre ++ ins t) :
    ts.flatMap outs ++ contents s' = contents s ++ ts.flatMap ins := by
  induction h with
  | nil s => simp
  | @cons s s₁ s' l ts _ _ ih =>
    have hfirst : outs ⟨s, l, s₁⟩ ++ contents s₁ = contents s ++ ins ⟨s, l, s₁⟩ :=
      hstep _ List.mem_cons_self
    have hrest := ih fun t ht => hstep t (List.mem_cons_of_mem _ ht)
    rw [List.flatMap_cons, List.flatMap_cons, List.append_assoc, hrest, ← List.append_assoc, hfirst,
      List.append_assoc]

end Run

/-! ## Histories -/

namespace Run

/-- What every step adds to the history of a run keeps in line with its states. -/
theorem history {step : S → L → S → Prop} {s s' : S} {ts : List (Taken S L)}
    (I : List (Taken S L) → S → Prop)
    (hstep : ∀ us s l s', step s l s' → I us s → I (us ++ [⟨s, l, s'⟩]) s')
    (h : Run step s ts s') {us : List (Taken S L)} (hs : I us s) : I (us ++ ts) s' := by
  induction h generalizing us with
  | nil s => rwa [List.append_nil]
  | cons h₁ _ ih =>
    rw [List.append_cons]
    exact ih (hstep _ _ _ _ h₁ hs)

/-- `Inv` relates the states of a run to its history while the history is not bad, and a step leads
to a state outside `P` just when it makes the history bad.  Then all states of the run are in `P`
iff its history is not bad. -/
theorem forall_post_iff {H : Type*} {step : S → L → S → Prop} {s s' : S} {ts : List (Taken S L)}
    {Bad : List H → Prop} {hist : Taken S L → List H} (Inv : List H → S → Prop) (P : S → Prop)
    (hmono : ∀ h k, Bad h → Bad (h ++ k))
    (hstep : ∀ h t, step t.pre t.label t.post → ¬ Bad h → Inv h t.pre → P t.pre →
      Inv (h ++ hist t) t.post ∧ (P t.post ↔ ¬ Bad (h ++ hist t)))
    (hrun : Run step s ts s') {h : List H} (hbad : ¬ Bad h) (hinv : Inv h s) (hs : P s) :
    (∀ t ∈ ts, P t.post) ↔ ¬ Bad (h ++ ts.flatMap hist) := by
  induction hrun generalizing h with
  | nil s => simp [hbad]
  | @cons s s₁ s' l ts h₁ _ ih =>
    obtain ⟨hinv', hiff⟩ := hstep h ⟨s, l, s₁⟩ h₁ hbad hinv hs
    rw [List.flatMap_cons, ← List.append_assoc, List.forall_mem_cons]
    by_cases hbad' : Bad (h ++ hist ⟨s, l, s₁⟩)
    · refine iff_of_false (fun hall => hiff.1 hall.1 hbad') (not_not.2 (hmono _ _ hbad'))
    · rw [and_iff_right (hiff.2 hbad'), ih hbad' hinv' (hiff.2 hbad')]

end Run
