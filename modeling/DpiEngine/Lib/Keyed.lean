import Mathlib.Tactic
import Mathlib.Logic.Function.Basic

/-!
# Keyed machines

A keyed machine holds one state for each key, and a job reads and writes the state of its own key
only.  Its runs can be cut down to any set of keys, so a machine that is given only the jobs of
some keys answers them as the machine that is given all jobs does.  A gate is a machine that shuts
once; where it simulates the states of a key, it says how many jobs of the key pass.  A machine that
may lose the state of a key at any moment answers the jobs of each key in lives: every life is a run
that starts anew, and there is one more of them than losses at most.
-/

namespace Keyed

variable {K J A S ε : Type*} [DecidableEq K]

/-- `Outcome key step σ log σ'`: the jobs of `log`, in this order, get the answers paired with them
and lead from the states `σ` to the states `σ'`. -/
inductive Outcome (key : J → K) (step : S → J → Except ε (A × S)) :
    (K → S) → List (J × A) → (K → S) → Prop
  | nil (σ : K → S) : Outcome key step σ [] σ
  | cons {σ σ' : K → S} {j : J} {a : A} {s : S} {log : List (J × A)} :
      step (σ (key j)) j = .ok (a, s) →
      Outcome key step (Function.update σ (key j) s) log σ' →
      Outcome key step σ ((j, a) :: log) σ'

namespace Outcome

variable {key : J → K} {step : S → J → Except ε (A × S)} {σ σ₁ σ₂ σ' : K → S}
  {log log' : List (J × A)}

theorem snoc {j : J} {a : A} {s : S} (h : Outcome key step σ log σ')
    (hj : step (σ' (key j)) j = .ok (a, s)) :
    Outcome key step σ (log ++ [(j, a)]) (Function.update σ' (key j) s) := by
  induction h with
  | nil σ => exact .cons hj (.nil _)
  | cons h₁ _ ih => exact .cons h₁ (ih hj)

/-- The jobs whose keys satisfy `p` run alone as they run among the others. -/
theorem restrict (p : K → Bool) (h : Outcome key step σ log σ') {τ : K → S}
    (hτ : ∀ k, p k = true → τ k = σ k) :
    ∃ τ', Outcome key step τ (log.filter fun e => p (key e.1)) τ' ∧
      ∀ k, p k = true → τ' k = σ' k := by
  induction h generalizing τ with
  | nil σ => exact ⟨τ, .nil τ, hτ⟩
  | @cons σ σ' j a s log h₁ _ ih =>
    by_cases hp : p (key j) = true
    · have hupdate : ∀ k, p k = true →
          Function.update τ (key j) s k = Function.update σ (key j) s k := by
        intro k hk
        by_cases hkey : k = key j
        · rw [hkey, Function.update_self, Function.update_self]
        · rw [Function.update_of_ne hkey, Function.update_of_ne hkey, hτ k hk]
      obtain ⟨τ', hτ', hend⟩ := ih hupdate
      refine ⟨τ', ?_, hend⟩
      rw [List.filter_cons, if_pos hp]
      exact .cons (by rw [hτ _ hp, h₁]) hτ'
    · have hupdate : ∀ k, p k = true → τ k = Function.update σ (key j) s k := by
        intro k hk
        have hkey : k ≠ key j := fun hkey => hp (hkey ▸ hk)
        rw [Function.update_of_ne hkey, hτ k hk]
      rw [List.filter_cons, if_neg hp]
      exact ih hupdate

/-- Runs of the parts of a log, each with the keys of one part, put together. -/
theorem of_parts {P : Type*} [DecidableEq P] (part : K → P) {τ : K → S}
    (h : ∀ n, ∃ τ', Outcome key step σ (log.filter fun e => part (key e.1) == n) τ' ∧
      ∀ k, part k = n → τ' k = τ k) : Outcome key step σ log τ := by
  induction log generalizing σ with
  | nil =>
    have hτ : τ = σ := by
      funext k
      obtain ⟨τ', hτ', hk⟩ := h (part k)
      cases hτ'
      exact (hk k rfl).symm
    rw [hτ]
    exact .nil σ
  | cons e log ih =>
    obtain ⟨j, a⟩ := e
    obtain ⟨τ₀, hτ₀, hend⟩ := h (part (key j))
    rw [List.filter_cons_of_pos (by simp)] at hτ₀
    cases hτ₀ with
    | @cons _ _ _ _ s _ hs hrest =>
      refine .cons hs (ih fun n => ?_)
      by_cases hn : part (key j) = n
      · exact ⟨τ₀, hn ▸ hrest, fun k hk => hend k (hk.trans hn.symm)⟩
      · -- the first job is of another part, so its key is none of this one
        obtain ⟨τ₁, hτ₁, hend₁⟩ := h n
        rw [List.filter_cons_of_neg (by simpa using hn)] at hτ₁
        have hsame (k : K) (hk : (part k == n) = true) :
            Function.update σ (key j) s k = σ k := by
          refine Function.update_of_ne ?_ _ _
          rintro rfl
          exact hn (eq_of_beq hk)
        obtain ⟨τ₂, hτ₂, hend₂⟩ := hτ₁.restrict (fun k => part k == n) hsame
        rw [List.filter_filter, List.filter_congr fun e _ => Bool.and_self _] at hτ₂
        exact ⟨τ₂, hτ₂, fun k hk => (hend₂ k (beq_iff_eq.2 hk)).trans (hend₁ k hk)⟩

/-- Of two runs from one state, the one with fewer jobs gives the answers the other begins with. -/
theorem prefix_mono (h : Outcome key step σ log σ₁) (h' : Outcome key step σ log' σ₂)
    (hjobs : log.map Prod.fst <+: log'.map Prod.fst) : log <+: log' := by
  induction h generalizing log' with
  | nil σ => exact List.nil_prefix
  | cons h₁ _ ih =>
    cases h' with
    | nil => simp at hjobs
    | cons h₂ hrest =>
      simp only [List.map_cons, List.cons_prefix_cons] at hjobs
      obtain ⟨rfl, hjobs⟩ := hjobs
      rw [h₁] at h₂
      cases h₂
      exact List.cons_prefix_cons.2 ⟨rfl, ih hrest hjobs⟩

/-- Where the state of a key never opens again once it is shut, and a job passes iff it leaves the
state of its key open, the jobs of a key that pass are the first ones. -/
theorem passed_prefix (Shut : S → Prop) (passes : A → Bool)
    (hkeep : ∀ s j a s', step s j = .ok (a, s') → Shut s → Shut s')
    (hpass : ∀ s j a s', step s j = .ok (a, s') → (passes a = true ↔ ¬ Shut s'))
    (h : Outcome key step σ log σ') (k : K) :
    (Shut (σ k) → (log.filter fun e => key e.1 == k && passes e.2) = []) ∧
      ((log.filter fun e => key e.1 == k && passes e.2).map Prod.fst) <+:
        (log.filter fun e => key e.1 == k).map Prod.fst := by
  induction h with
  | nil σ => exact ⟨fun _ => rfl, List.nil_prefix⟩
  | @cons σ σ' j a s log h₁ _ ih =>
    by_cases hkey : key j = k
    · subst hkey
      rw [Function.update_self] at ih
      obtain ⟨hshut, hprefix⟩ := ih
      by_cases hp : passes a = true
      · refine ⟨fun hσ => absurd (hkeep _ _ _ _ h₁ hσ) ((hpass _ _ _ _ h₁).1 hp), ?_⟩
        rw [List.filter_cons_of_pos (by simp [hp]), List.filter_cons_of_pos (by simp),
          List.map_cons, List.map_cons]
        exact List.cons_prefix_cons.2 ⟨rfl, hprefix⟩
      · have hnone := hshut (by_contra fun hs => hp ((hpass _ _ _ _ h₁).2 hs))
        rw [List.filter_cons_of_neg (by simp [hp]), hnone]
        exact ⟨fun _ => rfl, List.nil_prefix⟩
    · rw [Function.update_of_ne (Ne.symm hkey)] at ih
      rw [List.filter_cons_of_neg (by simp [hkey]), List.filter_cons_of_neg (by simp [hkey])]
      exact ih

/-- A relation between the state of a key and what has been observed of its jobs, kept by every job
of the key, holds in the end. -/
theorem observed {N : Type*} (h : Outcome key step σ log σ') (k : K) (obs : J → N)
    (R : S → List N → Prop)
    (hstep : ∀ e ∈ log, key e.1 = k → ∀ s l a s', R s l → step s e.1 = .ok (a, s') →
      R s' (l ++ [obs e.1]))
    {l : List N} (hR : R (σ k) l) :
    R (σ' k) (l ++ ((log.filter fun e => key e.1 == k).map Prod.fst).map obs) := by
  induction h generalizing l with
  | nil σ => exact (List.append_nil l).symm ▸ hR
  | @cons σ σ' j a s log h₁ _ ih =>
    have hrest : ∀ e ∈ log, key e.1 = k → ∀ s l a s', R s l → step s e.1 = .ok (a, s') →
        R s' (l ++ [obs e.1]) := fun e he => hstep e (List.mem_cons_of_mem _ he)
    by_cases hkey : key j = k
    · subst hkey
      have hnext := hstep (j, a) List.mem_cons_self rfl _ l a s hR h₁
      have htail := ih hrest ((Function.update_self (key j) s σ).symm ▸ hnext)
      rw [List.filter_cons_of_pos (by simp), List.map_cons, List.map_cons]
      rwa [List.append_assoc, List.singleton_append] at htail
    · rw [List.filter_cons_of_neg (by simp [hkey])]
      exact ih hrest ((Function.update_of_ne (Ne.symm hkey) s σ).symm ▸ hR)

end Outcome

/-! ## Gates -/

section Gate

variable {B N : Type*}

/-- How many of the observations a gate lets pass until it shuts. -/
def openFor (next : B → N → B) (shut : B → Bool) : B → List N → ℕ
  | _, [] => 0
  | b, n :: rest => if shut (next b n) then 0 else openFor next shut (next b n) rest + 1

variable {next : B → N → B} {shut : B → Bool}

theorem openFor_cons {b b' : B} {n : N} (h : next b n = b') (rest : List N) :
    openFor next shut b (n :: rest) = if shut b' then 0 else openFor next shut b' rest + 1 := by
  subst h
  rfl

theorem openFor_of_shut (hshut : ∀ b n, shut b = true → shut (next b n) = true) {b : B}
    (hb : shut b = true) (l : List N) : openFor next shut b l = 0 := by
  cases l with
  | nil => rfl
  | cons n rest => exact if_pos (hshut b n hb)

/-- Where a gate simulates the states of a key, the jobs of the key that pass are the first ones, as
many as the gate lets pass. -/
theorem Outcome.passed_take {key : J → K} {step : S → J → Except ε (A × S)} {σ σ' : K → S}
    {log : List (J × A)} (h : Outcome key step σ log σ') (k : K) (passes : A → Bool) (obs : J → N)
    (R : S → B → Prop) (hshut : ∀ b n, shut b = true → shut (next b n) = true)
    (hstep : ∀ e ∈ log, key e.1 = k → ∀ s b a s', R s b → step s e.1 = .ok (a, s') →
      R s' (next b (obs e.1)) ∧ passes a = !shut (next b (obs e.1)))
    {b : B} (hR : R (σ k) b) :
    (log.filter fun e => key e.1 == k && passes e.2).map Prod.fst =
      ((log.filter fun e => key e.1 == k).map Prod.fst).take
        (openFor next shut b (((log.filter fun e => key e.1 == k).map Prod.fst).map obs)) := by
  induction h generalizing b with
  | nil σ => rfl
  | @cons σ σ' j a s log h₁ _ ih =>
    have hrest : ∀ e ∈ log, key e.1 = k → ∀ s b a s', R s b → step s e.1 = .ok (a, s') →
        R s' (next b (obs e.1)) ∧ passes a = !shut (next b (obs e.1)) :=
      fun e he => hstep e (List.mem_cons_of_mem _ he)
    by_cases hkey : key j = k
    · subst hkey
      obtain ⟨hnext, hpass⟩ := hstep (j, a) List.mem_cons_self rfl _ b a s hR h₁
      have htail := ih hrest ((Function.update_self (key j) s σ).symm ▸ hnext)
      dsimp only at hpass
      cases hs : shut (next b (obs j)) with
      | true =>
        rw [hs] at hpass
        rw [openFor_of_shut hshut hs, List.take_zero] at htail
        rw [List.filter_cons_of_neg (by simp [hpass]), List.filter_cons_of_pos (by simp),
          List.map_cons, List.map_cons, openFor_cons rfl, if_pos hs, List.take_zero]
        exact htail
      | false =>
        rw [hs] at hpass
        rw [List.filter_cons_of_pos (by simp [hpass]), List.filter_cons_of_pos (by simp),
          List.map_cons, List.map_cons, List.map_cons, openFor_cons rfl, if_neg (by simp [hs]),
          List.take_succ_cons, htail]
    · rw [List.filter_cons_of_neg (by simp [hkey]), List.filter_cons_of_neg (by simp [hkey])]
      exact ih hrest ((Function.update_of_ne (Ne.symm hkey) s σ).symm ▸ hR)

end Gate

/-- A machine that was given a part of the jobs with keys in `p`, in their order, has answered
each of them as a machine that was given all jobs. -/
theorem sharded {key : J → K} {step : S → J → Except ε (A × S)} {σ σ₁ σ₂ : K → S}
    {log shard : List (J × A)} (p : K → Bool) (hall : Outcome key step σ log σ₁)
    (hshard : Outcome key step σ shard σ₂)
    (hjobs : shard.map Prod.fst <+: (log.map Prod.fst).filter fun j => p (key j)) :
    shard <+: log.filter fun e => p (key e.1) := by
  obtain ⟨τ, hτ, -⟩ := hall.restrict p (fun _ _ => rfl)
  apply hshard.prefix_mono hτ
  rwa [List.filter_map] at hjobs

/-! ## Machines that forget -/

section Lives

variable {step : S → J → Except ε (A × S)} {init s s' : S} {log log' : List (J × A)}

/-- One state answers the jobs of a log. -/
inductive Serves (step : S → J → Except ε (A × S)) : S → List (J × A) → S → Prop
  | nil (s : S) : Serves step s [] s
  | cons {s s₁ s' : S} {j : J} {a : A} {log : List (J × A)} :
      step s j = .ok (a, s₁) → Serves step s₁ log s' → Serves step s ((j, a) :: log) s'

theorem Serves.append_iff :
    Serves step s (log ++ log') s' ↔ ∃ m, Serves step s log m ∧ Serves step m log' s' := by
  constructor
  · intro h
    induction log generalizing s with
    | nil => exact ⟨s, .nil s, h⟩
    | cons e log ih =>
      cases h with
      | cons hj hrest =>
        obtain ⟨m, hlog, hlog'⟩ := ih hrest
        exact ⟨m, .cons hj hlog, hlog'⟩
  · rintro ⟨m, hlog, hlog'⟩
    induction hlog with
    | nil s => exact hlog'
    | cons hj _ ih => exact .cons hj (ih hlog')

theorem Serves.concat_iff {j : J} {a : A} : Serves step s (log ++ [(j, a)]) s' ↔
    ∃ m, Serves step s log m ∧ step m j = .ok (a, s') := by
  rw [Serves.append_iff]
  constructor
  · rintro ⟨m, hlog, hj⟩
    cases hj with
    | cons hj hrest =>
      cases hrest
      exact ⟨m, hlog, hj⟩
  · rintro ⟨m, hlog, hj⟩
    exact ⟨m, hlog, .cons hj (.nil s')⟩

/-- The log determines the state it leaves. -/
theorem Serves.unique {s₁ s₂ : S} (h : Serves step s log s₁) (h' : Serves step s log s₂) :
    s₁ = s₂ := by
  induction h with
  | nil =>
    cases h'
    rfl
  | cons hj _ ih =>
    cases h' with
    | cons hj' hrest =>
      rw [hj] at hj'
      cases hj'
      exact ih hrest

/-- The log is cut into parts, at most `n + 1`, and each part is served from `init` on. -/
def InLives (step : S → J → Except ε (A × S)) (init : S) (log : List (J × A)) (n : ℕ) : Prop :=
  ∃ lives : List (List (J × A)), log = lives.flatten ∧ lives.length ≤ n + 1 ∧
    ∀ life ∈ lives, ∃ s, Serves step init life s

theorem InLives.initial_part {n : ℕ} (h : InLives step init log n) (hp : log' <+: log) :
    InLives step init log' n := by
  obtain ⟨lives, rfl, hlength, hlives⟩ := h
  obtain ⟨lives', heq, hle, hserves⟩ : ∃ lives' : List (List (J × A)), log' = lives'.flatten ∧
      lives'.length ≤ lives.length ∧ ∀ life ∈ lives', ∃ s, Serves step init life s := by
    clear hlength
    induction lives generalizing log' with
    | nil => exact ⟨[], List.prefix_nil.1 hp, le_rfl, hlives⟩
    | cons life lives ih =>
      rw [List.flatten_cons] at hp
      obtain ⟨t, ht⟩ := hp
      rcases List.append_eq_append_iff.1 ht with ⟨rest, hlife, -⟩ | ⟨rest, rfl, hrest⟩
      · obtain ⟨s, hs⟩ := hlives life List.mem_cons_self
        rw [hlife] at hs
        obtain ⟨m, hm, -⟩ := Serves.append_iff.1 hs
        refine ⟨[log'], by simp, by simp, fun life' hmem => ?_⟩
        rw [List.mem_singleton.1 hmem]
        exact ⟨m, hm⟩
      · obtain ⟨lives', rfl, hle, hserves⟩ :=
          ih ⟨t, hrest.symm⟩ fun life hmem => hlives life (List.mem_cons_of_mem _ hmem)
        refine ⟨life :: lives', by simp, by simpa using hle, fun life' hmem => ?_⟩
        rcases List.mem_cons.1 hmem with rfl | hmem
        · exact hlives _ List.mem_cons_self
        · exact hserves life' hmem
  exact ⟨lives', heq, hle.trans hlength, hserves⟩

/-- `Forgetful key step init log σ n`: the jobs of `log` got the answers paired with them and led
to the states `σ`, and on the way the state of each key `k` was lost `n k` times. -/
inductive Forgetful (key : J → K) (step : S → J → Except ε (A × S)) (init : S) :
    List (J × A) → (K → S) → (K → ℕ) → Prop
  | nil : Forgetful key step init [] (fun _ => init) fun _ => 0
  | forget {log : List (J × A)} {σ σ' : K → S} {n n' : K → ℕ} :
      Forgetful key step init log σ n →
      (∀ k, σ' k = σ k ∧ n' k = n k ∨ σ' k = init ∧ n' k = n k + 1) →
      Forgetful key step init log σ' n'
  | snoc {log : List (J × A)} {σ : K → S} {n : K → ℕ} {j : J} {a : A} {s : S} :
      Forgetful key step init log σ n → step (σ (key j)) j = .ok (a, s) →
      Forgetful key step init (log ++ [(j, a)]) (Function.update σ (key j) s) n

theorem Forgetful.inLives {key : J → K} {σ : K → S} {n : K → ℕ}
    (h : Forgetful key step init log σ n) (k : K) :
    InLives step init (log.filter fun e => key e.1 == k) (n k) := by
  -- the life that lasts at the end leads to the state of the key
  obtain ⟨past, last, heq, hlength, hpast, hlast⟩ : ∃ (past : List (List (J × A)))
      (last : List (J × A)), (log.filter fun e => key e.1 == k) = past.flatten ++ last ∧
      past.length ≤ n k ∧ (∀ life ∈ past, ∃ s, Serves step init life s) ∧
      Serves step init last (σ k) := by
    induction h with
    | nil => exact ⟨[], [], rfl, le_rfl, fun _ hmem => absurd hmem List.not_mem_nil, .nil init⟩
    | @forget _ σ σ' n n' _ hσ ih =>
      obtain ⟨past, last, heq, hlength, hpast, hlast⟩ := ih
      rcases hσ k with ⟨hkept, hn⟩ | ⟨hlost, hn⟩
      · exact ⟨past, last, heq, hn ▸ hlength, hpast, hkept ▸ hlast⟩
      · refine ⟨past ++ [last], [], by simpa using heq, ?_, fun life hmem => ?_, ?_⟩
        · rw [List.length_append, hn]
          exact Nat.succ_le_succ hlength
        · rcases List.mem_append.1 hmem with hmem | hmem
          · exact hpast life hmem
          · exact ⟨σ k, List.mem_singleton.1 hmem ▸ hlast⟩
        · rw [hlost]
          exact .nil init
    | @snoc log σ n j a s _ hstep ih =>
      obtain ⟨past, last, heq, hlength, hpast, hlast⟩ := ih
      rw [List.filter_append, heq]
      by_cases hkey : key j = k
      · subst hkey
        refine ⟨past, last ++ [(j, a)], by simp, hlength, hpast, ?_⟩
        rw [Function.update_self]
        exact Serves.concat_iff.2 ⟨σ (key j), hlast, hstep⟩
      · refine ⟨past, last, by simp [hkey], hlength, hpast, ?_⟩
        rw [Function.update_of_ne (Ne.symm hkey)]
        exact hlast
  refine ⟨past ++ [last], by simpa using heq, by simpa using hlength, fun life hmem => ?_⟩
  rcases List.mem_append.1 hmem with hmem | hmem
  · exact hpast life hmem
  · exact ⟨σ k, List.mem_singleton.1 hmem ▸ hlast⟩

end Lives

end Keyed
