import Mathlib.Tactic
import Mathlib.Data.ENat.Basic
import DpiEngine.Lib.Run

/-!
# Monitors

An object whose operations run under one lock and wait on condition variables until their
predicates hold.  A section that ends notifies one or all of the threads asleep on a condition, and
any of them may be the one; threads also wake on their own, and timed waits end.  A thread that is
woken has to take the lock again, and others may be faster.

`Signalled` bounds what a section adds to the number of waiting threads that a condition can let
through by what it notifies, and no wakeup is lost if it holds.
-/

/-- What a section notifies a condition variable of. -/
inductive Signal where
  | none | one | all
  deriving DecidableEq

/-- The operations of an object with one lock.  `perform` is the section after the wait, and
`expire` what a timed wait returns if its predicate does not hold in time. -/
structure Monitor (D C Op R : Type*) where
  waitsOn : Op → Option C
  ready : D → Op → Prop
  perform : D → Op → R × D
  signal : D → Op → C → Signal
  expire : Op → Option R

namespace Monitor

variable {D C Op R ι : Type*}

/-- Where a thread is; one that is `late` has waited as long as it may. -/
inductive Phase (Op : Type*) where
  | idle
  | entering (op : Op)
  | asleep (op : Op)
  | woken (op : Op)
  | late (op : Op)
  deriving DecidableEq

namespace Phase

/-- The call that a thread is in. -/
def call : Phase Op → Option Op
  | idle => none
  | entering op => some op
  | asleep op => some op
  | woken op => some op
  | late op => some op

def wake : Phase Op → Phase Op
  | asleep op => woken op
  | p => p

@[simp] theorem call_wake (p : Phase Op) : p.wake.call = p.call := by cases p <;> rfl

end Phase

structure State (D Op ι : Type*) where
  data : D
  phase : ι → Phase Op

/-- `wait`, `wake` and `timeout` are not seen from outside. -/
inductive Event (ι Op R : Type*) where
  | call (t : ι) (op : Op)
  | finish (t : ι) (op : Op) (reply : R)
  | wait (t : ι)
  | wake (t : ι)
  | timeout (t : ι)

variable (M : Monitor D C Op R)

def AsleepOn (c : C) : Phase Op → Prop
  | .asleep op => M.waitsOn op = some c
  | _ => False

/-- The thread was woken from its wait and has not taken the lock again. -/
def WokenOn (c : C) : Phase Op → Prop
  | .woken op => M.waitsOn op = some c
  | .late op => M.waitsOn op = some c
  | _ => False

/-- `W` are the threads that the notifications of a section wake. -/
structure Wakes (sig : C → Signal) (phase : ι → Phase Op) (W : Finset ι) : Prop where
  asleep : ∀ t ∈ W, ∃ c, M.AsleepOn c (phase t) ∧ sig c ≠ .none
  one : ∀ c, sig c = .one → (∃ t, M.AsleepOn c (phase t)) → ∃! t, t ∈ W ∧ M.AsleepOn c (phase t)
  all : ∀ c, sig c = .all → ∀ t, M.AsleepOn c (phase t) → t ∈ W

variable [DecidableEq ι]

/-- The phases after thread `t` has left its section and the threads in `W` are woken. -/
def leave (phase : ι → Phase Op) (t : ι) (W : Finset ι) : ι → Phase Op :=
  Function.update (fun u => if u ∈ W then (phase u).wake else phase u) t .idle

inductive Step : State D Op ι → Event ι Op R → State D Op ι → Prop
  | call {s : State D Op ι} {t : ι} (op : Op) (idle : s.phase t = .idle) :
      Step s (.call t op) { s with phase := Function.update s.phase t (.entering op) }
  | finish {s : State D Op ι} {t : ι} {op : Op} {W : Finset ι}
      (awake : s.phase t = .entering op ∨ s.phase t = .woken op ∨ s.phase t = .late op)
      (ready : M.ready s.data op) (wakes : M.Wakes (M.signal s.data op) s.phase W) :
      Step s (.finish t op (M.perform s.data op).1)
        { data := (M.perform s.data op).2, phase := leave s.phase t W }
  | expire {s : State D Op ι} {t : ι} {op : Op} {reply : R} (late : s.phase t = .late op)
      (unready : ¬ M.ready s.data op) (expired : M.expire op = some reply) :
      Step s (.finish t op reply) { s with phase := Function.update s.phase t .idle }
  | wait {s : State D Op ι} {t : ι} {op : Op}
      (awake : s.phase t = .entering op ∨ s.phase t = .woken op) (unready : ¬ M.ready s.data op) :
      Step s (.wait t) { s with phase := Function.update s.phase t (.asleep op) }
  | wake {s : State D Op ι} {t : ι} {op : Op} (asleep : s.phase t = .asleep op) :
      Step s (.wake t) { s with phase := Function.update s.phase t (.woken op) }
  | timeout {s : State D Op ι} {t : ι} {op : Op} {reply : R} (asleep : s.phase t = .asleep op)
      (expired : M.expire op = some reply) :
      Step s (.timeout t) { s with phase := Function.update s.phase t (.late op) }

/-- No thread is in a call. -/
def Quiet (s : State D Op ι) : Prop := s.phase = fun _ => .idle

/-! ## What notifications promise -/

section Leave

variable {M} {c c' : C} {phase : ι → Phase Op} {p : Phase Op} {t u : ι} {W : Finset ι}

theorem leave_of_notMem (hu : u ≠ t) (hW : u ∉ W) : leave phase t W u = phase u := by
  rw [leave, Function.update_of_ne hu, if_neg hW]

theorem leave_of_mem (hu : u ≠ t) (hW : u ∈ W) : leave phase t W u = (phase u).wake := by
  rw [leave, Function.update_of_ne hu, if_pos hW]

@[simp] theorem leave_self : leave phase t W t = .idle := Function.update_self ..

theorem call_leave : (leave phase t W u).call = if u = t then none else (phase u).call := by
  by_cases hu : u = t
  · rw [if_pos hu, hu, leave_self]
    rfl
  · rw [if_neg hu]
    by_cases hW : u ∈ W
    · rw [leave_of_mem hu hW, Phase.call_wake]
    · rw [leave_of_notMem hu hW]

omit [DecidableEq ι] in
theorem not_asleepOn_of_wokenOn (h : M.WokenOn c p) (c' : C) : ¬ M.AsleepOn c' p := by
  cases p with
  | woken op => exact id
  | late op => exact id
  | _ => exact h.elim

omit [DecidableEq ι] in
theorem AsleepOn.wake (h : M.AsleepOn c p) : M.WokenOn c p.wake := by
  cases p with
  | asleep op => exact h
  | _ => exact h.elim

omit [DecidableEq ι] in
theorem WokenOn.wake (h : M.WokenOn c p) : M.WokenOn c p.wake := by
  cases p with
  | woken op => exact h
  | late op => exact h
  | _ => exact h.elim

/-- Whoever sleeps after a section slept before it and was not woken. -/
theorem asleep_of_leave {op : Op} (h : leave phase t W u = .asleep op) :
    phase u = .asleep op ∧ u ∉ W := by
  have hut : u ≠ t := by
    rintro rfl
    rw [leave_self] at h
    cases h
  by_cases hW : u ∈ W
  · rw [leave_of_mem hut hW] at h
    cases hp : phase u <;> rw [hp] at h <;> cases h
  · rw [leave_of_notMem hut hW] at h
    exact ⟨h, hW⟩

omit [DecidableEq ι] in
theorem AsleepOn.exists_op (h : M.AsleepOn c p) : ∃ op, p = .asleep op ∧ M.waitsOn op = some c := by
  cases p with
  | asleep op => exact ⟨op, rfl, h⟩
  | _ => exact h.elim

end Leave

/-- `credit c d` is the number of threads waiting on `c` that the data let through one after the
other.  A section that adds to it notifies as many threads as it adds, and the section of a thread
that waited uses up one. -/
structure Signalled [DecidableEq C] (credit : C → D → ℕ∞) : Prop where
  ready_iff : ∀ d op c, M.waitsOn op = some c → (M.ready d op ↔ 0 < credit c d)
  ready_of_none : ∀ d op, M.waitsOn op = none → M.ready d op
  bound : ∀ d op c, M.ready d op → M.signal d op c ≠ .all →
    credit c (M.perform d op).2 + (if M.waitsOn op = some c then 1 else 0) ≤
      credit c d + (if M.signal d op c = .one then 1 else 0)

section Counting

variable [Fintype ι]

open scoped Classical in
noncomputable def sleepers (c : C) (phase : ι → Phase Op) : Finset ι :=
  Finset.univ.filter fun t => M.AsleepOn c (phase t)

open scoped Classical in
noncomputable def wokenOn (c : C) (phase : ι → Phase Op) : Finset ι :=
  Finset.univ.filter fun t => M.WokenOn c (phase t)

/-- While threads sleep on a condition, the data let no more of them through than are woken. -/
def Attended (credit : C → D → ℕ∞) (s : State D Op ι) : Prop :=
  ∀ c, (M.sleepers c s.phase).Nonempty → credit c s.data ≤ (M.wokenOn c s.phase).card

variable {M} {c : C} {phase phase' : ι → Phase Op} {t : ι} {credit : C → D → ℕ∞}

omit [DecidableEq ι] in
theorem mem_sleepers : t ∈ M.sleepers c phase ↔ M.AsleepOn c (phase t) := by simp [sleepers]

omit [DecidableEq ι] in
theorem mem_wokenOn : t ∈ M.wokenOn c phase ↔ M.WokenOn c (phase t) := by simp [wokenOn]

/-- A section takes at most its own thread from the woken ones and adds those that it wakes. -/
theorem card_wokenOn_leave [DecidableEq C] {op : Op} {W : Finset ι}
    (hawake : phase t = .entering op ∨ phase t = .woken op ∨ phase t = .late op) :
    (M.wokenOn c phase).card + (W ∩ M.sleepers c phase).card ≤
      (M.wokenOn c (leave phase t W)).card + if M.waitsOn op = some c then 1 else 0 := by
  have hdisj : Disjoint ((M.wokenOn c phase).erase t) (W ∩ M.sleepers c phase) := by
    rw [Finset.disjoint_left]
    intro u hu hW
    have hwoken := mem_wokenOn.1 (Finset.mem_of_mem_erase hu)
    exact not_asleepOn_of_wokenOn hwoken c (mem_sleepers.1 (Finset.mem_inter.1 hW).2)
  have hsub : (M.wokenOn c phase).erase t ∪ (W ∩ M.sleepers c phase) ⊆
      M.wokenOn c (leave phase t W) := by
    intro u hu
    rw [mem_wokenOn]
    rcases Finset.mem_union.1 hu with hu | hu
    · have hwoken := mem_wokenOn.1 (Finset.mem_of_mem_erase hu)
      have hut := Finset.ne_of_mem_erase hu
      by_cases hW : u ∈ W
      · rw [leave_of_mem hut hW]
        exact hwoken.wake
      · rwa [leave_of_notMem hut hW]
    · obtain ⟨hW, hs⟩ := Finset.mem_inter.1 hu
      rw [mem_sleepers] at hs
      have hut : u ≠ t := by
        rintro rfl
        rcases hawake with h | h | h <;> rw [h] at hs <;> exact hs
      rw [leave_of_mem hut hW]
      exact hs.wake
  have hcard := Finset.card_le_card hsub
  rw [Finset.card_union_of_disjoint hdisj] at hcard
  by_cases hmem : t ∈ M.wokenOn c phase
  · have hop : M.waitsOn op = some c := by
      rw [mem_wokenOn] at hmem
      rcases hawake with h | h | h <;> rw [h] at hmem
      · exact hmem.elim
      · exact hmem
      · exact hmem
    rw [if_pos hop]
    have hone := Finset.card_erase_add_one hmem
    omega
  · rw [Finset.erase_eq_of_notMem hmem] at hcard
    omega

/-- A section that leaves a thread asleep on a condition has woken one if it notified one. -/
theorem Wakes.one_le_card [DecidableEq C] {sig : C → Signal} {W : Finset ι}
    (h : M.Wakes sig phase W) (hs : (M.sleepers c phase).Nonempty) :
    (if sig c = .one then 1 else 0) ≤ (W ∩ M.sleepers c phase).card := by
  split_ifs with hsig
  · obtain ⟨u, hu⟩ := hs
    obtain ⟨v, ⟨hvW, hv⟩, -⟩ := h.one c hsig ⟨u, mem_sleepers.1 hu⟩
    exact Finset.card_pos.2 ⟨v, Finset.mem_inter.2 ⟨hvW, mem_sleepers.2 hv⟩⟩
  · exact Nat.zero_le _

section Signals

variable [DecidableEq C]

theorem Attended.finish {s : State D Op ι} {op : Op} {W : Finset ι}
    (hM : M.Signalled credit) (h : M.Attended credit s)
    (hawake : s.phase t = .entering op ∨ s.phase t = .woken op ∨ s.phase t = .late op)
    (hready : M.ready s.data op) (hwakes : M.Wakes (M.signal s.data op) s.phase W) :
    M.Attended credit ⟨(M.perform s.data op).2, leave s.phase t W⟩ := by
  intro c hc
  obtain ⟨u, hu⟩ := hc
  obtain ⟨op', hop', hwaits⟩ := (mem_sleepers.1 hu).exists_op
  obtain ⟨hold, huW⟩ := asleep_of_leave hop'
  have hasleep : M.AsleepOn c (s.phase u) := by
    rw [hold]
    exact hwaits
  have hall : M.signal s.data op c ≠ .all := fun hall => huW (hwakes.all c hall u hasleep)
  have hne : (M.sleepers c s.phase).Nonempty := ⟨u, mem_sleepers.2 hasleep⟩
  have hone := hwakes.one_le_card hne
  have hcard := card_wokenOn_leave (M := M) (c := c) (W := W) hawake
  have hsum : credit c (M.perform s.data op).2 + (if M.waitsOn op = some c then 1 else 0) ≤
      ((M.wokenOn c (leave s.phase t W)).card : ℕ∞) + if M.waitsOn op = some c then 1 else 0 :=
    calc credit c (M.perform s.data op).2 + (if M.waitsOn op = some c then 1 else 0)
        ≤ credit c s.data + if M.signal s.data op c = .one then 1 else 0 :=
          hM.bound _ _ _ hready hall
      _ ≤ (M.wokenOn c s.phase).card + (W ∩ M.sleepers c s.phase).card := by
          refine add_le_add (h c hne) ?_
          exact_mod_cast hone
      _ ≤ (M.wokenOn c (leave s.phase t W)).card + if M.waitsOn op = some c then 1 else 0 := by
          exact_mod_cast hcard
  refine (ENat.add_le_add_iff_right ?_).1 hsum
  split_ifs <;> simp

omit [DecidableEq C] in
/-- A thread changes its phase; on a condition that it comes to sleep on, or stops being woken from,
the data let nobody through. -/
theorem Attended.setPhase {s : State D Op ι} (h : M.Attended credit s) {p : Phase Op}
    (hp : ∀ c, (¬ M.AsleepOn c p ∧ (M.WokenOn c (s.phase t) → M.WokenOn c p)) ∨
      credit c s.data = 0) :
    M.Attended credit { s with phase := Function.update s.phase t p } := by
  intro c hc
  rcases hp c with ⟨hnot, hkeep⟩ | hzero
  · have hsub : M.sleepers c (Function.update s.phase t p) ⊆ M.sleepers c s.phase := by
      intro u hu
      rw [mem_sleepers] at hu ⊢
      by_cases hut : u = t
      · rw [hut, Function.update_self] at hu
        exact absurd hu hnot
      · rwa [Function.update_of_ne hut] at hu
    have hsup : M.wokenOn c s.phase ⊆ M.wokenOn c (Function.update s.phase t p) := by
      intro u hu
      rw [mem_wokenOn] at hu ⊢
      by_cases hut : u = t
      · rw [hut] at hu ⊢
        rw [Function.update_self]
        exact hkeep hu
      · rwa [Function.update_of_ne hut]
    exact (h c (hc.mono hsub)).trans (by exact_mod_cast Finset.card_le_card hsup)
  · exact hzero.trans_le zero_le

omit [DecidableEq ι] [Fintype ι] in
theorem Signalled.credit_eq_zero (hM : M.Signalled credit) {d : D} {op : Op}
    (hop : M.waitsOn op = some c) (h : ¬ M.ready d op) : credit c d = 0 := by
  by_contra hne
  exact h ((hM.ready_iff d op c hop).2 (pos_iff_ne_zero.2 hne))

theorem Attended.step {s s' : State D Op ι} {e : Event ι Op R} (hM : M.Signalled credit)
    (h : M.Attended credit s) (hs : M.Step s e s') : M.Attended credit s' := by
  cases hs with
  | call op idle => exact h.setPhase fun c => Or.inl ⟨id, fun hw => by rw [idle] at hw; exact hw⟩
  | finish awake ready wakes => exact h.finish hM awake ready wakes
  | @expire t op reply late unready expired =>
    refine h.setPhase fun c => ?_
    by_cases hop : M.waitsOn op = some c
    · exact Or.inr (hM.credit_eq_zero hop unready)
    · exact Or.inl ⟨id, fun hw => by rw [late] at hw; exact hop hw⟩
  | @wait t op awake unready =>
    refine h.setPhase fun c => ?_
    by_cases hop : M.waitsOn op = some c
    · exact Or.inr (hM.credit_eq_zero hop unready)
    · refine Or.inl ⟨hop, fun hw => hop ?_⟩
      rcases awake with awake | awake <;> rw [awake] at hw
      · exact hw.elim
      · exact hw
  | wake asleep =>
    exact h.setPhase fun c => Or.inl ⟨id, fun hw => by rw [asleep] at hw; exact hw.elim⟩
  | timeout asleep expired =>
    exact h.setPhase fun c => Or.inl ⟨id, fun hw => by rw [asleep] at hw; exact hw.elim⟩

theorem attended_of_reachable {s : State D Op ι} (hM : M.Signalled credit)
    (h : Reachable Quiet M.Step s) : M.Attended credit s := by
  refine h.invariant (M.Attended credit) (fun s hquiet c hc => ?_) fun _ _ _ hs h => h.step hM hs
  obtain ⟨t, ht⟩ := hc
  rw [mem_sleepers, hquiet] at ht
  exact ht.elim

end Signals

end Counting

/-! ## Wakeups -/

section Wakeups

variable {M} {c : C} {phase : ι → Phase Op} {t : ι} {s : State D Op ι} {op : Op}

omit [DecidableEq ι] in
theorem asleepOn_unique {p : Phase Op} {c' : C} (h : M.AsleepOn c p) (h' : M.AsleepOn c' p) :
    c = c' := by
  cases p with
  | asleep op => exact Option.some.inj (h.symm.trans h')
  | _ => exact h.elim

omit [DecidableEq ι] in
open scoped Classical in
/-- Some choice of the threads that are woken is always there. -/
theorem exists_wakes [Fintype ι] (sig : C → Signal) (phase : ι → Phase Op) :
    ∃ W, M.Wakes sig phase W := by
  let chosen (c : C) (t : ι) : Prop := ∀ h : ∃ u, M.AsleepOn c (phase u), t = h.choose
  let woken (t : ι) : Prop :=
    ∃ c, M.AsleepOn c (phase t) ∧ (sig c = .all ∨ sig c = .one ∧ chosen c t)
  have hmem (t : ι) : t ∈ Finset.univ.filter woken ↔ woken t := by simp
  refine ⟨Finset.univ.filter woken, fun t ht => ?_, fun c hsig h => ?_, fun c hsig t ht => ?_⟩
  · obtain ⟨c, hc, hsig | ⟨hsig, -⟩⟩ := (hmem t).1 ht
    · exact ⟨c, hc, by rw [hsig]; exact nofun⟩
    · exact ⟨c, hc, by rw [hsig]; exact nofun⟩
  · refine ⟨h.choose, ⟨(hmem _).2 ⟨c, h.choose_spec, Or.inr ⟨hsig, fun _ => rfl⟩⟩,
      h.choose_spec⟩, ?_⟩
    rintro u ⟨hu, hc⟩
    obtain ⟨c', hc', hsig'⟩ := (hmem u).1 hu
    obtain rfl := asleepOn_unique hc hc'
    rcases hsig' with hsig' | ⟨-, hu⟩
    · rw [hsig] at hsig'
      cases hsig'
    · exact hu h
  · exact (hmem t).2 ⟨c, ht, Or.inl hsig⟩

/-- A thread that is awake and whose predicate holds can end its call. -/
theorem exists_finish [Fintype ι]
    (hawake : s.phase t = .entering op ∨ s.phase t = .woken op ∨ s.phase t = .late op)
    (hready : M.ready s.data op) :
    ∃ s', M.Step s (.finish t op (M.perform s.data op).1) s' := by
  obtain ⟨W, hW⟩ := M.exists_wakes (M.signal s.data op) s.phase
  exact ⟨_, .finish hawake hready hW⟩

theorem asleep_of_update {p : Phase Op} {u : ι}
    (h : Function.update phase t p u = .asleep op) :
    phase u = .asleep op ∨ p = .asleep op := by
  by_cases hut : u = t
  · rw [hut, Function.update_self] at h
    exact Or.inr h
  · rw [Function.update_of_ne hut] at h
    exact Or.inl h

/-- A thread that sleeps after a step did so before it, or has just found its predicate false. -/
theorem Step.asleep {s' : State D Op ι} {e : Event ι Op R} {u : ι} (h : M.Step s e s')
    (hu : s'.phase u = .asleep op) : s.phase u = .asleep op ∨ ¬ M.ready s.data op := by
  cases h with
  | call op' idle => exact Or.inl ((asleep_of_update hu).resolve_right nofun)
  | finish awake ready wakes => exact Or.inl (asleep_of_leave hu).1
  | expire late unready expired => exact Or.inl ((asleep_of_update hu).resolve_right nofun)
  | wait awake unready =>
    rcases asleep_of_update hu with hu | hu
    · exact Or.inl hu
    · cases hu
      exact Or.inr unready
  | wake asleep => exact Or.inl ((asleep_of_update hu).resolve_right nofun)
  | timeout asleep expired => exact Or.inl ((asleep_of_update hu).resolve_right nofun)

variable [DecidableEq C] {credit : C → D → ℕ∞}

/-- Only calls that wait on a condition sleep. -/
theorem waitsOn_of_asleep (hM : M.Signalled credit) (h : Reachable Quiet M.Step s)
    (hasleep : s.phase t = .asleep op) : M.waitsOn op ≠ none := by
  refine h.invariant (fun s => ∀ t op, s.phase t = .asleep op → M.waitsOn op ≠ none)
    (fun s hquiet t op ht => ?_) (fun s e s' hs ih u op hu => ?_) t op hasleep
  · rw [hquiet] at ht
    cases ht
  · rcases hs.asleep hu with hu | hunready
    · exact ih u op hu
    · exact fun hnone => hunready (hM.ready_of_none _ _ hnone)

/-- Whenever the predicate of a sleeping thread holds, some thread woken on the same condition finds
its own true. -/
theorem exists_woken [Fintype ι] (hM : M.Signalled credit) (h : Reachable Quiet M.Step s)
    (hasleep : s.phase t = .asleep op) (hready : M.ready s.data op) :
    ∃ u op', (s.phase u = .woken op' ∨ s.phase u = .late op') ∧
      M.waitsOn op' = M.waitsOn op ∧ M.ready s.data op' := by
  obtain ⟨c, hc⟩ := Option.ne_none_iff_exists'.1 (waitsOn_of_asleep hM h hasleep)
  have hcredit : 0 < credit c s.data := (hM.ready_iff _ _ _ hc).1 hready
  have hsleeps : t ∈ M.sleepers c s.phase := by
    rw [mem_sleepers, hasleep]
    exact hc
  have hcard : 0 < (M.wokenOn c s.phase).card := by
    exact_mod_cast hcredit.trans_le (attended_of_reachable hM h c ⟨t, hsleeps⟩)
  obtain ⟨u, hu⟩ := Finset.card_pos.1 hcard
  rw [mem_wokenOn] at hu
  cases hp : s.phase u with
  | woken op' =>
    rw [hp] at hu
    exact ⟨u, op', Or.inl hp, hu.trans hc.symm, (hM.ready_iff _ _ _ hu).2 hcredit⟩
  | late op' =>
    rw [hp] at hu
    exact ⟨u, op', Or.inr hp, hu.trans hc.symm, (hM.ready_iff _ _ _ hu).2 hcredit⟩
  | _ =>
    rw [hp] at hu
    exact hu.elim

end Wakeups

/-! ## What is seen from outside -/

/-- The data and the call that each thread is in. -/
structure Calls (D Op ι : Type*) where
  data : D
  calls : ι → Option Op

/-- The same object without condition variables: a call ends when its predicate holds, or when its
time is over. -/
inductive AtomicStep : Calls D Op ι → Event ι Op R → Calls D Op ι → Prop
  | call {s : Calls D Op ι} {t : ι} (op : Op) (idle : s.calls t = none) :
      AtomicStep s (.call t op) { s with calls := Function.update s.calls t (some op) }
  | finish {s : Calls D Op ι} {t : ι} {op : Op} (incall : s.calls t = some op)
      (ready : M.ready s.data op) :
      AtomicStep s (.finish t op (M.perform s.data op).1)
        { data := (M.perform s.data op).2, calls := Function.update s.calls t none }
  | expire {s : Calls D Op ι} {t : ι} {op : Op} {reply : R} (incall : s.calls t = some op)
      (unready : ¬ M.ready s.data op) (expired : M.expire op = some reply) :
      AtomicStep s (.finish t op reply) { s with calls := Function.update s.calls t none }

def State.erase (s : State D Op ι) : Calls D Op ι where
  data := s.data
  calls := fun t => (s.phase t).call

def Event.seen : Event ι Op R → Bool
  | call _ _ => true
  | finish _ _ _ => true
  | _ => false

/-- The calls and the replies of a run, in their order. -/
def trace (ts : List (Taken (State D Op ι) (Event ι Op R))) : List (Event ι Op R) :=
  (ts.map Taken.label).filter Event.seen

section Traces

variable {M} {s s' : State D Op ι} {e : Event ι Op R} {t : ι} {op : Op}

omit [DecidableEq ι] in
@[simp] theorem erase_calls (s : State D Op ι) (t : ι) : s.erase.calls t = (s.phase t).call := rfl

theorem erase_setPhase (s : State D Op ι) (t : ι) (p : Phase Op) :
    State.erase { s with phase := Function.update s.phase t p } =
      { data := s.data, calls := Function.update s.erase.calls t p.call } := by
  simp only [State.erase, Calls.mk.injEq, true_and]
  funext u
  by_cases hu : u = t
  · rw [hu, Function.update_self, Function.update_self]
  · rw [Function.update_of_ne hu, Function.update_of_ne hu]

/-- The phase of a thread that stays in its call, or in none, is not seen. -/
theorem erase_setPhase_same {p : Phase Op} (h : (s.phase t).call = p.call) :
    State.erase { s with phase := Function.update s.phase t p } = s.erase := by
  rw [erase_setPhase, ← h]
  exact congrArg (Calls.mk s.data) (Function.update_eq_self t s.erase.calls)

theorem erase_leave (d : D) (phase : ι → Phase Op) (t : ι) (W : Finset ι) :
    State.erase { data := d, phase := leave phase t W } =
      { data := d, calls := Function.update (fun u => (phase u).call) t none } := by
  simp only [State.erase, Calls.mk.injEq, true_and]
  funext u
  rw [call_leave, Function.update_apply]

/-- A step is a step of the object without condition variables, or is not seen. -/
theorem Step.erase (h : M.Step s e s') :
    e.seen = true ∧ M.AtomicStep s.erase e s'.erase ∨ e.seen = false ∧ s'.erase = s.erase := by
  cases h with
  | call op idle =>
    refine Or.inl ⟨rfl, ?_⟩
    rw [erase_setPhase]
    exact .call op (by rw [erase_calls, idle]; rfl)
  | finish awake ready wakes =>
    refine Or.inl ⟨rfl, ?_⟩
    rw [erase_leave]
    exact .finish (by rcases awake with h | h | h <;> rw [erase_calls, h] <;> rfl) ready
  | expire late unready expired =>
    refine Or.inl ⟨rfl, ?_⟩
    rw [erase_setPhase]
    exact .expire (by rw [erase_calls, late]; rfl) unready expired
  | wait awake unready =>
    refine Or.inr ⟨rfl, erase_setPhase_same ?_⟩
    rcases awake with h | h <;> rw [h] <;> rfl
  | wake asleep => exact Or.inr ⟨rfl, erase_setPhase_same (by rw [asleep]; rfl)⟩
  | timeout asleep expired => exact Or.inr ⟨rfl, erase_setPhase_same (by rw [asleep]; rfl)⟩

/-- Without condition variables there are runs with the same traces. -/
theorem exists_atomic {ts : List (Taken (State D Op ι) (Event ι Op R))} (h : Run M.Step s ts s') :
    ∃ us, Run M.AtomicStep s.erase us s'.erase ∧ us.map Taken.label = trace ts := by
  induction h with
  | nil s => exact ⟨[], .nil _, rfl⟩
  | @cons s s₁ s' e ts hstep _ ih =>
    obtain ⟨us, hus, hlabels⟩ := ih
    rcases hstep.erase with ⟨hseen, hatomic⟩ | ⟨hseen, heq⟩
    · refine ⟨⟨s.erase, e, s₁.erase⟩ :: us, .cons hatomic hus, ?_⟩
      rw [List.map_cons, hlabels, trace, trace, List.map_cons, List.filter_cons_of_pos hseen]
    · rw [heq] at hus
      refine ⟨us, hus, ?_⟩
      rw [hlabels, trace, trace, List.map_cons, List.filter_cons_of_neg (by simp [hseen])]

/-- No thread waits. -/
def Awake (s : State D Op ι) : Prop := ∀ t, s.phase t = .idle ∨ ∃ op, s.phase t = .entering op

omit [DecidableEq ι] in
theorem Awake.entering (h : Awake s) (hcall : s.erase.calls t = some op) :
    s.phase t = .entering op := by
  rcases h t with hp | ⟨op', hp⟩ <;> rw [erase_calls, hp] at hcall <;> cases hcall
  exact hp

omit [DecidableEq ι] in
theorem Awake.idle (h : Awake s) (hcall : s.erase.calls t = none) : s.phase t = .idle := by
  rcases h t with hp | ⟨op', hp⟩
  · exact hp
  · rw [erase_calls, hp] at hcall
    cases hcall

theorem Awake.setPhase (h : Awake s) {p : Phase Op} (hp : p = .idle ∨ ∃ op, p = .entering op) :
    Awake { s with phase := Function.update s.phase t p } := by
  intro u
  by_cases hu : u = t
  · rw [hu]
    simpa using hp
  · rcases h u with h | ⟨op', h⟩
    · exact Or.inl ((Function.update_of_ne hu _ _).trans h)
    · exact Or.inr ⟨op', (Function.update_of_ne hu _ _).trans h⟩

omit [DecidableEq ι] in
theorem Awake.wakes (h : Awake s) (sig : C → Signal) : M.Wakes sig s.phase ∅ := by
  have hnone (c : C) (t : ι) : ¬ M.AsleepOn c (s.phase t) := by
    rcases h t with h | ⟨op, h⟩ <;> rw [h] <;> exact id
  exact ⟨nofun, fun c _ ⟨t, ht⟩ => (hnone c t ht).elim, fun c _ t ht => (hnone c t ht).elim⟩

/-- The object with condition variables follows the one without, and no thread waits after it. -/
theorem Awake.follow {a' : Calls D Op ι} (h : Awake s) (ha : M.AtomicStep s.erase e a') :
    ∃ ts s', Run M.Step s ts s' ∧ s'.erase = a' ∧ Awake s' ∧ trace ts = [e] := by
  cases ha with
  | call op hidle =>
    refine ⟨_, _, .cons (.call op (h.idle hidle)) (.nil _), ?_, h.setPhase (Or.inr ⟨op, rfl⟩), rfl⟩
    exact erase_setPhase ..
  | @finish t op incall ready =>
    have hleave : leave s.phase t ∅ = Function.update s.phase t .idle := by simp [leave]
    have hstep := Step.finish (Or.inl (h.entering incall)) ready (h.wakes (M.signal s.data op))
    rw [hleave] at hstep
    refine ⟨_, _, .cons hstep (.nil _), ?_, ?_, rfl⟩
    · exact erase_setPhase { s with data := (M.perform s.data op).2 } t .idle
    · exact Awake.setPhase (s := { s with data := (M.perform s.data op).2 }) h (Or.inl rfl)
  | @expire t op reply incall unready expired =>
    let asleep : State D Op ι := { s with phase := Function.update s.phase t (.asleep op) }
    let late : State D Op ι := { asleep with phase := Function.update asleep.phase t (.late op) }
    have hwait : M.Step s (.wait t) asleep := .wait (Or.inl (h.entering incall)) unready
    have hlate : M.Step asleep (.timeout t) late := .timeout (Function.update_self ..) expired
    have hend : M.Step late (.finish t op reply)
        { late with phase := Function.update late.phase t .idle } :=
      .expire (Function.update_self ..) unready expired
    have hidle : Function.update late.phase t .idle = Function.update s.phase t .idle := by
      simp [late, asleep]
    rw [hidle] at hend
    exact ⟨_, _, .cons hwait (.cons hlate (.cons hend (.nil _))), erase_setPhase s t .idle,
      h.setPhase (Or.inl rfl), rfl⟩

theorem Awake.follow_run {a a' : Calls D Op ι}
    {us : List (Taken (Calls D Op ι) (Event ι Op R))} (h : Awake s) (ha : s.erase = a)
    (hrun : Run M.AtomicStep a us a') :
    ∃ ts s', Run M.Step s ts s' ∧ s'.erase = a' ∧ trace ts = us.map Taken.label := by
  induction hrun generalizing s with
  | nil a => exact ⟨[], s, .nil s, ha, rfl⟩
  | cons hstep _ ih =>
    rw [← ha] at hstep
    obtain ⟨ts, s₁, hts, hs₁, hawake, htrace⟩ := h.follow hstep
    obtain ⟨ts', s', hts', hs', htrace'⟩ := ih hawake hs₁
    refine ⟨ts ++ ts', s', Run.append_iff.2 ⟨s₁, hts, hts'⟩, hs', ?_⟩
    rw [trace] at htrace htrace' ⊢
    rw [List.map_append, List.filter_append, htrace, htrace', List.map_cons, List.singleton_append]

/-- Condition variables are not seen: an object has the same traces, with the same data at their
ends, with them and without. -/
theorem trace_iff (hquiet : Quiet s) (es : List (Event ι Op R)) (d : D) :
    (∃ ts s', Run M.Step s ts s' ∧ trace ts = es ∧ s'.data = d) ↔
      ∃ us a', Run M.AtomicStep s.erase us a' ∧ us.map Taken.label = es ∧ a'.data = d := by
  constructor
  · rintro ⟨ts, s', hrun, rfl, rfl⟩
    obtain ⟨us, hus, hlabels⟩ := exists_atomic hrun
    exact ⟨us, s'.erase, hus, hlabels, rfl⟩
  · rintro ⟨us, a', hrun, rfl, rfl⟩
    have hawake : Awake s := fun t => Or.inl (congrFun hquiet t)
    obtain ⟨ts, s', hts, hs', htrace⟩ := hawake.follow_run rfl hrun
    exact ⟨ts, s', hts, htrace, congrArg Calls.data hs'⟩

end Traces

end Monitor
