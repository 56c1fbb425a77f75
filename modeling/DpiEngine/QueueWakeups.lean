import DpiEngine.Lib.Monitor
import DpiEngine.QueueHistory

/-!
# Wakeups of a queue

`ThreadSafeQueue` with its mutex and its condition variables `not_empty_` and `not_full_`.  A push
notifies one consumer, a pop one producer, and `shutdown` everybody, which is enough: no thread
sleeps while its predicate holds and nobody is on the way.
-/

namespace DPI

namespace ThreadSafeQueue

variable {α ι : Type}

/-- `not_empty_` and `not_full_`. -/
inductive Cond where
  | notEmpty | notFull
  deriving DecidableEq

/-- The condition variable that a call waits on. -/
def Op.waitsOn : Op α → Option Cond
  | .push _ => some .notFull
  | .pop => some .notEmpty
  | .popWithTimeout => some .notEmpty
  | .tryPush _ => none
  | .shutdown => none

/-- The predicate that a call waits for. -/
def Ready (q : ThreadSafeQueue α) : Op α → Prop
  | .push _ => q.queue.length < q.maxSize ∨ q.isShutdown = true
  | .pop => q.queue ≠ [] ∨ q.isShutdown = true
  | .popWithTimeout => q.queue ≠ [] ∨ q.isShutdown = true
  | .tryPush _ => True
  | .shutdown => True

/-- The rest of `pop` and `popWithTimeout` after their waits. -/
def takeFront (q : ThreadSafeQueue α) : Reply α × ThreadSafeQueue α :=
  match q.popWithTimeout with
  | some (item, q') => (.popped (some item), q')
  | none => (.popped none, q)

/-- What a call does after its wait. -/
def afterWait (q : ThreadSafeQueue α) : Op α → Reply α × ThreadSafeQueue α
  | .push item => (.done, (q.push item).getD q)
  | .tryPush item => (.pushed (q.tryPush item).1, (q.tryPush item).2)
  | .pop => q.takeFront
  | .popWithTimeout => q.takeFront
  | .shutdown => (.done, q.shutdown)

/-- Whom a call notifies after its wait. -/
def notifies (q : ThreadSafeQueue α) : Op α → Cond → Signal
  | .push _, .notEmpty => if q.isShutdown then .none else .one
  | .tryPush item, .notEmpty => if (q.tryPush item).1 then .one else .none
  | .pop, .notFull => if q.empty then .none else .one
  | .popWithTimeout, .notFull => if q.empty then .none else .one
  | .shutdown, _ => .all
  | _, _ => .none

def monitor (α : Type) : Monitor (ThreadSafeQueue α) Cond (Op α) (Reply α) where
  waitsOn := Op.waitsOn
  ready := Ready
  perform := afterWait
  signal := notifies
  expire
    | .popWithTimeout => some (.popped none)
    | _ => none

/-! ## The notifications suffice -/

/-- How many waiting threads the queue lets through: a consumer for each item, a producer for each
free place, and all of them after a shutdown. -/
def credit (c : Cond) (q : ThreadSafeQueue α) : ℕ∞ :=
  if q.isShutdown then ⊤
  else
    match c with
    | .notEmpty => q.queue.length
    | .notFull => (q.maxSize - q.queue.length : ℕ)

theorem credit_of_shutdown {q : ThreadSafeQueue α} (hs : q.isShutdown = true) (c : Cond) :
    credit c q = ⊤ := if_pos hs

theorem credit_notEmpty {q : ThreadSafeQueue α} (hs : q.isShutdown = false) :
    credit .notEmpty q = q.queue.length := if_neg (by simp [hs])

theorem credit_notFull {q : ThreadSafeQueue α} (hs : q.isShutdown = false) :
    credit .notFull q = (q.maxSize - q.queue.length : ℕ) := if_neg (by simp [hs])

theorem ready_iff (q : ThreadSafeQueue α) {op : Op α} {c : Cond} (hop : op.waitsOn = some c) :
    q.Ready op ↔ 0 < credit c q := by
  by_cases hs : q.isShutdown = true
  · rw [credit_of_shutdown hs]
    refine iff_of_true ?_ (by simp)
    cases op <;> first | exact Or.inr hs | trivial
  · have hopen := Bool.eq_false_of_not_eq_true hs
    cases op <;> cases hop
    · rw [credit_notFull hopen]
      simp [Ready, hs]
    · rw [credit_notEmpty hopen]
      simp [Ready, hs, List.length_pos_iff]
    · rw [credit_notEmpty hopen]
      simp [Ready, hs, List.length_pos_iff]

theorem perform_popWithTimeout (q : ThreadSafeQueue α) :
    q.perform .popWithTimeout = some q.takeFront := by
  unfold perform takeFront
  dsimp only
  cases q.popWithTimeout <;> rfl

/-- What a section leaves in a queue in service. -/
structure Leaves (q q' : ThreadSafeQueue α) (queue : List α) : Prop where
  maxSize : q'.maxSize = q.maxSize
  isShutdown : q'.isShutdown = q.isShutdown
  queue : q'.queue = queue

theorem leaves_push {q q' : ThreadSafeQueue α} {item : α} (hs : q.isShutdown = false)
    (h : q.push item = some q') : Leaves q q' (q.queue ++ [item]) :=
  ⟨push_maxSize h, (push_eq_some h).1, (push_eq_some h).2 hs⟩

theorem leaves_takeFront (q : ThreadSafeQueue α) : Leaves q q.takeFront.2 q.queue.tail := by
  unfold takeFront
  split
  · next item q' h =>
    obtain ⟨hs, hq⟩ := popWithTimeout_eq_some h
    exact ⟨popWithTimeout_maxSize h, hs, by rw [hq]; rfl⟩
  · next h => exact ⟨rfl, rfl, by rw [popWithTimeout_eq_none_iff.1 h]; rfl⟩

/-- A section of a queue in service, by what it adds and takes and whom it notifies; `w` is 1 on the
condition that its thread waited on. -/
theorem Leaves.credit_le {q q' : ThreadSafeQueue α} {queue : List α} {c : Cond} {w n : ℕ}
    (h : Leaves q q' queue) (hs : q.isShutdown = false)
    (hempty : c = .notEmpty → queue.length + w ≤ q.queue.length + n)
    (hfull : c = .notFull → q.maxSize - queue.length + w ≤ q.maxSize - q.queue.length + n) :
    credit c q' + w ≤ credit c q + n := by
  have hs' : q'.isShutdown = false := h.isShutdown.trans hs
  cases c with
  | notEmpty =>
    rw [credit_notEmpty hs, credit_notEmpty hs', h.queue]
    exact_mod_cast hempty rfl
  | notFull =>
    rw [credit_notFull hs, credit_notFull hs', h.maxSize, h.queue]
    exact_mod_cast hfull rfl

/-- A pop takes one item and makes room for one. -/
theorem credit_takeFront {q : ThreadSafeQueue α} (c : Cond) (hs : q.isShutdown = false)
    (hne : q.queue ≠ []) :
    credit c q.takeFront.2 + (if c = .notEmpty then 1 else 0 : ℕ) ≤
      credit c q + (if c = .notFull then 1 else 0 : ℕ) := by
  have hpos := List.length_pos_iff.2 hne
  apply q.leaves_takeFront.credit_le hs
  · rintro rfl
    simp only [List.length_tail, reduceCtorEq, if_true, if_false]
    omega
  · rintro rfl
    simp only [List.length_tail, reduceCtorEq, if_true, if_false]
    omega

/-- A push adds one item and takes up one place. -/
theorem credit_push {q q' : ThreadSafeQueue α} {item : α} (c : Cond) (hs : q.isShutdown = false)
    (hroom : q.queue.length < q.maxSize) (h : q.push item = some q') :
    credit c q' + (if c = .notFull then 1 else 0 : ℕ) ≤
      credit c q + (if c = .notEmpty then 1 else 0 : ℕ) := by
  apply (leaves_push hs h).credit_le hs
  · rintro rfl
    simp
  · rintro rfl
    simp only [List.length_append, List.length_singleton, reduceCtorEq, if_true, if_false]
    omega

theorem signalled : (monitor α).Signalled credit where
  ready_iff q op c hop := ready_iff q hop
  ready_of_none q op hop := by cases op <;> trivial
  bound q op c hready hall := by
    by_cases hs : q.isShutdown = true
    · rw [credit_of_shutdown hs, top_add]
      exact le_top
    have hopen := Bool.eq_false_of_not_eq_true hs
    cases op with
    | push item =>
      have hroom : q.queue.length < q.maxSize := hready.resolve_right hs
      obtain ⟨q', hpush⟩ := Option.ne_none_iff_exists'.1
        fun hnone => hroom.ne (push_eq_none_iff.1 hnone).2
      have hafter : q.afterWait (.push item) = (.done, q') := by
        rw [afterWait, hpush, Option.getD_some]
      have hle := credit_push c hopen hroom hpush
      cases c <;> simpa [monitor, hafter, notifies, Op.waitsOn, hopen] using hle
    | tryPush item =>
      rcases tryPush_cases q item with ⟨-, hroom, hqueued, hpush⟩ | ⟨-, hsame⟩
      · have hle := credit_push c hopen hroom hpush
        cases c <;> simp [monitor, afterWait, notifies, Op.waitsOn, hqueued] at hle ⊢
        · exact hle
        · exact (le_add_right le_rfl).trans hle
      · cases c <;> simp [monitor, afterWait, notifies, Op.waitsOn, hsame]
    | pop =>
      have hne := hready.resolve_right hs
      have hle := credit_takeFront c hopen hne
      cases c <;> simpa [monitor, afterWait, notifies, Op.waitsOn, empty, hne] using hle
    | popWithTimeout =>
      have hne := hready.resolve_right hs
      have hle := credit_takeFront c hopen hne
      cases c <;> simpa [monitor, afterWait, notifies, Op.waitsOn, empty, hne] using hle
    | shutdown => exact absurd rfl hall

/-! ## No lost wakeups -/

variable [DecidableEq ι]

/-- The queue with its threads, none of them in a call at the beginning. -/
abbrev Guarded (s : Monitor.State (ThreadSafeQueue α) (Op α) ι) : Prop :=
  Reachable Monitor.Quiet (monitor α).Step s

/-- What a sleeping call has seen: a queue in service that is empty, or full. -/
theorem unready_cases {q : ThreadSafeQueue α} {op : Op α} (h : ¬ q.Ready op) :
    q.isShutdown = false ∧
      (op.waitsOn = some .notEmpty ∧ q.queue = [] ∨
        op.waitsOn = some .notFull ∧ q.queue.length = q.maxSize) := by
  have hbounded := q.bounded
  cases op with
  | push item =>
    obtain ⟨hfull, hs⟩ := not_or.1 h
    exact ⟨by simpa using hs, Or.inr ⟨rfl, by omega⟩⟩
  | pop =>
    obtain ⟨hempty, hs⟩ := not_or.1 h
    exact ⟨by simpa using hs, Or.inl ⟨rfl, not_not.1 hempty⟩⟩
  | popWithTimeout =>
    obtain ⟨hempty, hs⟩ := not_or.1 h
    exact ⟨by simpa using hs, Or.inl ⟨rfl, not_not.1 hempty⟩⟩
  | tryPush item => exact (h trivial).elim
  | shutdown => exact (h trivial).elim

/-- Any number of threads share a queue.  While a call sleeps though its predicate holds, another
call that was woken on the same condition can end at once.  If no call is awake, the queue is in
service, and what sleeps are consumers of an empty queue or producers at a full one, not both if the
queue has any room.  After a shutdown no call sleeps. -/
theorem no_lost_wakeup [Fintype ι] {s : Monitor.State (ThreadSafeQueue α) (Op α) ι}
    (h : Guarded s) :
    (∀ thread op, s.phase thread = .asleep op → s.data.Ready op →
      ∃ other op' s', (s.phase other = .woken op' ∨ s.phase other = .late op') ∧
        op'.waitsOn = op.waitsOn ∧
        (monitor α).Step s (.finish other op' (s.data.afterWait op').1) s') ∧
    ((∀ thread, s.phase thread = .idle ∨ ∃ op, s.phase thread = .asleep op) →
      (∀ thread op, s.phase thread = .asleep op → s.data.isShutdown = false ∧
        (op.waitsOn = some .notEmpty ∧ s.data.queue = [] ∨
          op.waitsOn = some .notFull ∧ s.data.queue.length = s.data.maxSize)) ∧
      (0 < s.data.maxSize → ∀ thread op other op', s.phase thread = .asleep op →
        s.phase other = .asleep op' → op.waitsOn = op'.waitsOn)) ∧
    (s.data.isShutdown = true → ∀ thread op, s.phase thread ≠ .asleep op) := by
  have hwoken {thread : ι} {op : Op α} (hasleep : s.phase thread = .asleep op)
      (hready : s.data.Ready op) := Monitor.exists_woken signalled h hasleep hready
  have hrest (hquiet : ∀ thread, s.phase thread = .idle ∨ ∃ op, s.phase thread = .asleep op)
      (thread : ι) (op : Op α) (hasleep : s.phase thread = .asleep op) : ¬ s.data.Ready op := by
    intro hready
    obtain ⟨other, op', hother, -, -⟩ := hwoken hasleep hready
    rcases hquiet other with hidle | ⟨op'', hop''⟩
    · rcases hother with hother | hother <;> rw [hidle] at hother <;> cases hother
    · rcases hother with hother | hother <;> rw [hop''] at hother <;> cases hother
  refine ⟨fun thread op hasleep hready => ?_, fun hquiet => ⟨?_, ?_⟩,
    fun hs thread op hasleep => ?_⟩
  · obtain ⟨other, op', hother, hwaits, hready'⟩ := hwoken hasleep hready
    obtain ⟨s', hs'⟩ := Monitor.exists_finish (M := monitor α) (Or.inr hother) hready'
    exact ⟨other, op', s', hother, hwaits, hs'⟩
  · exact fun thread op hasleep => unready_cases (hrest hquiet thread op hasleep)
  · intro hpos thread op other op' hasleep hasleep'
    obtain ⟨-, hcase⟩ := unready_cases (hrest hquiet thread op hasleep)
    obtain ⟨-, hcase'⟩ := unready_cases (hrest hquiet other op' hasleep')
    rcases hcase with ⟨hop, hqueue⟩ | ⟨hop, hqueue⟩ <;>
      rcases hcase' with ⟨hop', hqueue'⟩ | ⟨hop', hqueue'⟩
    · rw [hop, hop']
    · rw [hqueue, List.length_nil] at hqueue'
      omega
    · rw [hqueue', List.length_nil] at hqueue
      omega
    · rw [hop, hop']
  · -- a queue that is shut down lets any number of threads through, and finitely many are woken
    obtain ⟨c, hc⟩ := Option.ne_none_iff_exists'.1 (Monitor.waitsOn_of_asleep signalled h hasleep)
    have hsleeps : thread ∈ (monitor α).sleepers c s.phase := by
      rw [Monitor.mem_sleepers, hasleep]
      exact hc
    have hle := Monitor.attended_of_reachable signalled h c ⟨thread, hsleeps⟩
    rw [credit_of_shutdown hs, top_le_iff] at hle
    exact ENat.natCast_ne_top _ hle

/-- Two consumers sleep when an item is pushed, and the first of them is woken. -/
theorem no_lost_wakeup_of_push :
    ∃ s : Monitor.State (ThreadSafeQueue ℕ) (Op ℕ) (Fin 3),
      s.phase 1 = .asleep .pop ∧ s.data.queue = [7] ∧
        ∃ other op' s', (s.phase other = .woken op' ∨ s.phase other = .late op') ∧
          op'.waitsOn = some .notEmpty ∧
          (monitor ℕ).Step s (.finish other op' (s.data.afterWait op').1) s' := by
  let s₀ : Monitor.State (ThreadSafeQueue ℕ) (Op ℕ) (Fin 3) := ⟨{ maxSize := 2 }, fun _ => .idle⟩
  let s₁ := { s₀ with phase := Function.update s₀.phase 0 (.entering Op.pop) }
  let s₂ := { s₁ with phase := Function.update s₁.phase 0 (.asleep Op.pop) }
  let s₃ := { s₂ with phase := Function.update s₂.phase 1 (.entering Op.pop) }
  let s₄ := { s₃ with phase := Function.update s₃.phase 1 (.asleep Op.pop) }
  let s₅ := { s₄ with phase := Function.update s₄.phase 2 (.entering (Op.push 7)) }
  let s₆ : Monitor.State (ThreadSafeQueue ℕ) (Op ℕ) (Fin 3) :=
    ⟨{ maxSize := 2, queue := [7] }, Monitor.leave s₅.phase 2 {0}⟩
  have hempty : ¬ s₀.data.Ready Op.pop := by simp [Ready, s₀]
  have hwakes : (monitor ℕ).Wakes ((monitor ℕ).signal s₅.data (.push 7)) s₅.phase {0} := by
    refine ⟨fun t ht => ?_, fun c hc _ => ?_, fun c hc => ?_⟩
    · rw [Finset.mem_singleton.1 ht]
      exact ⟨.notEmpty, rfl, nofun⟩
    · cases c with
      | notEmpty => exact ⟨0, ⟨Finset.mem_singleton_self _, rfl⟩, fun t ht =>
          Finset.mem_singleton.1 ht.1⟩
      | notFull => cases hc
    · cases c <;> cases hc
  have h₀ : Guarded s₀ := .start rfl
  have h₁ : Guarded s₁ := h₀.step (.call Op.pop rfl)
  have h₂ : Guarded s₂ := h₁.step (.wait (Or.inl rfl) hempty)
  have h₃ : Guarded s₃ := h₂.step (.call Op.pop rfl)
  have h₄ : Guarded s₄ := h₃.step (.wait (Or.inl rfl) hempty)
  have h₅ : Guarded s₅ := h₄.step (.call (Op.push 7) rfl)
  have h₆ : Guarded s₆ := h₅.step (.finish (Or.inl rfl) (Or.inl (by decide)) hwakes)
  exact ⟨s₆, rfl, rfl, (no_lost_wakeup h₆).1 1 Op.pop rfl (Or.inl nofun)⟩

/-! ## Histories -/

theorem perform_of_ready {q : ThreadSafeQueue α} {op : Op α} (h : q.Ready op) :
    q.perform op = some (q.afterWait op) := by
  cases op with
  | push item =>
    obtain ⟨q', hpush⟩ : ∃ q', q.push item = some q' := by
      refine Option.ne_none_iff_exists'.1 fun hnone => ?_
      obtain ⟨hs, hfull⟩ := push_eq_none_iff.1 hnone
      rcases h with hroom | hshut
      · exact hroom.ne hfull
      · rw [hs] at hshut
        cases hshut
    rw [perform, afterWait, hpush]
    rfl
  | pop =>
    rw [afterWait, takeFront, perform]
    unfold pop popWithTimeout
    split
    · next hq =>
      rw [if_pos (h.resolve_left (not_not.2 hq))]
      rfl
    · rfl
  | popWithTimeout => exact q.perform_popWithTimeout
  | tryPush item => rfl
  | shutdown => rfl

/-- A call that may not go on waits, unless its time is over. -/
theorem perform_of_unready {q : ThreadSafeQueue α} {op : Op α} (h : ¬ q.Ready op) :
    q.perform op = ((monitor α).expire op).map fun reply => (reply, q) := by
  obtain ⟨hs, -⟩ := unready_cases h
  cases op with
  | push item =>
    obtain ⟨hfull, -⟩ := not_or.1 h
    have hbounded := q.bounded
    rw [perform, push_eq_none_iff.2 ⟨hs, by omega⟩]
    rfl
  | pop =>
    rw [perform, pop_eq_none_iff.2 ⟨not_not.1 (not_or.1 h).1, hs⟩]
    rfl
  | popWithTimeout =>
    rw [perform, popWithTimeout_eq_none_iff.2 (not_not.1 (not_or.1 h).1)]
    rfl
  | tryPush item => exact (h trivial).elim
  | shutdown => exact (h trivial).elim

def ofCalls (s : Monitor.Calls (ThreadSafeQueue α) (Op α) ι) : Shared α ι := ⟨s.data, s.calls⟩

def Shared.toCalls (s : Shared α ι) : Monitor.Calls (ThreadSafeQueue α) (Op α) ι :=
  ⟨s.queue, s.calls⟩

def Event.toMonitor : Event α ι → Monitor.Event ι (Op α) (Reply α)
  | .call thread op => .call thread op
  | .finish thread op reply => .finish thread op reply

theorem step_of_atomicStep {s s' : Monitor.Calls (ThreadSafeQueue α) (Op α) ι}
    {e : Event α ι} (h : (monitor α).AtomicStep s e.toMonitor s') :
    Step (ofCalls s) e (ofCalls s') := by
  cases e with
  | call thread op =>
    cases h with
    | call op idle => exact .call op idle
  | finish thread op reply =>
    cases h with
    | finish incall ready => exact .finish incall (perform_of_ready ready)
    | expire incall unready expired =>
      refine .finish incall ((perform_of_unready unready).trans ?_)
      rw [expired]
      rfl

theorem atomicStep_of_step {s s' : Shared α ι} {e : Event α ι} (h : Step s e s') :
    (monitor α).AtomicStep s.toCalls e.toMonitor s'.toCalls := by
  cases h with
  | call op idle => exact .call op idle
  | @finish thread op reply q' incall section_eq =>
    by_cases hready : s.queue.Ready op
    · have heq := Option.some.inj ((perform_of_ready hready).symm.trans section_eq)
      obtain rfl : (s.queue.afterWait op).1 = reply := congrArg Prod.fst heq
      obtain rfl : (s.queue.afterWait op).2 = q' := congrArg Prod.snd heq
      exact .finish incall hready
    · rw [perform_of_unready hready, Option.map_eq_some_iff] at section_eq
      obtain ⟨reply, hexpired, heq⟩ := section_eq
      cases heq
      exact .expire incall hready hexpired

/-- Threads that sleep, are woken by any of the notifications or on their own, and come too late or
too early, make the same calls with the same replies as threads whose calls are single critical
sections, and leave the same queue. -/
theorem history_iff {s : Monitor.State (ThreadSafeQueue α) (Op α) ι} (hquiet : Monitor.Quiet s)
    (es : List (Event α ι)) (q : ThreadSafeQueue α) :
    (∃ ts s', Run (monitor α).Step s ts s' ∧ Monitor.trace ts = es.map Event.toMonitor ∧
      s'.data = q) ↔
    ∃ ts s', Run Step { queue := s.data, calls := fun _ => none } ts s' ∧
      ts.map Taken.label = es ∧ s'.queue = q := by
  have herase : s.erase = ⟨s.data, fun _ => none⟩ := by rw [Monitor.State.erase, hquiet]; rfl
  rw [Monitor.trace_iff hquiet, herase]
  constructor
  · rintro ⟨us, a', hrun, hlabels, rfl⟩
    have hes : List.Forall₂ (fun e e' => e = Event.toMonitor e') (us.map Taken.label) es := by
      rw [hlabels, List.forall₂_map_left_iff]
      exact List.forall₂_same.2 fun _ _ => rfl
    obtain ⟨ts, hts, hlabels'⟩ :=
      hrun.simulate ofCalls (fun _ _ _ hs e' he => step_of_atomicStep (he ▸ hs)) hes
    exact ⟨ts, _, hts, hlabels', rfl⟩
  · rintro ⟨ts, s', hrun, rfl, rfl⟩
    have hes : List.Forall₂ (fun e e' => e' = Event.toMonitor e) (ts.map Taken.label)
        ((ts.map Taken.label).map Event.toMonitor) := by
      rw [List.forall₂_map_right_iff]
      exact List.forall₂_same.2 fun _ _ => rfl
    obtain ⟨us, hus, hlabels⟩ :=
      hrun.simulate Shared.toCalls (fun _ _ _ hs e' he => he ▸ atomicStep_of_step hs) hes
    exact ⟨us, _, hus, hlabels, rfl⟩

/-- A consumer that comes first gets the item of a producer that comes after it. -/
theorem history_iff_of_pop :
    ∃ ts s', Run (monitor ℕ).Step (⟨{ maxSize := 1 }, fun _ => .idle⟩ : Monitor.State _ _ (Fin 2))
        ts s' ∧
      Monitor.trace ts = [.call 0 .pop, .call 1 (.push 7), .finish 1 (.push 7) .done,
        .finish 0 .pop (.popped (some 7))] ∧ s'.data = { maxSize := 1 } := by
  let s₀ : Shared ℕ (Fin 2) := { queue := { maxSize := 1 }, calls := fun _ => none }
  let s₁ : Shared ℕ (Fin 2) := { s₀ with calls := Function.update s₀.calls 0 (some .pop) }
  let s₂ : Shared ℕ (Fin 2) := { s₁ with calls := Function.update s₁.calls 1 (some (.push 7)) }
  let s₃ : Shared ℕ (Fin 2) :=
    { queue := { maxSize := 1, queue := [7] }, calls := Function.update s₂.calls 1 none }
  let s₄ : Shared ℕ (Fin 2) :=
    { queue := { maxSize := 1 }, calls := Function.update s₃.calls 0 none }
  have hpop : Step s₀ (.call 0 .pop) s₁ := .call _ rfl
  have hpush : Step s₁ (.call 1 (.push 7)) s₂ := .call _ rfl
  have hpushed : Step s₂ (.finish 1 (.push 7) .done) s₃ := .finish rfl rfl
  have hpopped : Step s₃ (.finish 0 .pop (.popped (some 7))) s₄ := .finish rfl rfl
  have hquiet : Monitor.Quiet
      (⟨{ maxSize := 1 }, fun _ => .idle⟩ : Monitor.State (ThreadSafeQueue ℕ) (Op ℕ) (Fin 2)) := rfl
  exact (history_iff hquiet [.call 0 .pop, .call 1 (.push 7), .finish 1 (.push 7) .done,
    .finish 0 .pop (.popped (some 7))] { maxSize := 1 }).2
    ⟨_, s₄, .cons hpop (.cons hpush (.cons hpushed (.cons hpopped (.nil s₄)))), rfl, rfl⟩

end ThreadSafeQueue

end DPI
