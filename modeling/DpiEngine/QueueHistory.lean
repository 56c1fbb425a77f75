import DpiEngine.Lib.Run
import DpiEngine.ThreadSafeQueue

/-!
# Histories of a queue

A `ThreadSafeQueue` that any number of threads use at once.  A thread that calls an operation is in
the call until the critical section that ends it; a section that finds its wait predicate false
waits on, in which case it has no step.  Threads take their steps in any order.
-/

namespace DPI

namespace ThreadSafeQueue

variable {α ι : Type}

/-! ## Calls -/

inductive Op (α : Type) where
  | push (item : α)
  | tryPush (item : α)
  | pop
  | popWithTimeout
  | shutdown

/-- What a call returns. -/
inductive Reply (α : Type) where
  | done
  | pushed (queued : Bool)
  | popped (item : Option α)

/-- The critical section that ends a call; `none` while the call waits. -/
def perform (q : ThreadSafeQueue α) : Op α → Option (Reply α × ThreadSafeQueue α)
  | .push item => (q.push item).map fun q' => (.done, q')
  | .tryPush item => some (.pushed (q.tryPush item).1, (q.tryPush item).2)
  | .pop => q.pop.map fun r => (.popped r.1, r.2)
  | .popWithTimeout =>
    match q.popWithTimeout with
    | some (item, q') => some (.popped (some item), q')
    | none => some (.popped none, q)
  | .shutdown => some (.done, q.shutdown)

/-- The queue is in service and has room. -/
def Accepts (q : ThreadSafeQueue α) : Prop := q.isShutdown = false ∧ q.queue.length < q.maxSize

instance (q : ThreadSafeQueue α) : Decidable q.Accepts := inferInstanceAs (Decidable (_ ∧ _))

/-- The call has to wait: a push for room, a pop for an item, while the queue is in service. -/
def Waits (q : ThreadSafeQueue α) : Op α → Prop
  | .push _ => q.isShutdown = false ∧ q.queue.length = q.maxSize
  | .pop => q.queue = [] ∧ q.isShutdown = false
  | .tryPush _ | .popWithTimeout | .shutdown => False

theorem perform_eq_none_iff {q : ThreadSafeQueue α} {op : Op α} :
    q.perform op = none ↔ q.Waits op := by
  cases op with
  | push item => exact Option.map_eq_none_iff.trans push_eq_none_iff
  | pop => exact Option.map_eq_none_iff.trans pop_eq_none_iff
  | popWithTimeout =>
    refine iff_of_false ?_ id
    unfold perform
    dsimp only
    split <;> exact nofun
  | tryPush item => exact iff_of_false nofun id
  | shutdown => exact iff_of_false nofun id

theorem not_waits_of_shutdown {q : ThreadSafeQueue α} (hs : q.isShutdown = true) (op : Op α) :
    ¬ q.Waits op := by
  cases op <;> simp [Waits, hs]

/-- The items of a call that are for the queue. -/
def Op.items : Op α → List α
  | .push item => [item]
  | .tryPush item => [item]
  | _ => []

/-- The items that a call returns. -/
def Reply.items : Reply α → List α
  | .popped item => item.toList
  | _ => []

/-- What a critical section does to the queue. -/
structure Performs (q : ThreadSafeQueue α) (op : Op α) (reply : Reply α)
    (q' : ThreadSafeQueue α) : Prop where
  maxSize : q'.maxSize = q.maxSize
  isShutdown : q.isShutdown = true → q'.isShutdown = true
  contents : reply.items ++ q'.queue = q.queue ++ if q.Accepts then op.items else []
  tried : ∀ item, op = .tryPush item → reply = .pushed (decide q.Accepts)
  popped : op = .pop ∨ op = .popWithTimeout →
    reply = .popped q.queue.head? ∧ q'.queue = q.queue.tail
  oneWay : reply.items = [] ∨ op.items = []

theorem queue_push {q q' : ThreadSafeQueue α} {item : α} (h : q.push item = some q') :
    q'.queue = q.queue ++ if q.Accepts then [item] else [] := by
  unfold push at h
  split_ifs at h with hs hroom <;> cases h
  · have hshut : ¬ q.Accepts := fun h => by
      rw [h.1] at hs
      cases hs
    rw [if_neg hshut, List.append_nil]
  · have haccepts : q.Accepts := ⟨Bool.eq_false_of_not_eq_true hs, hroom⟩
    rw [if_pos haccepts]

theorem performs_push {q q' : ThreadSafeQueue α} {item : α} (h : q.push item = some q') :
    Performs q (.push item) .done q' where
  maxSize := push_maxSize h
  isShutdown hs := (push_eq_some h).1.trans hs
  contents := queue_push h
  tried := nofun
  popped := by simp
  oneWay := Or.inl rfl

theorem performs_tryPush (q : ThreadSafeQueue α) (item : α) :
    Performs q (.tryPush item) (.pushed (q.tryPush item).1) (q.tryPush item).2 := by
  rcases tryPush_cases q item with ⟨hopen, hroom, hqueued, hpush⟩ | ⟨hfull, hsame⟩
  · have haccepts : q.Accepts := ⟨hopen, hroom⟩
    refine ⟨push_maxSize hpush, fun hs => (push_eq_some hpush).1.trans hs, queue_push hpush,
      fun item' _ => ?_, by simp, Or.inl rfl⟩
    rw [hqueued, decide_eq_true haccepts]
  · have hrefuses : ¬ q.Accepts := hfull
    rw [hsame]
    refine ⟨rfl, id, ?_, fun item' _ => ?_, by simp, Or.inl rfl⟩
    · rw [if_neg hrefuses, List.append_nil]
      rfl
    · rw [decide_eq_false hrefuses]

/-- A pop returns the first item there is and takes it out. -/
theorem performs_popped {q q' : ThreadSafeQueue α} {op : Op α} (hop : op.items = [])
    (hs : q'.isShutdown = q.isShutdown) (hmax : q'.maxSize = q.maxSize)
    (hqueue : q'.queue = q.queue.tail) : Performs q op (.popped q.queue.head?) q' where
  maxSize := hmax
  isShutdown := hs.trans
  contents := by
    rw [hop, ite_self, List.append_nil, hqueue]
    cases q.queue <;> rfl
  tried := by
    rintro item rfl
    cases hop
  popped _ := ⟨rfl, hqueue⟩
  oneWay := Or.inr hop

theorem performs_popWithTimeout {q q' : ThreadSafeQueue α} {reply : Reply α}
    (h : q.perform .popWithTimeout = some (reply, q')) : Performs q .popWithTimeout reply q' := by
  unfold perform at h
  dsimp only at h
  split at h
  · rename_i item q₁ hpop
    cases h
    obtain ⟨hs, hq⟩ := popWithTimeout_eq_some hpop
    have hperforms : Performs q .popWithTimeout (.popped q.queue.head?) q' :=
      performs_popped rfl hs (popWithTimeout_maxSize hpop) (by rw [hq]; rfl)
    rwa [hq] at hperforms
  · rename_i hpop
    cases h
    have hq := popWithTimeout_eq_none_iff.1 hpop
    have hperforms : Performs q .popWithTimeout (.popped q.queue.head?) q :=
      performs_popped rfl rfl rfl (by rw [hq]; rfl)
    rwa [hq] at hperforms

theorem performs_shutdown (q : ThreadSafeQueue α) : Performs q .shutdown .done q.shutdown where
  maxSize := rfl
  isShutdown _ := rfl
  contents := by simp [Op.items, Reply.items, shutdown]
  tried := nofun
  popped := by simp
  oneWay := Or.inl rfl

/-- One statement for all five operations. -/
theorem performs {q q' : ThreadSafeQueue α} {op : Op α} {reply : Reply α}
    (h : q.perform op = some (reply, q')) : Performs q op reply q' := by
  cases op with
  | push item =>
    obtain ⟨q₁, hpush, h⟩ := Option.map_eq_some_iff.1 h
    cases h
    exact performs_push hpush
  | tryPush item =>
    cases h
    exact performs_tryPush q item
  | pop =>
    obtain ⟨⟨item, q₁⟩, hpop, h⟩ := Option.map_eq_some_iff.1 h
    cases h
    obtain ⟨hs, hmax, rfl, hqueue⟩ := pop_eq_some hpop
    exact performs_popped rfl hs hmax hqueue
  | popWithTimeout => exact performs_popWithTimeout h
  | shutdown =>
    cases h
    exact performs_shutdown q

/-- After a shutdown no call waits. -/
theorem exists_perform {q : ThreadSafeQueue α} (hs : q.isShutdown = true) (op : Op α) :
    ∃ reply q', q.perform op = some (reply, q') := by
  obtain ⟨⟨reply, q'⟩, h⟩ :=
    Option.ne_none_iff_exists'.1 (mt perform_eq_none_iff.1 (not_waits_of_shutdown hs op))
  exact ⟨reply, q', h⟩

/-! ## Threads -/

/-- A queue and the call that each thread is in. -/
structure Shared (α ι : Type) where
  queue : ThreadSafeQueue α
  calls : ι → Option (Op α)

inductive Event (α ι : Type) where
  | call (thread : ι) (op : Op α)
  | finish (thread : ι) (op : Op α) (reply : Reply α)

/-! ## Histories -/

/-- The items that a step adds to the queue. -/
def acceptedItems (t : Taken (Shared α ι) (Event α ι)) : List α :=
  t.post.queue.queue.drop t.pre.queue.queue.length

/-- The items that a step hands to a thread. -/
def returnedItems (t : Taken (Shared α ι) (Event α ι)) : List α :=
  match t.label with
  | .call _ _ => []
  | .finish _ _ reply => reply.items

def accepted (ts : List (Taken (Shared α ι) (Event α ι))) : List α := ts.flatMap acceptedItems

def returned (ts : List (Taken (Shared α ι) (Event α ι))) : List α := ts.flatMap returnedItems

/-- The items that a step should add: those of a push that ends while the queue accepts. -/
def offered (t : Taken (Shared α ι) (Event α ι)) : List α :=
  match t.label with
  | .call _ _ => []
  | .finish _ op _ => if t.pre.queue.Accepts then op.items else []

theorem offered_of_shutdown {t : Taken (Shared α ι) (Event α ι)}
    (hs : t.pre.queue.isShutdown = true) : offered t = [] := by
  have hrefuses : ¬ t.pre.queue.Accepts := fun h => by
    rw [h.1] at hs
    cases hs
  unfold offered
  split
  · rfl
  · exact if_neg hrefuses

/-! ## Steps -/

variable [DecidableEq ι]

inductive Step : Shared α ι → Event α ι → Shared α ι → Prop
  | call {s : Shared α ι} {thread : ι} (op : Op α) (idle : s.calls thread = none) :
      Step s (.call thread op) { s with calls := Function.update s.calls thread (some op) }
  | finish {s : Shared α ι} {thread : ι} {op : Op α} {reply : Reply α} {q' : ThreadSafeQueue α}
      (incall : s.calls thread = some op) (section_eq : s.queue.perform op = some (reply, q')) :
      Step s (.finish thread op reply)
        { queue := q', calls := Function.update s.calls thread none }

/-- A queue that was just constructed, of any size, and no thread in a call. -/
def Initial (s : Shared α ι) : Prop :=
  (∃ n, s.queue = { maxSize := n }) ∧ s.calls = fun _ => none

theorem Performs.accepted_eq {q q' : ThreadSafeQueue α} {op : Op α} {reply : Reply α}
    (h : Performs q op reply q') :
    q'.queue.drop q.queue.length = if q.Accepts then op.items else [] := by
  have hcontents := h.contents
  rcases h.oneWay with hreply | hop
  · rw [hreply, List.nil_append] at hcontents
    rw [hcontents, List.drop_left]
  · rw [hop, ite_self, List.append_nil] at hcontents
    rw [hop, ite_self, List.drop_eq_nil_iff, ← hcontents, List.length_append]
    exact Nat.le_add_left _ _

section Steps

variable {s s' : Shared α ι} {e : Event α ι}

/-- A step adds what it should. -/
theorem Step.acceptedItems_eq (h : Step s e s') :
    acceptedItems ⟨s, e, s'⟩ = offered ⟨s, e, s'⟩ := by
  cases h with
  | call op idle => exact List.drop_length
  | finish incall section_eq => exact (performs section_eq).accepted_eq

/-- What is handed out comes from the front, and what is added goes to the back. -/
theorem Step.contents (h : Step s e s') :
    returnedItems ⟨s, e, s'⟩ ++ s'.queue.queue = s.queue.queue ++ acceptedItems ⟨s, e, s'⟩ := by
  rw [h.acceptedItems_eq]
  cases h with
  | call op idle => exact (List.append_nil _).symm
  | finish incall section_eq => exact (performs section_eq).contents

theorem Step.maxSize (h : Step s e s') : s'.queue.maxSize = s.queue.maxSize := by
  cases h with
  | call op idle => rfl
  | finish incall section_eq => exact (performs section_eq).maxSize

theorem Step.isShutdown (h : Step s e s') (hs : s.queue.isShutdown = true) :
    s'.queue.isShutdown = true := by
  cases h with
  | call op idle => exact hs
  | finish incall section_eq => exact (performs section_eq).isShutdown hs

end Steps

/-! ## After a shutdown -/

def Event.thread : Event α ι → ι
  | .call thread _ => thread
  | .finish thread _ _ => thread

/-- A step of one thread. -/
def OwnStep (thread : ι) (s : Shared α ι) (e : Event α ι) (s' : Shared α ι) : Prop :=
  Step s e s' ∧ e.thread = thread

/-- Nothing is accepted after a shutdown. -/
theorem accepted_of_shutdown {s s' : Shared α ι} {us : List (Taken (Shared α ι) (Event α ι))}
    (hrun : Run Step s us s') (hs : s.queue.isShutdown = true) :
    s'.queue.isShutdown = true ∧ accepted us = [] := by
  obtain ⟨hend, hall⟩ := hrun.invariant (fun s => s.queue.isShutdown = true) (fun _ => True)
    (fun _ _ _ h _ => h.isShutdown) (fun _ _ => trivial) hs
  refine ⟨hend, List.flatMap_eq_nil_iff.2 fun t ht => ?_⟩
  rw [(hrun.step_of_mem ht).acceptedItems_eq]
  exact offered_of_shutdown (hall t ht).1

/-- A thread that is in no call can take out everything there is by calling `pop`. -/
theorem leads_empty_of_idle {s : Shared α ι} {thread : ι} (hs : s.queue.isShutdown = true)
    (hidle : s.calls thread = none) :
    Leads (OwnStep thread) s fun s' => s'.queue.queue = [] := by
  let Left (n : ℕ) (s : Shared α ι) : Prop :=
    s.queue.isShutdown = true ∧ s.calls thread = none ∧ s.queue.queue.length = n
  have hone (n : ℕ) (s : Shared α ι) : Left (n + 1) s → Leads (OwnStep thread) s (Left n) := by
    rintro ⟨hs, hidle, hlen⟩
    obtain ⟨reply, q', hpop⟩ := exists_perform hs .pop
    have hperforms := performs hpop
    have htail := (hperforms.popped (Or.inl rfl)).2
    have hcall : OwnStep thread s (.call thread .pop)
        { s with calls := Function.update s.calls thread (some .pop) } := ⟨.call .pop hidle, rfl⟩
    refine .step_next hcall (.step_next ⟨.finish (Function.update_self _ _ _) hpop, rfl⟩ (.refl ?_))
    refine ⟨hperforms.isShutdown hs, Function.update_self _ _ _, ?_⟩
    rw [htail, List.length_tail, hlen]
    rfl
  refine (Leads.descend hone s.queue.queue.length ⟨hs, hidle, rfl⟩).trans fun s' h => ?_
  exact .refl (List.length_eq_zero_iff.1 h.2.2)

/-- So can a thread that is still in a call, which ends at once. -/
theorem leads_empty {s : Shared α ι} (hs : s.queue.isShutdown = true) (thread : ι) :
    Leads (OwnStep thread) s fun s' => s'.queue.queue = [] := by
  rcases hcall : s.calls thread with _ | op
  · exact leads_empty_of_idle hs hcall
  · obtain ⟨reply, q', hop⟩ := exists_perform hs op
    refine .step_next ⟨.finish hcall hop, rfl⟩ (leads_empty_of_idle ?_ ?_)
    · exact (performs hop).isShutdown hs
    · exact Function.update_self _ _ _

/-- A thread can end its call iff the call does not wait. -/
theorem exists_finish_iff {s : Shared α ι} {thread : ι} {op : Op α}
    (hcall : s.calls thread = some op) :
    (∃ reply s', Step s (.finish thread op reply) s') ↔ ¬ s.queue.Waits op := by
  rw [← perform_eq_none_iff, ← ne_eq, Option.ne_none_iff_exists']
  constructor
  · rintro ⟨reply, s', h⟩
    cases h with
    | finish incall section_eq => exact ⟨_, section_eq⟩
  · rintro ⟨⟨reply, q'⟩, h⟩
    exact ⟨reply, _, .finish hcall h⟩

theorem Step.tried {s s' : Shared α ι} {thread : ι} {item : α} {reply : Reply α}
    (h : Step s (.finish thread (.tryPush item) reply) s') :
    reply = .pushed (decide s.queue.Accepts) := by
  cases h with
  | finish incall section_eq => exact (performs section_eq).tried item rfl

/-- A thread that is in a pop gets the first item there is. -/
theorem exists_popped {s : Shared α ι} {thread : ι} {op : Op α} (hs : s.queue.isShutdown = true)
    (hcall : s.calls thread = some op) (hop : op = .pop ∨ op = .popWithTimeout) :
    ∃ s', Step s (.finish thread op (.popped s.queue.queue.head?)) s' ∧
      s'.queue.queue = s.queue.queue.tail := by
  obtain ⟨reply, q', hperform⟩ := exists_perform hs op
  obtain ⟨rfl, htail⟩ := (performs hperform).popped hop
  exact ⟨_, .finish hcall hperform, htail⟩

/-- What is handed out and what is left are what was there and what was accepted. -/
theorem returned_append {s s' : Shared α ι} {ts : List (Taken (Shared α ι) (Event α ι))}
    (hrun : Run Step s ts s') :
    returned ts ++ s'.queue.queue = s.queue.queue ++ accepted ts :=
  hrun.fifo (fun s => s.queue.queue) fun _ ht => (hrun.step_of_mem ht).contents

/-- However the calls of any number of threads interleave: the items handed out so far, followed by
those still queued, are the items accepted, in the order in which they were accepted.  An item is
accepted iff its push ends while the queue is in service and has room, which is what `tryPush`
returns, and the queue never holds more items than it was made for.  A push can end whenever there
is room, a pop whenever there is an item, and each of them after a shutdown.  Then nothing is
accepted, a pop returns the first item there is, and any thread can take out all that is left. -/
theorem fifo_history {s₀ s : Shared α ι} {ts : List (Taken (Shared α ι) (Event α ι))}
    (h₀ : Initial s₀) (hrun : Run Step s₀ ts s) :
    returned ts ++ s.queue.queue = accepted ts ∧
      (∀ t ∈ ts, acceptedItems t = offered t) ∧
      (∀ t ∈ ts, ∀ thread item reply, t.label = .finish thread (.tryPush item) reply →
        reply = .pushed (decide t.pre.queue.Accepts)) ∧
      s.queue.queue.length ≤ s₀.queue.maxSize ∧
      (∀ thread op, s.calls thread = some op →
        ((∃ reply s', Step s (.finish thread op reply) s') ↔ ¬ s.queue.Waits op)) ∧
      (s.queue.isShutdown = true →
        (∀ us s', Run Step s us s' → s'.queue.isShutdown = true ∧ accepted us = []) ∧
        (∀ thread op, s.calls thread = some op → op = .pop ∨ op = .popWithTimeout →
          ∃ s', Step s (.finish thread op (.popped s.queue.queue.head?)) s' ∧
            s'.queue.queue = s.queue.queue.tail) ∧
        ∀ thread, ∃ us s', Run (OwnStep thread) s us s' ∧ s'.queue.queue = [] ∧
          returned us = s.queue.queue) := by
  obtain ⟨⟨n, hn⟩, -⟩ := h₀
  have hmax := (hrun.invariant (fun s => s.queue.maxSize = s₀.queue.maxSize) (fun _ => True)
    (fun _ _ _ h _ heq => h.maxSize.trans heq) (fun _ _ => trivial) rfl).1
  refine ⟨?_, fun t ht => (hrun.step_of_mem ht).acceptedItems_eq, fun t ht => ?_, ?_,
    fun thread op hcall => exists_finish_iff hcall, fun hs => ?_⟩
  · have hfifo := returned_append hrun
    rwa [hn] at hfifo
  · rintro thread item reply hlabel
    have hstep := hrun.step_of_mem ht
    rw [hlabel] at hstep
    exact hstep.tried
  · exact hmax ▸ s.queue.bounded
  · refine ⟨fun us s' hus => accepted_of_shutdown hus hs,
      fun thread op hcall hop => exists_popped hs hcall hop, fun thread => ?_⟩
    obtain ⟨us, s', hus, hempty⟩ := leads_empty hs thread
    have hown : Run Step s us s' := hus.mono fun _ _ _ h => h.1
    have hfifo := returned_append hown
    rw [hempty, (accepted_of_shutdown hown hs).2, List.append_nil, List.append_nil] at hfifo
    exact ⟨us, s', hus, hempty, hfifo⟩

/-- A second thread has to wait with its item until the first one has taken out its own. -/
theorem fifo_history_of_push :
    ∃ (s : Shared ℕ Bool) (ts : List (Taken (Shared ℕ Bool) (Event ℕ Bool))),
      s.queue.isShutdown = true ∧ s.queue.queue = [8] ∧ returned ts = [7] ∧ accepted ts = [7, 8] ∧
        returned ts ++ s.queue.queue = accepted ts := by
  let s₀ : Shared ℕ Bool := { queue := { maxSize := 1 }, calls := fun _ => none }
  have hrun : Run Step s₀ _ _ :=
    .cons (l := .call false (.push 7)) (.call _ rfl) <|
    .cons (l := .finish false (.push 7) .done) (.finish rfl rfl) <|
    .cons (l := .call true (.push 8)) (.call _ rfl) <|
    .cons (l := .call false .pop) (.call _ rfl) <|
    .cons (l := .finish false .pop (.popped (some 7))) (.finish rfl rfl) <|
    .cons (l := .finish true (.push 8) .done) (.finish rfl rfl) <|
    .cons (l := .call false .shutdown) (.call _ rfl) <|
    .cons (l := .finish false .shutdown .done) (.finish rfl rfl) (.nil _)
  exact ⟨_, _, rfl, rfl, rfl, rfl, (fifo_history ⟨⟨1, rfl⟩, rfl⟩ hrun).1⟩

end ThreadSafeQueue

end DPI
