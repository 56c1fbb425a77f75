import Mathlib.Tactic

/-!
# Bounded queues

`ThreadSafeQueue` of `thread_safe_queue.h`.  Each operation is one critical section.  A producer
that waits for room has no step; a consumer that waits is not told apart from one whose wait ends
later.
-/

namespace DPI

/-- An empty queue of the default size is within it. -/
theorem bounded_nil {α : Type} : ([] : List α).length ≤ 10000 := Nat.zero_le _

/-- A queue never holds more than `maxSize` items. -/
structure ThreadSafeQueue (α : Type) where
  maxSize : ℕ := 10000
  queue : List α := []
  isShutdown : Bool := false
  bounded : queue.length ≤ maxSize := by first | exact bounded_nil | simp

namespace ThreadSafeQueue

variable {α : Type}

/-- `none` while the queue is full; after a shutdown the item is discarded. -/
def push (q : ThreadSafeQueue α) (item : α) : Option (ThreadSafeQueue α) :=
  if q.isShutdown then some q
  else if h : q.queue.length < q.maxSize then
    some { q with queue := q.queue ++ [item], bounded := by simpa using h }
  else none

/-- Returns whether the item was queued. -/
def tryPush (q : ThreadSafeQueue α) (item : α) : Bool × ThreadSafeQueue α :=
  if h : q.queue.length ≥ q.maxSize ∨ q.isShutdown then (false, q)
  else
    (true, { q with
      queue := q.queue ++ [item]
      bounded := by simpa using not_le.1 (not_or.1 h).1 })

/-- `none` while the queue is empty and in service. -/
def pop (q : ThreadSafeQueue α) : Option (Option α × ThreadSafeQueue α) :=
  match h : q.queue with
  | [] => if q.isShutdown then some (none, q) else none
  | item :: rest =>
    some (some item,
      { q with queue := rest, bounded := by have := q.bounded; simp [h] at this; omega })

/-- An empty queue yields nothing, when the time is over or at once after a shutdown. -/
def popWithTimeout (q : ThreadSafeQueue α) : Option (α × ThreadSafeQueue α) :=
  match h : q.queue with
  | [] => none
  | item :: rest =>
    some (item, { q with queue := rest, bounded := by have := q.bounded; simp [h] at this; omega })

def empty (q : ThreadSafeQueue α) : Bool := q.queue.isEmpty

def shutdown (q : ThreadSafeQueue α) : ThreadSafeQueue α := { q with isShutdown := true }

/-- A push into a queue in service appends the item. -/
theorem push_eq_some {q q' : ThreadSafeQueue α} {item : α} (h : q.push item = some q') :
    q'.isShutdown = q.isShutdown ∧ (q.isShutdown = false → q'.queue = q.queue ++ [item]) := by
  unfold push at h
  split_ifs at h with hs hr <;> cases h
  · exact ⟨rfl, fun hopen => by rw [hs] at hopen; cases hopen⟩
  · exact ⟨rfl, fun _ => rfl⟩

theorem push_maxSize {q q' : ThreadSafeQueue α} {item : α} (h : q.push item = some q') :
    q'.maxSize = q.maxSize := by
  unfold push at h
  split_ifs at h <;> cases h <;> rfl

/-- A push waits while a queue in service is full. -/
theorem push_eq_none_iff {q : ThreadSafeQueue α} {item : α} :
    q.push item = none ↔ q.isShutdown = false ∧ q.queue.length = q.maxSize := by
  have := q.bounded
  unfold push
  split_ifs with hs hroom
  · simp [hs]
  · simp [hs, hroom.ne]
  · simp [hs]
    omega

/-- A push that does not wait is a push where there is room, and nothing otherwise. -/
theorem tryPush_cases (q : ThreadSafeQueue α) (item : α) :
    (q.isShutdown = false ∧ q.queue.length < q.maxSize ∧ (q.tryPush item).1 = true ∧
      q.push item = some (q.tryPush item).2) ∨
    (¬ (q.isShutdown = false ∧ q.queue.length < q.maxSize) ∧ q.tryPush item = (false, q)) := by
  unfold tryPush push
  by_cases hs : q.isShutdown = true
  · exact Or.inr ⟨fun h => by simp [hs] at h, dif_pos (Or.inr hs)⟩
  by_cases hroom : q.queue.length < q.maxSize
  · have hopen : ¬ (q.queue.length ≥ q.maxSize ∨ q.isShutdown = true) :=
      not_or.2 ⟨Nat.not_le.2 hroom, hs⟩
    rw [dif_neg hopen, if_neg hs, dif_pos hroom]
    exact Or.inl ⟨Bool.eq_false_of_not_eq_true hs, hroom, rfl, rfl⟩
  · exact Or.inr ⟨fun h => hroom h.2, dif_pos (Or.inl (Nat.not_lt.1 hroom))⟩

theorem popWithTimeout_eq_some {q q' : ThreadSafeQueue α} {item : α}
    (h : q.popWithTimeout = some (item, q')) :
    q'.isShutdown = q.isShutdown ∧ q.queue = item :: q'.queue := by
  unfold popWithTimeout at h
  split at h
  · cases h
  · next hq =>
    cases h
    exact ⟨rfl, hq⟩

theorem popWithTimeout_maxSize {q q' : ThreadSafeQueue α} {item : α}
    (h : q.popWithTimeout = some (item, q')) : q'.maxSize = q.maxSize := by
  unfold popWithTimeout at h
  split at h <;> cases h
  rfl

theorem popWithTimeout_eq_none_iff {q : ThreadSafeQueue α} :
    q.popWithTimeout = none ↔ q.queue = [] := by
  unfold popWithTimeout
  split
  · next hq => exact iff_of_true rfl hq
  · next hq => exact iff_of_false nofun (by rw [hq]; exact nofun)

theorem pop_eq_some {q q' : ThreadSafeQueue α} {item : Option α} (h : q.pop = some (item, q')) :
    q'.isShutdown = q.isShutdown ∧ q'.maxSize = q.maxSize ∧
      item = q.queue.head? ∧ q'.queue = q.queue.tail := by
  unfold pop at h
  split at h
  · rename_i hq
    split_ifs at h
    cases h
    exact ⟨rfl, rfl, by rw [hq]; rfl, by rw [hq]; rfl⟩
  · rename_i hq
    cases h
    exact ⟨rfl, rfl, congrArg List.head? hq.symm, congrArg List.tail hq.symm⟩

theorem pop_eq_none_iff {q : ThreadSafeQueue α} :
    q.pop = none ↔ q.queue = [] ∧ q.isShutdown = false := by
  unfold pop
  split
  · rename_i hq
    rw [and_iff_right hq]
    cases q.isShutdown <;> simp
  · rename_i hq
    exact iff_of_false nofun (by rw [hq]; exact nofun)

end ThreadSafeQueue

end DPI
