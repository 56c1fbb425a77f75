import DpiEngine.Shutdown

/-!
# Starting again

`start` and `stop` of a load balancer, a fast path and the engine.  All three guard a flag
`running_`, and `stop` shuts a queue down; nothing takes a queue back into service.
-/

namespace DPI

/-! ## Calls -/

/-- A call of a component's owner. -/
inductive Call where
  | start
  | stop
  deriving DecidableEq

/-- Somewhere in the calls a start is followed by a stop. -/
def Stops (calls : List Call) : Prop := [Call.start, .stop].Sublist calls

/-- Somewhere in the calls a start is followed by a stop and that by a start. -/
def Restarts (calls : List Call) : Prop := [Call.start, .stop, .start].Sublist calls

instance (calls : List Call) : Decidable (Restarts calls) :=
  inferInstanceAs (Decidable (List.Sublist _ _))

theorem concat_sublist_concat_iff (l calls : List Call) (a b : Call) :
    (l ++ [a]).Sublist (calls ++ [b]) ↔ (l ++ [a]).Sublist calls ∨ a = b ∧ l.Sublist calls := by
  have hrev (l' : List Call) : (l ++ [a]).Sublist l' ↔ (a :: l.reverse).Sublist l'.reverse := by
    rw [← List.reverse_sublist, List.reverse_append, List.reverse_singleton, List.singleton_append]
  rw [hrev, hrev, List.reverse_append, List.reverse_singleton, List.singleton_append,
    List.sublist_cons_iff]
  refine or_congr_right ⟨?_, ?_⟩
  · rintro ⟨r, hr, hsub⟩
    cases hr
    exact ⟨rfl, List.reverse_sublist.1 hsub⟩
  · rintro ⟨rfl, hsub⟩
    exact ⟨l.reverse, rfl, List.reverse_sublist.2 hsub⟩

section Calls

variable {calls : List Call}

theorem Stops.start_mem (h : Stops calls) : .start ∈ calls := h.subset List.mem_cons_self

theorem Restarts.stops (h : Restarts calls) : Stops calls :=
  List.Sublist.trans (List.sublist_append_left [Call.start, .stop] [.start]) h

theorem Restarts.append (h : Restarts calls) (more : List Call) : Restarts (calls ++ more) :=
  h.trans (List.sublist_append_left _ _)

theorem not_restarts_nil : ¬ Restarts [] := by decide

theorem stops_concat_start : Stops (calls ++ [.start]) ↔ Stops calls := by
  have hiff := concat_sublist_concat_iff [.start] calls .stop .start
  rwa [or_iff_left (by simp)] at hiff

theorem stops_concat_stop : Stops (calls ++ [.stop]) ↔ .start ∈ calls := by
  have hiff := concat_sublist_concat_iff [.start] calls .stop .stop
  rw [and_iff_right rfl, List.singleton_sublist] at hiff
  exact hiff.trans (or_iff_right_of_imp Stops.start_mem)

theorem restarts_concat_start : Restarts (calls ++ [.start]) ↔ Stops calls := by
  have hiff := concat_sublist_concat_iff [.start, .stop] calls .start .start
  rw [and_iff_right rfl] at hiff
  exact hiff.trans (or_iff_right_of_imp Restarts.stops)

theorem restarts_concat_stop : Restarts (calls ++ [.stop]) ↔ Restarts calls := by
  have hiff := concat_sublist_concat_iff [.start, .stop] calls .start .stop
  rwa [or_iff_left (by simp)] at hiff

end Calls

/-! ## A flag and a queue -/

/-- What `start` and `stop` have to do with: the flag `running_`, whether the queue is shut down,
and where a call of `stop` has got to. -/
structure Gate where
  running : Bool
  closed : Bool
  phase : Option StopPhase

namespace Gate

/-- A step, with the calls that it begins. -/
inductive Step : Gate → List Call → Gate → Prop
  | start {g : Gate} (h : g.phase = none) : Step g [.start] { g with running := true }
  | stop {g : Gate} (h : g.phase = none) : Step g [.stop] { g with phase := some .clear }
  | stopped {g : Gate} (h : g.phase = some .clear) (idle : g.running = false) :
      Step g [] { g with phase := none }
  | clear {g : Gate} (h : g.phase = some .clear) (set : g.running = true) :
      Step g [] { g with running := false, phase := some .shutdown }
  | shutdown {g : Gate} (h : g.phase = some .shutdown) :
      Step g [] { g with closed := true, phase := some .join }
  | join {g : Gate} (h : g.phase = some .join) : Step g [] { g with phase := none }
  | stay (g : Gate) : Step g [] g

/-- While the component runs its queue is in service. -/
def Open (g : Gate) : Prop := g.running = true → g.closed = false

/-- What the calls so far say about the flag and the queue, until the first restart. -/
structure Follows (calls : List Call) (g : Gate) : Prop where
  started : g.running = true → .start ∈ calls
  closed : g.closed = true → Stops calls
  idle : g.phase = none → .start ∈ calls → g.running = true ∨ g.closed = true
  down : g.phase = none → Stops calls → g.closed = true
  clear : g.phase = some .clear → .start ∈ calls →
    Stops calls ∧ (g.running = true ∨ g.closed = true)
  shutdown : g.phase = some .shutdown → g.running = false ∧ Stops calls
  join : g.phase = some .join → g.running = false ∧ g.closed = true

/-- Until the first restart the queue is in service while the component runs, and the call that
restarts it finds the queue shut down. -/
theorem Step.follows {g g' : Gate} {more calls : List Call} (h : Step g more g')
    (hfollows : Follows calls g) (hopen : g.Open) (hfirst : ¬ Restarts calls) :
    Follows (calls ++ more) g' ∧ (g'.Open ↔ ¬ Restarts (calls ++ more)) := by
  obtain ⟨hstarted, hclosed, hidle, hdown, hclear, hshutdown, hjoin⟩ := hfollows
  cases h with
  | start h =>
    refine ⟨⟨by simp, fun hc => ?_, fun _ _ => Or.inl rfl, fun _ hs => ?_, ?_, ?_, ?_⟩, ?_⟩
    · exact stops_concat_start.2 (hclosed hc)
    · exact hdown h (stops_concat_start.1 hs)
    · simp [h]
    · simp [h]
    · simp [h]
    · rw [restarts_concat_start, Open, Bool.eq_false_iff]
      exact ⟨fun hopen hs => hopen rfl (hdown h hs), fun hs _ hc => hs (hclosed hc)⟩
  | stop h =>
    refine ⟨⟨fun hr => ?_, fun hc => ?_, nofun, nofun, fun _ hs => ⟨?_, ?_⟩, nofun, nofun⟩, ?_⟩
    · exact List.mem_append_left _ (hstarted hr)
    · exact stops_concat_stop.2 (hclosed hc).start_mem
    · exact stops_concat_stop.2 (by simpa using hs)
    · exact hidle h (by simpa using hs)
    · rw [restarts_concat_stop]
      exact iff_of_true hopen hfirst
  | stopped h idle =>
    rw [List.append_nil]
    refine ⟨⟨hstarted, hclosed, fun _ hs => (hclear h hs).2, fun _ hs => ?_, nofun, nofun, nofun⟩,
      iff_of_true hopen hfirst⟩
    exact (hclear h hs.start_mem).2.resolve_left (by rw [idle]; exact nofun)
  | clear h set =>
    rw [List.append_nil]
    refine ⟨⟨nofun, hclosed, nofun, nofun, nofun, fun _ => ⟨rfl, ?_⟩, nofun⟩,
      iff_of_true nofun hfirst⟩
    exact (hclear h (hstarted set)).1
  | shutdown h =>
    obtain ⟨hr, hs⟩ := hshutdown h
    rw [List.append_nil]
    refine ⟨⟨hstarted, fun _ => hs, nofun, nofun, nofun, nofun, fun _ => ⟨hr, rfl⟩⟩,
      iff_of_true (fun hr' => ?_) hfirst⟩
    rw [show _ = true from hr'] at hr
    cases hr
  | join h =>
    obtain ⟨hr, hc⟩ := hjoin h
    rw [List.append_nil]
    exact ⟨⟨hstarted, hclosed, fun _ _ => Or.inr hc, fun _ _ => hc, nofun, nofun, nofun⟩,
      iff_of_true hopen hfirst⟩
  | stay =>
    rw [List.append_nil]
    exact ⟨⟨hstarted, hclosed, hidle, hdown, hclear, hshutdown, hjoin⟩, iff_of_true hopen hfirst⟩

theorem follows_of_fresh {g : Gate} (hr : g.running = false) (hc : g.closed = false)
    (hp : g.phase = none) : Follows [] g where
  started h := by rw [hr] at h; cases h
  closed h := by rw [hc] at h; cases h
  idle _ h := by cases h
  down _ h := by cases h
  clear h := by rw [hp] at h; cases h
  shutdown h := by rw [hp] at h; cases h
  join h := by rw [hp] at h; cases h

theorem open_of_fresh {g : Gate} (hr : g.running = false) : g.Open := by
  intro h
  rw [hr] at h
  cases h

end Gate

/-! ## Load balancers and fast paths -/

/-- A thread behind a queue, with what `start` and `stop` do to it. -/
structure Component (S : Type) where
  running : S → Bool
  queue : S → ThreadSafeQueue PacketJob
  /-- The thread has ended. -/
  exited : S → Bool
  /-- `running_ = true`, and a new thread. -/
  launch : S → S
  /-- `running_ = false`. -/
  clear : S → S
  /-- `input_queue_.shutdown()`. -/
  shutdown : S → S
  running_launch : ∀ s, running (launch s) = true
  queue_launch : ∀ s, queue (launch s) = queue s
  running_clear : ∀ s, running (clear s) = false
  queue_clear : ∀ s, queue (clear s) = queue s
  running_shutdown : ∀ s, running (shutdown s) = running s
  queue_shutdown : ∀ s, queue (shutdown s) = (queue s).shutdown

namespace Component

variable {S : Type} (c : Component S)

def start (s : S) : S := if c.running s then s else c.launch s

/-- One part of `stop`, and the part that comes next; the join waits for the thread. -/
def stop (s : S) : StopPhase → Option (S × Option StopPhase)
  | .clear => if c.running s then some (c.clear s, some .shutdown) else some (s, none)
  | .shutdown => some (c.shutdown s, some .join)
  | .join => if c.exited s then some (s, none) else none

/-- What the component's thread and its feeders do: they take the queue's items and add to them. -/
def Works (s s' : S) : Prop :=
  c.running s' = c.running s ∧
    (c.queue s' = c.queue s ∨ (∃ job, (c.queue s).push job = some (c.queue s')) ∨
      ∃ job, (c.queue s).popWithTimeout = some (job, c.queue s'))

inductive Event where
  | call (call : Call)
  | stopping
  | work

/-- A step of the component while its owner is in no call or in a part of `stop`. -/
inductive Step : S × Option StopPhase → Event → S × Option StopPhase → Prop
  | start (s : S) : Step (s, none) (.call .start) (c.start s, none)
  | stop (s : S) : Step (s, none) (.call .stop) (s, some .clear)
  | stopping {s : S} {phase : StopPhase} {next : S × Option StopPhase}
      (h : c.stop s phase = some next) : Step (s, some phase) .stopping next
  | work {s s' : S} (p : Option StopPhase) (h : c.Works s s') : Step (s, p) .work (s', p)

/-- The calls that a step begins. -/
def calls (t : Taken (S × Option StopPhase) Event) : List Call :=
  match t.label with
  | .call call => [call]
  | _ => []

/-- A component that was just constructed. -/
def Fresh (s : S × Option StopPhase) : Prop :=
  c.running s.1 = false ∧ (c.queue s.1).isShutdown = false ∧ s.2 = none

def gate (s : S × Option StopPhase) : Gate where
  running := c.running s.1
  closed := (c.queue s.1).isShutdown
  phase := s.2

variable {c}

/-- A part of `stop` does not set the flag, and only its second part shuts the queue down. -/
theorem flags_of_stop {s s' : S} {phase : StopPhase} {next : Option StopPhase}
    (h : c.stop s phase = some (s', next)) :
    (c.running s' = true → c.running s = true) ∧
      ((c.queue s').isShutdown = true → (c.queue s).isShutdown = true ∨ phase = .shutdown) ∧
      (next = some .shutdown → c.running s' = false) := by
  cases phase with
  | clear =>
    unfold Component.stop at h
    dsimp only at h
    split_ifs at h with hr <;> cases h
    · rw [c.running_clear, c.queue_clear]
      exact ⟨nofun, Or.inl, fun _ => rfl⟩
    · exact ⟨id, Or.inl, nofun⟩
  | shutdown =>
    cases h
    rw [c.running_shutdown]
    exact ⟨id, fun _ => Or.inr rfl, nofun⟩
  | join =>
    unfold Component.stop at h
    dsimp only at h
    split_ifs at h
    cases h
    exact ⟨id, Or.inl, nofun⟩

theorem Works.gate {s s' : S} (h : c.Works s s') (p : Option StopPhase) :
    c.gate (s', p) = c.gate (s, p) := by
  obtain ⟨hr, hq⟩ := h
  have hshut : (c.queue s').isShutdown = (c.queue s).isShutdown := by
    rcases hq with hq | ⟨job, hq⟩ | ⟨job, hq⟩
    · rw [hq]
    · exact (ThreadSafeQueue.push_eq_some hq).1
    · exact (ThreadSafeQueue.popWithTimeout_eq_some hq).1
  simp only [Component.gate, hr, hshut]

/-- The flag and the queue of a component move as a gate does. -/
theorem Step.gate {s s' : S × Option StopPhase} {e : Event} (h : c.Step s e s') :
    Gate.Step (c.gate s) (calls ⟨s, e, s'⟩) (c.gate s') := by
  cases h with
  | start s =>
    have hstart : c.gate (c.start s, none) = { c.gate (s, none) with running := true } := by
      unfold Component.start
      split_ifs with hr
      · simp [Component.gate, hr]
      · simp [Component.gate, c.running_launch, c.queue_launch]
    rw [hstart]
    exact .start rfl
  | stop s => exact .stop rfl
  | @stopping s phase next h =>
    cases phase with
    | clear =>
      unfold Component.stop at h
      dsimp only at h
      split_ifs at h with hr <;> cases h
      · have hclear : c.gate (c.clear s, some .shutdown) =
            { c.gate (s, some .clear) with running := false, phase := some .shutdown } := by
          simp [Component.gate, c.running_clear, c.queue_clear]
        rw [hclear]
        exact .clear rfl hr
      · exact .stopped rfl (Bool.eq_false_of_not_eq_true hr)
    | shutdown =>
      cases h
      have hshutdown : c.gate (c.shutdown s, some .join) =
          { c.gate (s, some .shutdown) with closed := true, phase := some .join } := by
        simp [Component.gate, c.running_shutdown, c.queue_shutdown, ThreadSafeQueue.shutdown]
      rw [hshutdown]
      exact .shutdown rfl
    | join =>
      unfold Component.stop at h
      dsimp only at h
      split_ifs at h
      cases h
      exact .join rfl
  | work p h =>
    rw [h.gate p]
    exact .stay _

/-- In every run the queue is in service whenever the component runs, iff the calls do not restart
it. -/
theorem open_iff {s s' : S × Option StopPhase} {ts : List (Taken (S × Option StopPhase) Event)}
    (hfresh : c.Fresh s) (hrun : Run c.Step s ts s') :
    (∀ t ∈ ts, (c.gate t.post).Open) ↔ ¬ Restarts (ts.flatMap calls) := by
  obtain ⟨hr, hc, hp⟩ := hfresh
  refine Run.forall_post_iff (fun calls s => (c.gate s).Follows calls) (fun s => (c.gate s).Open)
    (fun _ k h => h.append k) (fun calls t ht hfirst hinv hopen => ?_) hrun not_restarts_nil
    (Gate.follows_of_fresh hr hc hp) (Gate.open_of_fresh hr)
  exact ht.gate.follows hinv hopen hfirst

end Component

namespace LoadBalancer

def component : Component LoadBalancer where
  running := running
  queue := inputQueue
  exited lb := match lb.thread with | .exited => true | _ => false
  launch lb := { lb with running := true, thread := .test }
  clear lb := { lb with running := false }
  shutdown lb := { lb with inputQueue := lb.inputQueue.shutdown }
  running_launch _ := rfl
  queue_launch _ := rfl
  running_clear _ := rfl
  queue_clear _ := rfl
  running_shutdown _ := rfl
  queue_shutdown _ := rfl

def start (lb : LoadBalancer) : LoadBalancer := component.start lb

def stop (lb : LoadBalancer) : StopPhase → Option (LoadBalancer × Option StopPhase) :=
  component.stop lb

end LoadBalancer

namespace FastPath

def component : Component FastPath where
  running := running
  queue := inputQueue
  exited fp := match fp.thread with | .exited => true | _ => false
  launch fp := { fp with running := true, thread := .test }
  clear fp := { fp with running := false }
  shutdown fp := { fp with inputQueue := fp.inputQueue.shutdown }
  running_launch _ := rfl
  queue_launch _ := rfl
  running_clear _ := rfl
  queue_clear _ := rfl
  running_shutdown _ := rfl
  queue_shutdown _ := rfl

def start (fp : FastPath) : FastPath := component.start fp

def stop (fp : FastPath) : StopPhase → Option (FastPath × Option StopPhase) := component.stop fp

end FastPath

/-! ## The engine -/

namespace DPIEngine

open Engine

/-- `LBManager::startAll` and `FPManager::startAll` start every load balancer and fast path. -/
def start (cfg : Config) (e : Engine) : Engine :=
  if e.running then e
  else
    { e with
      running := true
      processingComplete := false
      output := .testRunning
      fps := fun j => if j < cfg.totalFps then (e.fps j).start else e.fps j
      lbs := fun i => if i < cfg.numLoadBalancers then (e.lbs i).start else e.lbs i }

/-- What happens to an engine that is initialised; `stopped` is the return of a call of `stop` that
was not made by `processFile`. -/
inductive Event where
  | start
  | stop
  | stopped
  | processFile (input : List PacketJob)
  | thread (l : Label)

/-- The owner makes one call at a time: `returned` is where it is in none. -/
def step (cfg : Config) (rm : RuleManager) (e : Engine) : Event → Option Engine
  | .start => if e.main = .returned then some (start cfg e) else none
  | .stop => if e.main = .returned then some { e with main := .stop } else none
  | .stopped => if e.main = .closeFile then some { e with main := .returned } else none
  | .processFile input =>
    if e.main = .returned then
      some { start cfg e with
        outputFileOpen := true
        reader := .reading input
        main := .joinReader }
    else none
  | .thread l => e.step cfg rm l

/-- The calls of `start` and `stop` that a step begins, with those that `processFile` makes. -/
def calls (t : Taken Engine Event) : List Call :=
  match t.label with
  | .start => [.start]
  | .processFile _ => [.start]
  | .stop => [.stop]
  | .thread .main => if t.pre.main = .complete then [.stop] else []
  | _ => []

/-- `initialize` has constructed the components, and nothing was started yet. -/
structure Initialised (e : Engine) : Prop where
  main : e.main = .returned
  running : e.running = false
  output : e.outputQueue.isShutdown = false
  lbs : ∀ i, (e.lbs i).running = false ∧ (e.lbs i).inputQueue.isShutdown = false
  fps : ∀ j, (e.fps j).running = false ∧ (e.fps j).inputQueue.isShutdown = false

/-- Whatever runs has its queue in service. -/
structure InService (e : Engine) : Prop where
  output : e.running = true → e.outputQueue.isShutdown = false
  lbs : ∀ i, (e.lbs i).running = true → (e.lbs i).inputQueue.isShutdown = false
  fps : ∀ j, (e.fps j).running = true → (e.fps j).inputQueue.isShutdown = false

/-- Where a call of the engine's `stop` has got to: the other components are stopped before its own
queue is shut down. -/
def phase : MainThread → Option StopPhase
  | .stop => some .clear
  | .stopLB _ _ => some .shutdown
  | .stopFP _ _ => some .shutdown
  | .shutdownOutput => some .shutdown
  | .joinOutput => some .join
  | _ => none

def gate (e : Engine) : Gate where
  running := e.running
  closed := e.outputQueue.isShutdown
  phase := phase e.main

/-- The part of the engine's `stop` that stops a load balancer is `LoadBalancer::stop`. -/
theorem stepStopLB_eq {cfg : Config} {e : Engine} {i : ℕ} (hi : i < cfg.numLoadBalancers)
    (part : StopPhase) :
    e.stepStopLB cfg i part = ((e.lbs i).stop part).map fun r =>
      { e.setLB i r.1 with main := match r.2 with
          | some next => .stopLB i next
          | none => .stopLB (i + 1) .clear } := by
  have hself : e.setLB i (e.lbs i) = e := by
    rw [Engine.setLB, Function.update_eq_self]
  unfold Engine.stepStopLB
  rw [if_pos hi]
  cases part with
  | clear =>
    dsimp only
    by_cases hr : (e.lbs i).running = true
    · rw [if_pos hr, show (e.lbs i).stop .clear = some (_, some .shutdown) from if_pos hr]
      rfl
    · rw [if_neg hr, show (e.lbs i).stop .clear = some (_, none) from if_neg hr, Option.map_some,
        hself]
  | shutdown => rfl
  | join =>
    dsimp only
    split
    · next hexited =>
      have hstop : (e.lbs i).stop .join = some (e.lbs i, none) := by
        simp [LoadBalancer.stop, Component.stop, LoadBalancer.component, hexited]
      rw [hstop, Option.map_some, hself]
    · next =>
      have hstop : (e.lbs i).stop .join = none := by
        simp [LoadBalancer.stop, Component.stop, LoadBalancer.component]
      rw [hstop]
      rfl

theorem stepStopFP_eq {cfg : Config} {e : Engine} {j : ℕ} (hj : j < cfg.totalFps)
    (part : StopPhase) :
    e.stepStopFP cfg j part = ((e.fps j).stop part).map fun r =>
      { e.setFP j r.1 with main := match r.2 with
          | some next => .stopFP j next
          | none => .stopFP (j + 1) .clear } := by
  have hself : e.setFP j (e.fps j) = e := by
    rw [Engine.setFP, Function.update_eq_self]
  unfold Engine.stepStopFP
  rw [if_pos hj]
  cases part with
  | clear =>
    dsimp only
    by_cases hr : (e.fps j).running = true
    · rw [if_pos hr, show (e.fps j).stop .clear = some (_, some .shutdown) from if_pos hr]
      rfl
    · rw [if_neg hr, show (e.fps j).stop .clear = some (_, none) from if_neg hr, Option.map_some,
        hself]
  | shutdown => rfl
  | join =>
    dsimp only
    split
    · next hexited =>
      have hstop : (e.fps j).stop .join = some (e.fps j, none) := by
        simp [FastPath.stop, Component.stop, FastPath.component, hexited]
      rw [hstop, Option.map_some, hself]
    · next =>
      have hstop : (e.fps j).stop .join = none := by
        simp [FastPath.stop, Component.stop, FastPath.component]
      rw [hstop]
      rfl

/-- What a step that begins no call of `start` does to the flags and the queues. -/
structure FlagStep (e : Engine) (more : List Call) (e' : Engine) : Prop where
  gate : (gate e).Step more (gate e')
  lbs : ∀ i, ((e'.lbs i).running = true → (e.lbs i).running = true) ∧
    ((e'.lbs i).inputQueue.isShutdown = true →
      (e.lbs i).inputQueue.isShutdown = true ∨ e.main = .stopLB i .shutdown)
  lbTurn : ∀ i, e'.main = .stopLB i .shutdown →
    (e'.lbs i).running = false ∨ e.main = .stopLB i .shutdown
  fps : ∀ j, ((e'.fps j).running = true → (e.fps j).running = true) ∧
    ((e'.fps j).inputQueue.isShutdown = true →
      (e.fps j).inputQueue.isShutdown = true ∨ e.main = .stopFP j .shutdown)
  fpTurn : ∀ j, e'.main = .stopFP j .shutdown →
    (e'.fps j).running = false ∨ e.main = .stopFP j .shutdown

section FlagStep

variable {cfg : Config} {rm : RuleManager} {e e' : Engine}

/-- A step that leaves the load balancers and the fast paths alone and turns to none of them. -/
theorem flagStep_of_same {more : List Call} (hgate : (gate e).Step more (gate e'))
    (hlbs : e'.lbs = e.lbs) (hfps : e'.fps = e.fps) (hlb : ∀ i, e'.main ≠ .stopLB i .shutdown)
    (hfp : ∀ j, e'.main ≠ .stopFP j .shutdown) : FlagStep e more e' where
  gate := hgate
  lbs i := by rw [hlbs]; exact ⟨id, Or.inl⟩
  lbTurn i h := absurd h (hlb i)
  fps j := by rw [hfps]; exact ⟨id, Or.inl⟩
  fpTurn j h := absurd h (hfp j)

/-- Threads other than the main thread leave the flags alone. -/
theorem flagStep_of_sameControl (h : SameControl e e') : FlagStep e [] e' where
  gate := by
    have hgate : DPIEngine.gate e' = DPIEngine.gate e := by
      unfold DPIEngine.gate
      rw [h.running, h.outputShutdown, h.main]
    rw [hgate]
    exact .stay _
  lbs i := by rw [h.lbRunning, h.lbShutdown]; exact ⟨id, Or.inl⟩
  lbTurn i hi := Or.inr (h.main ▸ hi)
  fps j := by rw [h.fpRunning, h.fpShutdown]; exact ⟨id, Or.inl⟩
  fpTurn j hj := Or.inr (h.main ▸ hj)

/-- While the engine's `stop` deals with the other components, its own flag and queue stay as they
are. -/
theorem step_gate_of_phase {more : List Call} (hmore : more = [])
    (hrunning : e'.running = e.running) (houtput : e'.outputQueue = e.outputQueue)
    (hphase : phase e'.main = phase e.main) :
    (gate e).Step more (gate e') := by
  have hgate : gate e' = gate e := by
    unfold gate
    rw [hrunning, houtput, hphase]
  rw [hgate, hmore]
  exact .stay _

theorem flagStep_stopLB {i : ℕ} {part : StopPhase} (hmain : e.main = .stopLB i part)
    (h : e.stepStopLB cfg i part = some e') : FlagStep e [] e' := by
  by_cases hi : i < cfg.numLoadBalancers
  · rw [stepStopLB_eq hi] at h
    obtain ⟨⟨lb, next⟩, hstop, rfl⟩ := Option.map_eq_some_iff.1 h
    obtain ⟨hrunning, hclosed, hturn⟩ := Component.flags_of_stop hstop
    refine ⟨step_gate_of_phase rfl rfl rfl ?_, fun k => ?_, fun k hk => ?_, fun j => ⟨id, Or.inl⟩,
      fun j hj => ?_⟩
    · rw [hmain]
      cases next <;> rfl
    · dsimp only
      rw [setLB_lbs]
      split_ifs with hki
      · rw [hki, hmain]
        exact ⟨hrunning, fun hc => (hclosed hc).imp_right (congrArg (MainThread.stopLB i))⟩
      · exact ⟨id, Or.inl⟩
    · dsimp only at hk ⊢
      rcases next with _ | next <;> cases hk
      rw [setLB_lbs, if_pos rfl]
      exact Or.inl (hturn rfl)
    · rcases next with _ | next <;> cases hj
  · unfold Engine.stepStopLB at h
    rw [if_neg hi] at h
    cases h
    exact flagStep_of_same (step_gate_of_phase rfl rfl rfl (by rw [hmain]; rfl)) rfl rfl nofun nofun

theorem flagStep_stopFP {j : ℕ} {part : StopPhase} (hmain : e.main = .stopFP j part)
    (h : e.stepStopFP cfg j part = some e') : FlagStep e [] e' := by
  by_cases hj : j < cfg.totalFps
  · rw [stepStopFP_eq hj] at h
    obtain ⟨⟨fp, next⟩, hstop, rfl⟩ := Option.map_eq_some_iff.1 h
    obtain ⟨hrunning, hclosed, hturn⟩ := Component.flags_of_stop hstop
    refine ⟨step_gate_of_phase rfl rfl rfl ?_, fun i => ⟨id, Or.inl⟩, fun i hi => ?_, fun k => ?_,
      fun k hk => ?_⟩
    · rw [hmain]
      cases next <;> rfl
    · rcases next with _ | next <;> cases hi
    · dsimp only
      rw [setFP_fps]
      split_ifs with hkj
      · rw [hkj, hmain]
        exact ⟨hrunning, fun hc => (hclosed hc).imp_right (congrArg (MainThread.stopFP j))⟩
      · exact ⟨id, Or.inl⟩
    · dsimp only at hk ⊢
      rcases next with _ | next <;> cases hk
      rw [setFP_fps, if_pos rfl]
      exact Or.inl (hturn rfl)
  · unfold Engine.stepStopFP at h
    rw [if_neg hj] at h
    cases h
    exact flagStep_of_same (step_gate_of_phase rfl rfl rfl (by rw [hmain]; rfl)) rfl rfl nofun nofun

/-- The main thread. -/
theorem flagStep_main (h : e.stepMain cfg = some e') :
    FlagStep e (if e.main = .complete then [.stop] else []) e' := by
  unfold Engine.stepMain at h
  split at h
  · next hmain =>
    split at h <;> cases h
    rw [hmain]
    exact flagStep_of_same (step_gate_of_phase rfl rfl rfl (by rw [hmain]; rfl)) rfl rfl nofun nofun
  · next hmain =>
    cases h
    rw [hmain]
    exact flagStep_of_same (.stop (by rw [gate, hmain]; rfl)) rfl rfl nofun nofun
  · next hmain =>
    have hclear : (gate e).phase = some .clear := by rw [gate, hmain]; rfl
    rw [hmain]
    split_ifs at h with hr <;> cases h
    · exact flagStep_of_same (.clear hclear hr) rfl rfl nofun nofun
    · exact flagStep_of_same (.stopped hclear (Bool.eq_false_of_not_eq_true hr)) rfl rfl nofun nofun
  · next i part hmain =>
    rw [hmain]
    exact flagStep_stopLB hmain h
  · next j part hmain =>
    rw [hmain]
    exact flagStep_stopFP hmain h
  · next hmain =>
    cases h
    rw [hmain]
    exact flagStep_of_same (.shutdown (by rw [gate, hmain]; rfl)) rfl rfl nofun nofun
  · next hmain =>
    split at h <;> cases h
    rw [hmain]
    exact flagStep_of_same (.join (by rw [gate, hmain]; rfl)) rfl rfl nofun nofun
  · next hmain =>
    cases h
    rw [hmain]
    exact flagStep_of_same (step_gate_of_phase rfl rfl rfl (by rw [hmain]; rfl)) rfl rfl nofun nofun
  · cases h

end FlagStep

/-- What the calls so far say about an engine, until the first restart. -/
structure Follows (calls : List Call) (e : Engine) : Prop where
  gate : (gate e).Follows calls
  lbs : ∀ i, (e.lbs i).inputQueue.isShutdown = true → Stops calls
  lbTurn : ∀ i, e.main = .stopLB i .shutdown → (e.lbs i).running = false
  fps : ∀ j, (e.fps j).inputQueue.isShutdown = true → Stops calls
  fpTurn : ∀ j, e.main = .stopFP j .shutdown → (e.fps j).running = false

section Follows

variable {cfg : Config} {rm : RuleManager} {e e' : Engine} {calls more : List Call}

theorem stops_append (h : Stops calls) (more : List Call) : Stops (calls ++ more) :=
  h.trans (List.sublist_append_left _ _)

theorem eq_false_of_imp {b b' : Bool} (h : b' = true → b = true) (hb : b = false) : b' = false := by
  rw [Bool.eq_false_iff] at hb ⊢
  exact fun hb' => hb (h hb')

/-- A component that is not started stays in service unless it is its turn to shut down. -/
theorem open_of_flags {running running' closed closed' : Bool} {turn : Prop}
    (h : (running' = true → running = true) ∧ (closed' = true → closed = true ∨ turn))
    (hservice : running = true → closed = false) (hturn : turn → running = false) :
    running' = true → closed' = false := by
  intro hr
  rw [Bool.eq_false_iff]
  intro hc
  rcases h.2 hc with hclosed | ht
  · exact Bool.eq_false_iff.1 (hservice (h.1 hr)) hclosed
  · exact Bool.eq_false_iff.1 (hturn ht) (h.1 hr)

/-- A component whose turn it is to shut down its queue does not run. -/
theorem FlagStep.follows (h : FlagStep e more e') (hfollows : Follows calls e)
    (hservice : InService e) (hfirst : ¬ Restarts calls) :
    Follows (calls ++ more) e' ∧ (InService e' ↔ ¬ Restarts (calls ++ more)) := by
  obtain ⟨hgate, hopen⟩ := h.gate.follows hfollows.gate hservice.output hfirst
  have hstops {p : MainThread} (hmain : e.main = p) (hp : phase p = some .shutdown) :
      Stops calls := (hfollows.gate.shutdown (by rw [DPIEngine.gate, hmain, hp])).2
  refine ⟨⟨hgate, fun i hc => ?_, fun i hi => ?_, fun j hc => ?_, fun j hj => ?_⟩,
    fun hs => hopen.1 hs.output, fun hr => ⟨hopen.2 hr, fun i => ?_, fun j => ?_⟩⟩
  · rcases (h.lbs i).2 hc with hc | hturn
    · exact stops_append (hfollows.lbs i hc) more
    · exact stops_append (hstops hturn rfl) more
  · rcases h.lbTurn i hi with hr | hturn
    · exact hr
    · exact eq_false_of_imp (h.lbs i).1 (hfollows.lbTurn i hturn)
  · rcases (h.fps j).2 hc with hc | hturn
    · exact stops_append (hfollows.fps j hc) more
    · exact stops_append (hstops hturn rfl) more
  · rcases h.fpTurn j hj with hr | hturn
    · exact hr
    · exact eq_false_of_imp (h.fps j).1 (hfollows.fpTurn j hturn)
  · exact open_of_flags (h.lbs i) (hservice.lbs i) (hfollows.lbTurn i)
  · exact open_of_flags (h.fps j) (hservice.fps j) (hfollows.fpTurn j)

/-- A call of `start` runs whatever is configured, with the queues as they are. -/
theorem follows_start (hfollows : Follows calls e) (hservice : InService e)
    (hfirst : ¬ Restarts calls) (hidle : phase e.main = none) (hidle' : phase e'.main = none)
    (hrunning : e'.running = true) (houtput : e'.outputQueue = e.outputQueue)
    (hlbs : ∀ i, (e'.lbs i).inputQueue = (e.lbs i).inputQueue)
    (hfps : ∀ j, (e'.fps j).inputQueue = (e.fps j).inputQueue) :
    Follows (calls ++ [.start]) e' ∧ (InService e' ↔ ¬ Restarts (calls ++ [.start])) := by
  have hstart : gate e' = { gate e with running := true } := by
    unfold gate
    rw [hrunning, houtput, hidle, hidle']
  have hgate : (gate e).Step [.start] (gate e') := by
    rw [hstart]
    exact .start hidle
  obtain ⟨hgate', hopen⟩ := hgate.follows hfollows.gate hservice.output hfirst
  refine ⟨⟨hgate', fun i hc => ?_, fun i hi => ?_, fun j hc => ?_, fun j hj => ?_⟩,
    fun hs => hopen.1 hs.output, fun hr => ?_⟩
  · rw [hlbs] at hc
    exact stops_append (hfollows.lbs i hc) _
  · rw [hi] at hidle'
    cases hidle'
  · rw [hfps] at hc
    exact stops_append (hfollows.fps j hc) _
  · rw [hj] at hidle'
    cases hidle'
  · have hnever : ¬ Stops calls := fun hs => hr (restarts_concat_start.2 hs)
    refine ⟨hopen.2 hr, fun i _ => ?_, fun j _ => ?_⟩
    · rw [hlbs, Bool.eq_false_iff]
      exact fun hc => hnever (hfollows.lbs i hc)
    · rw [hfps, Bool.eq_false_iff]
      exact fun hc => hnever (hfollows.fps j hc)

/-- A start keeps the queues. -/
theorem queues_start (cfg : Config) (e : Engine) :
    (start cfg e).running = true ∧ (start cfg e).outputQueue = e.outputQueue ∧
      (start cfg e).main = e.main ∧
      (∀ i, ((start cfg e).lbs i).inputQueue = (e.lbs i).inputQueue) ∧
      ∀ j, ((start cfg e).fps j).inputQueue = (e.fps j).inputQueue := by
  unfold start
  split_ifs with hr
  · exact ⟨hr, rfl, rfl, fun _ => rfl, fun _ => rfl⟩
  · refine ⟨rfl, rfl, rfl, fun i => ?_, fun j => ?_⟩
    · dsimp only
      split_ifs
      · unfold LoadBalancer.start Component.start
        split_ifs <;> rfl
      · rfl
    · dsimp only
      split_ifs
      · unfold FastPath.start Component.start
        split_ifs <;> rfl
      · rfl

/-- One step of the engine. -/
theorem follows_step {ev : Event} (h : step cfg rm e ev = some e') (hfollows : Follows calls e)
    (hservice : InService e) (hfirst : ¬ Restarts calls) :
    Follows (calls ++ DPIEngine.calls ⟨e, ev, e'⟩) e' ∧
      (InService e' ↔ ¬ Restarts (calls ++ DPIEngine.calls ⟨e, ev, e'⟩)) := by
  obtain ⟨hrunning, houtput, hmain, hlbs, hfps⟩ := queues_start cfg e
  cases ev with
  | start =>
    simp only [step, Option.ite_none_right_eq_some] at h
    obtain ⟨hidle, h⟩ := h
    cases h
    refine follows_start hfollows hservice hfirst ?_ ?_ hrunning houtput hlbs hfps
    · rw [hidle]; rfl
    · rw [hmain, hidle]; rfl
  | processFile input =>
    simp only [step, Option.ite_none_right_eq_some] at h
    obtain ⟨hidle, h⟩ := h
    cases h
    refine follows_start hfollows hservice hfirst ?_ rfl hrunning houtput hlbs hfps
    rw [hidle]
    rfl
  | stop =>
    simp only [step, Option.ite_none_right_eq_some] at h
    obtain ⟨hidle, h⟩ := h
    cases h
    have hflags : FlagStep e [.stop] { e with main := .stop } :=
      flagStep_of_same (.stop (by rw [gate, hidle]; rfl)) rfl rfl nofun nofun
    exact hflags.follows hfollows hservice hfirst
  | stopped =>
    simp only [step, Option.ite_none_right_eq_some] at h
    obtain ⟨hidle, h⟩ := h
    cases h
    have hflags : FlagStep e [] { e with main := .returned } :=
      flagStep_of_same (step_gate_of_phase rfl rfl rfl (by rw [hidle]; rfl)) rfl rfl nofun nofun
    exact hflags.follows hfollows hservice hfirst
  | thread l =>
    have hflags : FlagStep e (DPIEngine.calls ⟨e, .thread l, e'⟩) e' := by
      by_cases hl : l = .main
      · subst hl
        exact flagStep_main h
      · have hcalls : DPIEngine.calls ⟨e, .thread l, e'⟩ = [] := by
          cases l <;> first | rfl | exact absurd rfl hl
        rw [hcalls]
        exact flagStep_of_sameControl ((Step.move h).sameControl hl)
    exact hflags.follows hfollows hservice hfirst

end Follows

theorem Initialised.follows {e : Engine} (h : Initialised e) : Follows [] e where
  gate := Gate.follows_of_fresh h.running h.output (by rw [gate, h.main]; rfl)
  lbs i hc := by rw [(h.lbs i).2] at hc; cases hc
  lbTurn i _ := (h.lbs i).1
  fps j hc := by rw [(h.fps j).2] at hc; cases hc
  fpTurn j _ := (h.fps j).1

theorem Initialised.inService {e : Engine} (h : Initialised e) : InService e where
  output _ := h.output
  lbs i _ := (h.lbs i).2
  fps j _ := (h.fps j).2

/-- In every run of the engine whatever runs has its queue in service, iff the calls do not restart
the engine. -/
theorem inService_iff {cfg : Config} {rm : RuleManager} {e e' : Engine}
    {ts : List (Taken Engine Event)} (he : Initialised e)
    (hrun : Run (Run.StepOf (step cfg rm)) e ts e') :
    (∀ t ∈ ts, InService t.post) ↔ ¬ Restarts (ts.flatMap calls) :=
  Run.forall_post_iff Follows InService (fun _ k h => h.append k)
    (fun _ _ ht hfirst hinv hs => follows_step ht hinv hs hfirst) hrun not_restarts_nil
    he.follows he.inService

end DPIEngine

/-! ## Restarts -/

/-- In every run of a load balancer, a fast path or an engine, whatever runs has its queue in
service, iff no start follows a stop that itself follows a start.  `processFile` makes a call of
`start` and a call of `stop`, so an engine serves one file. -/
theorem inService_iff_not_restarts (cfg : Config) (rm : RuleManager) :
    (∀ lb lb' ts, LoadBalancer.component.Fresh lb → Run LoadBalancer.component.Step lb ts lb' →
      ((∀ t ∈ ts, t.post.1.running = true → t.post.1.inputQueue.isShutdown = false) ↔
        ¬ Restarts (ts.flatMap Component.calls))) ∧
    (∀ fp fp' ts, FastPath.component.Fresh fp → Run FastPath.component.Step fp ts fp' →
      ((∀ t ∈ ts, t.post.1.running = true → t.post.1.inputQueue.isShutdown = false) ↔
        ¬ Restarts (ts.flatMap Component.calls))) ∧
    ∀ e e' ts, DPIEngine.Initialised e → Run (Run.StepOf (DPIEngine.step cfg rm)) e ts e' →
      ((∀ t ∈ ts, DPIEngine.InService t.post) ↔ ¬ Restarts (ts.flatMap DPIEngine.calls)) :=
  ⟨fun _ _ _ hfresh hrun => Component.open_iff hfresh hrun,
    fun _ _ _ hfresh hrun => Component.open_iff hfresh hrun,
    fun _ _ _ he hrun => DPIEngine.inService_iff he hrun⟩

namespace DPIEngine

/-- An engine that `initialize` has just constructed. -/
def freshEngine : Engine where
  reader := .done
  lbs := fun _ => { running := false, thread := .exited }
  fps := fun _ => { running := false, thread := .exited }
  output := .exited
  main := .returned
  running := false
  outputFileOpen := false

/-- One engine is given a file of one packet twice; the second time the reader has read all of it
and the load balancer has polled its queue. -/
def sameFileTwice : List Event :=
  .processFile [opening] :: patientStop.map .thread ++
    .processFile [opening] :: [.thread .reader, .thread .reader, .thread .reader,
      .thread (.lb 0), .thread (.lb 0)]

/-- The second time the packet is in no queue and was never handled: a push to a queue that is shut
down discards it. -/
theorem second_file_discarded :
    ∃ ts e, Initialised freshEngine ∧
      Run (Run.StepOf (step oneWorker {})) freshEngine ts e ∧
      (∃ t ∈ ts, ¬ InService t.post) ∧ e.running = true ∧ e.accepted = [opening, opening] ∧
      e.handled = [(opening, .forward)] ∧ (e.lbs 0).inputQueue.queue = [] ∧
      (e.fps 0).inputQueue.queue = [] := by
  have h : ((Run.exec (step oneWorker {}) freshEngine sameFileTwice).map fun e =>
      decide (e.outputQueue.isShutdown = true ∧ e.running = true ∧
        e.accepted = [opening, opening] ∧ e.handled = [(opening, .forward)] ∧
        (e.lbs 0).inputQueue.queue = [] ∧ (e.fps 0).inputQueue.queue = [])) = some true := by
    decide +kernel
  obtain ⟨e, hexec, h⟩ := Option.map_eq_some_iff.1 h
  obtain ⟨hclosed, hrunning, hrest⟩ := of_decide_eq_true h
  obtain ⟨ts, hrun⟩ := Run.of_exec hexec
  have hfresh : Initialised freshEngine :=
    ⟨rfl, rfl, rfl, fun _ => ⟨rfl, rfl⟩, fun _ => ⟨rfl, rfl⟩⟩
  refine ⟨ts, e, hfresh, hrun, ?_, hrunning, hrest⟩
  by_contra hall
  simp only [not_exists, not_and, not_not] at hall
  have hservice := hrun.last hfresh.inService hall
  rw [hservice.output hrunning] at hclosed
  cases hclosed

end DPIEngine

end DPI
