import DpiEngine.Blocking

/-!
# The life of a connection

Everything that can happen to the table of a worker: packets, each decided under the rules in force
when it is processed, cleanups, and explicit closes.  While the entry of a connection is kept, what
happens to it is a run of a machine with one flow as its state, whatever happens to the others.
-/

namespace DPI

open Bytes ConnectionTracker

/-! ## A single flow -/

namespace Flow

/-- What changes the flow of a connection. -/
inductive Event where
  | packet (rm : Option RuleManager) (job : PacketJob) (action : PacketAction)
  | close

def Event.job : Event → Option PacketJob
  | .packet _ job _ => some job
  | .close => none

inductive Step : Flow → Event → Flow → Prop
  | packet {f f' : Flow} {rm : Option RuleManager} {job : PacketJob} {action : PacketAction}
      (h : f.step rm job = .ok (action, f')) : Step f (.packet rm job action) f'
  | close (f : Flow) : Step f .close { f with state := .closed }

end Flow

/-! ## A worker -/

namespace FastPathProcessor

/-- What happens to a worker; a packet comes with the rules in force. -/
inductive WorkerEvent where
  | packet (rm : Option RuleManager) (env : Env) (job : PacketJob) (action : PacketAction)
  | cleanup (now timeout : Time)
  | close (tuple : FiveTuple)

inductive WorkerStep : FastPathProcessor → WorkerEvent → FastPathProcessor → Prop
  | packet {fp fp' : FastPathProcessor} {rm : Option RuleManager} {env : Env} {job : PacketJob}
      {action : PacketAction} (h : fp.processPacket rm env job = .ok (action, fp')) :
      WorkerStep fp (.packet rm env job action) fp'
  | cleanup (fp : FastPathProcessor) (now timeout : Time) :
      WorkerStep fp (.cleanup now timeout)
        { fp with connTracker := (fp.connTracker.cleanupStale now timeout).1 }
  | close (fp : FastPathProcessor) (tuple : FiveTuple) :
      WorkerStep fp (.close tuple)
        { fp with connTracker := fp.connTracker.closeConnection tuple }

/-- The worker after an event; a packet has to get the verdict that is given. -/
def after (fp : FastPathProcessor) : WorkerEvent → Option FastPathProcessor
  | .packet rm env job action =>
    match fp.processPacket rm env job with
    | .ok (verdict, fp') => if verdict = action then some fp' else none
    | .error _ => none
  | .cleanup now timeout =>
    some { fp with connTracker := (fp.connTracker.cleanupStale now timeout).1 }
  | .close tuple => some { fp with connTracker := fp.connTracker.closeConnection tuple }

variable {fp fp' : FastPathProcessor} {key : FiveTuple}

theorem WorkerStep.of_after {e : WorkerEvent} (h : fp.after e = some fp') :
    WorkerStep fp e fp' := by
  cases e with
  | packet rm env job action =>
    rw [after] at h
    cases hprocess : fp.processPacket rm env job with
    | error fault =>
      rw [hprocess] at h
      cases h
    | ok r =>
      rw [hprocess] at h
      obtain ⟨hverdict, hnext⟩ := Option.ite_none_right_eq_some.1 h
      cases hnext
      exact .packet (hverdict ▸ hprocess)
  | cleanup now timeout =>
    cases h
    exact .cleanup fp now timeout
  | close tuple =>
    cases h
    exact .close fp tuple

/-- A list of events is a run of the worker where each packet gets its verdict. -/
theorem run_of_trace {es : List WorkerEvent} {ts : List (Taken FastPathProcessor WorkerEvent)}
    (h : Run.trace after fp es = some (ts, fp')) : Run WorkerStep fp ts fp' :=
  (Run.of_trace h).mono fun _ _ _ => WorkerStep.of_after

/-- The event of a connection's flow in a step of the worker. -/
def flowEvent (key : FiveTuple) (s : Taken FastPathProcessor WorkerEvent) : Option Flow.Event :=
  match s.label with
  | .packet rm _ job action =>
    if canonicalTuple job.tuple = key then some (.packet rm job action) else none
  | .cleanup _ _ => none
  | .close tuple =>
    if canonicalTuple tuple = key ∧ key ∈ s.pre.connTracker.connections then some .close else none

theorem label_of_flowEvent {s : Taken FastPathProcessor WorkerEvent} {rm : Option RuleManager}
    {job : PacketJob} {action : PacketAction}
    (h : flowEvent key s = some (.packet rm job action)) :
    ∃ env, s.label = .packet rm env job action ∧ canonicalTuple job.tuple = key := by
  unfold flowEvent at h
  split at h
  · rename_i hlabel
    split_ifs at h with hkey
    cases h
    exact ⟨_, hlabel, hkey⟩
  · cases h
  · split_ifs at h
    cases h

/-- The part of a connection in the steps of the worker. -/
def life (key : FiveTuple) (ts : List (Taken FastPathProcessor WorkerEvent)) :
    List (Taken Flow Flow.Event) :=
  ts.filterMap fun s =>
    (flowEvent key s).map fun e => ⟨s.pre.flowOf key, e, s.post.flowOf key⟩

/-- The step keeps the entry of the connection if there is one. -/
def Keeps (key : FiveTuple) (s : Taken FastPathProcessor WorkerEvent) : Prop :=
  key ∈ s.pre.connTracker.connections → key ∈ s.post.connTracker.connections

instance (key : FiveTuple) (s : Taken FastPathProcessor WorkerEvent) : Decidable (Keeps key s) :=
  inferInstanceAs (Decidable (_ → _))

theorem flowAt_closeConnection (fp : FastPathProcessor) (tuple key : FiveTuple) :
    flowAt { fp with connTracker := fp.connTracker.closeConnection tuple } key =
      if canonicalTuple tuple = key then
        (fp.flowAt key).map fun f => { f with state := .closed }
      else fp.flowAt key := by
  unfold flowAt closeConnection
  cases h : fp.connTracker.connections.lookup (canonicalTuple tuple) with
  | none =>
    split_ifs with hkey
    · rw [← hkey]
      simp [h]
    · simp [h]
  | some c =>
    split_ifs with hkey
    · rw [← hkey]
      simp [h, store, Connection.flow]
    · simp [h, store, Finmap.lookup_insert_of_ne _ (Ne.symm hkey)]

/-- While its entry is kept, a connection takes the step of its flow that is in the step of the
worker, or none. -/
theorem WorkerStep.flowOf_cases {e : WorkerEvent} (h : WorkerStep fp e fp')
    (hkeep : Keeps key ⟨fp, e, fp'⟩) :
    (∃ e', flowEvent key ⟨fp, e, fp'⟩ = some e' ∧ Flow.Step (fp.flowOf key) e' (fp'.flowOf key)) ∨
      (flowEvent key ⟨fp, e, fp'⟩ = none ∧ fp'.flowOf key = fp.flowOf key) := by
  cases h with
  | packet h =>
    rename_i rm env job action
    have heff := processPacket_ok h
    by_cases hkey : canonicalTuple job.tuple = key
    · left
      obtain ⟨f, hstep, hf⟩ := heff.own
      refine ⟨_, if_pos hkey, ?_⟩
      rw [hkey] at hstep hf
      rw [show fp'.flowOf key = f by rw [flowOf, hf]; rfl]
      exact .packet hstep
    · right
      refine ⟨if_neg hkey, ?_⟩
      rw [flowOf, flowAt_of_kept (heff.other key (Ne.symm hkey)) hkeep]
      rfl
  | cleanup now timeout =>
    right
    refine ⟨rfl, ?_⟩
    rw [flowOf, flowAt_of_kept (flowAt_cleanupStale fp now timeout key) hkeep]
    rfl
  | close tuple =>
    have hclose := flowAt_closeConnection fp tuple key
    by_cases hkey : canonicalTuple tuple = key
    · rw [if_pos hkey] at hclose
      by_cases hmem : key ∈ fp.connTracker.connections
      · left
        refine ⟨_, if_pos ⟨hkey, hmem⟩, ?_⟩
        obtain ⟨f, hf⟩ := Option.isSome_iff_exists.1 ((isSome_flowAt fp key).2 hmem)
        rw [flowOf, flowOf, hclose, hf]
        exact .close f
      · right
        refine ⟨if_neg fun h => hmem h.2, ?_⟩
        have hnone : fp.flowAt key = none := by
          rw [← Option.not_isSome_iff_eq_none, isSome_flowAt]
          exact hmem
        rw [flowOf, flowOf, hclose, hnone]
        rfl
    · right
      refine ⟨if_neg fun h => hkey h.1, ?_⟩
      rw [flowOf, hclose, if_neg hkey]
      rfl

/-- While its entry is kept, what happens to a connection is a run of its flow. -/
theorem run_life {ts : List (Taken FastPathProcessor WorkerEvent)} (hrun : Run WorkerStep fp ts fp')
    (hkeep : ∀ s ∈ ts, Keeps key s) :
    Run Flow.Step (fp.flowOf key) (life key ts) (fp'.flowOf key) := by
  induction hrun with
  | nil fp => exact .nil _
  | cons hstep _ ih =>
    have hrest := ih fun s hs => hkeep s (List.mem_cons_of_mem _ hs)
    rcases hstep.flowOf_cases (hkeep _ List.mem_cons_self) with ⟨e, he, hflow⟩ | ⟨he, hflow⟩
    · rw [life, List.filterMap_cons, he]
      exact .cons hflow hrest
    · rw [life, List.filterMap_cons, he]
      rw [hflow] at hrest
      exact hrest

end FastPathProcessor

end DPI
