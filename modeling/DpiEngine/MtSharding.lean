import DpiEngine.MtPipeline

/-!
# Verdicts of the stand-alone program

Whatever the interleaving of its threads, `dpi_mt.cpp` gives the packets of a five-tuple the
verdicts that one fast path gives them, and a flow that is blocked stays blocked.
-/

namespace DPI.Mt

open Bytes Mt.Engine

variable {cfg : Config} {rules : Rules} {input : List Packet} {e : Engine}
  {ts : List (Taken Engine Label)}

/-! ## Flows -/

theorem FlowEntry.blocked_step {flow flow' : FlowEntry} {pkt : Packet} {action : PacketAction}
    (h : flow.step rules pkt = .ok (action, flow')) :
    action = verdict flow'.blocked ∧ (flow.blocked = true → flow'.blocked = true) := by
  obtain ⟨name, hname⟩ := defined_extractName pkt
  rw [step, receive_eq hname] at h
  cases h
  refine ⟨rfl, fun hblocked => ?_⟩
  rw [judge_eq, blocked_next, count_eq]
  exact Bool.or_eq_true_iff.2 (Or.inl hblocked)

theorem passes_verdict (cfg : Config) (blocked : Bool) :
    cfg.shape.passes (verdict blocked) = !blocked := by
  cases blocked <;> rfl

theorem filter_passes (cfg : Config) (t : FiveTuple) (l : List (Packet × PacketAction)) :
    ((l.filter fun d => d.1.tuple == t).filter fun d => cfg.shape.passes d.2) =
      l.filter fun d => d.1.tuple == t && cfg.shape.passes d.2 := by
  rw [List.filter_filter]
  exact List.filter_congr fun d _ => Bool.and_comm ..

/-- Of the packets of a five-tuple, one fast path lets the first ones pass and no later one. -/
theorem Outcome.passed_prefix (cfg : Config) {σ σ' : FiveTuple → FlowEntry}
    {log : List (Packet × PacketAction)} (h : Outcome rules σ log σ') (t : FiveTuple) :
    ((log.filter fun d => d.1.tuple == t && cfg.shape.passes d.2).map Prod.fst) <+:
      (log.filter fun d => d.1.tuple == t).map Prod.fst := by
  refine (Keyed.Outcome.passed_prefix (fun flow : FlowEntry => flow.blocked = true)
    cfg.shape.passes ?_ ?_ h t).2
  · exact fun flow pkt action flow' hstep => (FlowEntry.blocked_step hstep).2
  · intro flow pkt action flow' hstep
    rw [(FlowEntry.blocked_step hstep).1, passes_verdict]
    simp

/-! ## Runs -/

theorem filter_tuple_of_worker {α : Type*} (key : α → Packet) (cfg : Config) (t : FiveTuple)
    (l : List α) :
    ((l.filter fun a => cfg.shape.worker (key a) == worker cfg.lbs cfg.perLb t).filter fun a =>
      (key a).tuple == t) = l.filter fun a => (key a).tuple == t := by
  rw [List.filter_filter]
  apply List.filter_congr
  intro a _
  by_cases ht : (key a).tuple = t
  · simp [Config.shape, ht]
  · simp [ht]

/-- The verdicts on the packets of a five-tuple are the first ones that one fast path gives. -/
theorem Engine.Sound.handled_prefix (h : Sound cfg rules input ts e)
    {log : List (Packet × PacketAction)} {σ : FiveTuple → FlowEntry}
    (hjobs : log.map Prod.fst = input) (hall : Outcome rules (Flows.at ∅) log σ) (t : FiveTuple) :
    ((ts.flatMap handledBy).filter fun d => d.1.tuple == t) <+:
      log.filter fun d => d.1.tuple == t := by
  have hshard := Keyed.sharded
    (fun key => worker cfg.lbs cfg.perLb key == worker cfg.lbs cfg.perLb t) hall
    (h.faithful (worker cfg.lbs cfg.perLb t)) (by
      rw [hjobs]
      exact h.decided_in_order _)
  have hhandled := ((List.prefix_append _ _).trans hshard).filter fun d => d.1.tuple == t
  have hlog := filter_tuple_of_worker Prod.fst cfg t log
  rw [filter_tuple_of_worker Prod.fst cfg t] at hhandled
  exact hlog ▸ hhandled

/-- The packets of a five-tuple are written in the order in which their fast path let them pass. -/
theorem Engine.Sound.written_prefix (h : Sound cfg rules input ts e) (t : FiveTuple) :
    (e.written.filter fun pkt => pkt.tuple == t) <+:
      ((ts.flatMap handledBy).filter fun d =>
        d.1.tuple == t && cfg.shape.passes d.2).map Prod.fst := by
  have hout := h.ordered.outlet (worker cfg.lbs cfg.perLb t)
  have hpassed : Network.of cfg.shape (worker cfg.lbs cfg.perLb t) e.written <+:
      Network.of cfg.shape (worker cfg.lbs cfg.perLb t)
        (Network.passed cfg.shape (ts.flatMap handledBy)) :=
    ⟨_, (List.append_assoc ..).symm.trans hout.symm⟩
  have htuple := hpassed.filter fun pkt => pkt.tuple == t
  have hof (l : List Packet) : ((Network.of cfg.shape (worker cfg.lbs cfg.perLb t) l).filter
      fun pkt => pkt.tuple == t) = l.filter fun pkt => pkt.tuple == t :=
    filter_tuple_of_worker id cfg t l
  rw [hof, hof, Network.passed, List.filter_map, List.filter_filter] at htuple
  exact htuple

/-- In every run, for any numbers of load balancers and fast paths, the packets of each five-tuple
get, in the order of the input file, the verdicts that one fast path gives them on the whole
file. -/
theorem verdicts_eq_single (hf : 0 < cfg.fpsPerLb)
    (hrun : Run (Step cfg rules) (start input) ts e) :
    ∃ log, Flows.processAll rules ∅ input = .ok log ∧ log.map Prod.fst = input ∧
      ∀ t, ((ts.flatMap handledBy).filter fun d => d.1.tuple == t) <+:
        log.filter fun d => d.1.tuple == t := by
  have hsound := sound_of_run (Int.pos_iff_toNat_pos.1 hf) hrun
  obtain ⟨log, σ, hlog, hjobs, hall⟩ := processAll_outcome rules ∅ input
  exact ⟨log, hlog, hjobs, hsound.handled_prefix hjobs hall⟩

theorem verdicts_eq_single_visits :
    ∃ ts e, Run (Step twoByTwo badBlocked) (start visits) ts e ∧
      e.written = [allowedRequest, firstByte] ∧
      ∃ log, Flows.processAll badBlocked ∅ visits = .ok log ∧ log.map Prod.fst = visits ∧
        ∀ t, ((ts.flatMap handledBy).filter fun d => d.1.tuple == t) <+:
          log.filter fun d => d.1.tuple == t := by
  obtain ⟨ts, e, hrun, -, -, -, hwritten⟩ := exists_run_visits
  exact ⟨ts, e, hrun, hwritten, verdicts_eq_single (by decide) hrun⟩

/-- In every run, for any numbers of load balancers and fast paths, the packets of each five-tuple
in the output file are, in their order, the first of its packets in the input file: a connection
passes up to some packet and is cut off from then on. -/
theorem written_prefix_input (hf : 0 < cfg.fpsPerLb)
    (hrun : Run (Step cfg rules) (start input) ts e) (t : FiveTuple) :
    (e.written.filter fun pkt => pkt.tuple == t) <+: input.filter fun pkt => pkt.tuple == t := by
  have hsound := sound_of_run (Int.pos_iff_toNat_pos.1 hf) hrun
  obtain ⟨log, σ, hlog, hjobs, hall⟩ := processAll_outcome rules ∅ input
  have hhandled := (hsound.handled_prefix hjobs hall t).filter fun d => cfg.shape.passes d.2
  rw [filter_passes, filter_passes] at hhandled
  have hinput : (log.filter fun d => d.1.tuple == t).map Prod.fst =
      input.filter fun pkt => pkt.tuple == t := by
    rw [← hjobs, List.filter_map]
    rfl
  rw [← hinput]
  exact (hsound.written_prefix t).trans ((hhandled.map Prod.fst).trans (hall.passed_prefix cfg t))

theorem written_prefix_input_visits :
    ∃ ts e, Run (Step twoByTwo badBlocked) (start visits) ts e ∧
      e.written = [allowedRequest, firstByte] ∧
      [firstByte] <+: visits.filter fun pkt => pkt.tuple == firstByte.tuple := by
  obtain ⟨ts, e, hrun, -, -, -, hwritten⟩ := exists_run_visits
  have hinitial := written_prefix_input (by decide) hrun firstByte.tuple
  rw [hwritten] at hinitial
  exact ⟨ts, e, hrun, hwritten, hinitial⟩

end DPI.Mt
