import DpiEngine.CutOff
import DpiEngine.MtProgress
import DpiEngine.MtSharding

/-!
# What the stand-alone program forwards

The packets of each five-tuple that `dpi_mt.cpp` writes are the first of those that the rules let
pass, and they are all of them where the stop leaves nothing in the queues.
-/

namespace DPI.Mt

open Bytes Mt.Engine

variable {cfg : Config} {rules : Rules} {input : List Packet} {e : Engine}
  {ts : List (Taken Engine Label)}

/-- The packets of a five-tuple that the rules let pass, by the names in them. -/
def passed (rules : Rules) (t : FiveTuple) (input : List Packet) : List Packet :=
  let pkts := input.filter fun pkt => pkt.tuple == t
  pkts.take (passing rules t (pkts.map Packet.name))

/-- One fast path on the whole input lets these packets pass. -/
theorem Outcome.passed_input (cfg : Config) {σ : FiveTuple → FlowEntry}
    {log : List (Packet × PacketAction)} (h : Outcome rules (Flows.at ∅) log σ)
    (hjobs : log.map Prod.fst = input) (t : FiveTuple) :
    (log.filter fun d => d.1.tuple == t && cfg.shape.passes d.2).map Prod.fst =
      passed rules t input := by
  have hlog := h.passed_eq t
  rw [map_fst_filter fun pkt : Packet => pkt.tuple, hjobs] at hlog
  exact hlog

/-! ## Runs that return -/

/-- Without a load balancer the first packet is never handed on. -/
theorem lbs_pos_of_returned (hrun : Run (Step cfg rules) (start input) ts e)
    (hret : e.main = .returned) (hinput : input ≠ []) : 0 < cfg.lbs := by
  by_contra hpos
  have hlbs : cfg.lbs = 0 := Nat.eq_zero_of_not_pos hpos
  have hstuck := (hrun.invariant
    (fun e => e.main = .reading input ∨ ∃ pkt rest, e.main = .pushing pkt rest) (fun _ => True)
    (fun _ _ _ hs _ h => ?_) (fun _ _ => trivial) (Or.inl rfl)).1
  · rw [hret] at hstuck
    rcases hstuck with h | ⟨pkt, rest, h⟩ <;> cases h
  · rcases h with h | ⟨pkt, rest, h⟩
    · cases hs.move with
      | readEnd hm =>
        rw [hm] at h
        cases h
        exact absurd rfl hinput
      | read pkt rest hm => exact Or.inr ⟨pkt, rest, rfl⟩
      | readPush pkt rest i queue hm hpos' hi hq => exact absurd hlbs hpos'.ne'
      | stop e' hm hread => rw [h] at hread; cases hread
      | _ => exact Or.inl h
    · exact Or.inr ⟨pkt, rest, pushing_step hlbs h hs⟩

/-- The stop has left no packet in an input queue. -/
structure Engine.Drained (cfg : Config) (e : Engine) : Prop where
  lbs : ∀ i < cfg.lbs, (e.lbs i).inputQueue.queue = []
  fps : ∀ j < cfg.fps, (e.fps j).inputQueue.queue = []

/-- Once everything is drained and the threads are joined, all packets read have been handled. -/
theorem Engine.Sound.handled_eq (h : Sound cfg rules input ts e) (hf : 0 < cfg.perLb)
    (hlbs : 0 < cfg.lbs) (hret : e.main = .returned) (hdrained : e.Drained cfg) (t : FiveTuple) :
    ((ts.flatMap handledBy).map Prod.fst).filter (fun pkt => pkt.tuple == t) =
        input.filter (fun pkt => pkt.tuple == t) ∧
      (e.written.filter fun pkt => pkt.tuple == t) =
        ((ts.flatMap handledBy).filter fun d =>
          d.1.tuple == t && cfg.shape.passes d.2).map Prod.fst := by
  obtain ⟨w, hw⟩ : ∃ w, w = worker cfg.lbs cfg.perLb t := ⟨_, rfl⟩
  have hlt : w < cfg.fps := by
    rw [hw, cfg.fps_eq hlbs hf]
    exact worker_lt hlbs hf t
  have hdiv : w / cfg.perLb < cfg.lbs := by
    rw [hw, worker_div hf]
    exact Nat.mod_lt _ hlbs
  have hthread : (e.fps w).thread = .exited := h.draining.fpExited w (by rw [hret]; exact hlt)
  have hlb : (e.lbs (w / cfg.perLb)).thread = .exited :=
    h.control.lbExited _ (by rw [hret]; exact hdiv)
  have houtput : e.output = .exited := h.draining.outputExited (by rw [hret]; rfl)
  have hread : ts.flatMap readBy = input := by
    have haccepted := h.accepted
    rw [hret] at haccepted
    exact (List.append_nil _).symm.trans haccepted
  have hof (l : List Packet) : (Network.of cfg.shape w l).filter (fun pkt => pkt.tuple == t) =
      l.filter fun pkt => pkt.tuple == t := by
    rw [hw]
    exact filter_tuple_of_worker id cfg t l
  constructor
  · have hintake := h.ordered.intake w
    simp only [Engine.network, Config.shape, hthread, hlb, hret, FPThread.held, LBThread.held,
      MainThread.held, hdrained.fps w hlt, hdrained.lbs _ hdiv, List.append_nil, Network.of_nil]
      at hintake
    rw [← hread, ← hof, ← hof (ts.flatMap readBy)]
    exact congrArg _ hintake.symm
  · have hout := h.ordered.outlet w
    simp only [Engine.network, hthread, houtput, FPThread.outbox, OutputThread.held,
      h.draining.outputEmpty houtput, List.append_nil, Network.of_nil] at hout
    rw [← hof, ← hout, hof, Network.passed, List.filter_map, List.filter_filter]
    rfl

/-! ## The output file -/

theorem Engine.Sound.written_prefix_passed (h : Sound cfg rules input ts e) (t : FiveTuple) :
    (e.written.filter fun pkt => pkt.tuple == t) <+: passed rules t input := by
  obtain ⟨log, σ, -, hjobs, hall⟩ := processAll_outcome rules ∅ input
  have hhandled := ((h.handled_prefix hjobs hall t).filter fun d => cfg.shape.passes d.2).map
    Prod.fst
  rw [filter_passes, filter_passes, Outcome.passed_input cfg hall hjobs t] at hhandled
  exact (h.written_prefix t).trans hhandled

/-- In every run, for any numbers of load balancers and fast paths, the packets of each five-tuple
in the output file are the first of those that the rules let pass by the names in the input file,
and all of them once `process` has returned with nothing left in its queues. -/
theorem written_eq_passed (hf : 0 < cfg.fpsPerLb)
    (hrun : Run (Step cfg rules) (start input) ts e) (t : FiveTuple) :
    (e.written.filter fun pkt => pkt.tuple == t) <+: passed rules t input ∧
      (e.main = .returned → e.Drained cfg →
        (e.written.filter fun pkt => pkt.tuple == t) = passed rules t input) := by
  have hpos : 0 < cfg.perLb := Int.pos_iff_toNat_pos.1 hf
  have hsound := sound_of_run hpos hrun
  have hsome := hsound.written_prefix_passed t
  refine ⟨hsome, fun hret hdrained => ?_⟩
  by_cases hinput : input = []
  · subst hinput
    exact List.prefix_nil.1 hsome
  · obtain ⟨hread, hwritten⟩ := hsound.handled_eq hpos (lbs_pos_of_returned hrun hret hinput)
      hret hdrained t
    obtain ⟨log, σ, -, hjobs, hall⟩ := processAll_outcome rules ∅ input
    have hlog : ((ts.flatMap handledBy).filter fun d => d.1.tuple == t) =
        log.filter fun d => d.1.tuple == t := by
      apply (hsound.handled_prefix hjobs hall t).eq_of_length
      have hlen := congrArg List.length hread
      rw [← map_fst_filter fun pkt : Packet => pkt.tuple, ← hjobs,
        ← map_fst_filter fun pkt : Packet => pkt.tuple, List.length_map, List.length_map] at hlen
      exact hlen
    rw [hwritten, ← Outcome.passed_input cfg hall hjobs t, ← filter_passes, ← filter_passes, hlog]

theorem written_eq_passed_visits :
    ∃ ts e, Run (Step twoByTwo badBlocked) (start visits) ts e ∧ e.main = .returned ∧
      e.Drained twoByTwo ∧ e.written = [allowedRequest, firstByte] ∧
      [firstByte] = passed badBlocked firstByte.tuple visits := by
  obtain ⟨ts, e, hrun, hret, hlbs, hfps, hwritten⟩ := exists_run_visits
  have hall := (written_eq_passed (by decide) hrun firstByte.tuple).2 hret ⟨hlbs, hfps⟩
  rw [hwritten] at hall
  exact ⟨ts, e, hrun, hret, ⟨hlbs, hfps⟩, hwritten, hall⟩

end DPI.Mt
