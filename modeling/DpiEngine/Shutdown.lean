import DpiEngine.Sharding

/-!
# Shutdown

Packets are lost only where a thread leaves its loop too early: a load balancer or a fast path
that finds its flag cleared while its queue still holds packets, and an output thread that finds
the flag of the engine cleared and the queue empty while a fast path still has a packet for it.
-/

namespace DPI

open Bytes FastPathProcessor

namespace Engine

variable {cfg : Config} {rm : RuleManager} {e e' : Engine} {l : Label}

/-- The step is none of those that leave a packet behind. -/
def drained (e : Engine) : Label → Bool
  | .lb i =>
    match (e.lbs i).thread with
    | .test => (e.lbs i).running || (e.lbs i).inputQueue.empty
    | _ => true
  | .fp j _ =>
    match (e.fps j).thread with
    | .test => (e.fps j).running || (e.fps j).inputQueue.empty
    | .push _ _ =>
      match e.output with
      | .exited => false
      | _ => true
    | _ => true
  | _ => true

/-- A thread that has ended was told to, and has left nothing behind. -/
structure Drained (cfg : Config) (e : Engine) : Prop where
  lb : ∀ i < cfg.numLoadBalancers, (e.lbs i).thread = .exited →
    (e.lbs i).running = false ∧ (e.lbs i).inputQueue.queue = []
  fp : ∀ j < cfg.totalFps, (e.fps j).thread = .exited →
    (e.fps j).running = false ∧ (e.fps j).inputQueue.queue = []
  output : e.output = .exited → e.outputQueue.queue = []

theorem drained_start (cfg : Config) (input : List PacketJob) : Drained cfg (start input) where
  lb := fun _ _ h => by cases h
  fp := fun _ _ h => by cases h
  output := fun h => by cases h

/-- A load balancer that has been told to stop is told after the reader has ended. -/
theorem Control.readerDone_of_lb (hc : Control cfg e) {i : ℕ} (hi : i < cfg.numLoadBalancers)
    (hrun : (e.lbs i).running = false) : e.reader = .done := by
  apply hc.readerDone.resolve_left
  intro hmain
  rw [hc.lbRunning i hi, hmain] at hrun
  simp [MainThread.clearedLBs] at hrun

/-- A fast path that has been told to stop is told after all load balancers have ended. -/
theorem Control.lbExited_of_fp (hc : Control cfg e) {j : ℕ} (hj : j < cfg.totalFps)
    (hrun : (e.fps j).running = false) {i : ℕ} (hi : i < cfg.numLoadBalancers) :
    (e.lbs i).thread = .exited := by
  apply hc.lbExited i
  rw [hc.fpRunning j hj] at hrun
  cases hmain : e.main with
  | stopFP k phase => exact hi
  | shutdownOutput => exact hi
  | joinOutput => exact hi
  | closeFile => exact hi
  | returned => exact hi
  | _ => simp [hmain, MainThread.clearedFPs] at hrun

theorem Drained.setLB (h : Drained cfg e) {i : ℕ} {lb : LoadBalancer}
    (hlb : i < cfg.numLoadBalancers → lb.thread = .exited →
      lb.running = false ∧ lb.inputQueue.queue = []) :
    Drained cfg (e.setLB i lb) :=
  { h with
    lb := setLB_forall (P := fun lb => lb.thread = .exited →
      lb.running = false ∧ lb.inputQueue.queue = []) h.lb hlb }

theorem Drained.setFP (h : Drained cfg e) {j : ℕ} {fp : FastPath}
    (hfp : j < cfg.totalFps → fp.thread = .exited →
      fp.running = false ∧ fp.inputQueue.queue = []) :
    Drained cfg (e.setFP j fp) :=
  { h with
    fp := setFP_forall (P := fun fp => fp.thread = .exited →
      fp.running = false ∧ fp.inputQueue.queue = []) h.fp hfp }

theorem Move.drained (hc : Control cfg e) (hdrain : e.drained l = true)
    (h : Move cfg rm e l e') (hI : Drained cfg e) : Drained cfg e' := by
  cases h with
  | readEnd h => exact { hI with }
  | read job rest h => exact { hI with }
  | readPush job rest i queue h hi hq =>
    have hset : Drained cfg (e.setLB i { e.lbs i with inputQueue := queue }) :=
      hI.setLB fun hi' ht => by
        have hdone := hc.readerDone_of_lb hi' (hI.lb i hi' ht).1
        rw [h] at hdone
        cases hdone
    exact { hset with }
  | lbTest i hi h =>
    apply hI.setLB
    intro _ ht
    cases hrun : (e.lbs i).running with
    | true => simp [hrun] at ht
    | false => exact ⟨rfl, by simpa [Engine.drained, h, hrun, ThreadSafeQueue.empty] using hdrain⟩
  | lbIdle i hi h => exact hI.setLB fun _ => nofun
  | lbPop i job queue hi h hq => exact hI.setLB fun _ => nofun
  | lbDispatch i j job queue hi h hj hq =>
    have hset : Drained cfg (e.setFP j { e.fps j with inputQueue := queue }) :=
      hI.setFP fun hj' ht => by
        have hexited := hc.lbExited_of_fp hj' (hI.fp j hj' ht).1 hi
        rw [h] at hexited
        cases hexited
    exact hset.setLB fun _ => nofun
  | fpTest j env hj h =>
    apply hI.setFP
    intro _ ht
    cases hrun : (e.fps j).running with
    | true => simp [hrun] at ht
    | false => exact ⟨rfl, by simpa [Engine.drained, h, hrun, ThreadSafeQueue.empty] using hdrain⟩
  | fpIdle j env hj h => exact hI.setFP fun _ => nofun
  | fpPop j env job queue hj h hq => exact hI.setFP fun _ => nofun
  | fpProcess j env job action processor hj h hp => exact hI.setFP fun _ => nofun
  | fpOutput j env job action hj h =>
    have hstats : Drained cfg { e with
        stats := e.stats.output job action
        handled := e.handled ++ [(job, action)] } := { hI with }
    apply hstats.setFP
    intro _ ht
    split_ifs at ht
  | fpPush j env job action queue hj h hq =>
    have hset : Drained cfg (e.setFP j { e.fps j with thread := .count action }) :=
      hI.setFP fun _ => nofun
    refine { hset with output := fun ho => ?_ }
    have ho' : e.output = .exited := ho
    simp [Engine.drained, h, ho'] at hdrain
  | fpCount j env action processor hj h hp => exact hI.setFP fun _ => nofun
  | outputTest h =>
    refine { hI with output := fun ho => ?_ }
    dsimp only at ho
    split_ifs at ho
  | outputEmpty h =>
    refine { hI with output := fun ho => ?_ }
    dsimp only at ho
    split_ifs at ho with hempty
    simpa [ThreadSafeQueue.empty] using hempty
  | outputIdle h => exact { hI with output := nofun }
  | outputPop job queue h hq => exact { hI with output := nofun }
  | outputWrite job h => exact { hI with output := nofun }
  | main e' h =>
    have hs := sameWork_main h
    refine ⟨fun i hi ht => ?_, fun j hj ht => ?_, fun ho => ?_⟩
    · obtain ⟨hrun, hqueue⟩ := hI.lb i hi (hs.lbThread i ▸ ht)
      exact ⟨hs.lb_stopped hrun, by rw [hs.lbQueue, hqueue]⟩
    · obtain ⟨hrun, hqueue⟩ := hI.fp j hj (hs.fpThread j ▸ ht)
      exact ⟨hs.fp_stopped hrun, by rw [hs.fpQueue, hqueue]⟩
    · rw [hs.outputQueue]
      exact hI.output (hs.output ▸ ho)

/-! ## Counters -/

def droppedBy (handled : List (PacketJob × PacketAction)) : List PacketJob :=
  (handled.filter fun d => d.2 == .drop).map Prod.fst

def forwardedBy (handled : List (PacketJob × PacketAction)) : List PacketJob :=
  (handled.filter fun d => d.2 != .drop).map Prod.fst

theorem droppedBy_concat (handled : List (PacketJob × PacketAction)) (job : PacketJob)
    (action : PacketAction) : droppedBy (handled ++ [(job, action)]) =
      if action = .drop then droppedBy handled ++ [job] else droppedBy handled := by
  by_cases h : action = .drop <;> simp [droppedBy, h]

theorem forwardedBy_concat (handled : List (PacketJob × PacketAction)) (job : PacketJob)
    (action : PacketAction) : forwardedBy (handled ++ [(job, action)]) =
      if action = .drop then forwardedBy handled else forwardedBy handled ++ [job] := by
  by_cases h : action = .drop <;> simp [forwardedBy, h]

theorem handled_perm (handled : List (PacketJob × PacketAction)) :
    (handled.map Prod.fst).Perm (droppedBy handled ++ forwardedBy handled) := by
  rw [droppedBy, forwardedBy, ← List.map_append]
  exact (List.filter_append_perm (fun d => d.2 == .drop) handled).symm.map _

/-- The counters of packets count what they are meant to count. -/
structure Counted (e : Engine) : Prop where
  total : e.stats.totalPackets = UInt64.ofNat e.accepted.length
  dropped : e.stats.droppedPackets = UInt64.ofNat (droppedBy e.handled).length
  forwarded : e.stats.forwardedPackets = UInt64.ofNat (forwardedBy e.handled).length

theorem counted_start (input : List PacketJob) : Counted (start input) := ⟨rfl, rfl, rfl⟩

theorem Move.counted (h : Move cfg rm e l e') (hI : Counted e) : Counted e' := by
  cases h with
  | read job rest h =>
    refine ⟨?_, ?_, ?_⟩
    · simp only [DPIStats.read, List.length_append, List.length_singleton, UInt64.ofNat_add]
      split_ifs <;> exact congrArg (· + 1) hI.total
    · simp only [DPIStats.read]
      split_ifs <;> exact hI.dropped
    · simp only [DPIStats.read]
      split_ifs <;> exact hI.forwarded
  | fpOutput j env job action hj h =>
    by_cases hact : action = .drop
    · refine ⟨?_, ?_, ?_⟩ <;>
        simp only [setFP, DPIStats.output, droppedBy_concat, forwardedBy_concat, if_pos hact,
          List.length_append, List.length_singleton, UInt64.ofNat_add]
      · exact hI.total
      · exact congrArg (· + 1) hI.dropped
      · exact hI.forwarded
    · refine ⟨?_, ?_, ?_⟩ <;>
        simp only [setFP, DPIStats.output, droppedBy_concat, forwardedBy_concat, if_neg hact,
          List.length_append, List.length_singleton, UInt64.ofNat_add]
      · exact hI.total
      · exact hI.dropped
      · exact congrArg (· + 1) hI.forwarded
  | main e' h =>
    have hs := sameWork_main h
    exact ⟨by rw [hs.stats, hs.accepted, hI.total], by rw [hs.stats, hs.handled, hI.dropped],
      by rw [hs.stats, hs.handled, hI.forwarded]⟩
  | _ => exact ⟨hI.total, hI.dropped, hI.forwarded⟩

/-! ## Nothing is lost -/

/-- When the main thread has returned and no thread left anything behind, no packet is under
way. -/
theorem Sound.delivered {input : List PacketJob} (h : Sound cfg input e) (hd : Drained cfg e)
    (hl : 0 < cfg.numLoadBalancers) (hf : 0 < cfg.fpsPerLb) (hret : e.main = .returned) :
    e.accepted = input ∧ input.Perm (e.handled.map Prod.fst) ∧
      (forwardedBy e.handled).Perm e.written := by
  have hdone : e.reader = .done := h.control.readerDone.resolve_left (by rw [hret]; exact nofun)
  have hlb : ∀ i < cfg.numLoadBalancers, e.network.first i = [] := by
    intro i hi
    have hexited := h.control.lbExited i (by rw [hret]; exact hi)
    simp [network, hexited, LBThread.held, (hd.lb i hi hexited).2]
  have hfp : ∀ j < cfg.totalFps, e.network.second j = [] ∧ e.network.outbox j = [] := by
    intro j hj
    have hexited := h.control.fpExited j (by rw [hret]; exact hj)
    simp [network, hexited, FPThread.held, FPThread.outbox, (hd.fp j hj hexited).2]
  have hout : e.output = .exited := h.control.outputExited (by rw [hret]; rfl)
  have hworker (job : PacketJob) : cfg.shape.worker job < cfg.totalFps :=
    worker_lt hl hf job.tuple
  -- the buffers of workers that do not exist hold nothing either, since nothing is routed there
  have hnone {w : ℕ} {l : List PacketJob} (hw : ¬ w < cfg.totalFps)
      (hl : ∀ job ∈ l, cfg.shape.worker job = w) : l = [] :=
    List.eq_nil_iff_forall_not_mem.2 fun job hjob => hw (hl job hjob ▸ hworker job)
  have haccepted : e.accepted = input := by
    have := h.accepted
    rwa [hdone, ReaderThread.rest, List.append_nil] at this
  have hdelivered := h.ordered.delivered cfg.shape
    (by simp [network, hdone, ReaderThread.held])
    (fun w => ?_) (fun w => ?_)
    (by simp [network, hout, OutputThread.held, hd.output hout])
    (fun w => ?_)
  · refine ⟨haccepted, ?_, hdelivered.2⟩
    rw [← haccepted]
    exact hdelivered.1
  · by_cases hw : w < cfg.totalFps
    · rw [hlb (cfg.shape.dispatcher w) (Nat.div_lt_of_lt_mul (by rwa [Nat.mul_comm]))]
      rfl
    · exact hnone hw fun job hjob => by simpa using (List.mem_filter.1 hjob).2
  · by_cases hw : w < cfg.totalFps
    · exact (hfp w hw).1
    · exact hnone hw (h.ordered.second_routed w)
  · by_cases hw : w < cfg.totalFps
    · exact (hfp w hw).2
    · exact hnone hw (h.ordered.outbox_routed w)

end Engine

open Engine

/-- In every run in which no load balancer and no fast path leaves its loop with packets in its
queue and no fast path hands on a packet after the output thread has ended, `processFile` returns
with every accepted packet dropped or written once. -/
theorem nothing_lost {cfg : Config} {rm : RuleManager} {input : List PacketJob}
    {ts : List (Taken Engine Label)} {e : Engine} (hl : 0 < cfg.numLoadBalancers)
    (hf : 0 < cfg.fpsPerLb) (hrun : Run (Step cfg rm) (start input) ts e)
    (hdrained : ∀ t ∈ ts, t.pre.drained t.label = true) (hret : e.main = .returned) :
    e.accepted = input ∧ input.Perm (droppedBy e.handled ++ e.written) ∧
      e.written.Perm (forwardedBy e.handled) ∧
      e.stats.totalPackets = e.stats.droppedPackets + e.stats.forwardedPackets := by
  have ⟨hsound, hd, hcounted⟩ := (hrun.invariant
    (fun e => Sound cfg input e ∧ Drained cfg e ∧ Counted e) (fun t => t.pre.drained t.label = true)
    (fun s l s' hs hok h => ⟨h.1.step hf hs, hs.move.drained h.1.control hok h.2.1,
      hs.move.counted h.2.2⟩) hdrained
    ⟨sound_start cfg _, drained_start cfg _, counted_start _⟩).1
  obtain ⟨haccepted, hhandled, hwritten⟩ := hsound.delivered hd hl hf hret
  have hsplit := hhandled.trans (handled_perm e.handled)
  refine ⟨haccepted, hsplit.trans (hwritten.append_left _), hwritten.symm, ?_⟩
  rw [hcounted.total, hcounted.dropped, hcounted.forwarded, haccepted, hsplit.length_eq,
    List.length_append, UInt64.ofNat_add]

/-- One packet goes through all threads before the main thread stops them. -/
def patientStop : List Label :=
  [.reader, .reader, .reader, .lb 0, .lb 0, .lb 0, .fp 0 ⟨0, 0, []⟩, .fp 0 ⟨0, 0, []⟩,
    .fp 0 ⟨0, 0, []⟩, .fp 0 ⟨0, 0, []⟩, .fp 0 ⟨0, 0, []⟩, .fp 0 ⟨0, 0, []⟩, .output, .output,
    .output, .main, .main, .main, .main, .lb 0, .main, .main, .main, .main, .fp 0 ⟨0, 0, []⟩,
    .main, .main, .main, .main, .output, .output, .main, .main]

/-- A load balancer is told to stop while it tests its loop condition. -/
def joinLB (i : ℕ) : List Label := [.main, .main, .lb i, .main]

def joinFP (j : ℕ) : List Label := [.main, .main, .fp j ⟨2, 2, []⟩, .main]

/-- `processFile` from the end of the reader on. -/
def stopAll (cfg : Config) : List Label :=
  List.flatten [[.main, .main, .main], (List.range cfg.numLoadBalancers).flatMap joinLB, [.main],
    (List.range cfg.totalFps).flatMap joinFP, [.main, .main, .output, .output, .main, .main]]

/-- Nothing is left in the queues when the threads are told to stop, and no entry is removed. -/
theorem exists_run_visits :
    ∃ ts e, Run (Step twoByTwo badHostBlocked) (start visits) ts e ∧ e.main = .returned ∧
      (∀ t ∈ ts, t.pre.drained t.label = true) ∧ (∀ t ∈ ts, KeepsEntries twoByTwo t) ∧
      e.handled = [(otherRequest "bad.com", .drop), (otherRequest "ok.com", .drop),
        (request "ok.com", .forward), (answer, .forward)] ∧
      e.written = [request "ok.com", answer] := by
  have h : ((exec twoByTwo badHostBlocked (start visits)
      (distribute ++ serve ++ List.replicate 6 .output ++ stopAll twoByTwo)).map fun r =>
      decide (r.2.main = .returned ∧ (∀ t ∈ r.1, t.pre.drained t.label = true) ∧
        (∀ t ∈ r.1, KeepsEntries twoByTwo t) ∧
        r.2.handled = [(otherRequest "bad.com", .drop), (otherRequest "ok.com", .drop),
          (request "ok.com", .forward), (answer, .forward)] ∧
        r.2.written = [request "ok.com", answer])) = some true := by decide +kernel
  obtain ⟨⟨ts, e⟩, hexec, h⟩ := Option.map_eq_some_iff.1 h
  exact ⟨ts, e, run_of_exec hexec, of_decide_eq_true h⟩

theorem nothing_lost_visits :
    ∃ ts e, Run (Step twoByTwo badHostBlocked) (start visits) ts e ∧ e.main = .returned ∧
      e.written = [request "ok.com", answer] ∧
      visits.Perm (droppedBy e.handled ++ e.written) ∧
      e.stats.totalPackets = e.stats.droppedPackets + e.stats.forwardedPackets := by
  obtain ⟨ts, e, hrun, hret, hdrained, -, -, hwritten⟩ := exists_run_visits
  have hlost := nothing_lost (by decide) (by decide) hrun hdrained hret
  exact ⟨ts, e, hrun, hret, hwritten, hlost.2.1, hlost.2.2.2⟩

/-- One packet is read and pushed, the main thread waits as long as it does, and the load balancer
finds its flag cleared before it has taken the packet. -/
def earlyStop : List Label :=
  [.reader, .reader, .reader, .main, .main, .main, .main, .lb 0, .main, .main, .main, .main,
    .fp 0 ⟨0, 0, []⟩, .main, .main, .main, .main, .output, .output, .main, .main]

theorem packet_lost_on_earlyStop :
    ∃ ts e, Run (Step oneWorker {}) (start [opening]) ts e ∧ e.main = .returned ∧
      e.accepted = [opening] ∧ e.handled = [] ∧ e.written = [] ∧
      e.stats.totalPackets = 1 ∧ e.stats.droppedPackets = 0 ∧ e.stats.forwardedPackets = 0 := by
  have h : ((exec oneWorker {} (start [opening]) earlyStop).map fun r =>
      decide (r.2.main = .returned ∧ r.2.accepted = [opening] ∧ r.2.handled = [] ∧
        r.2.written = [] ∧ r.2.stats.totalPackets = 1 ∧ r.2.stats.droppedPackets = 0 ∧
        r.2.stats.forwardedPackets = 0)) = some true := by decide +kernel
  obtain ⟨⟨ts, e⟩, hexec, h⟩ := Option.map_eq_some_iff.1 h
  exact ⟨ts, e, run_of_exec hexec, of_decide_eq_true h⟩

end DPI
