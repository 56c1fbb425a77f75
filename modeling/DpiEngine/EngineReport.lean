import DpiEngine.GlobalReport
import DpiEngine.Routing
import DpiEngine.Shutdown
import DpiEngine.TableMoves

/-!
# The report of the engine

The figures that `processFile` prints at its end come from the counters of every thread.  The reader
counts what it hands on, each load balancer what it takes and gives, each fast path what it decides,
and `handleOutput` what it is told; none of them sees the others' counters.
-/

namespace DPI

open Bytes ConnectionTracker FastPathProcessor

/-! ## Figures -/

/-- `LoadBalancer::LBStats`. -/
structure LBStats where
  packetsReceived : UInt64
  packetsDispatched : UInt64
  perFpPackets : List UInt64

/-- `FastPathProcessor::FPStats`. -/
structure FPStats where
  packetsProcessed : UInt64
  packetsForwarded : UInt64
  packetsDropped : UInt64
  connectionsTracked : UInt64
  sniExtractions : UInt64
  classificationHits : UInt64

def FastPathProcessor.getStats (fp : FastPathProcessor) : FPStats where
  packetsProcessed := fp.packetsProcessed
  packetsForwarded := fp.packetsForwarded
  packetsDropped := fp.packetsDropped
  connectionsTracked := UInt64.ofNat (Table.size fp.connTracker.connections)
  sniExtractions := fp.sniExtractions
  classificationHits := fp.classificationHits

/-- `LBManager::AggregatedStats`. -/
structure LBManager.AggregatedStats where
  totalReceived : UInt64 := 0
  totalDispatched : UInt64 := 0

def LBManager.getAggregatedStats (lbs : List LBStats) : AggregatedStats :=
  lbs.foldl (fun stats lb =>
    { totalReceived := stats.totalReceived + lb.packetsReceived
      totalDispatched := stats.totalDispatched + lb.packetsDispatched }) {}

/-- `FPManager::AggregatedStats`. -/
structure FPManager.AggregatedStats where
  totalProcessed : UInt64 := 0
  totalForwarded : UInt64 := 0
  totalDropped : UInt64 := 0
  totalConnections : UInt64 := 0

def FPManager.getAggregatedStats (fps : List FPStats) : AggregatedStats :=
  fps.foldl (fun stats fp =>
    { totalProcessed := stats.totalProcessed + fp.packetsProcessed
      totalForwarded := stats.totalForwarded + fp.packetsForwarded
      totalDropped := stats.totalDropped + fp.packetsDropped
      totalConnections := stats.totalConnections + fp.connectionsTracked }) {}

theorem LBManager.getAggregatedStats_eq (lbs : List LBStats) :
    getAggregatedStats lbs =
      { totalReceived := (lbs.map LBStats.packetsReceived).sum
        totalDispatched := (lbs.map LBStats.packetsDispatched).sum } := by
  have hfold (stats : AggregatedStats) : lbs.foldl (fun stats lb =>
      { totalReceived := stats.totalReceived + lb.packetsReceived
        totalDispatched := stats.totalDispatched + lb.packetsDispatched }) stats =
      { totalReceived := stats.totalReceived + (lbs.map LBStats.packetsReceived).sum
        totalDispatched := stats.totalDispatched + (lbs.map LBStats.packetsDispatched).sum } := by
    induction lbs generalizing stats with
    | nil => simp
    | cons lb lbs ih =>
      rw [List.foldl_cons, ih]
      simp only [List.map_cons, List.sum_cons, UInt64.add_assoc]
  rw [getAggregatedStats, hfold]
  simp

theorem FPManager.getAggregatedStats_eq (fps : List FPStats) :
    getAggregatedStats fps =
      { totalProcessed := (fps.map FPStats.packetsProcessed).sum
        totalForwarded := (fps.map FPStats.packetsForwarded).sum
        totalDropped := (fps.map FPStats.packetsDropped).sum
        totalConnections := (fps.map FPStats.connectionsTracked).sum } := by
  have hfold (stats : AggregatedStats) : fps.foldl (fun stats fp =>
      { totalProcessed := stats.totalProcessed + fp.packetsProcessed
        totalForwarded := stats.totalForwarded + fp.packetsForwarded
        totalDropped := stats.totalDropped + fp.packetsDropped
        totalConnections := stats.totalConnections + fp.connectionsTracked }) stats =
      { totalProcessed := stats.totalProcessed + (fps.map FPStats.packetsProcessed).sum
        totalForwarded := stats.totalForwarded + (fps.map FPStats.packetsForwarded).sum
        totalDropped := stats.totalDropped + (fps.map FPStats.packetsDropped).sum
        totalConnections :=
          stats.totalConnections + (fps.map FPStats.connectionsTracked).sum } := by
    induction fps generalizing stats with
    | nil => simp
    | cons fp fps ih =>
      rw [List.foldl_cons, ih]
      simp only [List.map_cons, List.sum_cons, UInt64.add_assoc]
  rw [getAggregatedStats, hfold]
  simp

/-- The action that a fast path has told `handleOutput` and not yet counted. -/
def FPThread.uncounted : FPThread → List PacketAction
  | .push _ action => [action]
  | .count action => [action]
  | _ => []

namespace Engine

variable {cfg : Config} {rm : RuleManager} {e e' : Engine} {l : Label}
  {ts : List (Taken Engine Label)}

/-- The packet that a step takes out of the queue of load balancer `i`. -/
def receivedBy (i : ℕ) (t : Taken Engine Label) : List PacketJob :=
  match t.label with
  | .lb k => if k = i then (t.post.lbs i).thread.held else []
  | _ => []

/-- The packet that a step of load balancer `i` hands on. -/
def dispatchedBy (i : ℕ) (t : Taken Engine Label) : List PacketJob :=
  match t.label with
  | .lb k => if k = i then (t.pre.lbs i).thread.held else []
  | _ => []

/-- `LoadBalancer::getStats`: the counters of `LoadBalancer::run`, which move with its steps. -/
def lbStats (cfg : Config) (ts : List (Taken Engine Label)) (i : ℕ) : LBStats where
  packetsReceived := UInt64.ofNat (ts.flatMap (receivedBy i)).length
  packetsDispatched := UInt64.ofNat (ts.flatMap (dispatchedBy i)).length
  perFpPackets := (List.range cfg.fpsPerLb).map fun k =>
    UInt64.ofNat ((ts.flatMap (dispatchedBy i)).countP fun job =>
      selectFP cfg.fpsPerLb job.tuple == k)

/-- The figures of `DPIEngine::generateReport`. -/
structure Report where
  stats : DPIStats
  lbs : LBManager.AggregatedStats
  fps : FPManager.AggregatedStats

def generateReport (cfg : Config) (ts : List (Taken Engine Label)) (e : Engine) : Report where
  stats := e.stats
  lbs := LBManager.getAggregatedStats ((List.range cfg.numLoadBalancers).map (lbStats cfg ts))
  fps := FPManager.getAggregatedStats
    ((List.range cfg.totalFps).map fun j => (e.fps j).processor.getStats)

theorem generateReport_lbs : (generateReport cfg ts e).lbs =
    { totalReceived :=
        ((List.range cfg.numLoadBalancers).map fun i => (lbStats cfg ts i).packetsReceived).sum
      totalDispatched :=
        ((List.range cfg.numLoadBalancers).map fun i =>
          (lbStats cfg ts i).packetsDispatched).sum } := by
  rw [generateReport, LBManager.getAggregatedStats_eq, List.map_map, List.map_map]
  rfl

theorem generateReport_fps : (generateReport cfg ts e).fps =
    { totalProcessed :=
        ((List.range cfg.totalFps).map fun j => (e.fps j).processor.packetsProcessed).sum
      totalForwarded :=
        ((List.range cfg.totalFps).map fun j => (e.fps j).processor.packetsForwarded).sum
      totalDropped :=
        ((List.range cfg.totalFps).map fun j => (e.fps j).processor.packetsDropped).sum
      totalConnections := ((List.range cfg.totalFps).map fun j =>
        UInt64.ofNat (Table.size (e.fps j).processor.connTracker.connections)).sum } := by
  rw [generateReport, FPManager.getAggregatedStats_eq, List.map_map, List.map_map, List.map_map,
    List.map_map]
  rfl

/-! ## The load balancers -/

def toLB (cfg : Config) (i : ℕ) (jobs : List PacketJob) : List PacketJob :=
  jobs.filter fun job => getLBForPacket cfg.numLoadBalancers job.tuple == i

/-- What was accepted for a load balancer is what it has received, what waits in its queue and what
the reader is about to push, and what it has received it has dispatched or holds. -/
structure Relayed (cfg : Config) (ts : List (Taken Engine Label)) (e : Engine) : Prop where
  received : ∀ i, toLB cfg i e.accepted =
    ts.flatMap (receivedBy i) ++ (e.lbs i).inputQueue.queue ++ toLB cfg i e.reader.held
  dispatched : ∀ i, ts.flatMap (receivedBy i) =
    ts.flatMap (dispatchedBy i) ++ (e.lbs i).thread.held

theorem relayed_start (cfg : Config) (input : List PacketJob) : Relayed cfg [] (start input) where
  received := fun _ => rfl
  dispatched := fun _ => rfl

theorem flatMap_concat {α β : Type*} (f : α → List β) (l : List α) (a : α) :
    (l ++ [a]).flatMap f = l.flatMap f ++ f a := by
  rw [List.flatMap_append, List.flatMap_singleton]

/-- A step that no load balancer takes. -/
theorem Relayed.of_none (h : Relayed cfg ts e) (hl : ∀ i, l ≠ .lb i)
    (hreceived : ∀ i, toLB cfg i e'.accepted = ts.flatMap (receivedBy i) ++
      (e'.lbs i).inputQueue.queue ++ toLB cfg i e'.reader.held)
    (hthread : ∀ i, (e'.lbs i).thread.held = (e.lbs i).thread.held) :
    Relayed cfg (ts ++ [⟨e, l, e'⟩]) e' := by
  have hnone (i : ℕ) : receivedBy i ⟨e, l, e'⟩ = [] ∧ dispatchedBy i ⟨e, l, e'⟩ = [] := by
    cases l with
    | lb k => exact absurd rfl (hl k)
    | _ => exact ⟨rfl, rfl⟩
  refine ⟨fun i => ?_, fun i => ?_⟩
  · rw [flatMap_concat, (hnone i).1, List.append_nil]
    exact hreceived i
  · rw [flatMap_concat, flatMap_concat, (hnone i).1, (hnone i).2, List.append_nil,
      List.append_nil, hthread]
    exact h.dispatched i

/-- A step that load balancer `k` takes: what it takes out of its queue it holds. -/
theorem Relayed.setLB (h : Relayed cfg ts e) {k : ℕ} {lb : LoadBalancer}
    (haccepted : e'.accepted = e.accepted) (hreader : e'.reader = e.reader)
    (hlbs : ∀ i, e'.lbs i = if i = k then lb else e.lbs i)
    (hqueue : (e.lbs k).inputQueue.queue = lb.thread.held ++ lb.inputQueue.queue) :
    Relayed cfg (ts ++ [⟨e, .lb k, e'⟩]) e' := by
  refine ⟨fun i => ?_, fun i => ?_⟩
  · rw [flatMap_concat, haccepted, hreader, h.received i]
    dsimp only [receivedBy]
    rw [hlbs]
    by_cases hik : i = k
    · subst hik
      rw [if_pos rfl, if_pos rfl, hqueue, List.append_assoc _ lb.thread.held]
    · rw [if_neg hik, if_neg (Ne.symm hik), List.append_nil]
  · rw [flatMap_concat, flatMap_concat, h.dispatched i]
    dsimp only [receivedBy, dispatchedBy]
    rw [hlbs]
    by_cases hik : i = k
    · subst hik
      rw [if_pos rfl, if_pos rfl, if_pos rfl]
    · rw [if_neg hik, if_neg (Ne.symm hik), List.append_nil, List.append_nil]

open ThreadSafeQueue in
theorem Relayed.step (h : Relayed cfg ts e) (hc : Control cfg e) (hs : Step cfg rm e l e') :
    Relayed cfg (ts ++ [⟨e, l, e'⟩]) e' := by
  cases hs.move with
  | readEnd hr =>
    refine h.of_none nofun (fun i => ?_) fun _ => rfl
    have hold := h.received i
    rwa [hr] at hold
  | read job rest hr =>
    refine h.of_none nofun (fun i => ?_) fun _ => rfl
    have hold := h.received i
    rw [hr] at hold
    change toLB cfg i (e.accepted ++ [job]) = _ ++ toLB cfg i [job]
    rw [toLB, List.filter_append]
    exact congrArg (· ++ _) (hold.trans (List.append_nil _))
  | readPush job rest k queue hr hk hq =>
    have hqueue := (push_eq_some hq).2 (hc.lbOpen (by rw [hr]; exact nofun) k)
    refine h.of_none nofun (fun i => ?_) fun i => ?_
    · have hold := h.received i
      rw [hr] at hold
      change toLB cfg i e.accepted =
        _ ++ ((e.setLB k { e.lbs k with inputQueue := queue }).lbs i).inputQueue.queue ++ []
      rw [hold, setLB_lbs, List.append_nil]
      change _ ++ toLB cfg i [job] = _
      by_cases hik : i = k
      · have hone : toLB cfg i [job] = [job] :=
          List.filter_cons_of_pos (beq_iff_eq.2 (hk.symm.trans hik.symm))
        rw [hone, if_pos hik, hqueue, hik, List.append_assoc]
      · have hnone : toLB cfg i [job] = [] :=
          List.filter_cons_of_neg fun heq => hik ((eq_of_beq heq).symm.trans hk.symm)
        rw [hnone, if_neg hik, List.append_nil]
    · change ((e.setLB k { e.lbs k with inputQueue := queue }).lbs i).thread.held = _
      rw [setLB_lbs]
      split_ifs with hik
      · rw [hik]
      · rfl
  | lbTest k hk ht =>
    refine h.setLB rfl rfl (setLB_lbs e k · _) ?_
    cases (e.lbs k).running <;> rfl
  | lbIdle k hk ht => exact h.setLB rfl rfl (setLB_lbs e k · _) rfl
  | lbPop k job queue hk ht hq =>
    exact h.setLB rfl rfl (setLB_lbs e k · _) (popWithTimeout_eq_some hq).2
  | lbDispatch k j job queue hk ht hj hq =>
    exact h.setLB rfl rfl (setLB_lbs (e.setFP j { e.fps j with inputQueue := queue }) k · _) rfl
  | main e' hm =>
    have hsame := sameWork_main hm
    refine h.of_none nofun (fun i => ?_) fun i => by rw [hsame.lbThread]
    rw [hsame.accepted, hsame.lbQueue, hsame.reader]
    exact h.received i
  | _ => exact h.of_none nofun h.received fun _ => rfl

/-! ## The fast paths -/

/-- The actions that a worker has told `handleOutput`. -/
def toldBy (cfg : Config) (e : Engine) (w : ℕ) : List PacketAction :=
  (e.handled.filter fun d => cfg.shape.worker d.1 == w).map Prod.snd

/-- The counters of a fast path. -/
structure FPCounts (cfg : Config) (e : Engine) (j : ℕ) : Prop where
  processed : (e.fps j).processor.packetsProcessed = UInt64.ofNat (e.decided cfg j).length
  forwarded : (e.fps j).processor.packetsForwarded +
    UInt64.ofNat ((e.fps j).thread.uncounted.countP (· != .drop)) =
      UInt64.ofNat ((e.toldBy cfg j).countP (· != .drop))
  dropped : (e.fps j).processor.packetsDropped +
    UInt64.ofNat ((e.fps j).thread.uncounted.countP (· == .drop)) =
      UInt64.ofNat ((e.toldBy cfg j).countP (· == .drop))

theorem fpCounts_start (cfg : Config) (input : List PacketJob) (j : ℕ) :
    FPCounts cfg (start input) j := ⟨rfl, rfl, rfl⟩

/-- The counters of fast path `j` when its thread moves and `handleOutput` is not told anything. -/
theorem FPCounts.setFP (h : ∀ k, FPCounts cfg e k) {j : ℕ} {fp : FastPath}
    (hprocessed : fp.processor.packetsProcessed +
      UInt64.ofNat (e.fps j).thread.decided.length =
        (e.fps j).processor.packetsProcessed + UInt64.ofNat fp.thread.decided.length)
    (hforwarded : fp.processor.packetsForwarded +
      UInt64.ofNat (fp.thread.uncounted.countP (· != .drop)) =
        (e.fps j).processor.packetsForwarded +
          UInt64.ofNat ((e.fps j).thread.uncounted.countP (· != .drop)))
    (hdropped : fp.processor.packetsDropped +
      UInt64.ofNat (fp.thread.uncounted.countP (· == .drop)) =
        (e.fps j).processor.packetsDropped +
          UInt64.ofNat ((e.fps j).thread.uncounted.countP (· == .drop))) :
    ∀ k, FPCounts cfg (e.setFP j fp) k := by
  intro k
  by_cases hk : k = j
  · subst hk
    have hfp : (e.setFP k fp).fps k = fp := by rw [setFP_fps, if_pos rfl]
    refine ⟨?_, ?_, ?_⟩
    · have hold := (h k).processed
      rw [decided, List.length_append, UInt64.ofNat_add] at hold ⊢
      rw [hold, add_right_comm] at hprocessed
      rw [hfp]
      exact add_right_cancel hprocessed
    · rw [hfp]
      exact hforwarded.trans (h k).forwarded
    · rw [hfp]
      exact hdropped.trans (h k).dropped
  · have hfp : (e.setFP j fp).fps k = e.fps k := by rw [setFP_fps, if_neg hk]
    refine ⟨?_, ?_, ?_⟩
    · rw [decided, hfp]
      exact (h k).processed
    · rw [hfp]
      exact (h k).forwarded
    · rw [hfp]
      exact (h k).dropped

/-- What a fast path tells `handleOutput`. -/
theorem FPCounts.told (h : ∀ k, FPCounts cfg e k) {j : ℕ} {job : PacketJob} {action : PacketAction}
    (ht : (e.fps j).thread = .output job action) (hroute : cfg.shape.worker job = j)
    (stats : DPIStats) {thread : FPThread} (hdecided : thread.decided = [])
    (huncounted : thread.uncounted = [action]) (k : ℕ) :
    FPCounts cfg
      (({ e with stats := stats, handled := e.handled ++ [(job, action)] } : Engine).setFP j
        { e.fps j with thread := thread }) k := by
  have hone := filter_worker_singleton cfg job action k
  rw [hroute] at hone
  by_cases hk : k = j
  · subst hk
    rw [if_pos rfl] at hone
    have htold (p : PacketAction → Bool) : (toldBy cfg (({ e with
        stats := stats, handled := e.handled ++ [(job, action)] } : Engine).setFP
          k { e.fps k with thread := thread }) k).countP p =
        (e.toldBy cfg k).countP p + thread.uncounted.countP p := by
      rw [huncounted]
      change (((e.handled ++ [(job, action)]).filter _).map Prod.snd).countP p = _
      rw [List.filter_append, hone, List.map_append, List.countP_append]
      rfl
    refine ⟨?_, ?_, ?_⟩
    · rw [decided, setFP_fps, if_pos rfl, hdecided, List.append_nil]
      change (e.fps k).processor.packetsProcessed =
        UInt64.ofNat ((e.handled ++ [(job, action)]).filter _).length
      rw [List.filter_append, hone, (h k).processed, decided, ht]
      rfl
    · rw [setFP_fps, if_pos rfl, htold, UInt64.ofNat_add, ← (h k).forwarded, ht]
      exact congrArg (· + _) (UInt64.add_zero _).symm
    · rw [setFP_fps, if_pos rfl, htold, UInt64.ofNat_add, ← (h k).dropped, ht]
      exact congrArg (· + _) (UInt64.add_zero _).symm
  · rw [if_neg hk] at hone
    have hhandled : (e.handled ++ [(job, action)]).filter (fun d => cfg.shape.worker d.1 == k) =
        e.handled.filter fun d => cfg.shape.worker d.1 == k := by
      rw [List.filter_append, hone, List.append_nil]
    refine ⟨?_, ?_, ?_⟩
    · rw [decided, setFP_fps, if_neg hk]
      change _ = UInt64.ofNat ((e.handled ++ [(job, action)]).filter _ ++ _).length
      rw [hhandled]
      exact (h k).processed
    · rw [setFP_fps, if_neg hk, toldBy]
      change _ = UInt64.ofNat ((((e.handled ++ [(job, action)]).filter _).map Prod.snd).countP _)
      rw [hhandled]
      exact (h k).forwarded
    · rw [setFP_fps, if_neg hk, toldBy]
      change _ = UInt64.ofNat ((((e.handled ++ [(job, action)]).filter _).map Prod.snd).countP _)
      rw [hhandled]
      exact (h k).dropped

/-- A fast path at the end of its loop counts the packet by its action. -/
theorem step_count {j : ℕ} {env : Env} {action : PacketAction} (hs : Step cfg rm e (.fp j env) e')
    (ht : (e.fps j).thread = .count action) :
    e' = e.setFP j { e.fps j with
      processor := if action = .drop then
          { (e.fps j).processor with
            packetsDropped := (e.fps j).processor.packetsDropped + 1 }
        else
          { (e.fps j).processor with
            packetsForwarded := (e.fps j).processor.packetsForwarded + 1 }
      thread := .test } := by
  rw [Step, step] at hs
  split_ifs at hs
  rw [stepFP, ht] at hs
  exact (Option.some.inj hs).symm

theorem FPCounts.step (h : ∀ k, FPCounts cfg e k) (hord : Network.Ordered cfg.shape e.network)
    (hs : Step cfg rm e l e') : ∀ k, FPCounts cfg e' k := by
  cases hs.move with
  | fpTest j env hj ht =>
    apply FPCounts.setFP h <;> rw [ht] <;> cases (e.fps j).running <;> rfl
  | fpIdle j env hj ht => apply FPCounts.setFP h <;> rw [ht] <;> rfl
  | fpPop j env job queue hj ht hq => apply FPCounts.setFP h <;> rw [ht] <;> rfl
  | fpProcess j env job action processor hj ht hp =>
    have heff := processPacket_ok hp
    apply FPCounts.setFP h
    · rw [ht, heff.packetsProcessed]
      exact UInt64.add_zero _
    · rw [ht, heff.packetsForwarded]
      rfl
    · rw [ht, heff.packetsDropped]
      rfl
  | fpOutput j env job action hj ht =>
    have hroute : cfg.shape.worker job = j :=
      hord.second_routed j job (by simp [Engine.network, ht, FPThread.held])
    apply FPCounts.told h ht hroute
    · split_ifs <;> rfl
    · split_ifs <;> rfl
  | fpPush j env job action queue hj ht hq =>
    have hset : ∀ k, FPCounts cfg (e.setFP j { e.fps j with thread := .count action }) k := by
      apply FPCounts.setFP h <;> rw [ht] <;> rfl
    exact fun k => ⟨(hset k).processed, (hset k).forwarded, (hset k).dropped⟩
  | fpCount j env action processor hj ht hp =>
    rw [step_count hs ht]
    apply FPCounts.setFP h <;> rw [ht] <;> split_ifs with hact
    · rfl
    · rfl
    · simp [FPThread.uncounted, hact]
    · simp [FPThread.uncounted, hact]
    · simp [FPThread.uncounted, hact]
    · simp [FPThread.uncounted, hact]
  | lbDispatch i j job queue hi ht hj hq =>
    have hset : ∀ k, FPCounts cfg (e.setFP j { e.fps j with inputQueue := queue }) k :=
      FPCounts.setFP h rfl rfl rfl
    exact fun k => ⟨(hset k).processed, (hset k).forwarded, (hset k).dropped⟩
  | main e' hm =>
    have hsame := sameWork_main hm
    intro k
    refine ⟨?_, ?_, ?_⟩
    · rw [decided, hsame.handled, hsame.fpProcessor, hsame.fpThread]
      exact (h k).processed
    · rw [toldBy, hsame.handled, hsame.fpProcessor, hsame.fpThread]
      exact (h k).forwarded
    · rw [toldBy, hsame.handled, hsame.fpProcessor, hsame.fpThread]
      exact (h k).dropped
  | _ => exact fun k => ⟨(h k).processed, (h k).forwarded, (h k).dropped⟩

/-! ## The statistics -/

/-- The statistics are those of the packets accepted and of the calls of `handleOutput`. -/
structure Metered (e : Engine) : Prop extends Counted e where
  totalBytes : e.stats.totalBytes = UInt64.ofNat (Account.dataSize e.accepted)
  tcpPackets : e.stats.tcpPackets =
    UInt64.ofNat (e.accepted.countP fun job => job.tuple.protocol == 6)
  udpPackets : e.stats.udpPackets =
    UInt64.ofNat (e.accepted.countP fun job => job.tuple.protocol != 6)
  droppedBytes : e.stats.droppedBytes = UInt64.ofNat (Account.dataSize (droppedBy e.handled))
  forwardedBytes :
    e.stats.forwardedBytes = UInt64.ofNat (Account.dataSize (forwardedBy e.handled))

theorem metered_start (input : List PacketJob) : Metered (start input) where
  toCounted := counted_start input
  totalBytes := rfl
  tcpPackets := rfl
  udpPackets := rfl
  droppedBytes := rfl
  forwardedBytes := rfl

theorem Metered.step (h : Metered e) (hs : Step cfg rm e l e') : Metered e' := by
  have hcounted := hs.move.counted h.toCounted
  cases hs.move with
  | read job rest hr =>
    refine ⟨hcounted, ?_, ?_, ?_, ?_, ?_⟩ <;> dsimp only [DPIStats.read] <;> split_ifs with hproto
    · rw [Account.dataSize_concat, UInt64.ofNat_add, ← h.totalBytes]
    · rw [Account.dataSize_concat, UInt64.ofNat_add, ← h.totalBytes]
    · rw [List.countP_append, UInt64.ofNat_add, ← h.tcpPackets]
      simp [hproto]
    · rw [List.countP_append, UInt64.ofNat_add, ← h.tcpPackets]
      simp [hproto]
    · rw [List.countP_append, UInt64.ofNat_add, ← h.udpPackets]
      simp [hproto]
    · rw [List.countP_append, UInt64.ofNat_add, ← h.udpPackets]
      simp [hproto]
    · exact h.droppedBytes
    · exact h.droppedBytes
    · exact h.forwardedBytes
    · exact h.forwardedBytes
  | fpOutput j env job action hj ht =>
    refine ⟨hcounted, ?_, ?_, ?_, ?_, ?_⟩ <;>
      dsimp only [Engine.setFP, DPIStats.output] <;> split_ifs with hact
    · exact h.totalBytes
    · exact h.totalBytes
    · exact h.tcpPackets
    · exact h.tcpPackets
    · exact h.udpPackets
    · exact h.udpPackets
    · rw [droppedBy_concat, if_pos hact, Account.dataSize_concat, UInt64.ofNat_add,
        ← h.droppedBytes]
    · rw [droppedBy_concat, if_neg hact, h.droppedBytes]
    · rw [forwardedBy_concat, if_pos hact, h.forwardedBytes]
    · rw [forwardedBy_concat, if_neg hact, Account.dataSize_concat, UInt64.ofNat_add,
        ← h.forwardedBytes]
  | main e' hm =>
    have hsame := sameWork_main hm
    refine ⟨hcounted, ?_, ?_, ?_, ?_, ?_⟩
    · rw [hsame.stats, hsame.accepted, h.totalBytes]
    · rw [hsame.stats, hsame.accepted, h.tcpPackets]
    · rw [hsame.stats, hsame.accepted, h.udpPackets]
    · rw [hsame.stats, hsame.handled, h.droppedBytes]
    · rw [hsame.stats, hsame.handled, h.forwardedBytes]
  | _ => exact { h with toCounted := hcounted }

/-- What holds throughout a run, of its states and of the steps taken. -/
structure Reported (cfg : Config) (input : List PacketJob) (ts : List (Taken Engine Label))
    (e : Engine) : Prop where
  sound : Sound cfg input e
  relayed : Relayed cfg ts e
  counts : ∀ j, FPCounts cfg e j
  metered : Metered e

theorem reported_of_run {input : List PacketJob} (hf : 0 < cfg.fpsPerLb)
    (hrun : Run (Step cfg rm) (start input) ts e) : Reported cfg input ts e := by
  refine Run.history (Reported cfg input) (fun us e l e' hs h => ?_) hrun
    ⟨sound_start cfg input, relayed_start cfg input, fpCounts_start cfg input,
      metered_start input⟩
  exact
    { sound := h.sound.step hf hs
      relayed := h.relayed.step h.sound.control hs
      counts := FPCounts.step h.counts h.sound.ordered hs
      metered := h.metered.step hs }

/-! ## At the end -/

/-- The packets that the stop left in the queues of the load balancers. -/
def lbLeft (cfg : Config) (e : Engine) : List PacketJob :=
  (List.range cfg.numLoadBalancers).flatMap fun i => (e.lbs i).inputQueue.queue

/-- The packets that the stop left in the queues of the fast paths. -/
def fpLeft (cfg : Config) (e : Engine) : List PacketJob :=
  (List.range cfg.totalFps).flatMap fun j => (e.fps j).inputQueue.queue

theorem sum_range_ofNat (n : ℕ) (g : ℕ → ℕ) :
    ((List.range n).map fun i => UInt64.ofNat (g i)).sum =
      UInt64.ofNat (∑ i ∈ Finset.range n, g i) := by
  induction n with
  | zero => rfl
  | succ n ih =>
    rw [List.range_succ, List.map_append, List.sum_append, ih, Finset.sum_range_succ,
      UInt64.ofNat_add]
    simp

theorem length_flatMap_range {α : Type*} (n : ℕ) (f : ℕ → List α) :
    ((List.range n).flatMap f).length = ∑ i ∈ Finset.range n, (f i).length := by
  induction n with
  | zero => rfl
  | succ n ih => rw [List.range_succ, flatMap_concat, List.length_append, ih, Finset.sum_range_succ]

theorem dataSize_perm {jobs jobs' : List PacketJob} (h : jobs.Perm jobs') :
    Account.dataSize jobs = Account.dataSize jobs' := (h.map _).sum_eq

theorem dataSize_append (jobs jobs' : List PacketJob) :
    Account.dataSize (jobs ++ jobs') = Account.dataSize jobs + Account.dataSize jobs' := by
  simp [Account.dataSize]

/-- A figure of the fast paths that counts actions. -/
theorem sum_toldBy (hl : 0 < cfg.numLoadBalancers) (hf : 0 < cfg.fpsPerLb)
    (p : PacketAction → Bool) : ((List.range cfg.totalFps).map fun j =>
      UInt64.ofNat ((e.toldBy cfg j).countP p)).sum =
      UInt64.ofNat (e.handled.filter fun d => p d.2).length := by
  rw [sum_range_ofNat, ← Network.sum_length_filter (W := cfg.totalFps)
    (f := fun d : PacketJob × PacketAction => cfg.shape.worker d.1)
    (fun d => worker_lt hl hf d.1.tuple)]
  refine congrArg UInt64.ofNat (Finset.sum_congr rfl fun j _ => ?_)
  rw [toldBy, List.countP_map, List.countP_eq_length_filter, List.filter_filter, List.filter_filter]
  exact congrArg List.length (List.filter_congr fun d _ => Bool.and_comm ..)

/-- The threads are joined. -/
structure Joined (cfg : Config) (e : Engine) : Prop where
  reader : e.reader = .done
  lbs : ∀ i < cfg.numLoadBalancers, (e.lbs i).thread = .exited
  fps : ∀ j < cfg.totalFps, (e.fps j).thread = .exited
  output : e.output = .exited

theorem Control.allJoined (h : Control cfg e) (hret : e.main = .returned) : Joined cfg e where
  reader := h.readerDone.resolve_left (by rw [hret]; exact nofun)
  lbs := fun i hi => h.lbExited i (by rw [hret]; exact hi)
  fps := fun j hj => h.fpExited j (by rw [hret]; exact hj)
  output := h.outputExited (by rw [hret]; rfl)

namespace Joined

variable (hj : Joined cfg e)
include hj

theorem network_source : e.network.source = [] := by
  simp only [Engine.network, hj.reader, ReaderThread.held]

theorem network_first {i : ℕ} (hi : i < cfg.numLoadBalancers) :
    e.network.first i = (e.lbs i).inputQueue.queue := by
  simp only [Engine.network, hj.lbs i hi, LBThread.held, List.nil_append]

theorem network_second {w : ℕ} (hw : w < cfg.totalFps) :
    e.network.second w = (e.fps w).inputQueue.queue := by
  simp only [Engine.network, hj.fps w hw, FPThread.held, List.nil_append]

theorem decided_eq {w : ℕ} (hw : w < cfg.totalFps) :
    e.decided cfg w = e.handled.filter fun d => cfg.shape.worker d.1 == w := by
  rw [decided, hj.fps w hw, show FPThread.exited.decided = [] from rfl, List.append_nil]

end Joined

section Joined

variable {input : List PacketJob} (h : Reported cfg input ts e) (hj : Joined cfg e)
include h hj

theorem Reported.accepted_eq : e.accepted = input := by
  have hread := h.sound.accepted
  rwa [hj.reader, ReaderThread.rest, List.append_nil] at hread

/-- What was read has been handled or is left in a queue. -/
theorem Reported.input_perm (hl : 0 < cfg.numLoadBalancers) (hf : 0 < cfg.fpsPerLb) :
    input.Perm (e.handled.map Prod.fst ++ fpLeft cfg e ++ lbLeft cfg e) := by
  have hperm := h.sound.ordered.accepted_perm cfg.shape (W := cfg.totalFps)
    (D := cfg.numLoadBalancers) (fun job => worker_lt hl hf job.tuple)
    fun w hw => Nat.div_lt_of_lt_mul (by rwa [Nat.mul_comm])
  have hfps : (List.range cfg.totalFps).flatMap e.network.second = fpLeft cfg e :=
    List.flatMap_congr fun j hmem => hj.network_second (List.mem_range.1 hmem)
  have hlbs : (List.range cfg.numLoadBalancers).flatMap e.network.first = lbLeft cfg e :=
    List.flatMap_congr fun i hmem => hj.network_first (List.mem_range.1 hmem)
  rw [hfps, hlbs, hj.network_source, List.append_nil] at hperm
  rw [← h.accepted_eq hj]
  exact hperm

/-- What is forwarded is written or left in the output queue. -/
theorem Reported.forwarded_perm (hl : 0 < cfg.numLoadBalancers) (hf : 0 < cfg.fpsPerLb) :
    (forwardedBy e.handled).Perm (e.written ++ e.outputQueue.queue) := by
  have hperm := h.sound.ordered.passed_perm cfg.shape (W := cfg.totalFps)
    fun job => worker_lt hl hf job.tuple
  have houtbox : (List.range cfg.totalFps).flatMap e.network.outbox = [] := by
    refine List.flatMap_eq_nil_iff.2 fun j hmem => ?_
    simp only [Engine.network, hj.fps j (List.mem_range.1 hmem), FPThread.outbox]
  have hsink : e.network.sink = e.outputQueue.queue := by
    simp only [Engine.network, hj.output, OutputThread.held, List.nil_append]
  rwa [houtbox, hsink, List.append_nil] at hperm

/-- Every packet has been dropped or written, or is left in a queue. -/
theorem Reported.packets_perm (hl : 0 < cfg.numLoadBalancers) (hf : 0 < cfg.fpsPerLb) :
    input.Perm (droppedBy e.handled ++
      (e.written ++ e.outputQueue.queue ++ fpLeft cfg e ++ lbLeft cfg e)) := by
  have hhandled := (handled_perm e.handled).trans ((h.forwarded_perm hj hl hf).append_left _)
  have hinput := (h.input_perm hj hl hf).trans ((hhandled.append_right _).append_right _)
  simpa only [List.append_assoc] using hinput

/-- What the load balancers have received together. -/
theorem Reported.totalReceived (hl : 0 < cfg.numLoadBalancers) :
    (generateReport cfg ts e).lbs.totalReceived =
      UInt64.ofNat (∑ i ∈ Finset.range cfg.numLoadBalancers,
        (ts.flatMap (receivedBy i)).length) ∧
      input.length = (∑ i ∈ Finset.range cfg.numLoadBalancers,
        (ts.flatMap (receivedBy i)).length) + (lbLeft cfg e).length := by
  constructor
  · rw [generateReport_lbs]
    exact sum_range_ofNat _ _
  · rw [← h.accepted_eq hj, lbLeft, length_flatMap_range, ← Finset.sum_add_distrib,
      ← Network.sum_length_filter (W := cfg.numLoadBalancers)
        (f := fun job : PacketJob => getLBForPacket cfg.numLoadBalancers job.tuple)
        (fun _ => Nat.mod_lt _ hl) e.accepted]
    refine Finset.sum_congr rfl fun i _ => ?_
    have hreceived := h.relayed.received i
    rw [hj.reader] at hreceived
    exact (congrArg List.length (hreceived.trans (List.append_nil _))).trans List.length_append

theorem Reported.totalDispatched : (generateReport cfg ts e).lbs.totalReceived =
    (generateReport cfg ts e).lbs.totalDispatched := by
  rw [generateReport_lbs]
  refine congrArg List.sum (List.map_congr_left fun i hi => ?_)
  have hdispatched := h.relayed.dispatched i
  rw [hj.lbs i (List.mem_range.1 hi), show LBThread.exited.held = [] from rfl,
    List.append_nil] at hdispatched
  exact congrArg (fun jobs => UInt64.ofNat jobs.length) hdispatched

theorem Reported.totalProcessed (hl : 0 < cfg.numLoadBalancers) (hf : 0 < cfg.fpsPerLb) :
    (generateReport cfg ts e).fps.totalProcessed = UInt64.ofNat e.handled.length := by
  rw [generateReport_fps, ← Network.sum_length_filter (W := cfg.totalFps)
    (f := fun d : PacketJob × PacketAction => cfg.shape.worker d.1)
    (fun d => worker_lt hl hf d.1.tuple) e.handled, ← sum_range_ofNat]
  refine congrArg List.sum (List.map_congr_left fun j hmem => (h.counts j).processed.trans ?_)
  rw [hj.decided_eq (List.mem_range.1 hmem)]

theorem Reported.totalForwarded (hl : 0 < cfg.numLoadBalancers) (hf : 0 < cfg.fpsPerLb) :
    (generateReport cfg ts e).fps.totalForwarded = e.stats.forwardedPackets := by
  rw [generateReport_fps, h.metered.forwarded, forwardedBy, List.length_map,
    ← sum_toldBy hl hf (· != .drop)]
  refine congrArg List.sum (List.map_congr_left fun j hmem => ?_)
  rw [← (h.counts j).forwarded, hj.fps j (List.mem_range.1 hmem)]
  exact (UInt64.add_zero _).symm

theorem Reported.totalDropped (hl : 0 < cfg.numLoadBalancers) (hf : 0 < cfg.fpsPerLb) :
    (generateReport cfg ts e).fps.totalDropped = e.stats.droppedPackets := by
  rw [generateReport_fps, h.metered.dropped, droppedBy, List.length_map,
    ← sum_toldBy hl hf (· == .drop)]
  refine congrArg List.sum (List.map_congr_left fun j hmem => ?_)
  rw [← (h.counts j).dropped, hj.fps j (List.mem_range.1 hmem)]
  exact (UInt64.add_zero _).symm

/-- What a load balancer has counted for one of its fast paths is what that has processed and what
is left in its queue. -/
theorem Reported.perFp (hf : 0 < cfg.fpsPerLb) {i k : ℕ} (hi : i < cfg.numLoadBalancers)
    (hk : k < cfg.fpsPerLb) :
    (ts.flatMap (dispatchedBy i)).countP (fun job => selectFP cfg.fpsPerLb job.tuple == k) =
      (e.decided cfg (i * cfg.fpsPerLb + k)).length +
        (e.fps (i * cfg.fpsPerLb + k)).inputQueue.queue.length := by
  obtain ⟨w, hw⟩ : ∃ w, w = i * cfg.fpsPerLb + k := ⟨_, rfl⟩
  have hlt : w < cfg.totalFps := by
    calc w < i * cfg.fpsPerLb + cfg.fpsPerLb := hw ▸ Nat.add_lt_add_left hk _
      _ = (i + 1) * cfg.fpsPerLb := (Nat.succ_mul ..).symm
      _ ≤ cfg.totalFps := Nat.mul_le_mul_right _ hi
  have hdiv : w / cfg.fpsPerLb = i := by
    rw [hw, Nat.mul_comm, Nat.mul_add_div hf, Nat.div_eq_of_lt hk, Nat.add_zero]
  have hmod : w % cfg.fpsPerLb = k := by
    rw [hw, Nat.mul_comm, Nat.mul_add_mod, Nat.mod_eq_of_lt hk]
  have hof (jobs : List PacketJob) : Network.of cfg.shape w jobs =
      (toLB cfg i jobs).filter fun job => selectFP cfg.fpsPerLb job.tuple == k := by
    rw [toLB, List.filter_filter]
    refine List.filter_congr fun job _ => ?_
    rw [Bool.eq_iff_iff, Bool.and_eq_true, beq_iff_eq, beq_iff_eq, beq_iff_eq]
    refine (worker_eq_iff hf job.tuple w).trans ?_
    rw [hdiv, hmod]
    exact And.comm
  have hreceived := h.relayed.received i
  rw [h.relayed.dispatched i, hj.lbs i hi, hj.reader, show LBThread.exited.held = [] from rfl,
    List.append_nil] at hreceived
  have hqueue : toLB cfg i (e.lbs i).inputQueue.queue = (e.lbs i).inputQueue.queue := by
    refine List.filter_eq_self.2 fun job hjob => beq_iff_eq.2 ?_
    rw [← worker_div hf]
    exact h.sound.ordered.first_routed i job ((hj.network_first hi).symm ▸ hjob)
  have hintake := congrArg List.length (h.sound.ordered.intake w)
  rw [show e.network.accepted = e.accepted from rfl, hof, hreceived, hj.network_second hlt,
    hj.network_source, show cfg.shape.dispatcher w = i from hdiv, hj.network_first hi,
    hof (e.lbs i).inputQueue.queue, hqueue, Network.of_nil, List.append_nil] at hintake
  simp only [toLB, List.filter_append, List.length_append] at hintake
  have hhandled : (e.decided cfg w).length =
      (Network.of cfg.shape w (e.network.handled.map Prod.fst)).length := by
    rw [hj.decided_eq hlt, Network.of, List.filter_map, List.length_map]
    rfl
  rw [← hw, hhandled, List.countP_eq_length_filter]
  exact Nat.add_right_cancel hintake

end Joined

/-- What the figures of a report say of the packets of a run.  They are kept in 64 bits. -/
structure Report.Of (report : Report) (cfg : Config) (input : List PacketJob)
    (ts : List (Taken Engine Label)) (e : Engine) : Prop where
  totalPackets : report.stats.totalPackets = UInt64.ofNat input.length
  totalBytes : report.stats.totalBytes = UInt64.ofNat (Account.dataSize input)
  tcpPackets : report.stats.tcpPackets =
    UInt64.ofNat (input.countP fun job => job.tuple.protocol == 6)
  udpPackets : report.stats.udpPackets =
    UInt64.ofNat (input.countP fun job => job.tuple.protocol != 6)
  received : report.stats.totalPackets =
    report.lbs.totalReceived + UInt64.ofNat (lbLeft cfg e).length
  dispatched : report.lbs.totalReceived = report.lbs.totalDispatched
  processed : report.lbs.totalDispatched =
    report.fps.totalProcessed + UInt64.ofNat (fpLeft cfg e).length
  perFp : ∀ i < cfg.numLoadBalancers, ∀ k < cfg.fpsPerLb,
    (lbStats cfg ts i).perFpPackets[k]? =
      some ((e.fps (i * cfg.fpsPerLb + k)).processor.packetsProcessed +
        UInt64.ofNat (e.fps (i * cfg.fpsPerLb + k)).inputQueue.queue.length)
  decided : report.fps.totalProcessed = report.fps.totalForwarded + report.fps.totalDropped
  forwarded : report.fps.totalForwarded = report.stats.forwardedPackets
  dropped : report.fps.totalDropped = report.stats.droppedPackets
  written : report.stats.forwardedPackets =
    UInt64.ofNat (e.written.length + e.outputQueue.queue.length)
  writtenBytes : report.stats.forwardedBytes =
    UInt64.ofNat (Account.dataSize e.written + Account.dataSize e.outputQueue.queue)
  bytes : report.stats.totalBytes = report.stats.forwardedBytes + report.stats.droppedBytes +
    UInt64.ofNat (Account.dataSize (fpLeft cfg e) + Account.dataSize (lbLeft cfg e))

end Engine

open Engine

/-- However the threads are interleaved, the report that `processFile` prints when it returns
balances: what one stage has counted and the next one has not is what the stop left in the queue
between them. -/
theorem report_of_run {cfg : Config} {rm : RuleManager} {input : List PacketJob}
    {ts : List (Taken Engine Label)} {e : Engine} (hl : 0 < cfg.numLoadBalancers)
    (hf : 0 < cfg.fpsPerLb) (hrun : Run (Step cfg rm) (start input) ts e)
    (hret : e.main = .returned) : (generateReport cfg ts e).Of cfg input ts e := by
  have h := reported_of_run hf hrun
  have hj := h.sound.control.allJoined hret
  obtain ⟨hreceived, hlength⟩ := h.totalReceived hj hl
  have haccepted := h.accepted_eq hj
  have hinput := h.input_perm hj hl hf
  have hforwarded := h.forwarded_perm hj hl hf
  have hprocessed := h.totalProcessed hj hl hf
  have htotal : e.stats.totalPackets = UInt64.ofNat input.length := by
    rw [h.metered.total, haccepted]
  have hbytes : e.stats.totalBytes = UInt64.ofNat (Account.dataSize input) := by
    rw [h.metered.totalBytes, haccepted]
  exact
    { totalPackets := htotal
      totalBytes := hbytes
      tcpPackets := by rw [← haccepted]; exact h.metered.tcpPackets
      udpPackets := by rw [← haccepted]; exact h.metered.udpPackets
      received := by rw [hreceived, ← UInt64.ofNat_add, ← hlength]; exact htotal
      dispatched := h.totalDispatched hj
      processed := by
        have hcount := hinput.length_eq
        rw [hlength, List.length_append, List.length_append, List.length_map] at hcount
        rw [← h.totalDispatched hj, hreceived, hprocessed, ← UInt64.ofNat_add,
          Nat.add_right_cancel hcount]
      perFp := fun i hi k hk => by
        rw [(h.counts _).processed, ← UInt64.ofNat_add, ← h.perFp hj hf hi hk, lbStats,
          List.getElem?_map, List.getElem?_range hk]
        rfl
      decided := by
        rw [hprocessed, h.totalForwarded hj hl hf, h.totalDropped hj hl hf, h.metered.forwarded,
          h.metered.dropped, ← UInt64.ofNat_add, ← List.length_map Prod.fst,
          (handled_perm e.handled).length_eq, List.length_append, Nat.add_comm]
      forwarded := h.totalForwarded hj hl hf
      dropped := h.totalDropped hj hl hf
      written := by
        rw [← List.length_append, ← hforwarded.length_eq]
        exact h.metered.forwarded
      writtenBytes := by
        rw [← dataSize_append, ← dataSize_perm hforwarded]
        exact h.metered.forwardedBytes
      bytes := by
        change e.stats.totalBytes = e.stats.forwardedBytes + e.stats.droppedBytes + _
        rw [hbytes, h.metered.forwardedBytes, h.metered.droppedBytes, dataSize_perm hinput,
          dataSize_append, dataSize_append, dataSize_perm (handled_perm e.handled),
          dataSize_append, Nat.add_assoc, UInt64.ofNat_add, UInt64.ofNat_add,
          UInt64.add_comm (UInt64.ofNat (Account.dataSize (forwardedBy e.handled)))] }

/-- Of four packets read two are dropped and two written. -/
theorem report_of_run_visits :
    ∃ ts e, Run (Step twoByTwo badHostBlocked) (start visits) ts e ∧
      e.written = [request "ok.com", answer] ∧
      (generateReport twoByTwo ts e).Of twoByTwo visits ts e := by
  obtain ⟨ts, e, hrun, hret, -, -, -, hwritten⟩ := exists_run_visits
  exact ⟨ts, e, hrun, hwritten, report_of_run (by decide) (by decide) hrun hret⟩

end DPI
