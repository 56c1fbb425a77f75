import DpiEngine.EngineReport
import DpiEngine.Recounting

/-!
# The connections in the reports

`processFile` prints the number of connections once from the sizes of the tables and once from a
walk over their entries, and the connection table collects the same entries a third time.
-/

namespace DPI

open Bytes ConnectionTracker FastPathProcessor

/-! ## The classification report -/

/-- The figures of `FPManager::generateClassificationReport`. -/
structure ClassificationReport where
  appCounts : Table AppType UInt64 := ∅
  totalClassified : UInt64 := 0
  totalUnknown : UInt64 := 0

theorem sum_map_ite_one {α : Type*} (l : List α) (p : α → Prop) [DecidablePred p] :
    (l.map fun a => if p a then (1 : UInt64) else 0).sum =
      UInt64.ofNat (l.countP fun a => decide (p a)) := by
  induction l with
  | nil => rfl
  | cons a l ih =>
    rw [List.map_cons, List.sum_cons, ih, List.countP_cons, UInt64.ofNat_add, UInt64.add_comm]
    by_cases hp : p a <;> simp [hp]

namespace FPManager

/-- The callback on one connection. -/
def countConnection (r : ClassificationReport) (conn : Connection) : ClassificationReport :=
  let r := { r with
    appCounts := Table.addItem Connection.appType (fun _ n => n + 1) 0 r.appCounts conn }
  if conn.appType = .unknown then { r with totalUnknown := r.totalUnknown + 1 }
  else { r with totalClassified := r.totalClassified + 1 }

def generateClassificationReport (trackers : List Registered) : ClassificationReport :=
  trackers.foldl (fun r tr =>
    (tr.tracker.forEach (tr.iteration.order tr.tracker.connections)).foldl countConnection r) {}

theorem foldl_countConnection (conns : List Connection) (r : ClassificationReport) :
    conns.foldl countConnection r =
      { appCounts := conns.foldl
          (Table.addItem Connection.appType (fun _ n => n + 1) 0) r.appCounts
        totalClassified := r.totalClassified +
          UInt64.ofNat (conns.countP fun conn => conn.appType != .unknown)
        totalUnknown := r.totalUnknown +
          UInt64.ofNat (conns.countP fun conn => conn.appType == .unknown) } := by
  induction conns generalizing r with
  | nil => simp
  | cons conn conns ih =>
    rw [List.foldl_cons, ih, countConnection, List.countP_cons, List.countP_cons]
    by_cases happ : conn.appType = .unknown
    · simp [happ, UInt64.ofNat_add, UInt64.add_assoc, UInt64.add_comm 1]
    · simp [happ, UInt64.ofNat_add, UInt64.add_assoc, UInt64.add_comm 1]

/-- The report is made of all connections of the trackers, one tracker after the other. -/
theorem generateClassificationReport_eq (trackers : List Registered) {conns : List Connection}
    (hconns : conns = GlobalConnectionTable.allConnections (trackers.map some)) :
    generateClassificationReport trackers =
      { appCounts := Table.tally Connection.appType (fun _ n => n + 1) 0 conns
        totalClassified := UInt64.ofNat (conns.countP fun conn => conn.appType != .unknown)
        totalUnknown := UInt64.ofNat (conns.countP fun conn => conn.appType == .unknown) } := by
  have hfold (r : ClassificationReport) : trackers.foldl (fun r tr =>
      (tr.tracker.forEach (tr.iteration.order tr.tracker.connections)).foldl countConnection r) r =
        conns.foldl countConnection r := by
    subst hconns
    induction trackers generalizing r with
    | nil => rfl
    | cons tr trackers ih =>
      have hcons : GlobalConnectionTable.allConnections ((tr :: trackers).map some) =
          tr.tracker.forEach (tr.iteration.order tr.tracker.connections) ++
            GlobalConnectionTable.allConnections (trackers.map some) := List.flatMap_cons ..
      rw [List.foldl_cons, ih, hcons, List.foldl_append]
  rw [generateClassificationReport, hfold, foldl_countConnection]
  simp only [UInt64.zero_add]
  rfl

section Totals

variable {trackers : List Registered} {conns : List Connection}
  (hconns : conns = GlobalConnectionTable.allConnections (trackers.map some))
include hconns

/-- Every connection is classified or unknown. -/
theorem totalClassified_add_totalUnknown :
    (generateClassificationReport trackers).totalClassified +
      (generateClassificationReport trackers).totalUnknown = UInt64.ofNat conns.length := by
  rw [generateClassificationReport_eq trackers hconns, ← UInt64.ofNat_add,
    List.length_eq_countP_add_countP fun conn : Connection => conn.appType != .unknown]
  refine congrArg UInt64.ofNat (congrArg _ (List.countP_congr fun conn _ => ?_))
  simp

theorem totalUnknown_eq : (generateClassificationReport trackers).totalUnknown =
    (generateClassificationReport trackers).appCounts.measure id .unknown := by
  rw [generateClassificationReport_eq trackers hconns]
  refine Eq.trans ?_ (Table.measure_tally (f := id) (w := fun _ : Connection => (1 : UInt64))
    rfl (fun _ _ => rfl) conns AppType.unknown).symm
  rw [sum_map_ite_one]
  exact congrArg UInt64.ofNat (List.countP_congr fun conn _ => by simp)

theorem sum_appCounts : (generateClassificationReport trackers).appCounts.sum id =
    UInt64.ofNat conns.length := by
  rw [generateClassificationReport_eq trackers hconns]
  exact (Table.sum_tally (f := id) (w := fun _ : Connection => (1 : UInt64)) rfl
    (fun _ _ => rfl) conns).trans (sum_map_one conns)

end Totals

end FPManager

namespace Engine

variable {cfg : Config} {rm : RuleManager} {e e' : Engine} {l : Label}
  {ts : List (Taken Engine Label)}

/-! ## The tables -/

theorem connectionsOf_concat (jobs : List PacketJob) (job : PacketJob) :
    connectionsOf (jobs ++ [job]) = insert (canonicalTuple job.tuple) (connectionsOf jobs) := by
  ext key
  simp [connectionsOf]

theorem keys_subset_of_kept {fp fp' : FastPathProcessor} {keys : Finset FiveTuple}
    (h : ∀ key ∉ keys, Kept fp fp' key) : fp'.keys ⊆ keys ∪ fp.keys := by
  intro key hkey
  rw [Finset.mem_union]
  by_cases hown : key ∈ keys
  · exact Or.inl hown
  · rw [mem_keys, ← isSome_flowAt] at hkey ⊢
    rcases h key hown with heq | hnone
    · exact Or.inr (heq ▸ hkey)
    · rw [hnone] at hkey
      cases hkey

/-- Only a decision brings a key into a table. -/
theorem TableMove.keys_subset {w : ℕ} (h : TableMove cfg rm e e' w)
    (hold : (e.fps w).processor.keys ⊆ connectionsOf ((e.decided cfg w).map Prod.fst)) :
    (e'.fps w).processor.keys ⊆ connectionsOf ((e'.decided cfg w).map Prod.fst) := by
  cases h with
  | idle hdecided hkept =>
    rw [hdecided]
    refine (keys_subset_of_kept fun key (_ : key ∉ ∅) => hkept key).trans ?_
    rwa [Finset.empty_union]
  | decide job action f hdecided hstep hown hother =>
    rw [hdecided, List.map_append, List.map_singleton, connectionsOf_concat]
    refine (keys_subset_of_kept fun key (hkey : key ∉ {canonicalTuple job.tuple}) =>
      hother key fun heq => hkey (Finset.mem_singleton.2 heq)).trans ?_
    exact Finset.insert_subset_insert _ hold

/-- A decision leaves the key of its packet in the table. -/
theorem TableMove.subset_keys {w : ℕ} (h : TableMove cfg rm e e' w)
    (hkeep : (e.fps w).processor.keys ⊆ (e'.fps w).processor.keys)
    (hold : connectionsOf ((e.decided cfg w).map Prod.fst) ⊆ (e.fps w).processor.keys) :
    connectionsOf ((e'.decided cfg w).map Prod.fst) ⊆ (e'.fps w).processor.keys := by
  cases h with
  | idle hdecided hkept =>
    rw [hdecided]
    exact hold.trans hkeep
  | decide job action f hdecided hstep hown hother =>
    rw [hdecided, List.map_append, List.map_singleton, connectionsOf_concat]
    refine Finset.insert_subset ?_ (hold.trans hkeep)
    rw [mem_keys, ← isSome_flowAt, hown]
    rfl

/-- The tables hold connections of the packets decided, all of them while nothing removes one. -/
structure Tracked (cfg : Config) (ts : List (Taken Engine Label)) (e : Engine) : Prop where
  subset : ∀ w, (e.fps w).processor.keys ⊆ connectionsOf ((e.decided cfg w).map Prod.fst)
  kept : (∀ t ∈ ts, KeepsEntries cfg t) → ∀ w < cfg.totalFps,
    connectionsOf ((e.decided cfg w).map Prod.fst) ⊆ (e.fps w).processor.keys

theorem tracked_start (cfg : Config) (input : List PacketJob) : Tracked cfg [] (start input) where
  subset := fun _ => Finset.Subset.refl _
  kept := fun _ _ _ => Finset.Subset.refl _

theorem Tracked.step (h : Tracked cfg ts e) (hord : Network.Ordered cfg.shape e.network)
    (hs : Step cfg rm e l e') : Tracked cfg (ts ++ [⟨e, l, e'⟩]) e' := by
  refine ⟨fun w => (hs.move.tables hord w).keys_subset (h.subset w), fun hkeeps w hw => ?_⟩
  apply (hs.move.tables hord w).subset_keys
  · exact hkeeps ⟨e, l, e'⟩ (List.mem_append_right _ (List.mem_singleton_self _)) w hw
  · exact h.kept (fun t ht => hkeeps t (List.mem_append_left _ ht)) w hw

/-! ## All workers together -/

/-- The connections of a worker are those that are routed to it. -/
theorem connectionsOf_filter (handled : List (PacketJob × PacketAction)) (w : ℕ) :
    connectionsOf ((handled.filter fun d => cfg.shape.worker d.1 == w).map Prod.fst) =
      (connectionsOf (handled.map Prod.fst)).filter fun key =>
        worker cfg.numLoadBalancers cfg.fpsPerLb key = w := by
  ext key
  simp only [connectionsOf, List.mem_toFinset, Finset.mem_filter, List.map_map, List.mem_map,
    List.mem_filter, beq_iff_eq, Function.comp_apply]
  constructor
  · rintro ⟨d, ⟨hd, hw⟩, rfl⟩
    exact ⟨⟨d, hd, rfl⟩, (worker_canonicalTuple ..).trans hw⟩
  · rintro ⟨⟨d, hd, rfl⟩, hw⟩
    exact ⟨d, ⟨hd, (worker_canonicalTuple ..).symm.trans hw⟩, rfl⟩

/-- Once the threads are joined, a table holds connections that are routed to its worker. -/
theorem Tracked.keys_subset (h : Tracked cfg ts e) (hj : Joined cfg e) {w : ℕ}
    (hw : w < cfg.totalFps) :
    (e.fps w).processor.keys ⊆ (connectionsOf (e.handled.map Prod.fst)).filter fun key =>
      worker cfg.numLoadBalancers cfg.fpsPerLb key = w := by
  rw [← connectionsOf_filter, ← hj.decided_eq hw]
  exact h.subset w

/-- It holds all of them if no entry was removed. -/
theorem Tracked.keys_eq (h : Tracked cfg ts e) (hj : Joined cfg e)
    (hkeeps : ∀ t ∈ ts, KeepsEntries cfg t) {w : ℕ} (hw : w < cfg.totalFps) :
    (e.fps w).processor.keys = (connectionsOf (e.handled.map Prod.fst)).filter fun key =>
      worker cfg.numLoadBalancers cfg.fpsPerLb key = w := by
  refine (h.keys_subset hj hw).antisymm ?_
  rw [← connectionsOf_filter, ← hj.decided_eq hw]
  exact h.kept hkeeps w hw

section Joined

variable (hl : 0 < cfg.numLoadBalancers) (hf : 0 < cfg.fpsPerLb) (hj : Joined cfg e)
include hl hf

/-- The workers share the connections out among them. -/
theorem sum_card_connections (keys : Finset FiveTuple) (p : FiveTuple → Prop) [DecidablePred p] :
    ∑ w ∈ Finset.range cfg.totalFps, ((keys.filter fun key =>
      worker cfg.numLoadBalancers cfg.fpsPerLb key = w).filter p).card = (keys.filter p).card := by
  rw [Finset.card_eq_sum_card_fiberwise (f := worker cfg.numLoadBalancers cfg.fpsPerLb)
    (t := Finset.range cfg.totalFps) fun key _ => Finset.mem_coe.2 (Finset.mem_range.2
      (worker_lt hl hf key))]
  refine Finset.sum_congr rfl fun w _ => ?_
  rw [Finset.filter_filter, Finset.filter_filter]
  exact congrArg Finset.card (Finset.filter_congr fun key _ => And.comm)

include hj

/-- Once the threads are joined, the calls of `handleOutput` are a run of the machine of flows, and
each table holds the flows of its worker. -/
theorem Faithful.handled (h : Faithful cfg rm e) :
    Decides.Outcome (some rm) (fun _ => {}) e.handled fun key =>
      (e.fps (worker cfg.numLoadBalancers cfg.fpsPerLb key)).processor.flowOf key := by
  refine Keyed.Outcome.of_parts (worker cfg.numLoadBalancers cfg.fpsPerLb) fun w => ?_
  by_cases hw : w < cfg.totalFps
  · refine ⟨(e.fps w).processor.flowOf, ?_, ?_⟩
    · have hout := h w
      rw [hj.decided_eq hw] at hout
      simp only [worker_canonicalTuple]
      exact hout
    · rintro key rfl
      rfl
  · have hnone : (e.handled.filter fun d => worker cfg.numLoadBalancers cfg.fpsPerLb
        (canonicalTuple d.1.tuple) == w) = [] := by
      refine List.filter_eq_nil_iff.2 fun d _ hd => hw ?_
      rw [← eq_of_beq hd]
      exact worker_lt hl hf _
    refine ⟨fun _ => {}, ?_, fun key hkey => absurd (hkey ▸ worker_lt hl hf key) hw⟩
    rw [hnone]
    exact .nil _

end Joined

/-! ## The figures -/

/-- The trackers of the fast paths, as `initialize` registers them. -/
def registered (cfg : Config) (e : Engine)
    (iteration : ℕ → Table.Iteration FiveTuple Connection) : List Registered :=
  (List.range cfg.totalFps).map fun j => ⟨(e.fps j).processor.connTracker, iteration j⟩

theorem sum_ite_one {K : Type*} [DecidableEq K] (s : Finset K) (p : K → Prop) [DecidablePred p] :
    (∑ k ∈ s, if p k then (1 : UInt64) else 0) = UInt64.ofNat (s.filter p).card := by
  induction s using Finset.induction_on with
  | empty => rfl
  | insert k s hk ih =>
    rw [Finset.sum_insert hk, ih, Finset.filter_insert]
    split_ifs with hp
    · rw [Finset.card_insert_of_notMem fun hmem => hk (Finset.mem_filter.1 hmem).1,
        UInt64.ofNat_add, UInt64.add_comm]
      rfl
    · exact UInt64.zero_add _

/-- The entries of a table whose flows are of an application. -/
theorem sum_appType (fp : FastPathProcessor) (app : AppType) :
    Table.sum fp.connTracker.connections
        (fun conn => if conn.appType = app then (1 : UInt64) else 0) =
      UInt64.ofNat (fp.keys.filter fun key => (fp.flowOf key).appType = app).card := by
  have hmeasure (key : FiveTuple) (hkey : key ∈ fp.keys) :
      Table.measure fp.connTracker.connections
        (fun conn => if conn.appType = app then (1 : UInt64) else 0) key =
      if (fp.flowOf key).appType = app then 1 else 0 := by
    obtain ⟨conn, hconn⟩ := Finmap.mem_iff.1 (mem_keys.1 hkey)
    rw [Table.measure, flowOf, flowAt, hconn]
    rfl
  rw [Table.sum]
  exact (Finset.sum_congr rfl hmeasure).trans (sum_ite_one _ _)

section Figures

variable (iteration : ℕ → Table.Iteration FiveTuple Connection)

theorem totalConnections_eq : (generateReport cfg ts e).fps.totalConnections =
    GlobalConnectionTable.activeConnections
      (GlobalConnectionTable.registerAll (registered cfg e iteration)) := by
  rw [generateReport_fps, GlobalConnectionTable.registerAll_eq,
    GlobalConnectionTable.activeConnections, registered, List.map_map, List.map_map]
  rfl

theorem totalConnections_card : (generateReport cfg ts e).fps.totalConnections =
    UInt64.ofNat (∑ w ∈ Finset.range cfg.totalFps, (e.fps w).processor.keys.card) := by
  rw [generateReport_fps]
  exact sum_range_ofNat _ _

/-- The connections of an application, over all workers. -/
theorem measure_appCounts (app : AppType) :
    (FPManager.generateClassificationReport (registered cfg e iteration)).appCounts.measure id app =
      UInt64.ofNat (∑ w ∈ Finset.range cfg.totalFps, ((e.fps w).processor.keys.filter fun key =>
        ((e.fps w).processor.flowOf key).appType = app).card) := by
  rw [FPManager.generateClassificationReport_eq _ rfl]
  refine (Table.measure_tally (f := id) (w := fun _ : Connection => (1 : UInt64)) rfl
    (fun _ _ => rfl) _ app).trans ?_
  rw [GlobalConnectionTable.sum_allConnections, ← sum_range_ofNat, registered, List.map_map,
    List.map_map]
  exact congrArg List.sum (List.map_congr_left fun w _ => sum_appType _ app)

end Figures

/-- What the reports say of the connections. -/
structure ConnectionsOf (cfg : Config) (rm : RuleManager) (ts : List (Taken Engine Label))
    (e : Engine) (total : UInt64) (report : ClassificationReport) (stats : GlobalStats) :
    Prop where
  classified : report.totalClassified + report.totalUnknown = total
  unknown : report.totalUnknown = report.appCounts.measure id .unknown
  distribution : report.appCounts = stats.appDistribution
  sum : report.appCounts.sum id = total
  active : stats.totalActiveConnections = total
  atMost : ∃ n ≤ (connectionsOf (e.handled.map Prod.fst)).card, total = UInt64.ofNat n
  exact : (∀ t ∈ ts, KeepsEntries cfg t) →
    total = UInt64.ofNat (connectionsOf (e.handled.map Prod.fst)).card ∧
      ∃ flows, Decides.Outcome (some rm) (fun _ => {}) e.handled flows ∧
        ∀ app, report.appCounts.measure id app =
          UInt64.ofNat ((connectionsOf (e.handled.map Prod.fst)).filter fun key =>
            (flows key).appType = app).card

end Engine

open Engine

/-- When `processFile` returns, its two reports and the connection table agree on the connections,
which are at most those of the packets processed.  If no entry was removed they are exactly those,
each with the application that its packets give it. -/
theorem connections_of_run {cfg : Config} {rm : RuleManager} {input : List PacketJob}
    {ts : List (Taken Engine Label)} {e : Engine} (hl : 0 < cfg.numLoadBalancers)
    (hf : 0 < cfg.fpsPerLb) (hrun : Run (Step cfg rm) (start input) ts e)
    (hret : e.main = .returned) (iteration : ℕ → Table.Iteration FiveTuple Connection)
    (sort : StdSort (Str × UInt64) GlobalConnectionTable.moreTraffic)
    (domains : Table.Iteration Str UInt64) :
    ConnectionsOf cfg rm ts e (generateReport cfg ts e).fps.totalConnections
      (FPManager.generateClassificationReport (registered cfg e iteration))
      ((GlobalConnectionTable.registerAll (registered cfg e iteration)).getGlobalStats
        sort domains) := by
  obtain ⟨hsound, htracked⟩ := Run.history
    (fun us e => Sound cfg input e ∧ Tracked cfg us e)
    (fun us e l e' hs h => ⟨h.1.step hf hs, h.2.step h.1.ordered hs⟩)
    hrun ⟨sound_start cfg input, tracked_start cfg input⟩
  have hj := hsound.control.allJoined hret
  have htable : GlobalConnectionTable.registerAll (registered cfg e iteration) =
      (registered cfg e iteration).map some := GlobalConnectionTable.registerAll_eq _
  have htotal := @totalConnections_eq cfg e ts iteration
  have hcard := sum_card_connections hl hf (connectionsOf (e.handled.map Prod.fst)) fun _ => True
  simp only [Finset.filter_true] at hcard
  have hactive := GlobalConnectionTable.activeConnections_eq
    ((registered cfg e iteration).map some)
  obtain ⟨conns, hconns⟩ : ∃ conns, conns =
    GlobalConnectionTable.allConnections ((registered cfg e iteration).map some) := ⟨_, rfl⟩
  rw [← hconns] at hactive
  exact
    { classified := by
        rw [htotal, htable, hactive]
        exact FPManager.totalClassified_add_totalUnknown hconns
      unknown := FPManager.totalUnknown_eq hconns
      distribution := by
        rw [FPManager.generateClassificationReport_eq _ rfl, htable,
          GlobalConnectionTable.getGlobalStats_eq]
      sum := by
        rw [htotal, htable, hactive]
        exact FPManager.sum_appCounts hconns
      active := by
        rw [htotal, GlobalConnectionTable.getGlobalStats_eq]
      atMost := by
        refine ⟨_, ?_, totalConnections_card⟩
        rw [← hcard]
        exact Finset.sum_le_sum fun w hw =>
          Finset.card_le_card (htracked.keys_subset hj (Finset.mem_range.1 hw))
      exact := fun hkeeps => by
        have hfaithful := (hrun.invariant (fun e => Sound cfg input e ∧ Faithful cfg rm e)
          (KeepsEntries cfg) (fun s l s' hs hk h => ⟨h.1.step hf hs, hs.move.faithful h.1.ordered hk
            h.2⟩) hkeeps ⟨sound_start cfg _, faithful_start cfg rm _⟩).1.2
        have hkeys (w : ℕ) (hw : w ∈ Finset.range cfg.totalFps) :=
          htracked.keys_eq hj hkeeps (Finset.mem_range.1 hw)
        refine ⟨?_, _, hfaithful.handled hl hf hj, fun app => ?_⟩
        · rw [totalConnections_card, ← hcard]
          exact congrArg UInt64.ofNat (Finset.sum_congr rfl fun w hw => by rw [hkeys w hw])
        · rw [measure_appCounts, ← sum_card_connections hl hf]
          refine congrArg UInt64.ofNat (Finset.sum_congr rfl fun w hw => ?_)
          rw [hkeys w hw]
          refine congrArg Finset.card (Finset.filter_congr fun key hkey => ?_)
          rw [(Finset.mem_filter.1 hkey).2] }

/-- Two connections, one of which is blocked, stay in the tables of two workers. -/
theorem connections_of_run_visits :
    ∃ ts e, Run (Step twoByTwo badHostBlocked) (start visits) ts e ∧
      (∀ t ∈ ts, KeepsEntries twoByTwo t) ∧ ∀ iteration sort domains,
        (generateReport twoByTwo ts e).fps.totalConnections = 2 ∧
        ConnectionsOf twoByTwo badHostBlocked ts e
          (generateReport twoByTwo ts e).fps.totalConnections
          (FPManager.generateClassificationReport (registered twoByTwo e iteration))
          ((GlobalConnectionTable.registerAll (registered twoByTwo e iteration)).getGlobalStats
            sort domains) := by
  obtain ⟨ts, e, hrun, hret, -, hkeeps, hhandled, -⟩ := exists_run_visits
  refine ⟨ts, e, hrun, hkeeps, fun iteration sort domains => ?_⟩
  have hconnections :=
    connections_of_run (by decide) (by decide) hrun hret iteration sort domains
  refine ⟨?_, hconnections⟩
  rw [(hconnections.exact hkeeps).1, hhandled]
  decide +kernel

end DPI
