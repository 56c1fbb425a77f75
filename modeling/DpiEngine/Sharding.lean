import DpiEngine.Blocking
import DpiEngine.Lib.Keyed
import DpiEngine.Pipeline

/-!
# Sharding

The pipeline decides each packet as one processor that is given the whole sequence does.  Flows
under canonical tuples form a keyed machine, both directions of a connection have one key, and the
two stages of routing send all packets of a key, in order, to one worker.
-/

namespace DPI

open Bytes FastPathProcessor

/-- The packets of a log and their actions are those of the machine of flows. -/
abbrev Decides.Outcome (rm : Option RuleManager) :
    (FiveTuple → Flow) → List (PacketJob × PacketAction) → (FiveTuple → Flow) → Prop :=
  Keyed.Outcome (fun job : PacketJob => canonicalTuple job.tuple) (Flow.step rm)

/-! ## One processor -/

namespace FastPathProcessor

/-- The connections of a sequence of packets. -/
def connectionsOf (jobs : List PacketJob) : Finset FiveTuple :=
  (jobs.map fun job => canonicalTuple job.tuple).toFinset

/-- A processor with room for all connections decides every packet of a sequence, and decides it
as the machine of flows does. -/
theorem processAll_outcome (rm : Option RuleManager) (packets : List (Env × PacketJob))
    (fp : FastPathProcessor)
    (hroom : (fp.connTracker.connections.keys ∪ connectionsOf (packets.map Prod.snd)).card ≤
      fp.connTracker.maxConnections) :
    ∃ actions fp', processAll rm fp packets = .ok (actions, fp') ∧
      actions.length = packets.length ∧
      Decides.Outcome rm fp.flowOf ((packets.map Prod.snd).zip actions) fp'.flowOf := by
  induction packets generalizing fp with
  | nil => exact ⟨[], fp, rfl, rfl, .nil _⟩
  | cons p rest ih =>
    obtain ⟨env, job⟩ := p
    have hunion : fp.connTracker.connections.keys ∪
          connectionsOf (((env, job) :: rest).map Prod.snd) =
        insert (canonicalTuple job.tuple) fp.connTracker.connections.keys ∪
          connectionsOf (rest.map Prod.snd) := by
      simp [connectionsOf, Finset.union_insert]
    rw [hunion] at hroom
    have hone : (insert (canonicalTuple job.tuple) fp.connTracker.connections.keys).card ≤
        fp.connTracker.maxConnections :=
      (Finset.card_le_card Finset.subset_union_left).trans hroom
    have hfits : canonicalTuple job.tuple ∈ fp.connTracker.connections ∨
        Table.size fp.connTracker.connections < fp.connTracker.maxConnections := by
      by_cases hmem : canonicalTuple job.tuple ∈ fp.connTracker.connections
      · exact Or.inl hmem
      · rw [Finset.card_insert_of_notMem (by rwa [Finmap.mem_keys])] at hone
        exact Or.inr hone
    obtain ⟨action, fp₁, hproc, hkeys⟩ := processPacket_of_room rm fp env job hfits
    have heff := processPacket_ok hproc
    obtain ⟨f, hstep, hflow⟩ := heff.flowOf_eq fun key hkey => by
      rw [← Finmap.mem_keys] at hkey ⊢
      rw [hkeys]
      exact Finset.mem_insert_of_mem hkey
    obtain ⟨actions, fp', hall, hlen, hout⟩ := ih fp₁ (by
      rw [hkeys, heff.maxConnections]
      exact hroom)
    refine ⟨action :: actions, fp', ?_, by simp [hlen], .cons hstep (hflow ▸ hout)⟩
    refine bind_eq_ok_iff.2 ⟨_, hproc, ?_⟩
    exact bind_eq_ok_iff.2 ⟨_, hall, rfl⟩

end FastPathProcessor

/-! ## The workers -/

/-- A packet that is decided and not yet counted. -/
def FPThread.decided : FPThread → List (PacketJob × PacketAction)
  | .output job action => [(job, action)]
  | _ => []

namespace Engine

variable {cfg : Config} {rm : RuleManager} {e e' : Engine} {l : Label}

/-- The packets that worker `w` has decided, in order, with the actions it gave them. -/
def decided (cfg : Config) (e : Engine) (w : ℕ) : List (PacketJob × PacketAction) :=
  (e.handled.filter fun d => cfg.shape.worker d.1 == w) ++ (e.fps w).thread.decided

/-- Each worker is at the state that the machine of flows reaches on the packets it decided. -/
def Faithful (cfg : Config) (rm : RuleManager) (e : Engine) : Prop :=
  ∀ w, Decides.Outcome (some rm) (fun _ => {}) (e.decided cfg w) (e.fps w).processor.flowOf

/-- The step removes no entry from the table of a fast path. -/
def KeepsEntries (cfg : Config) (t : Taken Engine Label) : Prop :=
  ∀ w < cfg.totalFps, (t.pre.fps w).processor.connTracker.connections.keys ⊆
    (t.post.fps w).processor.connTracker.connections.keys

instance (cfg : Config) (t : Taken Engine Label) : Decidable (KeepsEntries cfg t) :=
  inferInstanceAs (Decidable (∀ w < cfg.totalFps, _))

theorem KeepsEntries.setFP {j : ℕ} {fp : FastPath}
    (h : KeepsEntries cfg ⟨e, l, e.setFP j fp⟩) (hj : j < cfg.totalFps) (key : FiveTuple)
    (hmem : key ∈ (e.fps j).processor.connTracker.connections) :
    key ∈ fp.processor.connTracker.connections := by
  have := h j hj (Finmap.mem_keys.2 hmem)
  rw [setFP_fps, if_pos rfl] at this
  exact Finmap.mem_keys.1 this

theorem faithful_start (cfg : Config) (rm : RuleManager) (input : List PacketJob) :
    Faithful cfg rm (start input) := fun _ => .nil _

/-- A step that leaves the decisions and the flows of every worker alone. -/
theorem Faithful.of_same (h : Faithful cfg rm e)
    (hdecided : ∀ w, e'.decided cfg w = e.decided cfg w)
    (hflow : ∀ w, (e'.fps w).processor.flowOf = (e.fps w).processor.flowOf) :
    Faithful cfg rm e' := fun w => by
  rw [hdecided, hflow]
  exact h w

/-- A step of fast path `j` that neither decides nor counts a packet. -/
theorem Faithful.setFP (h : Faithful cfg rm e) {j : ℕ} {fp : FastPath}
    (hdecided : fp.thread.decided = (e.fps j).thread.decided)
    (hflow : fp.processor.flowOf = (e.fps j).processor.flowOf) :
    Faithful cfg rm (e.setFP j fp) := by
  apply h.of_same
  · intro w
    rw [decided, decided, setFP_fps]
    split_ifs with hw
    · rw [hw, hdecided]
      rfl
    · rfl
  · intro w
    rw [setFP_fps]
    split_ifs with hw
    · rw [hw, hflow]
    · rfl

theorem Move.faithful (hord : Network.Ordered cfg.shape e.network)
    (hkeep : KeepsEntries cfg ⟨e, l, e'⟩) (h : Move cfg rm e l e') (hI : Faithful cfg rm e) :
    Faithful cfg rm e' := by
  cases h with
  | fpTest j env hj h =>
    refine hI.setFP ?_ rfl
    rw [h]
    cases (e.fps j).running <;> rfl
  | fpIdle j env hj h =>
    refine hI.setFP (by rw [h]; rfl) (funext fun key => ?_)
    rw [flowOf, flowOf,
      flowAt_of_kept (flowAt_cleanupStale _ env.seen 300 key) (hkeep.setFP hj key)]
  | fpPop j env job queue hj h hq => exact hI.setFP (by rw [h]; rfl) rfl
  | fpProcess j env job action processor hj h hp =>
    obtain ⟨f, hstep, hflow⟩ := (processPacket_ok hp).flowOf_eq (hkeep.setFP hj)
    intro w
    by_cases hw : w = j
    · subst hw
      have hold := hI w
      rw [decided, h, show (FPThread.process job).decided = [] from rfl, List.append_nil] at hold
      rw [decided, setFP_fps, if_pos rfl, hflow]
      exact hold.snoc hstep
    · have hold := hI w
      rw [decided, setFP_fps, if_neg hw]
      exact hold
  | fpOutput j env job action hj h =>
    have hroute : cfg.shape.worker job = j :=
      hord.second_routed j job (by simp [Engine.network, h, FPThread.held])
    apply hI.of_same
    · intro w
      rw [decided, decided, setFP_fps]
      simp only [setFP, List.filter_append]
      by_cases hw : w = j
      · subst hw
        have hnone : (if action = .drop then FPThread.count action
            else FPThread.push job action).decided = [] := by split_ifs <;> rfl
        rw [if_pos rfl, hnone, h, List.append_nil]
        exact congrArg (_ ++ ·) (List.filter_cons_of_pos (by simp [hroute]))
      · rw [if_neg hw]
        apply congrArg (· ++ _)
        rw [List.filter_cons_of_neg (by simpa [hroute] using Ne.symm hw), List.filter_nil,
          List.append_nil]
    · intro w
      by_cases hw : w = j
      · rw [setFP_fps, if_pos hw, hw]
      · rw [setFP_fps, if_neg hw]
  | fpPush j env job action queue hj h hq =>
    have hset : Faithful cfg rm (e.setFP j { e.fps j with thread := .count action }) :=
      hI.setFP (by rw [h]; rfl) rfl
    exact hset.of_same (fun _ => rfl) (fun _ => rfl)
  | fpCount j env action processor hj h hp =>
    refine hI.setFP (by rw [h]; rfl) (funext fun key => ?_)
    rw [flowOf, flowAt, hp]
    rfl
  | lbDispatch i j job queue hi h hj hq =>
    have hset : Faithful cfg rm (e.setFP j { e.fps j with inputQueue := queue }) :=
      hI.setFP rfl rfl
    exact hset.of_same (fun _ => rfl) (fun _ => rfl)
  | main e' h =>
    have hs := sameWork_main h
    apply hI.of_same
    · intro w
      rw [decided, decided, hs.handled, hs.fpThread]
    · intro w
      rw [hs.fpProcessor]
  | _ => exact hI.of_same (fun _ => rfl) (fun _ => rfl)

/-- What each worker has decided are the first of the packets that are routed to it. -/
theorem Sound.decided_in_order {input : List PacketJob} (h : Sound cfg input e) (w : ℕ) :
    (e.decided cfg w).map Prod.fst <+: input.filter fun job => cfg.shape.worker job == w := by
  have hintake := h.ordered.intake w
  have hheld : (e.fps w).thread.decided.map Prod.fst <+: e.network.second w := by
    simp only [Engine.network]
    cases (e.fps w).thread with
    | output job action => exact List.cons_prefix_cons.2 ⟨rfl, List.nil_prefix⟩
    | _ => exact List.nil_prefix
  have haccepted : (e.decided cfg w).map Prod.fst <+:
      Network.of cfg.shape w e.accepted := by
    have hhandled : (e.handled.filter fun d => cfg.shape.worker d.1 == w).map Prod.fst =
        Network.of cfg.shape w (e.handled.map Prod.fst) := by
      rw [Network.of, List.filter_map]
      rfl
    rw [decided, List.map_append, hhandled]
    apply List.IsPrefix.trans ((List.prefix_append_right_inj _).2 hheld)
    rw [show e.accepted = e.network.accepted from rfl, hintake, List.append_assoc,
      List.append_assoc, ← List.append_assoc]
    exact List.prefix_append _ _
  apply haccepted.trans
  rw [← h.accepted, List.filter_append]
  exact List.prefix_append _ _

end Engine

open Engine

/-- For any numbers of load balancers and fast paths, in every run that removes no entry from a
table, every packet that a worker decides gets the action that it gets from one processor on the
whole sequence, whose table has room for its connections. -/
theorem sharded_decisions_eq_single (cfg : Config) (rm : RuleManager)
    (packets : List (Env × PacketJob)) (capacity : ℕ) (hf : 0 < cfg.fpsPerLb)
    (hroom : (connectionsOf (packets.map Prod.snd)).card ≤ capacity)
    {ts : List (Taken Engine Label)} {e : Engine}
    (hrun : Run (Step cfg rm) (start (packets.map Prod.snd)) ts e)
    (hkeep : ∀ t ∈ ts, KeepsEntries cfg t) :
    ∃ actions fp,
      processAll (some rm) { connTracker := { maxConnections := capacity } } packets =
        .ok (actions, fp) ∧
      ∀ w, e.decided cfg w <+: ((packets.map Prod.snd).zip actions).filter
        fun d => worker cfg.numLoadBalancers cfg.fpsPerLb d.1.tuple == w := by
  obtain ⟨actions, fp, hall, hlen, hsingle⟩ := processAll_outcome (some rm) packets
    { connTracker := { maxConnections := capacity } } (by
      rw [show (∅ : Table FiveTuple Connection).keys = ∅ from rfl, Finset.empty_union]
      exact hroom)
  refine ⟨actions, fp, hall, fun w => ?_⟩
  have hsound := (hrun.invariant
    (fun e => Sound cfg (packets.map Prod.snd) e ∧ Faithful cfg rm e) (KeepsEntries cfg)
    (fun s l s' hs hk h => ⟨h.1.step hf hs, hs.move.faithful h.1.ordered hk h.2⟩) hkeep
    ⟨sound_start cfg _, faithful_start cfg rm _⟩).1
  have hfst : ((packets.map Prod.snd).zip actions).map Prod.fst = packets.map Prod.snd :=
    List.map_fst_zip (by rw [List.length_map, hlen])
  have hshard := Keyed.sharded (fun key => worker cfg.numLoadBalancers cfg.fpsPerLb key == w)
    hsingle (hsound.2 w) (by
      rw [hfst]
      simp only [worker_canonicalTuple]
      exact hsound.1.decided_in_order w)
  simpa only [worker_canonicalTuple] using hshard

/-- The engine with one load balancer and one fast path. -/
def oneWorker : Config := { numLoadBalancers := 1, fpsPerLb := 1 }

/-! ## Two clients -/

/-- Two load balancers with two fast paths each. -/
def twoByTwo : Config := { numLoadBalancers := 2, fpsPerLb := 2 }

/-- A request with its answer, and two requests of a client that asks for a blocked host first.  The
clients have different load balancers. -/
def visits : List PacketJob :=
  [request "ok.com", otherRequest "bad.com", answer, otherRequest "ok.com"]

/-- All packets are read and handed to the fast paths. -/
def distribute : List Label :=
  List.replicate 9 .reader ++ List.replicate 6 (.lb 0) ++ List.replicate 6 (.lb 1)

/-- The second client is served before the first. -/
def serve : List Label :=
  List.replicate 10 (.fp 3 ⟨0, 0, []⟩) ++ List.replicate 12 (.fp 0 ⟨1, 1, []⟩)

theorem sharded_decisions_eq_single_visits :
    ∃ ts e actions fp,
      Run (Step twoByTwo badHostBlocked) (start visits) ts e ∧
      e.decided twoByTwo 0 = [(request "ok.com", .forward), (answer, .forward)] ∧
      e.decided twoByTwo 3 = [(otherRequest "bad.com", .drop), (otherRequest "ok.com", .drop)] ∧
      processAll (some badHostBlocked) { connTracker := { maxConnections := 100000 } }
        (visits.map fun job => (⟨0, 0, []⟩, job)) = .ok (actions, fp) ∧
      ∀ w, e.decided twoByTwo w <+: (visits.zip actions).filter
        fun d => worker 2 2 d.1.tuple == w := by
  have h : ((exec twoByTwo badHostBlocked (start visits) (distribute ++ serve)).map fun r =>
      (decide (∀ t ∈ r.1, KeepsEntries twoByTwo t), r.2.decided twoByTwo 0,
        r.2.decided twoByTwo 3)) =
      some (true, [(request "ok.com", .forward), (answer, .forward)],
        [(otherRequest "bad.com", .drop), (otherRequest "ok.com", .drop)]) := by decide +kernel
  obtain ⟨⟨ts, e⟩, hexec, h⟩ := Option.map_eq_some_iff.1 h
  simp only [Prod.mk.injEq, decide_eq_true_eq] at h
  obtain ⟨hkeeps, hfirst, hsecond⟩ := h
  obtain ⟨actions, fp, hall, hw⟩ := sharded_decisions_eq_single twoByTwo badHostBlocked
    (visits.map fun job => (⟨0, 0, []⟩, job)) 100000 (by decide) (by decide +kernel)
    (run_of_exec hexec) hkeeps
  exact ⟨ts, e, actions, fp, run_of_exec hexec, hfirst, hsecond, hall, hw⟩

end DPI
