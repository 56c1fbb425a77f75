import DpiEngine.Lib.Tally
import DpiEngine.MtPipeline
import Mathlib.Data.UInt

/-!
# The report of the stand-alone program

The figures that `printReport` of `dpi_mt.cpp` prints are kept by different threads.  Each stage of
the pipeline counts what it hands on, so the figures of two stages differ by what is between them,
and once the threads are joined that is what the stop left in the queues.
-/

namespace DPI.Mt

open Bytes

/-! ## What each thread has counted -/

def LBThread.passed : LBThread → UInt64
  | .count => 1
  | _ => 0

/-- The packets that the load balancer has pushed, whether it has counted them or not. -/
def LoadBalancer.passed (lb : LoadBalancer) : UInt64 := lb.dispatched + lb.thread.passed

/-- The packets that were pushed to the load balancer. -/
def LoadBalancer.taken (lb : LoadBalancer) : UInt64 :=
  lb.passed + UInt64.ofNat (lb.thread.held ++ lb.inputQueue.queue).length

def FPThread.unprocessed : FPThread → UInt64
  | .process _ => 1
  | _ => 0

def FPThread.unrecorded : FPThread → UInt64
  | .record _ _ => 1
  | _ => 0

def FPThread.uncounted : FPThread → UInt64
  | .record _ _ => 1
  | .count _ _ => 1
  | _ => 0

/-- The packets that were pushed to the fast path. -/
def FastPath.taken (fp : FastPath) : UInt64 :=
  fp.processed + fp.thread.unprocessed + UInt64.ofNat fp.inputQueue.queue.length

/-- The packets whose application the fast path has recorded. -/
def FastPath.recorded (fp : FastPath) : UInt64 := fp.processed - fp.thread.unrecorded

/-- The packets that the fast path has counted as forwarded or dropped. -/
def FastPath.decided (fp : FastPath) : UInt64 := fp.processed - fp.thread.uncounted

namespace Stats

variable (stats : Stats) (pkt : Packet)

@[simp] theorem read_totalPackets : (stats.read pkt).totalPackets = stats.totalPackets + 1 := by
  unfold read
  split_ifs <;> rfl

@[simp] theorem read_forwarded : (stats.read pkt).forwarded = stats.forwarded := by
  unfold read
  split_ifs <;> rfl

@[simp] theorem read_dropped : (stats.read pkt).dropped = stats.dropped := by
  unfold read
  split_ifs <;> rfl

@[simp] theorem read_appCounts : (stats.read pkt).appCounts = stats.appCounts := by
  unfold read
  split_ifs <;> rfl

variable (app : AppType) (sni : Str)

@[simp] theorem recordApp_totalPackets :
    (stats.recordApp app sni).totalPackets = stats.totalPackets := by
  unfold recordApp
  split_ifs <;> rfl

@[simp] theorem recordApp_forwarded :
    (stats.recordApp app sni).forwarded = stats.forwarded := by
  unfold recordApp
  split_ifs <;> rfl

@[simp] theorem recordApp_dropped : (stats.recordApp app sni).dropped = stats.dropped := by
  unfold recordApp
  split_ifs <;> rfl

theorem sum_recordApp :
    (stats.recordApp app sni).appCounts.sum id = stats.appCounts.sum id + 1 := by
  have hcounts : (stats.recordApp app sni).appCounts =
      Table.addItem id (fun _ n => n + 1) 0 stats.appCounts app := by
    unfold recordApp
    split_ifs <;> rfl
  rw [hcounts]
  exact Table.sum_addItem (f := id) (w := fun _ => 1) rfl (fun _ _ => rfl) stats.appCounts app

end Stats

namespace Engine

variable {cfg : Config} {rules : Rules} {e e' : Engine} {l : Label}

def lbTotal (cfg : Config) (e : Engine) (w : LoadBalancer → UInt64) : UInt64 :=
  ∑ i ∈ Finset.range cfg.lbs, w (e.lbs i)

def fpTotal (cfg : Config) (e : Engine) (w : FastPath → UInt64) : UInt64 :=
  ∑ j ∈ Finset.range cfg.fps, w (e.fps j)

theorem lbTotal_setLB {i : ℕ} (hi : i < cfg.lbs) {w : LoadBalancer → UInt64} {lb : LoadBalancer}
    {d : UInt64} (h : w lb = w (e.lbs i) + d) :
    lbTotal cfg (e.setLB i lb) w = lbTotal cfg e w + d := by
  have hsum := sum_range_update hi w e.lbs lb
  rw [h, ← add_assoc, add_right_comm] at hsum
  exact add_right_cancel hsum

theorem fpTotal_setFP {j : ℕ} (hj : j < cfg.fps) {w : FastPath → UInt64} {fp : FastPath}
    {d : UInt64} (h : w fp = w (e.fps j) + d) :
    fpTotal cfg (e.setFP j fp) w = fpTotal cfg e w + d := by
  have hsum := sum_range_update hj w e.fps fp
  rw [h, ← add_assoc, add_right_comm] at hsum
  exact add_right_cancel hsum

theorem fpTotal_same {j : ℕ} (hj : j < cfg.fps) {w : FastPath → UInt64} (fp : FastPath)
    (h : w fp = w (e.fps j)) : fpTotal cfg (e.setFP j fp) w = fpTotal cfg e w := by
  rw [fpTotal_setFP hj (h.trans (add_zero _).symm), add_zero]

/-- What one stage has handed on is what the next one has taken. -/
structure Balanced (cfg : Config) (e : Engine) : Prop where
  read : e.stats.totalPackets = lbTotal cfg e LoadBalancer.taken +
    UInt64.ofNat e.main.held.length
  dispatched : lbTotal cfg e LoadBalancer.passed = fpTotal cfg e FastPath.taken
  recorded : e.stats.appCounts.sum id = fpTotal cfg e FastPath.recorded
  decided : e.stats.forwarded + e.stats.dropped = fpTotal cfg e FastPath.decided

theorem balanced_start (cfg : Config) (input : List Packet) : Balanced cfg (start input) where
  read := by
    simp [lbTotal, start, LoadBalancer.taken, LoadBalancer.passed, LBThread.passed, LBThread.held,
      MainThread.held]
  dispatched := by
    simp [lbTotal, fpTotal, start, FastPath.taken, LoadBalancer.passed, LBThread.passed,
      FPThread.unprocessed]
  recorded := by simp [fpTotal, start, FastPath.recorded, FPThread.unrecorded, Table.sum]
  decided := by simp [fpTotal, start, FastPath.decided, FPThread.uncounted]

/-- A step of a load balancer that pushes nothing. -/
theorem Balanced.setLB (h : Balanced cfg e) {i : ℕ} (hi : i < cfg.lbs) {lb : LoadBalancer}
    (hpassed : lb.passed = (e.lbs i).passed)
    (hheld : lb.thread.held ++ lb.inputQueue.queue =
      (e.lbs i).thread.held ++ (e.lbs i).inputQueue.queue) : Balanced cfg (e.setLB i lb) :=
  { h with
    read := by
      have htaken : lb.taken = (e.lbs i).taken + 0 := by
        rw [LoadBalancer.taken, hpassed, hheld, add_zero]
        rfl
      rw [lbTotal_setLB hi htaken, add_zero]
      exact h.read
    dispatched := by
      rw [lbTotal_setLB hi (hpassed.trans (add_zero _).symm), add_zero]
      exact h.dispatched }

/-- A step of a fast path that counts nothing. -/
theorem Balanced.setFP (h : Balanced cfg e) {j : ℕ} (hj : j < cfg.fps) {fp : FastPath}
    (htaken : fp.taken = (e.fps j).taken) (hrecorded : fp.recorded = (e.fps j).recorded)
    (hdecided : fp.decided = (e.fps j).decided) : Balanced cfg (e.setFP j fp) :=
  { h with
    dispatched := by
      rw [fpTotal_same hj _ htaken]
      exact h.dispatched
    recorded := by
      rw [fpTotal_same hj _ hrecorded]
      exact h.recorded
    decided := by
      rw [fpTotal_same hj _ hdecided]
      exact h.decided }

theorem Balanced.stop (h : Balanced cfg e) (hs : e.stepMain cfg = some e')
    (hread : e.main.readAll = true) : Balanced cfg e' := by
  have hsame := sameWork_stop hs hread
  have hlb (w : LoadBalancer → UInt64) (hw : ∀ i, w (e'.lbs i) = w (e.lbs i)) :
      lbTotal cfg e' w = lbTotal cfg e w := Finset.sum_congr rfl fun i _ => hw i
  have hfp (w : FastPath → UInt64) (hw : ∀ j, w (e'.fps j) = w (e.fps j)) :
      fpTotal cfg e' w = fpTotal cfg e w := Finset.sum_congr rfl fun j _ => hw j
  refine ⟨?_, ?_, ?_, ?_⟩
  · rw [hsame.stats, hsame.held, hlb _ fun i => by
      rw [LoadBalancer.taken, LoadBalancer.passed, hsame.lbDispatched, hsame.lbThread,
        hsame.lbQueue]
      rfl]
    exact h.read
  · rw [hlb _ fun i => by
      rw [LoadBalancer.passed, hsame.lbDispatched, hsame.lbThread]
      rfl, hfp _ fun j => by
      rw [FastPath.taken, hsame.fpProcessed, hsame.fpThread, hsame.fpQueue]
      rfl]
    exact h.dispatched
  · rw [hsame.stats, hfp _ fun j => by
      rw [FastPath.recorded, hsame.fpProcessed, hsame.fpThread]
      rfl]
    exact h.recorded
  · rw [hsame.stats, hfp _ fun j => by
      rw [FastPath.decided, hsame.fpProcessed, hsame.fpThread]
      rfl]
    exact h.decided

/-- A packet is counted as forwarded or dropped. -/
theorem count_thread (fp : FastPath) {pkt : Packet} {blocked : Bool}
    (h : fp.thread = .count pkt blocked) (thread : FPThread) (hprocess : thread.unprocessed = 0)
    (hrecord : thread.unrecorded = 0) (hcount : thread.uncounted = 0) :
    ({ fp with thread := thread } : FastPath).taken = fp.taken ∧
      ({ fp with thread := thread } : FastPath).recorded = fp.recorded ∧
      ({ fp with thread := thread } : FastPath).decided = fp.decided + 1 := by
  unfold FastPath.taken FastPath.recorded FastPath.decided
  rw [h, hprocess, hrecord, hcount]
  simp [FPThread.unprocessed, FPThread.unrecorded, FPThread.uncounted]

/-- A thread that moves on where it has nothing to count. -/
theorem Balanced.moveFP (h : Balanced cfg e) {j : ℕ} (hj : j < cfg.fps) {thread : FPThread}
    (hprocess : thread.unprocessed = (e.fps j).thread.unprocessed)
    (hrecord : thread.unrecorded = (e.fps j).thread.unrecorded)
    (hcount : thread.uncounted = (e.fps j).thread.uncounted) :
    Balanced cfg (e.setFP j { e.fps j with thread := thread }) := by
  apply h.setFP hj
  · rw [FastPath.taken, hprocess]
    rfl
  · rw [FastPath.recorded, hrecord]
    rfl
  · rw [FastPath.decided, hcount]
    rfl

section Threads

open ThreadSafeQueue

theorem Balanced.step_main (h : Balanced cfg e) (hc : Control cfg e)
    (hmove : Move cfg rules e .main e') : Balanced cfg e' := by
  cases hmove with
  | readEnd hm => exact { h with read := by rw [h.read, hm]; rfl }
  | read pkt rest hm =>
    refine { h with read := ?_, recorded := ?_, decided := ?_ }
    · have hread := h.read
      rw [hm] at hread
      rw [Stats.read_totalPackets, hread]
      exact UInt64.add_assoc ..
    · rw [Stats.read_appCounts]
      exact h.recorded
    · rw [Stats.read_forwarded, Stats.read_dropped]
      exact h.decided
  | readPush pkt rest i queue hm hpos hi hq =>
    have hlt : i < cfg.lbs := by
      rw [hi]
      exact Nat.mod_lt _ hpos
    have htaken : ({ e.lbs i with inputQueue := queue } : LoadBalancer).taken =
        (e.lbs i).taken + 1 := by
      rw [LoadBalancer.taken, (push_eq_some hq).2 (hc.lbOpen (by rw [hm]; rfl) i),
        ← List.append_assoc, List.length_append, UInt64.ofNat_add, ← add_assoc]
      rfl
    have hpassed : ({ e.lbs i with inputQueue := queue } : LoadBalancer).passed =
        (e.lbs i).passed + 0 := (add_zero _).symm
    refine { h with read := ?_, dispatched := ?_ }
    · have hread := h.read
      rw [hm] at hread
      change _ = lbTotal cfg (e.setLB i { e.lbs i with inputQueue := queue }) _ + _
      rw [lbTotal_setLB hlt htaken]
      exact hread.trans (add_zero _).symm
    · change lbTotal cfg (e.setLB i { e.lbs i with inputQueue := queue }) _ = _
      rw [lbTotal_setLB hlt hpassed, add_zero]
      exact h.dispatched
  | stop e' hm hread => exact h.stop hm hread

/-- A packet that is handed to a fast path. -/
theorem Balanced.dispatch (h : Balanced cfg e) {i j : ℕ} {pkt : Packet} {queue : TSQueue Packet}
    (hi : i < cfg.lbs) (hj : j < cfg.fps) (ht : (e.lbs i).thread = .dispatch pkt)
    (hqueue : queue.queue = (e.fps j).inputQueue.queue ++ [pkt]) :
    Balanced cfg ((e.setFP j { e.fps j with inputQueue := queue }).setLB i
      { e.lbs i with thread := .count }) := by
  have htaken : ({ e.fps j with inputQueue := queue } : FastPath).taken =
      (e.fps j).taken + 1 := by
    rw [FastPath.taken, hqueue, List.length_append, UInt64.ofNat_add, ← add_assoc]
    rfl
  have hpassed : ({ e.lbs i with thread := .count } : LoadBalancer).passed =
      (e.lbs i).passed + 1 := by
    unfold LoadBalancer.passed
    rw [ht]
    simp [LBThread.passed]
  have htaken' : ({ e.lbs i with thread := .count } : LoadBalancer).taken =
      (e.lbs i).taken + 0 := by
    unfold LoadBalancer.taken LoadBalancer.passed
    rw [ht]
    simp [LBThread.passed, LBThread.held, UInt64.ofNat_add]
    abel
  refine ⟨?_, ?_, ?_, ?_⟩
  · exact h.read.trans (congrArg (· + _) ((lbTotal_setLB hi htaken').trans (add_zero _)).symm)
  · refine (lbTotal_setLB hi hpassed).trans ?_
    rw [h.dispatched]
    exact (fpTotal_setFP hj htaken).symm
  · exact h.recorded.trans (fpTotal_same hj { e.fps j with inputQueue := queue } rfl).symm
  · exact h.decided.trans (fpTotal_same hj { e.fps j with inputQueue := queue } rfl).symm

theorem Balanced.step_lb {i : ℕ} (h : Balanced cfg e) (hc : Control cfg e)
    (hmove : Move cfg rules e (.lb i) e') : Balanced cfg e' := by
  cases hmove with
  | lbTest i hi ht =>
    apply h.setLB hi
    · unfold LoadBalancer.passed
      rw [ht]
      cases (e.lbs i).running <;> rfl
    · rw [ht]
      cases (e.lbs i).running <;> rfl
  | lbIdle i hi ht hq =>
    refine h.setLB hi ?_ (by rw [ht]; rfl)
    unfold LoadBalancer.passed
    rw [ht]
    rfl
  | lbPop i pkt queue hi ht hq =>
    refine h.setLB hi ?_ (by rw [ht, (popWithTimeout_eq_some hq).2]; rfl)
    unfold LoadBalancer.passed
    rw [ht]
    rfl
  | lbDispatch i j pkt queue hi ht hpos hj hq =>
    have hlt : j < cfg.fps := hj ▸ cfg.dispatch_lt hi hpos pkt
    exact h.dispatch hi hlt ht ((push_eq_some hq).2 (hc.fpOpen hi (by rw [ht]; exact nofun) j))
  | lbCount i hi ht =>
    apply h.setLB hi
    · unfold LoadBalancer.passed
      rw [ht]
      simp [LBThread.passed]
    · rw [ht]
      rfl

theorem Balanced.step_fp {j : ℕ} (h : Balanced cfg e) (hmove : Move cfg rules e (.fp j) e') :
    Balanced cfg e' := by
  cases hmove with
  | fpTest j hj ht =>
    apply h.moveFP hj <;> rw [ht] <;> cases (e.fps j).running <;> rfl
  | fpIdle j hj ht hq => exact h.moveFP hj (by rw [ht]; rfl) (by rw [ht]; rfl) (by rw [ht]; rfl)
  | fpPop j pkt queue hj ht hq =>
    apply h.setFP hj
    · unfold FastPath.taken
      rw [ht, (popWithTimeout_eq_some hq).2]
      simp [FPThread.unprocessed, UInt64.ofNat_add]
      abel
    · unfold FastPath.recorded
      rw [ht]
      rfl
    · unfold FastPath.decided
      rw [ht]
      rfl
  | fpProcess j pkt flow flows hj ht hp =>
    apply h.setFP hj
    · unfold FastPath.taken
      rw [ht]
      simp [FPThread.unprocessed]
    · unfold FastPath.recorded
      rw [ht]
      simp [FPThread.unrecorded]
    · unfold FastPath.decided
      rw [ht]
      simp [FPThread.uncounted]
  | fpRecord j pkt flow hj ht =>
    have hrecorded : ({ e.fps j with thread := .count pkt flow.blocked } : FastPath).recorded =
        (e.fps j).recorded + 1 := by
      unfold FastPath.recorded
      rw [ht]
      simp [FPThread.unrecorded]
    refine ⟨?_, ?_, ?_, ?_⟩
    · rw [Stats.recordApp_totalPackets]
      exact h.read
    · refine h.dispatched.trans (fpTotal_same hj _ ?_).symm
      unfold FastPath.taken
      rw [ht]
      rfl
    · rw [Stats.sum_recordApp, h.recorded]
      exact (fpTotal_setFP hj hrecorded).symm
    · rw [Stats.recordApp_forwarded, Stats.recordApp_dropped]
      refine h.decided.trans (fpTotal_same hj _ ?_).symm
      unfold FastPath.decided
      rw [ht]
      rfl
  | fpDrop j pkt hj ht =>
    obtain ⟨htaken, hrecorded, hdecided⟩ := count_thread (e.fps j) ht .test rfl rfl rfl
    exact
      { read := h.read
        dispatched := h.dispatched.trans (fpTotal_same hj _ htaken).symm
        recorded := h.recorded.trans (fpTotal_same hj _ hrecorded).symm
        decided := by
          refine Eq.trans ?_ (fpTotal_setFP hj hdecided).symm
          rw [← h.decided]
          exact (add_assoc ..).symm }
  | fpForward j pkt hj ht =>
    obtain ⟨htaken, hrecorded, hdecided⟩ := count_thread (e.fps j) ht (.push pkt) rfl rfl rfl
    exact
      { read := h.read
        dispatched := h.dispatched.trans (fpTotal_same hj _ htaken).symm
        recorded := h.recorded.trans (fpTotal_same hj _ hrecorded).symm
        decided := by
          refine Eq.trans ?_ (fpTotal_setFP hj hdecided).symm
          rw [← h.decided]
          exact add_right_comm .. }
  | fpPush j pkt queue hj ht hq =>
    have hset : Balanced cfg (e.setFP j { e.fps j with thread := .test }) :=
      h.moveFP hj (by rw [ht]; rfl) (by rw [ht]; rfl) (by rw [ht]; rfl)
    exact { hset with }

end Threads

theorem Balanced.step (h : Balanced cfg e) (hc : Control cfg e)
    (hs : Step cfg rules e l e') : Balanced cfg e' := by
  have hmove := hs.move
  cases l with
  | main => exact h.step_main hc hmove
  | lb i => exact h.step_lb hc hmove
  | fp j => exact h.step_fp hmove
  | output => cases hmove <;> exact { h with }

end Engine

/-! ## What is read -/

/-- The figures about the input are those of these packets. -/
structure Stats.Counts (stats : Stats) (pkts : List Packet) : Prop where
  totalPackets : stats.totalPackets = UInt64.ofNat pkts.length
  totalBytes : stats.totalBytes = UInt64.ofNat (pkts.map fun pkt => pkt.data.length).sum
  tcpPackets : stats.tcpPackets = UInt64.ofNat (pkts.countP fun pkt => pkt.tuple.protocol == 6)
  udpPackets : stats.udpPackets = UInt64.ofNat (pkts.countP fun pkt => pkt.tuple.protocol != 6)

theorem Stats.Counts.read {stats : Stats} {pkts : List Packet} (h : stats.Counts pkts)
    (pkt : Packet) : (stats.read pkt).Counts (pkts ++ [pkt]) := by
  have hbytes : (stats.read pkt).totalBytes =
      stats.totalBytes + UInt64.ofNat pkt.data.length := by
    unfold Stats.read
    split_ifs <;> rfl
  refine ⟨?_, ?_, ?_, ?_⟩
  · rw [read_totalPackets, h.totalPackets, List.length_append, UInt64.ofNat_add]
    rfl
  · rw [hbytes, h.totalBytes, List.map_append, List.sum_append, UInt64.ofNat_add]
    simp
  · rw [List.countP_append, UInt64.ofNat_add, ← h.tcpPackets, Stats.read]
    split_ifs with hproto <;> simp [hproto]
  · rw [List.countP_append, UInt64.ofNat_add, ← h.udpPackets, Stats.read]
    split_ifs with hproto <;> simp [hproto]

theorem Stats.Counts.recordApp {stats : Stats} {pkts : List Packet} (h : stats.Counts pkts)
    (app : AppType) (sni : Str) : (stats.recordApp app sni).Counts pkts := by
  unfold Stats.recordApp
  split_ifs <;> exact { h with }

namespace Engine

variable {cfg : Config} {rules : Rules} {e e' : Engine} {l : Label}

theorem Move.counts {pkts : List Packet} (h : Move cfg rules e l e') (hI : e.stats.Counts pkts) :
    e'.stats.Counts (pkts ++ readBy ⟨e, l, e'⟩) := by
  have hsame (hnone : readBy ⟨e, l, e'⟩ = []) (hI' : e'.stats.Counts pkts) :
      e'.stats.Counts (pkts ++ readBy ⟨e, l, e'⟩) := by
    rwa [hnone, List.append_nil]
  cases h with
  | readEnd h => exact hsame (by simp [readBy, h]) hI
  | read pkt rest h =>
    have hone : readBy ⟨e, .main, { e with
        main := .pushing pkt rest, stats := e.stats.read pkt }⟩ = [pkt] := by simp [readBy, h]
    rw [hone]
    exact hI.read pkt
  | readPush pkt rest i queue h hpos hi hq => exact hsame (by simp [readBy, h]) hI
  | stop e' h hread =>
    refine hsame ?_ ((sameWork_stop h hread).stats ▸ hI)
    unfold readBy
    split
    · next hmain => rw [hmain] at hread; cases hread
    · rfl
  | fpRecord j pkt flow hj h => exact hsame rfl (hI.recordApp flow.appType flow.sni)
  | fpDrop j pkt hj h => exact hsame rfl { hI with }
  | fpForward j pkt hj h => exact hsame rfl { hI with }
  | _ => exact hsame rfl hI

end Engine

/-! ## What is listed -/

/-- A flow with a name has the application of this name, and keeps both. -/
def FlowEntry.Named (flow : FlowEntry) : Prop :=
  flow.sni ≠ [] → flow.classified = true ∧ flow.appType = sniToAppType flow.sni

theorem FlowEntry.named_receive {rules : Rules} {flow flow' : FlowEntry} {pkt : Packet}
    (h : flow.Named) (hflow : flow.receive rules pkt = .ok flow') :
    flow'.Named ∧ (flow.sni ≠ [] → flow'.sni = flow.sni) := by
  obtain ⟨name, hname⟩ := defined_extractName pkt
  rw [receive_eq hname] at hflow
  cases hflow
  have hsni : (flow.count pkt).sni = flow.sni := by rw [count_eq]
  have happ : (flow.count pkt).appType = flow.appType := by rw [count_eq]
  have hclassified : (flow.count pkt).classified = flow.classified := by rw [count_eq]
  rw [judge_eq]
  unfold next
  split_ifs with hc
  · refine ⟨fun hne => ?_, fun _ => hsni⟩
    have hold := h (hsni ▸ hne)
    exact ⟨hc, happ.trans (hold.2.trans (congrArg _ hsni.symm))⟩
  · have hempty : flow.sni = [] := by
      by_contra hne
      exact hc (hclassified.trans (h hne).1)
    refine ⟨?_, fun hne => absurd hempty hne⟩
    cases name with
    | none =>
      intro hne
      refine absurd ?_ hne
      simp only [Option.elim, unnamed]
      split_ifs <;> exact hsni.trans hempty
    | some n => exact fun _ => ⟨rfl, rfl⟩

namespace Engine

variable {cfg : Config} {rules : Rules} {e e' : Engine} {l : Label}

/-- Some fast path has a flow with the name. -/
def HasFlow (cfg : Config) (e : Engine) (name : Str) : Prop :=
  ∃ j < cfg.fps, ∃ t, ((e.fps j).flows.at t).sni = name

/-- Some fast path is about to record the name. -/
def Pending (cfg : Config) (e : Engine) (name : Str) : Prop :=
  ∃ j < cfg.fps, ∃ pkt flow, (e.fps j).thread = .record pkt flow ∧ flow.sni = name

/-- The names that are listed are those of the flows, up to those that are about to be recorded. -/
structure Listed (cfg : Config) (e : Engine) : Prop where
  flows : ∀ j t, ((e.fps j).flows.at t).Named
  pending : ∀ j pkt flow, (e.fps j).thread = .record pkt flow →
    (e.fps j).flows.at pkt.tuple = flow
  entries : ∀ name app, e.stats.detectedSnis.lookup name = some app →
    name ≠ [] ∧ app = sniToAppType name
  listed : ∀ name, name ≠ [] →
    (e.HasFlow cfg name ↔ name ∈ e.stats.detectedSnis ∨ e.Pending cfg name)

theorem listed_start (cfg : Config) (input : List Packet) : Listed cfg (start input) where
  flows := fun _ _ h => absurd rfl h
  pending := fun _ _ _ h => by cases h
  entries := fun _ _ h => by cases h
  listed := fun name hne => by
    refine iff_of_false ?_ ?_
    · rintro ⟨j, -, t, ht⟩
      exact hne ht.symm
    · rintro (hmem | ⟨j, -, pkt, flow, ht, -⟩)
      · exact Finmap.notMem_empty hmem
      · cases ht

/-- A step that leaves the flows, the list and what is about to be recorded alone. -/
theorem Listed.of_same (h : Listed cfg e) (hflows : ∀ j, (e'.fps j).flows = (e.fps j).flows)
    (hthread : ∀ j pkt flow, (e'.fps j).thread = .record pkt flow ↔
      (e.fps j).thread = .record pkt flow)
    (hsnis : e'.stats.detectedSnis = e.stats.detectedSnis) : Listed cfg e' where
  flows := fun j => by rw [hflows]; exact h.flows j
  pending := fun j pkt flow ht => by
    rw [hflows]
    exact h.pending j pkt flow ((hthread j pkt flow).1 ht)
  entries := by rw [hsnis]; exact h.entries
  listed := fun name hne => by
    simp only [HasFlow, Pending, hflows, hthread, hsnis]
    exact h.listed name hne

/-- A step of a fast path that neither decides nor records. -/
theorem Listed.setFP (h : Listed cfg e) {j : ℕ} {fp : FastPath}
    (hflows : fp.flows = (e.fps j).flows)
    (hold : ∀ pkt flow, (e.fps j).thread ≠ .record pkt flow)
    (hnew : ∀ pkt flow, fp.thread ≠ .record pkt flow) : Listed cfg (e.setFP j fp) := by
  refine h.of_same (fun k => ?_) (fun k pkt flow => ?_) rfl
  · rw [setFP_fps]
    split_ifs with hk
    · rw [hk, hflows]
    · rfl
  · rw [setFP_fps]
    split_ifs with hk
    · rw [hk]
      exact iff_of_false (hnew pkt flow) (hold pkt flow)
    · rfl

theorem Listed.process (h : Listed cfg e) {j : ℕ} (hj : j < cfg.fps) {pkt : Packet}
    {flow : FlowEntry} {flows : Flows} (ht : (e.fps j).thread = .process pkt)
    (hp : (e.fps j).flows.receive rules pkt = .ok (flow, flows)) (processed : UInt64) :
    Listed cfg (e.setFP j { e.fps j with
      flows := flows
      thread := .record pkt flow
      processed := processed }) := by
  obtain ⟨f, hf, hret⟩ := bind_eq_ok_iff.1 hp
  cases hret
  obtain ⟨hnamed, hkept⟩ := FlowEntry.named_receive (h.flows j pkt.tuple) hf
  have hat (k : ℕ) (t : FiveTuple) :
      ((e.setFP j { e.fps j with
        flows := (e.fps j).flows.insert pkt.tuple flow
        thread := .record pkt flow
        processed := processed }).fps k).flows.at t =
      if k = j ∧ t = pkt.tuple then flow else (e.fps k).flows.at t := by
    rw [setFP_fps]
    by_cases hk : k = j
    · rw [if_pos hk, Flows.at_insert, Function.update_apply]
      simp only [hk, true_and]
    · rw [if_neg hk, if_neg fun hx => hk hx.1]
  have hthread (k : ℕ) (hk : k ≠ j) :
      ((e.setFP j { e.fps j with
        flows := (e.fps j).flows.insert pkt.tuple flow
        thread := .record pkt flow
        processed := processed }).fps k).thread = (e.fps k).thread := by
    rw [setFP_fps, if_neg hk]
  have hlift {name : Str} (hne : name ≠ []) (hold : e.HasFlow cfg name) :
      (e.setFP j { e.fps j with
        flows := (e.fps j).flows.insert pkt.tuple flow
        thread := .record pkt flow
        processed := processed }).HasFlow cfg name := by
    obtain ⟨k, hk, t, rfl⟩ := hold
    refine ⟨k, hk, t, ?_⟩
    rw [hat]
    split_ifs with heq
    · obtain ⟨rfl, rfl⟩ := heq
      exact hkept hne
    · rfl
  refine ⟨fun k t => ?_, fun k p f hk => ?_, h.entries, fun name hne => ⟨?_, ?_⟩⟩
  · rw [hat]
    split_ifs
    · exact hnamed
    · exact h.flows k t
  · rw [hat]
    by_cases hkj : k = j
    · subst hkj
      rw [setFP_fps, if_pos rfl] at hk
      cases hk
      exact if_pos ⟨rfl, rfl⟩
    · rw [if_neg fun hx => hkj hx.1]
      exact h.pending k p f ((hthread k hkj).symm.trans hk)
  · rintro ⟨k, hk, t, hkt⟩
    rw [hat] at hkt
    split_ifs at hkt with heq
    · exact Or.inr ⟨j, hj, pkt, flow, by rw [setFP_fps, if_pos rfl], hkt⟩
    · refine ((h.listed name hne).1 ⟨k, hk, t, hkt⟩).imp id ?_
      rintro ⟨k', hk', p, f, hpend, hname⟩
      have hkj : k' ≠ j := by
        rintro rfl
        rw [ht] at hpend
        cases hpend
      exact ⟨k', hk', p, f, (hthread k' hkj).trans hpend, hname⟩
  · rintro (hmem | ⟨k, hk, p, f, hp, hf⟩)
    · exact hlift hne ((h.listed name hne).2 (Or.inl hmem))
    · by_cases hkj : k = j
      · subst hkj
        rw [setFP_fps, if_pos rfl] at hp
        cases hp
        exact ⟨k, hk, pkt.tuple, by rw [hat, if_pos ⟨rfl, rfl⟩]; exact hf⟩
      · refine hlift hne ((h.listed name hne).2 (Or.inr ?_))
        exact ⟨k, hk, p, f, (hthread k hkj).symm.trans hp, hf⟩

theorem Listed.record (h : Listed cfg e) {j : ℕ} (hj : j < cfg.fps) {pkt : Packet}
    {flow : FlowEntry} (ht : (e.fps j).thread = .record pkt flow) (blocked : Bool) :
    Listed cfg { e.setFP j { e.fps j with thread := .count pkt blocked } with
      stats := e.stats.recordApp flow.appType flow.sni } := by
  have hnamed : flow.Named := h.pending j pkt flow ht ▸ h.flows j pkt.tuple
  have hflows (k : ℕ) :
      ((e.setFP j { e.fps j with thread := .count pkt blocked }).fps k).flows =
        (e.fps k).flows := by
    rw [setFP_fps]
    split_ifs with hk
    · rw [hk]
    · rfl
  have hmem (name : Str) (hne : name ≠ []) :
      name ∈ (e.stats.recordApp flow.appType flow.sni).detectedSnis ↔
        name = flow.sni ∨ name ∈ e.stats.detectedSnis := by
    unfold Stats.recordApp
    split_ifs with hempty
    · rw [List.isEmpty_iff] at hempty
      rw [or_iff_right (fun heq => hne (heq.trans hempty))]
    · exact Finmap.mem_insert
  refine ⟨fun k t => ?_, fun k p f hk => ?_, fun name app hlookup => ?_, fun name hne => ?_⟩
  · rw [hflows]
    exact h.flows k t
  · rw [hflows]
    by_cases hkj : k = j
    · subst hkj
      rw [setFP_fps, if_pos rfl] at hk
      cases hk
    · rw [setFP_fps, if_neg hkj] at hk
      exact h.pending k p f hk
  · unfold Stats.recordApp at hlookup
    split_ifs at hlookup with hempty
    · exact h.entries name app hlookup
    · have hne : flow.sni ≠ [] := by rwa [List.isEmpty_iff] at hempty
      by_cases heq : name = flow.sni
      · subst heq
        rw [Finmap.lookup_insert] at hlookup
        cases hlookup
        exact ⟨hne, (hnamed hne).2⟩
      · rw [Finmap.lookup_insert_of_ne _ heq] at hlookup
        exact h.entries name app hlookup
  · have hpending : e.Pending cfg name ↔
        name = flow.sni ∨ ({ e.setFP j { e.fps j with thread := .count pkt blocked } with
          stats := e.stats.recordApp flow.appType flow.sni } : Engine).Pending cfg name := by
      constructor
      · rintro ⟨k, hk, p, f, hpend, hname⟩
        by_cases hkj : k = j
        · subst hkj
          rw [ht] at hpend
          cases hpend
          exact Or.inl hname.symm
        · exact Or.inr ⟨k, hk, p, f, by rw [setFP_fps, if_neg hkj, hpend], hname⟩
      · rintro (heq | ⟨k, hk, p, f, hpend, hname⟩)
        · exact ⟨j, hj, pkt, flow, ht, heq.symm⟩
        · by_cases hkj : k = j
          · subst hkj
            rw [setFP_fps, if_pos rfl] at hpend
            cases hpend
          · rw [setFP_fps, if_neg hkj] at hpend
            exact ⟨k, hk, p, f, hpend, hname⟩
    have hold := h.listed name hne
    rw [hpending] at hold
    simp only [HasFlow, hflows]
    rw [hmem name hne, or_comm (a := name = flow.sni), or_assoc]
    exact hold

theorem Move.listed (h : Move cfg rules e l e') (hI : Listed cfg e) : Listed cfg e' := by
  cases h with
  | stop e' h hread =>
    have hsame := sameWork_stop h hread
    exact hI.of_same hsame.fpFlows (fun j pkt flow => by rw [hsame.fpThread])
      (congrArg Stats.detectedSnis hsame.stats)
  | read pkt rest h =>
    refine hI.of_same (fun _ => rfl) (fun _ _ _ => Iff.rfl) ?_
    change (e.stats.read pkt).detectedSnis = _
    unfold Stats.read
    split_ifs <;> rfl
  | lbDispatch i j pkt queue hi h hpos hj hq =>
    have hfps (k : ℕ) :
        ((e.setFP j { e.fps j with inputQueue := queue }).fps k).flows = (e.fps k).flows ∧
        ((e.setFP j { e.fps j with inputQueue := queue }).fps k).thread = (e.fps k).thread := by
      rw [setFP_fps]
      split_ifs with hk
      · rw [hk]
        exact ⟨rfl, rfl⟩
      · exact ⟨rfl, rfl⟩
    refine hI.of_same (fun k => (hfps k).1) (fun k pkt flow => ?_) rfl
    exact iff_of_eq (congrArg (· = _) (hfps k).2)
  | fpTest j hj h =>
    refine hI.setFP rfl (by rw [h]; nofun) ?_
    cases (e.fps j).running <;> nofun
  | fpIdle j hj h hq => exact hI.setFP rfl (by rw [h]; nofun) nofun
  | fpPop j pkt queue hj h hq => exact hI.setFP rfl (by rw [h]; nofun) nofun
  | fpProcess j pkt flow flows hj h hp => exact hI.process hj h hp _
  | fpRecord j pkt flow hj h => exact hI.record hj h flow.blocked
  | fpDrop j pkt hj h =>
    have hset : Listed cfg (e.setFP j { e.fps j with thread := .test }) :=
      hI.setFP rfl (by rw [h]; nofun) nofun
    exact hset.of_same (fun _ => rfl) (fun _ _ _ => Iff.rfl) rfl
  | fpForward j pkt hj h =>
    have hset : Listed cfg (e.setFP j { e.fps j with thread := .push pkt }) :=
      hI.setFP rfl (by rw [h]; nofun) nofun
    exact hset.of_same (fun _ => rfl) (fun _ _ _ => Iff.rfl) rfl
  | fpPush j pkt queue hj h hq =>
    have hset : Listed cfg (e.setFP j { e.fps j with thread := .test }) :=
      hI.setFP rfl (by rw [h]; nofun) nofun
    exact hset.of_same (fun _ => rfl) (fun _ _ _ => Iff.rfl) rfl
  | _ => exact hI.of_same (fun _ => rfl) (fun _ _ _ => Iff.rfl) rfl

/-- What the steps taken so far say of the figures. -/
structure Reported (cfg : Config) (input : List Packet) (ts : List (Taken Engine Label))
    (e : Engine) : Prop where
  control : Control cfg e
  draining : Draining cfg e
  balanced : Balanced cfg e
  listed : Listed cfg e
  counts : e.stats.Counts (ts.flatMap readBy)
  read : ts.flatMap readBy ++ e.main.rest = input

theorem reported_start (cfg : Config) (input : List Packet) :
    Reported cfg input [] (start input) :=
  ⟨control_start cfg input, draining_start cfg input, balanced_start cfg input,
    listed_start cfg input, ⟨rfl, rfl, rfl, rfl⟩, rfl⟩

theorem Reported.step {input : List Packet} {ts : List (Taken Engine Label)}
    (h : Reported cfg input ts e) (hs : Step cfg rules e l e') :
    Reported cfg input (ts ++ [⟨e, l, e'⟩]) e' where
  control := h.control.step hs
  draining := h.draining.step hs
  balanced := h.balanced.step h.control hs
  listed := hs.move.listed h.listed
  counts := by
    rw [List.flatMap_append, List.flatMap_singleton]
    exact hs.move.counts h.counts
  read := by
    rw [List.flatMap_append, List.flatMap_singleton, List.append_assoc, hs.move.readBy_rest,
      h.read]

/-- The figures of a report on a file with the given packets. -/
structure Report (cfg : Config) (input : List Packet) (e : Engine) : Prop where
  counts : e.stats.Counts input
  read : e.stats.totalPackets = ∑ i ∈ Finset.range cfg.lbs,
    ((e.lbs i).dispatched + UInt64.ofNat (e.lbs i).inputQueue.queue.length)
  dispatched : ∑ i ∈ Finset.range cfg.lbs, (e.lbs i).dispatched =
    ∑ j ∈ Finset.range cfg.fps,
      ((e.fps j).processed + UInt64.ofNat (e.fps j).inputQueue.queue.length)
  processed : ∑ j ∈ Finset.range cfg.fps, (e.fps j).processed =
    e.stats.forwarded + e.stats.dropped
  apps : e.stats.appCounts.sum id = e.stats.forwarded + e.stats.dropped
  snis : ∀ name app, e.stats.detectedSnis.lookup name = some app ↔
    name ≠ [] ∧ app = sniToAppType name ∧
      ∃ j < cfg.fps, ∃ t, ((e.fps j).flows.at t).sni = name

end Engine

open Mt.Engine

/-- In every run, for any numbers of load balancers and fast paths, the figures that are printed
once the threads are joined agree: the packets read are those that the load balancers dispatched or
left in their queues, the packets dispatched are those that the fast paths processed or left in
theirs, the packets processed are those forwarded or dropped, which are those of all applications,
and the names listed are those of the flows, each with its application. -/
theorem report_balanced {cfg : Config} {rules : Rules} {input : List Packet}
    {ts : List (Taken Engine Label)} {e : Engine}
    (hrun : Run (Step cfg rules) (start input) ts e) (hret : e.main = .returned) :
    Report cfg input e := by
  obtain ⟨hc, hd, hb, hl, hcounts, hread⟩ := hrun.history (Reported cfg input)
    (fun _ _ _ _ hs h => h.step hs) (reported_start cfg input)
  rw [List.nil_append] at hcounts hread
  have hlbs : ∀ i < cfg.lbs, (e.lbs i).thread = .exited := by
    intro i hi
    exact hc.lbExited i (by rw [hret]; exact hi)
  have hfps : ∀ j < cfg.fps, (e.fps j).thread = .exited := by
    intro j hj
    exact hd.fpExited j (by rw [hret]; exact hj)
  have hlbTotal (w w' : LoadBalancer → UInt64)
      (hw : ∀ lb : LoadBalancer, lb.thread = .exited → w lb = w' lb) :
      lbTotal cfg e w = ∑ i ∈ Finset.range cfg.lbs, w' (e.lbs i) :=
    Finset.sum_congr rfl fun i hi => hw _ (hlbs i (Finset.mem_range.1 hi))
  have hfpTotal (w w' : FastPath → UInt64)
      (hw : ∀ fp : FastPath, fp.thread = .exited → w fp = w' fp) :
      fpTotal cfg e w = ∑ j ∈ Finset.range cfg.fps, w' (e.fps j) :=
    Finset.sum_congr rfl fun j hj => hw _ (hfps j (Finset.mem_range.1 hj))
  have hpassed := hlbTotal LoadBalancer.passed LoadBalancer.dispatched
    fun lb hlb => by simp [LoadBalancer.passed, hlb, LBThread.passed]
  have hlbTaken := hlbTotal LoadBalancer.taken
    (fun lb => lb.dispatched + UInt64.ofNat lb.inputQueue.queue.length)
    fun lb hlb => by simp [LoadBalancer.taken, LoadBalancer.passed, hlb, LBThread.passed,
      LBThread.held]
  have hfpTaken := hfpTotal FastPath.taken
    (fun fp => fp.processed + UInt64.ofNat fp.inputQueue.queue.length)
    fun fp hfp => by simp [FastPath.taken, hfp, FPThread.unprocessed]
  have hdecided := hfpTotal FastPath.decided FastPath.processed
    fun fp hfp => by simp [FastPath.decided, hfp, FPThread.uncounted]
  have hrecorded := hfpTotal FastPath.recorded FastPath.processed
    fun fp hfp => by simp [FastPath.recorded, hfp, FPThread.unrecorded]
  refine ⟨?_, ?_, ?_, ?_, ?_, ?_⟩
  · rw [hret] at hread
    rw [← hread]
    exact (List.append_nil (ts.flatMap readBy)).symm ▸ hcounts
  · rw [hb.read, hret, ← hlbTaken]
    exact add_zero _
  · rw [← hpassed, hb.dispatched, ← hfpTaken]
  · rw [← hdecided, hb.decided]
  · rw [hb.recorded, hb.decided, hrecorded, hdecided]
  · intro name app
    have hnone : ¬ e.Pending cfg name := by
      rintro ⟨j, hj, pkt, flow, ht, -⟩
      rw [hfps j hj] at ht
      cases ht
    constructor
    · intro hlookup
      obtain ⟨hne, happ⟩ := hl.entries name app hlookup
      exact ⟨hne, happ, (hl.listed name hne).2 (Or.inl (Finmap.mem_iff.2 ⟨app, hlookup⟩))⟩
    · rintro ⟨hne, rfl, hflow⟩
      obtain ⟨app, hlookup⟩ := Finmap.mem_iff.1 (((hl.listed name hne).1 hflow).resolve_right hnone)
      rw [hlookup, (hl.entries name app hlookup).2]

theorem report_balanced_visits :
    ∃ ts e, Run (Step twoByTwo badBlocked) (start visits) ts e ∧ e.main = .returned ∧
      e.written = [allowedRequest, firstByte] ∧ Report twoByTwo visits e := by
  obtain ⟨ts, e, hrun, hret, -, -, hwritten⟩ := exists_run_visits
  exact ⟨ts, e, hrun, hret, hwritten, report_balanced hrun hret⟩

end DPI.Mt
