import DpiEngine.Control
import DpiEngine.Lib.Network

/-!
# The pipeline as a routing network

The queues and the packets in the hands of the threads form a routing network: the reader is its
source, the load balancers its first row, the fast paths its workers and the output file its sink.
Every step of the engine is a step of the network or moves no packet.
-/

namespace DPI

open Bytes FastPathProcessor

/-- The network a configuration builds: jobs go to workers by the two stages of routing, and only
those that are not dropped pass. -/
def Config.shape (cfg : Config) : Network.Shape PacketJob PacketAction where
  worker := fun job => worker cfg.numLoadBalancers cfg.fpsPerLb job.tuple
  dispatcher := fun w => w / cfg.fpsPerLb
  passes := fun action => action != .drop

def ReaderThread.held : ReaderThread → List PacketJob
  | .pushing job _ => [job]
  | _ => []

/-- The packets still to be read. -/
def ReaderThread.rest : ReaderThread → List PacketJob
  | .reading rest => rest
  | .pushing _ rest => rest
  | .done => []

def LBThread.held : LBThread → List PacketJob
  | .dispatch job => [job]
  | _ => []

/-- A packet is held by its fast path until `handleOutput` has counted it. -/
def FPThread.held : FPThread → List PacketJob
  | .process job => [job]
  | .output job _ => [job]
  | _ => []

def FPThread.outbox : FPThread → List PacketJob
  | .push job _ => [job]
  | _ => []

def OutputThread.held : OutputThread → List PacketJob
  | .write job => [job]
  | _ => []

namespace Engine

variable {cfg : Config} {rm : RuleManager} {e e' : Engine} {l : Label}

def network (e : Engine) : Network PacketJob PacketAction where
  accepted := e.accepted
  source := e.reader.held
  first := fun i => (e.lbs i).thread.held ++ (e.lbs i).inputQueue.queue
  second := fun j => (e.fps j).thread.held ++ (e.fps j).inputQueue.queue
  handled := e.handled
  outbox := fun j => (e.fps j).thread.outbox
  sink := e.output.held ++ e.outputQueue.queue
  written := e.written

/-! ## The main thread moves no packet -/

/-- The packets, the flows and the program counters of the workers are as before, and flags are at
most cleared. -/
structure SameWork (e e' : Engine) : Prop where
  reader : e'.reader = e.reader
  lbRunning : ∀ i, (e'.lbs i).running = true → (e.lbs i).running = true
  lbThread : ∀ i, (e'.lbs i).thread = (e.lbs i).thread
  lbQueue : ∀ i, (e'.lbs i).inputQueue.queue = (e.lbs i).inputQueue.queue
  fpRunning : ∀ j, (e'.fps j).running = true → (e.fps j).running = true
  fpProcessor : ∀ j, (e'.fps j).processor = (e.fps j).processor
  fpThread : ∀ j, (e'.fps j).thread = (e.fps j).thread
  fpQueue : ∀ j, (e'.fps j).inputQueue.queue = (e.fps j).inputQueue.queue
  output : e'.output = e.output
  outputQueue : e'.outputQueue.queue = e.outputQueue.queue
  written : e'.written = e.written
  stats : e'.stats = e.stats
  accepted : e'.accepted = e.accepted
  handled : e'.handled = e.handled

theorem SameWork.refl (e : Engine) : SameWork e e :=
  ⟨rfl, fun _ => id, fun _ => rfl, fun _ => rfl, fun _ => id, fun _ => rfl, fun _ => rfl,
    fun _ => rfl, rfl, rfl, rfl, rfl, rfl, rfl⟩

theorem SameWork.lb_stopped {i : ℕ} (hs : SameWork e e') (h : (e.lbs i).running = false) :
    (e'.lbs i).running = false := by
  by_contra hne
  rw [hs.lbRunning i (by simpa using hne)] at h
  cases h

theorem SameWork.fp_stopped {j : ℕ} (hs : SameWork e e') (h : (e.fps j).running = false) :
    (e'.fps j).running = false := by
  by_contra hne
  rw [hs.fpRunning j (by simpa using hne)] at h
  cases h

theorem SameWork.setLB (e : Engine) (i : ℕ) (lb : LoadBalancer)
    (hrun : lb.running = true → (e.lbs i).running = true)
    (hthread : lb.thread = (e.lbs i).thread)
    (hqueue : lb.inputQueue.queue = (e.lbs i).inputQueue.queue) : SameWork e (e.setLB i lb) :=
  { SameWork.refl e with
    lbRunning := fun i' h => by
      rw [setLB_lbs] at h
      split_ifs at h with hi
      · exact hi ▸ hrun h
      · exact h
    lbThread := fun i' => by
      rw [setLB_lbs]
      split_ifs with hi
      · rw [hi, hthread]
      · rfl
    lbQueue := fun i' => by
      rw [setLB_lbs]
      split_ifs with hi
      · rw [hi, hqueue]
      · rfl }

theorem SameWork.setFP (e : Engine) (j : ℕ) (fp : FastPath)
    (hrun : fp.running = true → (e.fps j).running = true)
    (hprocessor : fp.processor = (e.fps j).processor) (hthread : fp.thread = (e.fps j).thread)
    (hqueue : fp.inputQueue.queue = (e.fps j).inputQueue.queue) : SameWork e (e.setFP j fp) :=
  { SameWork.refl e with
    fpRunning := fun j' h => by
      rw [setFP_fps] at h
      split_ifs at h with hj
      · exact hj ▸ hrun h
      · exact h
    fpProcessor := fun j' => by
      rw [setFP_fps]
      split_ifs with hj
      · rw [hj, hprocessor]
      · rfl
    fpThread := fun j' => by
      rw [setFP_fps]
      split_ifs with hj
      · rw [hj, hthread]
      · rfl
    fpQueue := fun j' => by
      rw [setFP_fps]
      split_ifs with hj
      · rw [hj, hqueue]
      · rfl }

theorem sameWork_stopLB {i : ℕ} {phase : StopPhase} (hs : e.stepStopLB cfg i phase = some e') :
    SameWork e e' := by
  unfold stepStopLB at hs
  split_ifs at hs
  · cases phase with
    | clear =>
      dsimp only at hs
      split_ifs at hs <;> cases hs
      · exact { SameWork.setLB e i { e.lbs i with running := false } nofun rfl rfl with }
      · exact { SameWork.refl e with }
    | shutdown =>
      cases hs
      exact { SameWork.setLB e i { e.lbs i with
        inputQueue := (e.lbs i).inputQueue.shutdown } id rfl rfl with }
    | join =>
      dsimp only at hs
      split at hs <;> cases hs
      exact { SameWork.refl e with }
  · cases hs
    exact { SameWork.refl e with }

theorem sameWork_stopFP {j : ℕ} {phase : StopPhase} (hs : e.stepStopFP cfg j phase = some e') :
    SameWork e e' := by
  unfold stepStopFP at hs
  split_ifs at hs
  · cases phase with
    | clear =>
      dsimp only at hs
      split_ifs at hs <;> cases hs
      · exact { SameWork.setFP e j { e.fps j with running := false } nofun rfl rfl rfl with }
      · exact { SameWork.refl e with }
    | shutdown =>
      cases hs
      exact { SameWork.setFP e j { e.fps j with
        inputQueue := (e.fps j).inputQueue.shutdown } id rfl rfl rfl with }
    | join =>
      dsimp only at hs
      split at hs <;> cases hs
      exact { SameWork.refl e with }
  · cases hs
    exact { SameWork.refl e with }

theorem sameWork_main (hs : e.stepMain cfg = some e') : SameWork e e' := by
  unfold stepMain at hs
  split at hs
  · split at hs <;> cases hs
    exact { SameWork.refl e with }
  · cases hs
    exact { SameWork.refl e with }
  · split_ifs at hs <;> cases hs <;> exact { SameWork.refl e with }
  · exact sameWork_stopLB hs
  · exact sameWork_stopFP hs
  · cases hs
    exact { SameWork.refl e with }
  · split at hs <;> cases hs
    exact { SameWork.refl e with }
  · cases hs
    exact { SameWork.refl e with }
  · cases hs

theorem SameWork.network (h : SameWork e e') : e'.network = e.network := by
  simp only [Engine.network, h.reader, h.lbThread, h.lbQueue, h.fpThread, h.fpQueue, h.output,
    h.outputQueue, h.written, h.accepted, h.handled]

/-! ## Each step is a step of the network -/

theorem network_setLB (e : Engine) (i : ℕ) (lb : LoadBalancer) :
    (e.setLB i lb).network = { e.network with
      first := Function.update e.network.first i (lb.thread.held ++ lb.inputQueue.queue) } := by
  simp only [network, setLB, Network.mk.injEq, true_and, and_true]
  funext i'
  rw [Function.update_apply, Function.update_apply]
  split_ifs <;> rfl

theorem network_setFP (e : Engine) (j : ℕ) (fp : FastPath) :
    (e.setFP j fp).network = { e.network with
      second := Function.update e.network.second j (fp.thread.held ++ fp.inputQueue.queue)
      outbox := Function.update e.network.outbox j fp.thread.outbox } := by
  simp only [network, setFP, Network.mk.injEq, true_and, and_true]
  constructor <;>
  · funext j'
    rw [Function.update_apply, Function.update_apply]
    split_ifs <;> rfl

theorem network_setLB_same {i : ℕ} {lb : LoadBalancer}
    (h : lb.thread.held ++ lb.inputQueue.queue =
      (e.lbs i).thread.held ++ (e.lbs i).inputQueue.queue) :
    (e.setLB i lb).network = e.network := by
  rw [network_setLB, h]
  exact congrArg (fun f => { e.network with first := f }) (Function.update_eq_self i _)

theorem network_setFP_same {j : ℕ} {fp : FastPath}
    (h : fp.thread.held ++ fp.inputQueue.queue =
      (e.fps j).thread.held ++ (e.fps j).inputQueue.queue)
    (hout : fp.thread.outbox = (e.fps j).thread.outbox) :
    (e.setFP j fp).network = e.network := by
  rw [network_setFP, h, hout]
  exact congrArg₂ (fun f g => { e.network with second := f, outbox := g })
    (Function.update_eq_self j _) (Function.update_eq_self j _)

/-- While the reader has a packet to push, the queues of the load balancers are in service. -/
theorem Control.lbOpen (h : Control cfg e) (hr : e.reader ≠ .done) (i : ℕ) :
    (e.lbs i).inputQueue.isShutdown = false := by
  by_contra hs
  exact h.lbShutdown i (by simpa using hs) (h.readerDone.resolve_right hr)

/-- While a load balancer runs, the queues of the fast paths are in service. -/
theorem Control.fpOpen (h : Control cfg e) {i : ℕ} (hi : i < cfg.numLoadBalancers)
    (ht : (e.lbs i).thread ≠ .exited) (j : ℕ) : (e.fps j).inputQueue.isShutdown = false := by
  by_contra hs
  exact ht (h.lbExited i (by rw [h.fpShutdown j (by simpa using hs)]; exact hi))

/-- While a fast path runs, the output queue is in service. -/
theorem Control.outputOpen (h : Control cfg e) {j : ℕ} (hj : j < cfg.totalFps)
    (ht : (e.fps j).thread ≠ .exited) : e.outputQueue.isShutdown = false := by
  by_contra hs
  exact ht (h.fpExited j (by rw [h.outputShutdown (by simpa using hs)]; exact hj))

/-- While the output thread runs, the output file is open. -/
theorem Control.fileIsOpen (h : Control cfg e) (ht : e.output ≠ .exited) :
    e.outputFileOpen = true :=
  h.fileOpen.resolve_right fun hj => ht (h.outputExited hj)

/-- The packets stay where they are, or move as in a step of the network. -/
def Relays (cfg : Config) (e e' : Engine) : Prop :=
  e'.network = e.network ∨ Network.Step cfg.shape e.network e'.network

section Threads

open ThreadSafeQueue

theorem Move.relays_reader (hc : Control cfg e) (hf : 0 < cfg.fpsPerLb)
    (h : Move cfg rm e .reader e') : Relays cfg e e' := by
  cases h with
  | readEnd h => exact Or.inl (by simp [Engine.network, h, ReaderThread.held])
  | read job rest h =>
    exact Or.inr (.accept e.network job (by simp [Engine.network, h, ReaderThread.held]))
  | readPush job rest i queue h hi hq =>
    have hqueue := (push_eq_some hq).2 (hc.lbOpen (by rw [h]; exact nofun) i)
    have hi' : cfg.shape.dispatcher (cfg.shape.worker job) = i := by
      rw [hi]
      exact worker_div hf job.tuple
    have hstep := Network.Step.dispatch (S := cfg.shape) e.network job
      (by simp [Engine.network, h, ReaderThread.held])
    rw [hi'] at hstep
    have hnet : ({ e.setLB i { e.lbs i with inputQueue := queue } with
        reader := .reading rest } : Engine).network =
        { e.network with
          source := []
          first := Function.update e.network.first i (e.network.first i ++ [job]) } := by
      have := network_setLB e i { e.lbs i with inputQueue := queue }
      rw [hqueue, ← List.append_assoc] at this
      exact congrArg (fun n : Network PacketJob PacketAction => { n with source := [] }) this
    exact Or.inr (hnet ▸ hstep)

theorem Move.relays_lb {i : ℕ} (hc : Control cfg e) (hord : Network.Ordered cfg.shape e.network)
    (hf : 0 < cfg.fpsPerLb) (h : Move cfg rm e (.lb i) e') : Relays cfg e e' := by
  cases h with
  | lbTest i hi h =>
    refine Or.inl (network_setLB_same ?_)
    rw [h]
    cases (e.lbs i).running <;> rfl
  | lbIdle i hi h => exact Or.inl (network_setLB_same (by rw [h]; rfl))
  | lbPop i job queue hi h hq =>
    refine Or.inl (network_setLB_same ?_)
    rw [h, (popWithTimeout_eq_some hq).2]
    rfl
  | lbDispatch i j job queue hi h hj hq =>
    have hqueue := (push_eq_some hq).2 (hc.fpOpen hi (by rw [h]; exact nofun) j)
    have hfirst : e.network.first i = job :: (e.lbs i).inputQueue.queue := by
      simp [Engine.network, h, LBThread.held]
    have hj' : cfg.shape.worker job = j := by
      have hroute : getLBForPacket cfg.numLoadBalancers job.tuple = i := by
        rw [← worker_div hf]
        exact hord.first_routed i job (by simp [hfirst])
      rw [getElem?_lbFpQueues hf, ← hroute] at hj
      exact Option.some.inj hj
    have hstep := Network.Step.assign (S := cfg.shape) e.network i job _ hfirst
    rw [hj'] at hstep
    have houtbox : Function.update e.network.outbox j (e.fps j).thread.outbox =
        e.network.outbox := Function.update_eq_self j _
    rw [Relays, network_setLB, network_setFP, hqueue, ← List.append_assoc, houtbox]
    exact Or.inr hstep

theorem Move.relays_fp {j : ℕ} {env : Env} (hc : Control cfg e)
    (h : Move cfg rm e (.fp j env) e') : Relays cfg e e' := by
  cases h with
  | fpTest j env hj h =>
    refine Or.inl (network_setFP_same ?_ ?_) <;> rw [h] <;> cases (e.fps j).running <;> rfl
  | fpIdle j env hj h => exact Or.inl (network_setFP_same (by rw [h]; rfl) (by rw [h]; rfl))
  | fpPop j env job queue hj h hq =>
    refine Or.inl (network_setFP_same ?_ (by rw [h]; rfl))
    rw [h, (popWithTimeout_eq_some hq).2]
    rfl
  | fpProcess j env job action processor hj h hp =>
    exact Or.inl (network_setFP_same (by rw [h]; rfl) (by rw [h]; rfl))
  | fpOutput j env job action hj h =>
    have hsecond : e.network.second j = job :: (e.fps j).inputQueue.queue := by
      simp [Engine.network, h, FPThread.held]
    have houtbox : e.network.outbox j = [] := by simp [Engine.network, h, FPThread.outbox]
    have hstep := Network.Step.handle (S := cfg.shape) e.network j job action _ hsecond
    rw [houtbox] at hstep
    rw [Relays, network_setFP]
    by_cases hact : action = .drop
    · subst hact
      have hempty : Function.update e.network.outbox j [] = e.network.outbox := by
        rw [← houtbox]
        exact Function.update_eq_self j _
      rw [if_neg (show ¬ cfg.shape.passes .drop = true by simp [Config.shape]), ← hempty] at hstep
      exact Or.inr hstep
    · rw [if_neg hact]
      rw [if_pos (show cfg.shape.passes action = true by simpa [Config.shape] using hact)] at hstep
      exact Or.inr hstep
  | fpPush j env job action queue hj h hq =>
    have hqueue := (push_eq_some hq).2 (hc.outputOpen hj (by rw [h]; exact nofun))
    have houtbox : e.network.outbox j = [job] := by simp [Engine.network, h, FPThread.outbox]
    have hstep := Network.Step.emit (S := cfg.shape) e.network j job [] houtbox
    have hsecond : Function.update e.network.second j (e.fps j).inputQueue.queue =
        e.network.second := by
      refine Eq.trans ?_ (Function.update_eq_self j _)
      simp [Engine.network, h, FPThread.held]
    have hnet : ({ e.setFP j { e.fps j with thread := .count action } with
        outputQueue := queue } : Engine).network =
        { e.network with
          outbox := Function.update e.network.outbox j []
          sink := e.network.sink ++ [job] } := by
      have hset := network_setFP e j { e.fps j with thread := .count action }
      rw [show (FPThread.count action).held = [] from rfl, List.nil_append, hsecond] at hset
      refine (congrArg (fun n : Network PacketJob PacketAction => { n with
        sink := e.output.held ++ queue.queue }) hset).trans ?_
      rw [hqueue, ← List.append_assoc]
      rfl
    exact Or.inr (hnet ▸ hstep)
  | fpCount j env action processor hj h hp =>
    exact Or.inl (network_setFP_same (by rw [h]; rfl) (by rw [h]; rfl))

theorem Move.relays_output (hc : Control cfg e) (h : Move cfg rm e .output e') :
    Relays cfg e e' := by
  cases h with
  | outputTest h =>
    apply Or.inl
    simp only [Engine.network, h]
    cases e.running <;> rfl
  | outputEmpty h =>
    apply Or.inl
    simp only [Engine.network, h]
    cases e.outputQueue.empty <;> rfl
  | outputIdle h => exact Or.inl (by simp only [Engine.network, h]; rfl)
  | outputPop job queue h hq =>
    apply Or.inl
    simp only [Engine.network, h, (popWithTimeout_eq_some hq).2]
    rfl
  | outputWrite job h =>
    have hopen := hc.fileIsOpen (by rw [h]; exact nofun)
    have hsink : e.network.sink = job :: e.outputQueue.queue := by
      simp [Engine.network, h, OutputThread.held]
    have hstep := Network.Step.write (S := cfg.shape) e.network job _ hsink
    rw [if_pos hopen]
    exact Or.inr hstep

end Threads

theorem Move.network (hc : Control cfg e) (hord : Network.Ordered cfg.shape e.network)
    (hf : 0 < cfg.fpsPerLb) (h : Move cfg rm e l e') : Relays cfg e e' := by
  cases l with
  | reader => exact h.relays_reader hc hf
  | lb i => exact h.relays_lb hc hord hf
  | fp j env => exact h.relays_fp hc
  | output => exact h.relays_output hc
  | main =>
    cases h with
    | main e' h => exact Or.inl (sameWork_main h).network

theorem Move.accepted (h : Move cfg rm e l e') :
    e'.accepted ++ e'.reader.rest = e.accepted ++ e.reader.rest := by
  cases h with
  | readEnd h => simp [h, ReaderThread.rest]
  | read job rest h => simp [h, ReaderThread.rest]
  | readPush job rest i queue h hi hq => simp [h, ReaderThread.rest, setLB]
  | main e' h => rw [(sameWork_main h).accepted, (sameWork_main h).reader]
  | _ => rfl

/-- What holds throughout a run on a file with the given packets. -/
structure Sound (cfg : Config) (input : List PacketJob) (e : Engine) : Prop where
  control : Control cfg e
  ordered : Network.Ordered cfg.shape e.network
  accepted : e.accepted ++ e.reader.rest = input

theorem sound_start (cfg : Config) (input : List PacketJob) : Sound cfg input (start input) where
  control := control_start cfg input
  ordered := Network.ordered_initial cfg.shape
  accepted := rfl

theorem Sound.step {input : List PacketJob} (h : Sound cfg input e) (hf : 0 < cfg.fpsPerLb)
    (hs : Step cfg rm e l e') : Sound cfg input e' where
  control := h.control.step hs
  ordered := by
    rcases hs.move.network h.control h.ordered hf with heq | hstep
    · rw [heq]
      exact h.ordered
    · exact h.ordered.step cfg.shape hstep
  accepted := by rw [hs.move.accepted, h.accepted]

end Engine

end DPI
