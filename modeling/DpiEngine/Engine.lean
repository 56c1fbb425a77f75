import DpiEngine.FlowTable
import DpiEngine.Lib.Run
import DpiEngine.LoadBalancer

/-!
# The engine

`DPIEngine::processFile` as a step machine, from the moment its threads are started: the reader,
the load balancers, the fast paths and the output thread around their bounded queues, and the main
thread that joins the reader, waits and stops the others in turn.  A label names the thread whose
next atomic step is taken, so a run is one interleaving; sleeps are delays of any length.
-/

namespace DPI

open Bytes FastPathProcessor

/-- `DPIEngine::Config`. -/
structure Config where
  numLoadBalancers : ℕ := 2
  fpsPerLb : ℕ := 2

def Config.totalFps (cfg : Config) : ℕ := cfg.numLoadBalancers * cfg.fpsPerLb

/-- `DPIStats`, the counters that the threads move. -/
structure DPIStats where
  totalPackets : UInt64 := 0
  totalBytes : UInt64 := 0
  forwardedPackets : UInt64 := 0
  forwardedBytes : UInt64 := 0
  droppedPackets : UInt64 := 0
  droppedBytes : UInt64 := 0
  tcpPackets : UInt64 := 0
  udpPackets : UInt64 := 0
  deriving DecidableEq, Repr

namespace DPIStats

/-- What the reader counts before it hands a packet on. -/
def read (stats : DPIStats) (job : PacketJob) : DPIStats :=
  let stats := { stats with
    totalPackets := stats.totalPackets + 1
    totalBytes := stats.totalBytes + UInt64.ofNat job.data.length }
  if job.tuple.protocol = 6 then { stats with tcpPackets := stats.tcpPackets + 1 }
  else { stats with udpPackets := stats.udpPackets + 1 }

/-- What `handleOutput` counts. -/
def output (stats : DPIStats) (job : PacketJob) (action : PacketAction) : DPIStats :=
  if action = .drop then
    { stats with
      droppedPackets := stats.droppedPackets + 1
      droppedBytes := stats.droppedBytes + UInt64.ofNat job.data.length }
  else
    { stats with
      forwardedPackets := stats.forwardedPackets + 1
      forwardedBytes := stats.forwardedBytes + UInt64.ofNat job.data.length }

end DPIStats

/-! ## Threads -/

/-- `readerThreadFunc`: the packets still to be read, and the one about to be pushed. -/
inductive ReaderThread where
  | reading (rest : List PacketJob)
  | pushing (job : PacketJob) (rest : List PacketJob)
  | done

/-- `LoadBalancer::run`, by what comes next. -/
inductive LBThread where
  | test
  | pop
  | dispatch (job : PacketJob)
  | exited

structure LoadBalancer where
  inputQueue : ThreadSafeQueue PacketJob := {}
  running : Bool := true
  thread : LBThread := .test

/-- `FastPathProcessor::run`, by what comes next; `output` and `push` are the two halves of the
callback `handleOutput`. -/
inductive FPThread where
  | test
  | pop
  | process (job : PacketJob)
  | output (job : PacketJob) (action : PacketAction)
  | push (job : PacketJob) (action : PacketAction)
  | count (action : PacketAction)
  | exited

structure FastPath where
  processor : FastPathProcessor := {}
  inputQueue : ThreadSafeQueue PacketJob := {}
  running : Bool := true
  thread : FPThread := .test

/-- `outputThreadFunc`, by what comes next; the two tests are those of its loop condition. -/
inductive OutputThread where
  | testRunning
  | testEmpty
  | pop
  | write (job : PacketJob)
  | exited

/-- The parts of `LoadBalancer::stop` and `FastPathProcessor::stop`. -/
inductive StopPhase where
  | clear | shutdown | join
  deriving DecidableEq

/-- `processFile` from its call of `waitForCompletion` on. -/
inductive MainThread where
  | joinReader
  | complete
  | stop
  | stopLB (i : ℕ) (phase : StopPhase)
  | stopFP (j : ℕ) (phase : StopPhase)
  | shutdownOutput
  | joinOutput
  | closeFile
  | returned
  deriving DecidableEq

/-- `accepted` and `handled` are history that no thread reads: the packets counted in
`totalPackets`, and the calls of `handleOutput` in their order.  Load balancers and fast paths are
indexed by their identifiers; those from the configured number on are never started. -/
structure Engine where
  reader : ReaderThread
  lbs : ℕ → LoadBalancer := fun _ => {}
  fps : ℕ → FastPath := fun _ => {}
  outputQueue : ThreadSafeQueue PacketJob := {}
  output : OutputThread := .testRunning
  main : MainThread := .joinReader
  running : Bool := true
  processingComplete : Bool := false
  outputFileOpen : Bool := true
  written : List PacketJob := []
  stats : DPIStats := {}
  accepted : List PacketJob := []
  handled : List (PacketJob × PacketAction) := []

inductive Label where
  | reader
  | lb (i : ℕ)
  | fp (j : ℕ) (env : Env)
  | output
  | main

namespace Engine

def setLB (e : Engine) (i : ℕ) (lb : LoadBalancer) : Engine :=
  { e with lbs := Function.update e.lbs i lb }

def setFP (e : Engine) (j : ℕ) (fp : FastPath) : Engine :=
  { e with fps := Function.update e.fps j fp }

theorem setLB_lbs (e : Engine) (i i' : ℕ) (lb : LoadBalancer) :
    (e.setLB i lb).lbs i' = if i' = i then lb else e.lbs i' := Function.update_apply ..

theorem setFP_fps (e : Engine) (j j' : ℕ) (fp : FastPath) :
    (e.setFP j fp).fps j' = if j' = j then fp else e.fps j' := Function.update_apply ..

/-- What holds of every load balancer still does once one of them is in a state where it holds. -/
theorem setLB_forall {e : Engine} {n i : ℕ} {lb : LoadBalancer} {P : LoadBalancer → Prop}
    (h : ∀ k < n, P (e.lbs k)) (hlb : i < n → P lb) : ∀ k < n, P ((e.setLB i lb).lbs k) := by
  intro k hk
  rw [setLB_lbs]
  split_ifs with hki
  · exact hlb (hki ▸ hk)
  · exact h k hk

theorem setFP_forall {e : Engine} {n j : ℕ} {fp : FastPath} {P : FastPath → Prop}
    (h : ∀ k < n, P (e.fps k)) (hfp : j < n → P fp) : ∀ k < n, P ((e.setFP j fp).fps k) := by
  intro k hk
  rw [setFP_fps]
  split_ifs with hkj
  · exact hfp (hkj ▸ hk)
  · exact h k hk

/-- The engine once `processFile` has started all threads on a file with the given packets. -/
def start (input : List PacketJob) : Engine := { reader := .reading input }

/-! ## Steps -/

def stepReader (cfg : Config) (e : Engine) : Option Engine :=
  match e.reader with
  | .reading [] => some { e with reader := .done }
  | .reading (job :: rest) =>
    some { e with
      reader := .pushing job rest
      stats := e.stats.read job
      accepted := e.accepted ++ [job] }
  | .pushing job rest => do
    let i := getLBForPacket cfg.numLoadBalancers job.tuple
    let lb := e.lbs i
    let queue ← lb.inputQueue.push job
    return { e.setLB i { lb with inputQueue := queue } with reader := .reading rest }
  | .done => none

def stepLB (cfg : Config) (e : Engine) (i : ℕ) : Option Engine :=
  let lb := e.lbs i
  match lb.thread with
  | .test => some (e.setLB i { lb with thread := if lb.running then .pop else .exited })
  | .pop =>
    match lb.inputQueue.popWithTimeout with
    | none => some (e.setLB i { lb with thread := .test })
    | some (job, queue) =>
      some (e.setLB i { lb with inputQueue := queue, thread := .dispatch job })
  | .dispatch job => do
    let fpIndex := selectFP cfg.fpsPerLb job.tuple
    let j ← (lbFpQueues cfg.fpsPerLb i)[fpIndex]?
    let fp := e.fps j
    let queue ← fp.inputQueue.push job
    return (e.setFP j { fp with inputQueue := queue }).setLB i { lb with thread := .test }
  | .exited => none

/-- A packet that faults has no step. -/
def stepFP (rm : RuleManager) (e : Engine) (j : ℕ) (env : Env) : Option Engine :=
  let fp := e.fps j
  match fp.thread with
  | .test => some (e.setFP j { fp with thread := if fp.running then .pop else .exited })
  | .pop =>
    match fp.inputQueue.popWithTimeout with
    | none =>
      let tracker := (fp.processor.connTracker.cleanupStale env.seen).1
      some (e.setFP j { fp with
        processor := { fp.processor with connTracker := tracker }
        thread := .test })
    | some (job, queue) =>
      some (e.setFP j { fp with inputQueue := queue, thread := .process job })
  | .process job =>
    let counted := { fp.processor with packetsProcessed := fp.processor.packetsProcessed + 1 }
    match processPacket (some rm) counted env job with
    | .error _ => none
    | .ok (action, processor) =>
      some (e.setFP j { fp with processor := processor, thread := .output job action })
  | .output job action =>
    let e := { e with stats := e.stats.output job action, handled := e.handled ++ [(job, action)] }
    some (e.setFP j { fp with
      thread := if action = .drop then .count action else .push job action })
  | .push job action => do
    let queue ← e.outputQueue.push job
    return { e.setFP j { fp with thread := .count action } with outputQueue := queue }
  | .count action =>
    let processor :=
      if action = .drop then
        { fp.processor with packetsDropped := fp.processor.packetsDropped + 1 }
      else { fp.processor with packetsForwarded := fp.processor.packetsForwarded + 1 }
    some (e.setFP j { fp with processor := processor, thread := .test })
  | .exited => none

def stepOutput (e : Engine) : Option Engine :=
  match e.output with
  | .testRunning => some { e with output := if e.running then .pop else .testEmpty }
  | .testEmpty => some { e with output := if e.outputQueue.empty then .exited else .pop }
  | .pop =>
    match e.outputQueue.popWithTimeout with
    | none => some { e with output := .testRunning }
    | some (job, queue) => some { e with outputQueue := queue, output := .write job }
  | .write job =>
    some { e with
      written := if e.outputFileOpen then e.written ++ [job] else e.written
      output := .testRunning }
  | .exited => none

/-- `LoadBalancer::stop` on load balancer `i`. -/
def stepStopLB (cfg : Config) (e : Engine) (i : ℕ) (phase : StopPhase) : Option Engine :=
  if i < cfg.numLoadBalancers then
    let lb := e.lbs i
    match phase with
    | .clear =>
      if lb.running then
        some { e.setLB i { lb with running := false } with main := .stopLB i .shutdown }
      else some { e with main := .stopLB (i + 1) .clear }
    | .shutdown =>
      some { e.setLB i { lb with inputQueue := lb.inputQueue.shutdown } with
        main := .stopLB i .join }
    | .join =>
      match lb.thread with
      | .exited => some { e with main := .stopLB (i + 1) .clear }
      | _ => none
  else some { e with main := .stopFP 0 .clear }

/-- `FastPathProcessor::stop` on fast path `j`. -/
def stepStopFP (cfg : Config) (e : Engine) (j : ℕ) (phase : StopPhase) : Option Engine :=
  if j < cfg.totalFps then
    let fp := e.fps j
    match phase with
    | .clear =>
      if fp.running then
        some { e.setFP j { fp with running := false } with main := .stopFP j .shutdown }
      else some { e with main := .stopFP (j + 1) .clear }
    | .shutdown =>
      some { e.setFP j { fp with inputQueue := fp.inputQueue.shutdown } with
        main := .stopFP j .join }
    | .join =>
      match fp.thread with
      | .exited => some { e with main := .stopFP (j + 1) .clear }
      | _ => none
  else some { e with main := .shutdownOutput }

def stepMain (cfg : Config) (e : Engine) : Option Engine :=
  match e.main with
  | .joinReader =>
    match e.reader with
    | .done => some { e with main := .complete }
    | _ => none
  | .complete => some { e with processingComplete := true, main := .stop }
  | .stop =>
    if e.running then some { e with running := false, main := .stopLB 0 .clear }
    else some { e with main := .closeFile }
  | .stopLB i phase => e.stepStopLB cfg i phase
  | .stopFP j phase => e.stepStopFP cfg j phase
  | .shutdownOutput => some { e with outputQueue := e.outputQueue.shutdown, main := .joinOutput }
  | .joinOutput =>
    match e.output with
    | .exited => some { e with main := .closeFile }
    | _ => none
  | .closeFile => some { e with outputFileOpen := false, main := .returned }
  | .returned => none

def step (cfg : Config) (rm : RuleManager) (e : Engine) : Label → Option Engine
  | .reader => e.stepReader cfg
  | .lb i => if i < cfg.numLoadBalancers then e.stepLB cfg i else none
  | .fp j env => if j < cfg.totalFps then e.stepFP rm j env else none
  | .output => e.stepOutput
  | .main => e.stepMain cfg

/-- One step of an interleaving. -/
def Step (cfg : Config) (rm : RuleManager) (e : Engine) (l : Label) (e' : Engine) : Prop :=
  e.step cfg rm l = some e'

/-- The interleaving given by a list of labels, with the steps it takes. -/
def exec (cfg : Config) (rm : RuleManager) (e : Engine) (ls : List Label) :
    Option (List (Taken Engine Label) × Engine) := Run.trace (step cfg rm) e ls

theorem run_of_exec {cfg : Config} {rm : RuleManager} {e e' : Engine} {ls : List Label}
    {ts : List (Taken Engine Label)} (h : e.exec cfg rm ls = some (ts, e')) :
    Run (Step cfg rm) e ts e' := Run.of_trace h

end Engine

end DPI
