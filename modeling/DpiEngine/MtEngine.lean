import DpiEngine.Engine
import DpiEngine.MtFlow

/-!
# The threads of the stand-alone program

`DPIEngine::process` of `dpi_mt.cpp` as a step machine, from the moment its threads are started.
Its main thread is the reader too; after the last packet it sleeps, stops the load balancers and the
fast paths in turn, and then tells the output thread to finish.  A label names the thread whose next
atomic step is taken.
-/

namespace DPI.Mt

open Bytes

/-- `DPIEngine::Config`; the command line sets both numbers to any `int`. -/
structure Config where
  numLbs : ℤ := 2
  fpsPerLb : ℤ := 2

/-- The size of `lbs_`. -/
def Config.lbs (cfg : Config) : ℕ := cfg.numLbs.toNat

/-- The size of `fps_`.  The constructor multiplies as here where the product is within `int`; where
it is not, it overflows before `process` is called. -/
def Config.fps (cfg : Config) : ℕ := (cfg.numLbs * cfg.fpsPerLb).toNat

/-- The fast paths that load balancer `lb` is given. -/
def Config.fpsOf (cfg : Config) (lb : ℕ) : List ℕ :=
  (List.range cfg.fpsPerLb.toNat).map fun i => lb * cfg.fpsPerLb.toNat + i

/-- `hasher(tuple) % n`, without a value for `n = 0`. -/
def hashIndex (tuple : FiveTuple) (n : ℕ) : Option ℕ :=
  if n = 0 then none else some ((fiveTupleHash tuple).toNat % n)

/-- `TSQueue`, whose critical sections are those of `ThreadSafeQueue`. -/
abbrev TSQueue (α : Type) := ThreadSafeQueue α

namespace TSQueue

variable {α : Type}

def pop (q : TSQueue α) : Option (α × TSQueue α) := q.popWithTimeout

def size (q : TSQueue α) : ℕ := q.queue.length

end TSQueue

/-! ## Threads -/

/-- `LoadBalancer::run`, by what comes next. -/
inductive LBThread where
  | test
  | pop
  | dispatch (pkt : Packet)
  | count
  | exited

structure LoadBalancer where
  inputQueue : TSQueue Packet := {}
  running : Bool := true
  thread : LBThread := .test
  dispatched : UInt64 := 0

/-- `FastPath::run`, by what comes next. -/
inductive FPThread where
  | test
  | pop
  | process (pkt : Packet)
  | record (pkt : Packet) (flow : FlowEntry)
  | count (pkt : Packet) (blocked : Bool)
  | push (pkt : Packet)
  | exited

structure FastPath where
  inputQueue : TSQueue Packet := {}
  flows : Flows := ∅
  running : Bool := true
  thread : FPThread := .test
  processed : UInt64 := 0

/-- The output thread, by what comes next; the two tests are those of its loop condition. -/
inductive OutputThread where
  | testRunning
  | testSize
  | pop
  | write (pkt : Packet)
  | exited

/-- `process` once the threads are started. -/
inductive MainThread where
  | reading (rest : List Packet)
  | pushing (pkt : Packet) (rest : List Packet)
  | sleep
  | stopLB (i : ℕ) (phase : StopPhase)
  | stopFP (j : ℕ) (phase : StopPhase)
  | clearOutput
  | shutdownOutput
  | joinOutput
  | closeOutput
  | returned
  deriving DecidableEq

/-- `forwarded` is history that no thread reads: the packets for which `stats.forwarded` was
incremented.  Load balancers and fast paths from the configured number on do not exist. -/
structure Engine where
  main : MainThread
  lbs : ℕ → LoadBalancer := fun _ => {}
  fps : ℕ → FastPath := fun _ => {}
  outputQueue : TSQueue Packet := {}
  outputRunning : Bool := true
  output : OutputThread := .testRunning
  outputOpen : Bool := true
  written : List Packet := []
  stats : Stats := {}
  forwarded : List Packet := []

inductive Label where
  | main
  | lb (i : ℕ)
  | fp (j : ℕ)
  | output
  deriving DecidableEq

namespace Engine

def setLB (e : Engine) (i : ℕ) (lb : LoadBalancer) : Engine :=
  { e with lbs := Function.update e.lbs i lb }

def setFP (e : Engine) (j : ℕ) (fp : FastPath) : Engine :=
  { e with fps := Function.update e.fps j fp }

theorem setFP_fps (e : Engine) (j j' : ℕ) (fp : FastPath) :
    (e.setFP j fp).fps j' = if j' = j then fp else e.fps j' := Function.update_apply ..

/-- The engine once `process` has started all threads on a file with the given packets. -/
def start (input : List Packet) : Engine := { main := .reading input }

/-! ## Steps -/

def stepLB (cfg : Config) (e : Engine) (i : ℕ) : Option Engine :=
  let lb := e.lbs i
  match lb.thread with
  | .test => some (e.setLB i { lb with thread := if lb.running then .pop else .exited })
  | .pop =>
    match lb.inputQueue.pop with
    | none => some (e.setLB i { lb with thread := .test })
    | some (pkt, queue) =>
      some (e.setLB i { lb with inputQueue := queue, thread := .dispatch pkt })
  | .dispatch pkt => do
    let fpIdx ← hashIndex pkt.tuple (cfg.fpsOf i).length
    let j ← (cfg.fpsOf i)[fpIdx]?
    let fp := e.fps j
    let queue ← fp.inputQueue.push pkt
    return (e.setFP j { fp with inputQueue := queue }).setLB i { lb with thread := .count }
  | .count => some (e.setLB i { lb with dispatched := lb.dispatched + 1, thread := .test })
  | .exited => none

/-- A packet that faults has no step. -/
def stepFP (rules : Rules) (e : Engine) (j : ℕ) : Option Engine :=
  let fp := e.fps j
  match fp.thread with
  | .test => some (e.setFP j { fp with thread := if fp.running then .pop else .exited })
  | .pop =>
    match fp.inputQueue.pop with
    | none => some (e.setFP j { fp with thread := .test })
    | some (pkt, queue) =>
      some (e.setFP j { fp with inputQueue := queue, thread := .process pkt })
  | .process pkt =>
    match fp.flows.receive rules pkt with
    | .error _ => none
    | .ok (flow, flows) =>
      some (e.setFP j { fp with
        flows := flows
        thread := .record pkt flow
        processed := fp.processed + 1 })
  | .record pkt flow =>
    some { e.setFP j { fp with thread := .count pkt flow.blocked } with
      stats := e.stats.recordApp flow.appType flow.sni }
  | .count _ true =>
    some { e.setFP j { fp with thread := .test } with
      stats := { e.stats with dropped := e.stats.dropped + 1 } }
  | .count pkt false =>
    some { e.setFP j { fp with thread := .push pkt } with
      stats := { e.stats with forwarded := e.stats.forwarded + 1 }
      forwarded := e.forwarded ++ [pkt] }
  | .push pkt => do
    let queue ← e.outputQueue.push pkt
    return { e.setFP j { fp with thread := .test } with outputQueue := queue }
  | .exited => none

def stepOutput (e : Engine) : Option Engine :=
  match e.output with
  | .testRunning => some { e with output := if e.outputRunning then .pop else .testSize }
  | .testSize => some { e with output := if e.outputQueue.size > 0 then .pop else .exited }
  | .pop =>
    match e.outputQueue.pop with
    | none => some { e with output := .testRunning }
    | some (pkt, queue) => some { e with outputQueue := queue, output := .write pkt }
  | .write pkt =>
    some { e with
      written := if e.outputOpen then e.written ++ [pkt] else e.written
      output := .testRunning }
  | .exited => none

/-- `LoadBalancer::stop` on load balancer `i`. -/
def stepStopLB (cfg : Config) (e : Engine) (i : ℕ) (phase : StopPhase) : Option Engine :=
  if i < cfg.lbs then
    let lb := e.lbs i
    match phase with
    | .clear => some { e.setLB i { lb with running := false } with main := .stopLB i .shutdown }
    | .shutdown =>
      some { e.setLB i { lb with inputQueue := lb.inputQueue.shutdown } with
        main := .stopLB i .join }
    | .join =>
      match lb.thread with
      | .exited => some { e with main := .stopLB (i + 1) .clear }
      | _ => none
  else some { e with main := .stopFP 0 .clear }

/-- `FastPath::stop` on fast path `j`. -/
def stepStopFP (cfg : Config) (e : Engine) (j : ℕ) (phase : StopPhase) : Option Engine :=
  if j < cfg.fps then
    let fp := e.fps j
    match phase with
    | .clear => some { e.setFP j { fp with running := false } with main := .stopFP j .shutdown }
    | .shutdown =>
      some { e.setFP j { fp with inputQueue := fp.inputQueue.shutdown } with
        main := .stopFP j .join }
    | .join =>
      match fp.thread with
      | .exited => some { e with main := .stopFP (j + 1) .clear }
      | _ => none
  else some { e with main := .clearOutput }

def stepMain (cfg : Config) (e : Engine) : Option Engine :=
  match e.main with
  | .reading [] => some { e with main := .sleep }
  | .reading (pkt :: rest) => some { e with main := .pushing pkt rest, stats := e.stats.read pkt }
  | .pushing pkt rest => do
    let i ← hashIndex pkt.tuple cfg.lbs
    let lb := e.lbs i
    let queue ← lb.inputQueue.push pkt
    return { e.setLB i { lb with inputQueue := queue } with main := .reading rest }
  | .sleep => some { e with main := .stopLB 0 .clear }
  | .stopLB i phase => e.stepStopLB cfg i phase
  | .stopFP j phase => e.stepStopFP cfg j phase
  | .clearOutput => some { e with outputRunning := false, main := .shutdownOutput }
  | .shutdownOutput => some { e with outputQueue := e.outputQueue.shutdown, main := .joinOutput }
  | .joinOutput =>
    match e.output with
    | .exited => some { e with main := .closeOutput }
    | _ => none
  | .closeOutput => some { e with outputOpen := false, main := .returned }
  | .returned => none

def step (cfg : Config) (rules : Rules) (e : Engine) : Label → Option Engine
  | .main => e.stepMain cfg
  | .lb i => if i < cfg.lbs then e.stepLB cfg i else none
  | .fp j => if j < cfg.fps then e.stepFP rules j else none
  | .output => e.stepOutput

/-- One step of an interleaving. -/
def Step (cfg : Config) (rules : Rules) : Engine → Label → Engine → Prop :=
  Run.StepOf fun e l => e.step cfg rules l

end Engine

end DPI.Mt
