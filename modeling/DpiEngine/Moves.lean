import DpiEngine.Engine

/-!
# Moves of the engine

What each step can do, one constructor for each branch of a thread's loop, and what no step of
the main thread touches.
-/

namespace DPI

open Bytes FastPathProcessor

namespace Engine

variable {cfg : Config} {rm : RuleManager} {e e' : Engine} {l : Label}

inductive Move (cfg : Config) (rm : RuleManager) (e : Engine) : Label → Engine → Prop
  | readEnd (h : e.reader = .reading []) : Move cfg rm e .reader { e with reader := .done }
  | read (job : PacketJob) (rest : List PacketJob) (h : e.reader = .reading (job :: rest)) :
      Move cfg rm e .reader { e with
        reader := .pushing job rest
        stats := e.stats.read job
        accepted := e.accepted ++ [job] }
  | readPush (job : PacketJob) (rest : List PacketJob) (i : ℕ) (queue : ThreadSafeQueue PacketJob)
      (h : e.reader = .pushing job rest) (hi : i = getLBForPacket cfg.numLoadBalancers job.tuple)
      (hq : (e.lbs i).inputQueue.push job = some queue) :
      Move cfg rm e .reader
        { e.setLB i { e.lbs i with inputQueue := queue } with reader := .reading rest }
  | lbTest (i : ℕ) (hi : i < cfg.numLoadBalancers) (h : (e.lbs i).thread = .test) :
      Move cfg rm e (.lb i) (e.setLB i
        { e.lbs i with thread := if (e.lbs i).running then .pop else .exited })
  | lbIdle (i : ℕ) (hi : i < cfg.numLoadBalancers) (h : (e.lbs i).thread = .pop) :
      Move cfg rm e (.lb i) (e.setLB i { e.lbs i with thread := .test })
  | lbPop (i : ℕ) (job : PacketJob) (queue : ThreadSafeQueue PacketJob)
      (hi : i < cfg.numLoadBalancers) (h : (e.lbs i).thread = .pop)
      (hq : (e.lbs i).inputQueue.popWithTimeout = some (job, queue)) :
      Move cfg rm e (.lb i) (e.setLB i
        { e.lbs i with inputQueue := queue, thread := .dispatch job })
  | lbDispatch (i j : ℕ) (job : PacketJob) (queue : ThreadSafeQueue PacketJob)
      (hi : i < cfg.numLoadBalancers) (h : (e.lbs i).thread = .dispatch job)
      (hj : (lbFpQueues cfg.fpsPerLb i)[selectFP cfg.fpsPerLb job.tuple]? = some j)
      (hq : (e.fps j).inputQueue.push job = some queue) :
      Move cfg rm e (.lb i) ((e.setFP j { e.fps j with inputQueue := queue }).setLB i
        { e.lbs i with thread := .test })
  | fpTest (j : ℕ) (env : Env) (hj : j < cfg.totalFps) (h : (e.fps j).thread = .test) :
      Move cfg rm e (.fp j env) (e.setFP j
        { e.fps j with thread := if (e.fps j).running then .pop else .exited })
  | fpIdle (j : ℕ) (env : Env) (hj : j < cfg.totalFps) (h : (e.fps j).thread = .pop) :
      Move cfg rm e (.fp j env) (e.setFP j { e.fps j with
        processor := { (e.fps j).processor with
          connTracker := ((e.fps j).processor.connTracker.cleanupStale env.seen).1 }
        thread := .test })
  | fpPop (j : ℕ) (env : Env) (job : PacketJob) (queue : ThreadSafeQueue PacketJob)
      (hj : j < cfg.totalFps) (h : (e.fps j).thread = .pop)
      (hq : (e.fps j).inputQueue.popWithTimeout = some (job, queue)) :
      Move cfg rm e (.fp j env) (e.setFP j
        { e.fps j with inputQueue := queue, thread := .process job })
  | fpProcess (j : ℕ) (env : Env) (job : PacketJob) (action : PacketAction)
      (processor : FastPathProcessor) (hj : j < cfg.totalFps)
      (h : (e.fps j).thread = .process job)
      (hp : processPacket (some rm) { (e.fps j).processor with
          packetsProcessed := (e.fps j).processor.packetsProcessed + 1 } env job =
        .ok (action, processor)) :
      Move cfg rm e (.fp j env) (e.setFP j
        { e.fps j with processor := processor, thread := .output job action })
  | fpOutput (j : ℕ) (env : Env) (job : PacketJob) (action : PacketAction)
      (hj : j < cfg.totalFps) (h : (e.fps j).thread = .output job action) :
      Move cfg rm e (.fp j env) (({ e with
        stats := e.stats.output job action
        handled := e.handled ++ [(job, action)] } : Engine).setFP j
          { e.fps j with thread := if action = .drop then .count action else .push job action })
  | fpPush (j : ℕ) (env : Env) (job : PacketJob) (action : PacketAction)
      (queue : ThreadSafeQueue PacketJob) (hj : j < cfg.totalFps)
      (h : (e.fps j).thread = .push job action) (hq : e.outputQueue.push job = some queue) :
      Move cfg rm e (.fp j env)
        { e.setFP j { e.fps j with thread := .count action } with outputQueue := queue }
  | fpCount (j : ℕ) (env : Env) (action : PacketAction) (processor : FastPathProcessor)
      (hj : j < cfg.totalFps) (h : (e.fps j).thread = .count action)
      (hp : processor.connTracker = (e.fps j).processor.connTracker) :
      Move cfg rm e (.fp j env) (e.setFP j
        { e.fps j with processor := processor, thread := .test })
  | outputTest (h : e.output = .testRunning) :
      Move cfg rm e .output { e with output := if e.running then .pop else .testEmpty }
  | outputEmpty (h : e.output = .testEmpty) :
      Move cfg rm e .output
        { e with output := if e.outputQueue.empty then .exited else .pop }
  | outputIdle (h : e.output = .pop) :
      Move cfg rm e .output { e with output := .testRunning }
  | outputPop (job : PacketJob) (queue : ThreadSafeQueue PacketJob) (h : e.output = .pop)
      (hq : e.outputQueue.popWithTimeout = some (job, queue)) :
      Move cfg rm e .output { e with outputQueue := queue, output := .write job }
  | outputWrite (job : PacketJob) (h : e.output = .write job) :
      Move cfg rm e .output { e with
        written := if e.outputFileOpen then e.written ++ [job] else e.written
        output := .testRunning }
  | main (e' : Engine) (h : e.stepMain cfg = some e') : Move cfg rm e .main e'

theorem move_reader (h : e.stepReader cfg = some e') : Move cfg rm e .reader e' := by
  unfold stepReader at h
  split at h
  · next hr =>
    cases h
    exact .readEnd hr
  · next job rest hr =>
    cases h
    exact .read job rest hr
  · next job rest hr =>
    obtain ⟨queue, hq, h⟩ := Option.bind_eq_some_iff.1 h
    cases h
    exact .readPush job rest _ queue hr rfl hq
  · cases h

theorem move_lb {i : ℕ} (hi : i < cfg.numLoadBalancers) (h : e.stepLB cfg i = some e') :
    Move cfg rm e (.lb i) e' := by
  unfold stepLB at h
  dsimp only at h
  split at h
  · next ht =>
    cases h
    exact .lbTest i hi ht
  · next ht =>
    split at h
    · cases h
      exact .lbIdle i hi ht
    · next job queue hq =>
      cases h
      exact .lbPop i job queue hi ht hq
  · next job ht =>
    obtain ⟨j, hj, h⟩ := Option.bind_eq_some_iff.1 h
    obtain ⟨queue, hq, h⟩ := Option.bind_eq_some_iff.1 h
    cases h
    exact .lbDispatch i j job queue hi ht hj hq
  · cases h

theorem move_fp {j : ℕ} {env : Env} (hj : j < cfg.totalFps) (h : e.stepFP rm j env = some e') :
    Move cfg rm e (.fp j env) e' := by
  unfold stepFP at h
  dsimp only at h
  split at h
  · next ht =>
    cases h
    exact .fpTest j env hj ht
  · next ht =>
    split at h
    · cases h
      exact .fpIdle j env hj ht
    · next job queue hq =>
      cases h
      exact .fpPop j env job queue hj ht hq
  · next job ht =>
    split at h
    · cases h
    · next action processor hp =>
      cases h
      exact .fpProcess j env job action processor hj ht hp
  · next job action ht =>
    cases h
    exact .fpOutput j env job action hj ht
  · next job action ht =>
    obtain ⟨queue, hq, h⟩ := Option.bind_eq_some_iff.1 h
    cases h
    exact .fpPush j env job action queue hj ht hq
  · next action ht =>
    cases h
    exact .fpCount j env action _ hj ht (by split_ifs <;> rfl)
  · cases h

theorem move_output (h : e.stepOutput = some e') : Move cfg rm e .output e' := by
  unfold stepOutput at h
  split at h
  · next ht =>
    cases h
    exact .outputTest ht
  · next ht =>
    cases h
    exact .outputEmpty ht
  · next ht =>
    split at h
    · cases h
      exact .outputIdle ht
    · next job queue hq =>
      cases h
      exact .outputPop job queue ht hq
  · next job ht =>
    cases h
    exact .outputWrite job ht
  · cases h

theorem Step.move (h : Step cfg rm e l e') : Move cfg rm e l e' := by
  unfold Step step at h
  cases l with
  | reader => exact move_reader h
  | lb i =>
    dsimp only at h
    split_ifs at h with hi
    exact move_lb hi h
  | fp j env =>
    dsimp only at h
    split_ifs at h with hj
    exact move_fp hj h
  | output => exact move_output h
  | main => exact .main e' h

end Engine

end DPI
