import DpiEngine.MtPipeline

/-!
# Progress of the stand-alone program

No schedule can bring `dpi_mt.cpp` into a state from which `process` cannot return any more.  Every
thread is given the number of steps that it and the packets it holds may still need, and while the
main thread has not returned, some thread can take such a step.
-/

namespace DPI.Mt

open Bytes

/-! ## Work that is left -/

/-- The steps until an idle thread that tests its flag takes a packet or ends. -/
def testWork (running : Bool) (queue : List Packet) : ℕ :=
  if running then if queue = [] then 0 else 2 else 1

/-- The steps until an idle thread that looks into its queue takes a packet or tests its flag. -/
def popWork (running : Bool) (queue : List Packet) : ℕ :=
  if running then if queue = [] then 0 else 1 else 2

/-- A packet in the queue of a load balancer counts for 20 steps. -/
def LoadBalancer.work (lb : LoadBalancer) : ℕ :=
  20 * lb.inputQueue.queue.length +
    match lb.thread with
    | .test => testWork lb.running lb.inputQueue.queue
    | .pop => popWork lb.running lb.inputQueue.queue
    | .dispatch _ => 20
    | .count => 3
    | .exited => 0

/-- A packet in the queue of a fast path counts for 14 steps. -/
def FastPath.work (fp : FastPath) : ℕ :=
  14 * fp.inputQueue.queue.length +
    match fp.thread with
    | .test => testWork fp.running fp.inputQueue.queue
    | .pop => popWork fp.running fp.inputQueue.queue
    | .process _ => 14
    | .record _ _ => 13
    | .count _ _ => 12
    | .push _ => 11
    | .exited => 0

/-- The steps until the output thread, at an empty queue or not, takes a packet or ends. -/
def OutputThread.work (running : Bool) (queue : List Packet) : OutputThread → ℕ
  | .testRunning => if queue = [] then if running then 0 else 2 else 3
  | .testSize => if queue = [] then if running then 0 else 1 else 2
  | .pop => if queue = [] then if running then 0 else 3 else 1
  | .write _ => 4
  | .exited => 0

/-- The steps to stop `n` threads, the first of them in this phase. -/
def stopWork (n : ℕ) : StopPhase → ℕ
  | .clear => 5 * n
  | .shutdown => 5 * (n - 1) + 2
  | .join => 5 * (n - 1) + 1

/-- A packet to be read counts for 24 steps. -/
def MainThread.work (cfg : Config) : MainThread → ℕ
  | .reading rest => 24 * rest.length + 5 * cfg.lbs + 5 * cfg.fps + 12
  | .pushing _ rest => 24 * rest.length + 5 * cfg.lbs + 5 * cfg.fps + 35
  | .sleep => 5 * cfg.lbs + 5 * cfg.fps + 11
  | .stopLB i phase => stopWork (cfg.lbs - i) phase + 5 * cfg.fps + 10
  | .stopFP j phase => stopWork (cfg.fps - j) phase + 9
  | .clearOutput => 8
  | .shutdownOutput => 4
  | .joinOutput => 3
  | .closeOutput => 2
  | .returned => 0

namespace Engine

variable {cfg : Config} {rules : Rules} {e e' : Engine} {l : Label}

def outputWork (e : Engine) : ℕ :=
  4 * e.outputQueue.queue.length + e.output.work e.outputRunning e.outputQueue.queue

def work (cfg : Config) (e : Engine) : ℕ :=
  e.main.work cfg + ∑ i ∈ Finset.range cfg.lbs, (e.lbs i).work +
    ∑ j ∈ Finset.range cfg.fps, (e.fps j).work + e.outputWork

theorem work_setLB {i : ℕ} (hi : i < cfg.lbs) (e : Engine) (lb : LoadBalancer) :
    (e.setLB i lb).work cfg + (e.lbs i).work = e.work cfg + lb.work := by
  have hsum : ∑ k ∈ Finset.range cfg.lbs, (Function.update e.lbs i lb k).work + (e.lbs i).work =
      ∑ k ∈ Finset.range cfg.lbs, (e.lbs k).work + lb.work :=
    sum_range_update hi LoadBalancer.work e.lbs lb
  have houtput : (e.setLB i lb).outputWork = e.outputWork := rfl
  simp only [work, setLB] at hsum houtput ⊢
  omega

theorem work_setFP {j : ℕ} (hj : j < cfg.fps) (e : Engine) (fp : FastPath) :
    (e.setFP j fp).work cfg + (e.fps j).work = e.work cfg + fp.work := by
  have hsum : ∑ k ∈ Finset.range cfg.fps, (Function.update e.fps j fp k).work + (e.fps j).work =
      ∑ k ∈ Finset.range cfg.fps, (e.fps k).work + fp.work :=
    sum_range_update hj FastPath.work e.fps fp
  have houtput : (e.setFP j fp).outputWork = e.outputWork := rfl
  simp only [work, setFP] at hsum houtput ⊢
  omega

theorem testWork_le (running : Bool) (queue : List Packet) : testWork running queue ≤ 2 := by
  unfold testWork
  split_ifs <;> decide

theorem popWork_le (running : Bool) (queue : List Packet) : popWork running queue ≤ 2 := by
  unfold popWork
  split_ifs <;> decide

theorem popWork_pos (running : Bool) (queue : List Packet) (h : queue ≠ []) :
    0 < popWork running queue := by
  unfold popWork
  split_ifs <;> decide

end Engine

/-! ## Threads that have something to do -/

/-- The thread has ended, or it waits for packets. -/
def LoadBalancer.Resting (lb : LoadBalancer) : Prop :=
  lb.thread = .exited ∨
    lb.running = true ∧ lb.inputQueue.queue = [] ∧ (lb.thread = .test ∨ lb.thread = .pop)

def FastPath.Resting (fp : FastPath) : Prop :=
  fp.thread = .exited ∨
    fp.running = true ∧ fp.inputQueue.queue = [] ∧ (fp.thread = .test ∨ fp.thread = .pop)

namespace Engine

variable {cfg : Config} {rules : Rules} {e e' : Engine} {l : Label}

def OutputResting (e : Engine) : Prop :=
  e.output = .exited ∨
    e.outputRunning = true ∧ e.outputQueue.queue = [] ∧ ∀ pkt, e.output ≠ .write pkt

/-- The thread that takes the step is not at rest. -/
def Useful (e : Engine) : Label → Prop
  | .main => True
  | .lb i => ¬ (e.lbs i).Resting
  | .fp j => ¬ (e.fps j).Resting
  | .output => ¬ e.OutputResting

theorem work_push_lb {lb : LoadBalancer} {queue : TSQueue Packet} {pkt : Packet}
    (hq : queue.queue = lb.inputQueue.queue ++ [pkt]) :
    ({ lb with inputQueue := queue } : LoadBalancer).work ≤ lb.work + 22 := by
  have htest := testWork_le lb.running queue.queue
  have hpop := popWork_le lb.running queue.queue
  have hlen := congrArg List.length hq
  rw [List.length_append, List.length_singleton] at hlen
  unfold LoadBalancer.work
  dsimp only
  cases lb.thread <;> dsimp only <;> omega

theorem work_push_fp {fp : FastPath} {queue : TSQueue Packet} {pkt : Packet}
    (hq : queue.queue = fp.inputQueue.queue ++ [pkt]) :
    ({ fp with inputQueue := queue } : FastPath).work ≤ fp.work + 16 := by
  have htest := testWork_le fp.running queue.queue
  have hpop := popWork_le fp.running queue.queue
  have hlen := congrArg List.length hq
  rw [List.length_append, List.length_singleton] at hlen
  unfold FastPath.work
  dsimp only
  cases fp.thread <;> dsimp only <;> omega

theorem work_push_output (running : Bool) {queue queue' : List Packet} {pkt : Packet}
    (output : OutputThread) (hq : queue' = queue ++ [pkt]) :
    4 * queue'.length + output.work running queue' ≤
      4 * queue.length + output.work running queue + 7 := by
  have hne : queue' ≠ [] := by simp [hq]
  have hlen := congrArg List.length hq
  rw [List.length_append, List.length_singleton] at hlen
  unfold OutputThread.work
  cases output <;> simp only [if_neg hne] <;> omega

/-- Clearing its flag gives a thread at most the steps to its end. -/
theorem work_clear_lb (lb : LoadBalancer) :
    ({ lb with running := false } : LoadBalancer).work ≤ lb.work + 2 := by
  unfold LoadBalancer.work testWork popWork
  cases lb.thread <;> simp only [Bool.false_eq_true, if_false] <;> omega

theorem work_clear_fp (fp : FastPath) :
    ({ fp with running := false } : FastPath).work ≤ fp.work + 2 := by
  unfold FastPath.work testWork popWork
  cases fp.thread <;> simp only [Bool.false_eq_true, if_false] <;> omega

theorem work_clear_output (running : Bool) (queue : List Packet) (output : OutputThread) :
    output.work false queue ≤ output.work running queue + 3 := by
  unfold OutputThread.work
  cases output <;> by_cases hq : queue = [] <;> cases running <;> simp [hq]

/-! ## Steps that do something -/

theorem testWork_lt {running : Bool} {queue : List Packet} (h : running = true → queue ≠ []) :
    (if running then popWork running queue else 0) < testWork running queue := by
  cases running with
  | true => simp [testWork, popWork, h rfl]
  | false => simp [testWork]

theorem work_lt_setLB {i : ℕ} (hi : i < cfg.lbs) {lb : LoadBalancer}
    (h : lb.work < (e.lbs i).work) : (e.setLB i lb).work cfg < e.work cfg := by
  have hset := work_setLB hi e lb
  omega

theorem work_le_setFP (cfg : Config) (j : ℕ) (e : Engine) (fp : FastPath) :
    (e.setFP j fp).work cfg ≤ e.work cfg + (fp.work - (e.fps j).work) := by
  by_cases hj : j < cfg.fps
  · have hset := work_setFP hj e fp
    omega
  · have hsum : ∑ k ∈ Finset.range cfg.fps, (Function.update e.fps j fp k).work =
        ∑ k ∈ Finset.range cfg.fps, (e.fps k).work := by
      apply Finset.sum_congr rfl
      intro k hk
      have hne : k ≠ j := fun hkj => hj (hkj ▸ Finset.mem_range.1 hk)
      rw [Function.update_of_ne hne]
    have houtput : (e.setFP j fp).outputWork = e.outputWork := rfl
    simp only [work, setFP] at houtput ⊢
    omega

theorem work_lt_setFP {j : ℕ} (hj : j < cfg.fps) {fp : FastPath}
    (h : fp.work < (e.fps j).work) : (e.setFP j fp).work cfg < e.work cfg := by
  have hset := work_setFP hj e fp
  omega

theorem work_main (cfg : Config) (e : Engine) (main : MainThread) :
    ({ e with main := main } : Engine).work cfg + e.main.work cfg =
      e.work cfg + main.work cfg := by
  have houtput : ({ e with main := main } : Engine).outputWork = e.outputWork := rfl
  simp only [work] at houtput ⊢
  omega

theorem work_output (cfg : Config) (e e' : Engine) (hmain : e'.main = e.main)
    (hlbs : e'.lbs = e.lbs) (hfps : e'.fps = e.fps) :
    e'.work cfg + e.outputWork = e.work cfg + e'.outputWork := by
  rw [work, work, hmain, hlbs, hfps]
  omega

theorem work_lt_output (hmain : e'.main = e.main) (hlbs : e'.lbs = e.lbs) (hfps : e'.fps = e.fps)
    (h : e'.outputWork < e.outputWork) : e'.work cfg < e.work cfg := by
  have hout := work_output cfg e e' hmain hlbs hfps
  omega

theorem work_lt_main {main : MainThread} (h : main.work cfg < e.main.work cfg) :
    ({ e with main := main } : Engine).work cfg < e.work cfg := by
  have hturn := work_main cfg e main
  omega

theorem work_lt_stopLB {i : ℕ} {phase : StopPhase} (hmain : e.main = .stopLB i phase)
    (hs : e.stepStopLB cfg i phase = some e') : e'.work cfg < e.work cfg := by
  unfold stepStopLB at hs
  split_ifs at hs with hi
  · cases phase with
    | clear =>
      cases hs
      have hset := work_setLB hi e { e.lbs i with running := false }
      have hclear := work_clear_lb (e.lbs i)
      have hturn := work_main cfg (e.setLB i { e.lbs i with running := false })
        (.stopLB i .shutdown)
      rw [show (e.setLB i { e.lbs i with running := false }).main = .stopLB i .clear from hmain]
        at hturn
      simp only [MainThread.work, stopWork] at hturn hset
      dsimp only at hclear ⊢
      omega
    | shutdown =>
      cases hs
      have hset := work_setLB hi e { e.lbs i with inputQueue := (e.lbs i).inputQueue.shutdown }
      have hsame : ({ e.lbs i with
        inputQueue := (e.lbs i).inputQueue.shutdown } : LoadBalancer).work = (e.lbs i).work := rfl
      have hturn := work_main cfg (e.setLB i { e.lbs i with
        inputQueue := (e.lbs i).inputQueue.shutdown }) (.stopLB i .join)
      rw [show (e.setLB i { e.lbs i with
        inputQueue := (e.lbs i).inputQueue.shutdown }).main = .stopLB i .shutdown from hmain]
        at hturn
      simp only [MainThread.work, stopWork] at hturn hset hsame
      dsimp only
      omega
    | join =>
      dsimp only at hs
      split at hs <;> cases hs
      apply work_lt_main
      rw [hmain]
      simp only [MainThread.work, stopWork]
      omega
  · cases hs
    apply work_lt_main
    rw [hmain]
    simp only [MainThread.work, stopWork]
    omega

theorem work_lt_stopFP {j : ℕ} {phase : StopPhase} (hmain : e.main = .stopFP j phase)
    (hs : e.stepStopFP cfg j phase = some e') : e'.work cfg < e.work cfg := by
  unfold stepStopFP at hs
  split_ifs at hs with hj
  · cases phase with
    | clear =>
      cases hs
      have hset := work_setFP hj e { e.fps j with running := false }
      have hclear := work_clear_fp (e.fps j)
      have hturn := work_main cfg (e.setFP j { e.fps j with running := false })
        (.stopFP j .shutdown)
      rw [show (e.setFP j { e.fps j with running := false }).main = .stopFP j .clear from hmain]
        at hturn
      simp only [MainThread.work, stopWork] at hturn hset
      dsimp only at hclear ⊢
      omega
    | shutdown =>
      cases hs
      have hset := work_setFP hj e { e.fps j with inputQueue := (e.fps j).inputQueue.shutdown }
      have hsame : ({ e.fps j with
        inputQueue := (e.fps j).inputQueue.shutdown } : FastPath).work = (e.fps j).work := rfl
      have hturn := work_main cfg (e.setFP j { e.fps j with
        inputQueue := (e.fps j).inputQueue.shutdown }) (.stopFP j .join)
      rw [show (e.setFP j { e.fps j with
        inputQueue := (e.fps j).inputQueue.shutdown }).main = .stopFP j .shutdown from hmain]
        at hturn
      simp only [MainThread.work, stopWork] at hturn hset hsame
      dsimp only
      omega
    | join =>
      dsimp only at hs
      split at hs <;> cases hs
      apply work_lt_main
      rw [hmain]
      simp only [MainThread.work, stopWork]
      omega
  · cases hs
    apply work_lt_main
    rw [hmain]
    cases phase <;> simp only [MainThread.work, stopWork] <;> omega

/-- The main thread always does something once it has read its file. -/
theorem work_lt_stop (hs : e.stepMain cfg = some e') (hread : e.main.readAll = true) :
    e'.work cfg < e.work cfg := by
  unfold stepMain at hs
  split at hs
  · next hmain => rw [hmain] at hread; cases hread
  · next hmain => rw [hmain] at hread; cases hread
  · next hmain => rw [hmain] at hread; cases hread
  · next hmain =>
    cases hs
    apply work_lt_main
    rw [hmain]
    simp only [MainThread.work, stopWork]
    omega
  · next i phase hmain => exact work_lt_stopLB hmain hs
  · next j phase hmain => exact work_lt_stopFP hmain hs
  · next hmain =>
    cases hs
    have hout := work_output cfg e { e with outputRunning := false } rfl rfl rfl
    have hclear : ({ e with outputRunning := false } : Engine).outputWork ≤ e.outputWork + 3 :=
      Nat.add_le_add_left (work_clear_output e.outputRunning e.outputQueue.queue e.output) _
    have hturn := work_main cfg { e with outputRunning := false } .shutdownOutput
    have hold : e.main.work cfg = 8 := by rw [hmain]; rfl
    have hnew : MainThread.work cfg .shutdownOutput = 4 := rfl
    dsimp only at hturn
    omega
  · next hmain =>
    cases hs
    have hsame : ({ e with outputQueue := e.outputQueue.shutdown } : Engine).work cfg =
      e.work cfg := rfl
    have hturn := work_main cfg { e with outputQueue := e.outputQueue.shutdown } .joinOutput
    have hold : e.main.work cfg = 4 := by rw [hmain]; rfl
    have hnew : MainThread.work cfg .joinOutput = 3 := rfl
    dsimp only at hturn
    omega
  · next hmain =>
    split at hs <;> cases hs
    apply work_lt_main
    rw [hmain]
    simp [MainThread.work]
  · next hmain =>
    cases hs
    have hlt : ({ e with main := .returned } : Engine).work cfg < e.work cfg := by
      apply work_lt_main
      rw [hmain]
      simp [MainThread.work]
    exact hlt
  · cases hs

section Threads

open ThreadSafeQueue

theorem Move.work_lt_mainThread (hc : Control cfg e) (h : Move cfg rules e .main e') :
    e'.work cfg < e.work cfg := by
  cases h with
  | readEnd h =>
    have hmain := work_main cfg e .sleep
    rw [h] at hmain
    simp only [MainThread.work, List.length_nil] at hmain
    omega
  | read pkt rest h =>
    have hmain := work_main cfg { e with stats := e.stats.read pkt } (.pushing pkt rest)
    have hstats : ({ e with stats := e.stats.read pkt } : Engine).work cfg = e.work cfg := rfl
    rw [hstats] at hmain
    dsimp only at hmain
    rw [h] at hmain
    simp only [MainThread.work, List.length_cons] at hmain
    omega
  | readPush pkt rest i queue h hpos hi hq =>
    have hmain := work_main cfg (e.setLB i { e.lbs i with inputQueue := queue }) (.reading rest)
    have hlt : i < cfg.lbs := by
      rw [hi]
      exact Nat.mod_lt _ hpos
    have hset := work_setLB hlt e { e.lbs i with inputQueue := queue }
    have hpush := work_push_lb ((push_eq_some hq).2 (hc.lbOpen (by rw [h]; rfl) i))
    rw [show (e.setLB i { e.lbs i with inputQueue := queue }).main = .pushing pkt rest from h]
      at hmain
    simp only [MainThread.work] at hmain hset
    dsimp only
    omega
  | stop e' h hread => exact work_lt_stop h hread

theorem Move.work_lt_lb {i : ℕ} (hc : Control cfg e) (huse : Useful e (.lb i))
    (h : Move cfg rules e (.lb i) e') : e'.work cfg < e.work cfg := by
  cases h with
  | lbTest i hi h =>
    apply work_lt_setLB hi
    have hbusy : (e.lbs i).running = true → (e.lbs i).inputQueue.queue ≠ [] :=
      fun hrun hq => huse (Or.inr ⟨hrun, hq, Or.inl h⟩)
    have hlt := testWork_lt hbusy
    unfold LoadBalancer.work
    rw [h]
    dsimp only
    split_ifs at hlt ⊢ <;> dsimp only <;> omega
  | lbIdle i hi h hq =>
    apply work_lt_setLB hi
    have hstopped : (e.lbs i).running = false := by
      by_contra hrun
      exact huse (Or.inr ⟨by simpa using hrun, hq, Or.inr h⟩)
    unfold LoadBalancer.work
    simp only [h, hstopped, hq, testWork, popWork]
    decide
  | lbPop i pkt queue hi h hq =>
    apply work_lt_setLB hi
    have hqueue := (popWithTimeout_eq_some hq).2
    have hpos := popWork_pos (e.lbs i).running (e.lbs i).inputQueue.queue
      (by rw [hqueue]; exact nofun)
    have hlen := congrArg List.length hqueue
    rw [List.length_cons] at hlen
    unfold LoadBalancer.work
    rw [h]
    dsimp only
    omega
  | lbDispatch i j pkt queue hi h hpos hj hq =>
    have hqueue := (push_eq_some hq).2 (hc.fpOpen hi (by rw [h]; exact nofun) j)
    have hpush := work_push_fp hqueue
    have hfps := work_le_setFP cfg j e { e.fps j with inputQueue := queue }
    have hset := work_setLB hi (e.setFP j { e.fps j with inputQueue := queue })
      { e.lbs i with thread := .count }
    have hlb : ({ e.lbs i with thread := .count } : LoadBalancer).work + 17 =
        ((e.setFP j { e.fps j with inputQueue := queue }).lbs i).work := by
      change _ = (e.lbs i).work
      unfold LoadBalancer.work
      rw [h]
      dsimp only
    dsimp only at hfps hset hlb ⊢
    omega
  | lbCount i hi h =>
    apply work_lt_setLB hi
    have htest := testWork_le (e.lbs i).running (e.lbs i).inputQueue.queue
    unfold LoadBalancer.work
    rw [h]
    dsimp only
    omega

theorem Move.work_lt_fp {j : ℕ} (hd : Draining cfg e) (huse : Useful e (.fp j))
    (h : Move cfg rules e (.fp j) e') : e'.work cfg < e.work cfg := by
  cases h with
  | fpTest j hj h =>
    apply work_lt_setFP hj
    have hbusy : (e.fps j).running = true → (e.fps j).inputQueue.queue ≠ [] :=
      fun hrun hq => huse (Or.inr ⟨hrun, hq, Or.inl h⟩)
    have hlt := testWork_lt hbusy
    unfold FastPath.work
    rw [h]
    dsimp only
    split_ifs at hlt ⊢ <;> dsimp only <;> omega
  | fpIdle j hj h hq =>
    apply work_lt_setFP hj
    have hstopped : (e.fps j).running = false := by
      by_contra hrun
      exact huse (Or.inr ⟨by simpa using hrun, hq, Or.inr h⟩)
    unfold FastPath.work
    simp only [h, hstopped, hq, testWork, popWork]
    decide
  | fpPop j pkt queue hj h hq =>
    apply work_lt_setFP hj
    have hqueue := (popWithTimeout_eq_some hq).2
    have hpos := popWork_pos (e.fps j).running (e.fps j).inputQueue.queue
      (by rw [hqueue]; exact nofun)
    have hlen := congrArg List.length hqueue
    rw [List.length_cons] at hlen
    unfold FastPath.work
    rw [h]
    dsimp only
    omega
  | fpProcess j pkt flow flows hj h hp =>
    apply work_lt_setFP hj
    unfold FastPath.work
    rw [h]
    dsimp only
    omega
  | fpRecord j pkt flow hj h =>
    have hlt : (e.setFP j { e.fps j with thread := .count pkt flow.blocked }).work cfg <
        e.work cfg := by
      apply work_lt_setFP hj
      unfold FastPath.work
      rw [h]
      dsimp only
      omega
    exact hlt
  | fpDrop j pkt hj h =>
    have hlt : (e.setFP j { e.fps j with thread := .test }).work cfg < e.work cfg := by
      apply work_lt_setFP hj
      have htest := testWork_le (e.fps j).running (e.fps j).inputQueue.queue
      unfold FastPath.work
      rw [h]
      dsimp only
      omega
    exact hlt
  | fpForward j pkt hj h =>
    have hlt : (e.setFP j { e.fps j with thread := .push pkt }).work cfg < e.work cfg := by
      apply work_lt_setFP hj
      unfold FastPath.work
      rw [h]
      dsimp only
      omega
    exact hlt
  | fpPush j pkt queue hj h hq =>
    have hqueue := (push_eq_some hq).2 (hd.active hj (by rw [h]; exact nofun)).2.1
    have hset := work_setFP hj e { e.fps j with thread := .test }
    have htest := testWork_le (e.fps j).running (e.fps j).inputQueue.queue
    have hfp : ({ e.fps j with thread := .test } : FastPath).work + 9 ≤ (e.fps j).work := by
      unfold FastPath.work
      rw [h]
      dsimp only
      omega
    have hout := work_output cfg (e.setFP j { e.fps j with thread := .test })
      { e.setFP j { e.fps j with thread := .test } with outputQueue := queue } rfl rfl rfl
    have hpush : ({ e.setFP j { e.fps j with thread := .test } with
        outputQueue := queue } : Engine).outputWork ≤
          (e.setFP j { e.fps j with thread := .test }).outputWork + 7 :=
      work_push_output e.outputRunning e.output hqueue
    omega

theorem Move.work_lt_outputThread (hd : Draining cfg e) (huse : Useful e .output)
    (h : Move cfg rules e .output e') : e'.work cfg < e.work cfg := by
  cases h with
  | outputTest h =>
    refine work_lt_output rfl rfl rfl ?_
    have hbusy : e.outputQueue.queue = [] → e.outputRunning = false := fun hq => by
      by_contra hrun
      exact huse (Or.inr ⟨by simpa using hrun, hq, by rw [h]; nofun⟩)
    unfold outputWork
    rw [h]
    by_cases hq : e.outputQueue.queue = []
    · simp [OutputThread.work, hq, hbusy hq]
    · cases hrun : e.outputRunning <;> simp [OutputThread.work, hq]
  | outputSize h =>
    refine work_lt_output rfl rfl rfl ?_
    have hrun := hd.outputFinishing (Or.inl h)
    unfold outputWork
    rw [h]
    by_cases hq : e.outputQueue.queue = []
    · simp [OutputThread.work, TSQueue.size, hq, hrun]
    · simp [OutputThread.work, TSQueue.size, hq, List.length_pos_iff]
  | outputIdle h hq =>
    refine work_lt_output rfl rfl rfl ?_
    have hrun : e.outputRunning = false := by
      by_contra hrun
      exact huse (Or.inr ⟨by simpa using hrun, hq, by rw [h]; nofun⟩)
    unfold outputWork
    simp [h, OutputThread.work, hq, hrun]
  | outputPop pkt queue h hq =>
    refine work_lt_output rfl rfl rfl ?_
    have hqueue := (popWithTimeout_eq_some hq).2
    have hlen := congrArg List.length hqueue
    rw [List.length_cons] at hlen
    have hne : e.outputQueue.queue ≠ [] := by rw [hqueue]; exact nofun
    unfold outputWork
    rw [h]
    simp only [OutputThread.work, if_neg hne]
    omega
  | outputWrite pkt h =>
    refine work_lt_output rfl rfl rfl ?_
    unfold outputWork
    rw [h]
    dsimp only [OutputThread.work]
    split_ifs <;> omega

end Threads

/-- Every useful step leaves less to do. -/
theorem Move.work_lt (hc : Control cfg e) (hd : Draining cfg e)
    (huse : Useful e l) (h : Move cfg rules e l e') : e'.work cfg < e.work cfg := by
  cases l with
  | main => exact h.work_lt_mainThread hc
  | lb i => exact h.work_lt_lb hc huse
  | fp j => exact h.work_lt_fp hd huse
  | output => exact h.work_lt_outputThread hd huse

/-! ## Some thread can do something -/

/-- Every queue has room for a packet when it is empty. -/
structure Roomy (e : Engine) : Prop where
  lbs : ∀ i, 0 < (e.lbs i).inputQueue.maxSize
  fps : ∀ j, 0 < (e.fps j).inputQueue.maxSize
  output : 0 < e.outputQueue.maxSize

theorem roomy_start (input : List Packet) : Roomy (start input) :=
  ⟨fun _ => Nat.succ_pos _, fun _ => Nat.succ_pos _, Nat.succ_pos _⟩

theorem Roomy.setLB (h : Roomy e) {i : ℕ} {lb : LoadBalancer}
    (hsize : lb.inputQueue.maxSize = (e.lbs i).inputQueue.maxSize) : Roomy (e.setLB i lb) :=
  { h with
    lbs := fun k => by
      rw [setLB_lbs]
      split_ifs
      · rw [hsize]
        exact h.lbs i
      · exact h.lbs k }

theorem Roomy.setFP (h : Roomy e) {j : ℕ} {fp : FastPath}
    (hsize : fp.inputQueue.maxSize = (e.fps j).inputQueue.maxSize) : Roomy (e.setFP j fp) :=
  { h with
    fps := fun k => by
      rw [setFP_fps]
      split_ifs
      · rw [hsize]
        exact h.fps j
      · exact h.fps k }

open ThreadSafeQueue in
theorem Roomy.step (h : Roomy e) (hs : Step cfg rules e l e') : Roomy e' := by
  cases hs.move with
  | readPush pkt rest i queue hm hpos hi hq =>
    have hset : Roomy (e.setLB i { e.lbs i with inputQueue := queue }) := h.setLB (push_maxSize hq)
    exact { hset with }
  | stop e' hm hread =>
    have hsame := sameWork_stop hm hread
    exact ⟨fun i => hsame.lbSize i ▸ h.lbs i, fun j => hsame.fpSize j ▸ h.fps j,
      hsame.outputSize ▸ h.output⟩
  | lbTest i hi ht => exact h.setLB rfl
  | lbIdle i hi ht hq => exact h.setLB rfl
  | lbPop i pkt queue hi ht hq => exact h.setLB (popWithTimeout_maxSize hq)
  | lbDispatch i j pkt queue hi ht hpos hj hq =>
    have hset : Roomy (e.setFP j { e.fps j with inputQueue := queue }) := h.setFP (push_maxSize hq)
    exact hset.setLB rfl
  | lbCount i hi ht => exact h.setLB rfl
  | fpTest j hj ht => exact h.setFP rfl
  | fpIdle j hj ht hq => exact h.setFP rfl
  | fpPop j pkt queue hj ht hq => exact h.setFP (popWithTimeout_maxSize hq)
  | fpProcess j pkt flow flows hj ht hp => exact h.setFP rfl
  | fpRecord j pkt flow hj ht =>
    have hset : Roomy (e.setFP j { e.fps j with thread := .count pkt flow.blocked }) := h.setFP rfl
    exact { hset with }
  | fpDrop j pkt hj ht =>
    have hset : Roomy (e.setFP j { e.fps j with thread := .test }) := h.setFP rfl
    exact { hset with }
  | fpForward j pkt hj ht =>
    have hset : Roomy (e.setFP j { e.fps j with thread := .push pkt }) := h.setFP rfl
    exact { hset with }
  | fpPush j pkt queue hj ht hq =>
    have hset : Roomy (e.setFP j { e.fps j with thread := .test }) := h.setFP rfl
    exact { hset with output := (push_maxSize hq).symm ▸ h.output }
  | outputPop pkt queue ht hq =>
    exact { h with output := (popWithTimeout_maxSize hq).symm ▸ h.output }
  | _ => exact { h with }

/-- A push into an empty queue does not wait. -/
theorem exists_push (queue : TSQueue Packet) (pkt : Packet) (hroom : 0 < queue.maxSize)
    (hempty : queue.queue = []) : ∃ queue', queue.push pkt = some queue' := by
  apply Option.ne_none_iff_exists'.1
  intro hnone
  have hfull := (ThreadSafeQueue.push_eq_none_iff.1 hnone).2
  rw [hempty, List.length_nil] at hfull
  exact hroom.ne hfull

theorem exists_stepOutput (h : e.output ≠ .exited) : ∃ e', e.stepOutput = some e' := by
  unfold stepOutput
  cases hout : e.output with
  | exited => exact absurd hout h
  | pop => dsimp only; split <;> exact ⟨_, rfl⟩
  | _ => exact ⟨_, rfl⟩

theorem defined_receive (rules : Rules) (flows : Flows) (pkt : Packet) :
    Defined (flows.receive rules pkt) := by
  obtain ⟨name, hname⟩ := defined_extractName pkt
  exact ⟨_, bind_eq_ok_iff.2 ⟨_, FlowEntry.receive_eq hname rules _, rfl⟩⟩

theorem exists_stepFP (rules : Rules) {j : ℕ} (h : (e.fps j).thread ≠ .exited)
    (hpush : ∀ pkt, ∃ queue, e.outputQueue.push pkt = some queue) :
    ∃ e', e.stepFP rules j = some e' := by
  unfold stepFP
  dsimp only
  cases hthread : (e.fps j).thread with
  | exited => exact absurd hthread h
  | pop => dsimp only; split <;> exact ⟨_, rfl⟩
  | process pkt =>
    obtain ⟨p, hp⟩ := defined_receive rules (e.fps j).flows pkt
    dsimp only
    rw [hp]
    exact ⟨_, rfl⟩
  | count pkt blocked => cases blocked <;> exact ⟨_, rfl⟩
  | push pkt =>
    obtain ⟨queue, hq⟩ := hpush pkt
    dsimp only
    rw [hq]
    exact ⟨_, rfl⟩
  | _ => exact ⟨_, rfl⟩

/-- While a load balancer runs, no fast path has been told to stop. -/
theorem Control.fp_running (h : Control cfg e) {i j : ℕ} (hi : i < cfg.lbs)
    (hthread : (e.lbs i).thread ≠ .exited) (hj : j < cfg.fps) :
    (e.fps j).running = true ∧ (e.fps j).thread ≠ .exited := by
  have hnone : e.main.clearedFPs cfg.fps = 0 := by
    have hexited := h.lbExited i
    cases hmain : e.main with
    | reading rest => rfl
    | pushing pkt rest => rfl
    | sleep => rfl
    | stopLB i' phase => rfl
    | _ =>
      rw [hmain] at hexited
      exact absurd (hexited hi) hthread
  have hrun : (e.fps j).running = true := by
    rw [h.fpRunning j hj, hnone]
    exact decide_eq_true (Nat.zero_le j)
  refine ⟨hrun, fun hexited => ?_⟩
  rw [h.fpStopped j hj hexited] at hrun
  cases hrun

theorem exists_stepLB (hc : Control cfg e) (hr : Roomy e) {i : ℕ} (hi : i < cfg.lbs)
    (hthread : (e.lbs i).thread ≠ .exited) (hfps : ∀ j < cfg.fps, (e.fps j).Resting)
    (hpos : ∀ pkt, (e.lbs i).thread = .dispatch pkt → 0 < cfg.perLb) :
    ∃ e', e.stepLB cfg i = some e' := by
  unfold stepLB
  dsimp only
  cases hlb : (e.lbs i).thread with
  | exited => exact absurd hlb hthread
  | pop => dsimp only; split <;> exact ⟨_, rfl⟩
  | dispatch pkt =>
    have hperLb := hpos pkt hlb
    have hj := cfg.dispatch_lt hi hperLb pkt
    have hempty := ((hfps _ hj).resolve_left (hc.fp_running hi hthread hj).2).2.1
    obtain ⟨queue, hq⟩ := exists_push _ pkt (hr.fps _) hempty
    dsimp only
    rw [cfg.length_fpsOf, hashIndex_of_pos hperLb, Option.bind_eq_bind, Option.bind_some,
      cfg.getElem?_fpsOf i (Nat.mod_lt _ hperLb), Option.bind_eq_bind, Option.bind_some]
    change ∃ e', ((e.fps (i * cfg.perLb + selectFP cfg.perLb pkt.tuple)).inputQueue.push pkt >>= _)
      = some e'
    rw [hq]
    exact ⟨_, rfl⟩
  | _ => exact ⟨_, rfl⟩

/-- A thread that was told to stop and rests has ended. -/
theorem exists_stepMain (hc : Control cfg e) (hr : Roomy e) (hmain : e.main ≠ .returned)
    (hlbs : ∀ i < cfg.lbs, (e.lbs i).Resting) (hfps : ∀ j < cfg.fps, (e.fps j).Resting)
    (hout : e.OutputResting) (hpos : ∀ pkt rest, e.main = .pushing pkt rest → 0 < cfg.lbs) :
    ∃ e', e.stepMain cfg = some e' := by
  have hlbRunning := hc.lbRunning
  have hfpRunning := hc.fpRunning
  have hrunning := hc.outputRunning
  unfold stepMain
  cases hm : e.main with
  | reading rest => cases rest <;> exact ⟨_, rfl⟩
  | pushing pkt rest =>
    rw [hm] at hlbRunning
    have hlbs' := hpos pkt rest hm
    have hi : (fiveTupleHash pkt.tuple).toNat % cfg.lbs < cfg.lbs := Nat.mod_lt _ hlbs'
    have hrun := (hlbRunning _ hi).trans (decide_eq_true (Nat.zero_le _))
    have hempty : (e.lbs ((fiveTupleHash pkt.tuple).toNat % cfg.lbs)).inputQueue.queue = [] := by
      rcases hlbs _ hi with hexited | hrest
      · rw [hc.lbStopped _ hi hexited] at hrun
        cases hrun
      · exact hrest.2.1
    obtain ⟨queue, hq⟩ := exists_push _ pkt (hr.lbs _) hempty
    dsimp only
    rw [hashIndex_of_pos hlbs', Option.bind_eq_bind, Option.bind_some, hq]
    exact ⟨_, rfl⟩
  | stopLB i phase =>
    dsimp only
    unfold stepStopLB
    split_ifs with hi
    · cases phase with
      | join =>
        rw [hm] at hlbRunning
        have hexited : (e.lbs i).thread = .exited := by
          refine (hlbs i hi).resolve_right fun hrest => ?_
          rw [hlbRunning i hi] at hrest
          exact Nat.not_succ_le_self i (of_decide_eq_true hrest.1)
        dsimp only
        rw [hexited]
        exact ⟨_, rfl⟩
      | _ => exact ⟨_, rfl⟩
    · exact ⟨_, rfl⟩
  | stopFP j phase =>
    dsimp only
    unfold stepStopFP
    split_ifs with hj
    · cases phase with
      | join =>
        rw [hm] at hfpRunning
        have hexited : (e.fps j).thread = .exited := by
          refine (hfps j hj).resolve_right fun hrest => ?_
          rw [hfpRunning j hj] at hrest
          exact Nat.not_succ_le_self j (of_decide_eq_true hrest.1)
        dsimp only
        rw [hexited]
        exact ⟨_, rfl⟩
      | _ => exact ⟨_, rfl⟩
    · exact ⟨_, rfl⟩
  | joinOutput =>
    rw [hm] at hrunning
    have hexited : e.output = .exited := by
      refine hout.resolve_right fun hrest => ?_
      rw [hrunning] at hrest
      cases hrest.1
    dsimp only
    rw [hexited]
    exact ⟨_, rfl⟩
  | returned => exact absurd hm hmain
  | _ => exact ⟨_, rfl⟩

/-- Each stage of routing has a destination for the packets that are on their way to it. -/
structure Served (cfg : Config) (e : Engine) : Prop where
  push : ∀ pkt rest, e.main = .pushing pkt rest → 0 < cfg.lbs
  dispatch : ∀ i pkt, (e.lbs i).thread = .dispatch pkt → 0 < cfg.perLb

/-- While the main thread has not returned, some thread can do something: the last one in the
pipeline that is not at rest finds room for its packet. -/
theorem exists_useful (rules : Rules) (hc : Control cfg e) (hd : Draining cfg e) (hr : Roomy e)
    (hserved : Served cfg e) (hmain : e.main ≠ .returned) :
    ∃ l e', Step cfg rules e l e' ∧ Useful e l := by
  by_cases hout : e.OutputResting
  swap
  · obtain ⟨e', hs⟩ := exists_stepOutput fun h => hout (Or.inl h)
    exact ⟨.output, e', hs, hout⟩
  have hqueue : e.outputQueue.queue = [] := hout.elim hd.outputEmpty fun h => h.2.1
  by_cases hfps : ∀ j < cfg.fps, (e.fps j).Resting
  swap
  · push Not at hfps
    obtain ⟨j, hj, hbusy⟩ := hfps
    obtain ⟨e', hs⟩ := exists_stepFP rules (fun h => hbusy (Or.inl h)) fun pkt =>
      exists_push _ pkt hr.output hqueue
    exact ⟨.fp j, e', (if_pos hj).trans hs, hbusy⟩
  by_cases hlbs : ∀ i < cfg.lbs, (e.lbs i).Resting
  swap
  · push Not at hlbs
    obtain ⟨i, hi, hbusy⟩ := hlbs
    obtain ⟨e', hs⟩ := exists_stepLB hc hr hi (fun h => hbusy (Or.inl h)) hfps (hserved.dispatch i)
    exact ⟨.lb i, e', (if_pos hi).trans hs, hbusy⟩
  obtain ⟨e', hs⟩ := exists_stepMain hc hr hmain hlbs hfps hout hserved.push
  exact ⟨.main, e', hs, trivial⟩

/-- The program has read no packet and will read none. -/
structure Vacant (e : Engine) : Prop where
  held : e.main.held = []
  rest : e.main.rest = []
  lbs : ∀ i, (e.lbs i).thread.held ++ (e.lbs i).inputQueue.queue = []

theorem Vacant.setLB (h : Vacant e) {i : ℕ} {lb : LoadBalancer}
    (hlb : lb.thread.held ++ lb.inputQueue.queue = []) : Vacant (e.setLB i lb) :=
  { h with
    lbs := fun k => by
      rw [setLB_lbs]
      split_ifs
      · exact hlb
      · exact h.lbs k }

theorem Vacant.step (h : Vacant e) (hs : Step cfg rules e l e') : Vacant e' := by
  have hlbs := h.lbs
  cases hs.move with
  | readEnd hm => exact { h with held := rfl, rest := rfl }
  | read pkt rest hm =>
    have hrest := h.rest
    rw [hm] at hrest
    cases hrest
  | readPush pkt rest i queue hm hpos hi hq =>
    have hheld := h.held
    rw [hm] at hheld
    cases hheld
  | stop e' hm hread =>
    have hsame := sameWork_stop hm hread
    exact ⟨hsame.held.trans h.held, hsame.rest.trans h.rest, fun i => by
      rw [hsame.lbThread, hsame.lbQueue]
      exact h.lbs i⟩
  | lbTest i hi ht =>
    have hi' := hlbs i
    rw [ht] at hi'
    apply h.setLB
    cases (e.lbs i).running <;> exact hi'
  | lbIdle i hi ht hq =>
    have hi' := hlbs i
    rw [ht] at hi'
    exact h.setLB hi'
  | lbPop i pkt queue hi ht hq =>
    have hi' := hlbs i
    rw [ht, (ThreadSafeQueue.popWithTimeout_eq_some hq).2] at hi'
    cases hi'
  | lbDispatch i j pkt queue hi ht hpos hj hq =>
    have hi' := hlbs i
    rw [ht] at hi'
    cases hi'
  | lbCount i hi ht =>
    have hi' := hlbs i
    rw [ht] at hi'
    exact h.setLB hi'
  | _ => exact { h with }

theorem Vacant.served (h : Vacant e) : Served cfg e where
  push := fun pkt rest hm => by
    have hheld := h.held
    rw [hm] at hheld
    cases hheld
  dispatch := fun i pkt ht => by
    have hi := h.lbs i
    rw [ht] at hi
    cases hi

/-- What is left to do can be done. -/
theorem leads_returned {I : Engine → Prop}
    (hI : ∀ e l e', Step cfg rules e l e' → I e → I e') (hserved : ∀ e, I e → Served cfg e)
    (hc : Control cfg e) (hd : Draining cfg e) (hr : Roomy e) (h : I e) :
    Leads (Step cfg rules) e fun e' => e'.main = .returned := by
  refine Leads.of_variant (I := fun e => Control cfg e ∧ Draining cfg e ∧ Roomy e ∧ I e) (work cfg)
    ?_ ?_ ⟨hc, hd, hr, h⟩
  · rintro e l e' hs ⟨hc, hd, hr, h⟩
    exact ⟨hc.step hs, hd.step hs, hr.step hs, hI e l e' hs h⟩
  · rintro e ⟨hc, hd, hr, h⟩ hmain
    obtain ⟨l, e', hs, huse⟩ := exists_useful rules hc hd hr (hserved e h) hmain
    exact ⟨l, e', hs, hs.move.work_lt hc hd huse⟩

/-! ## Files that a configuration cannot serve -/

/-- Without a load balancer the main thread never gets rid of its packet. -/
theorem pushing_step {pkt : Packet} {rest : List Packet} (hlbs : cfg.lbs = 0)
    (hmain : e.main = .pushing pkt rest) (hs : Step cfg rules e l e') :
    e'.main = .pushing pkt rest := by
  cases hs.move with
  | readEnd hm => rw [hm] at hmain; cases hmain
  | read pkt' rest' hm => rw [hm] at hmain; cases hmain
  | readPush pkt' rest' i queue hm hpos hi hq => exact absurd hlbs hpos.ne'
  | stop e' hm hread => rw [hmain] at hread; cases hread
  | _ => exact hmain

/-- Without a fast path a load balancer never gets rid of its packet. -/
theorem dispatch_step {i : ℕ} {pkt : Packet} (hperLb : cfg.perLb = 0)
    (hthread : (e.lbs i).thread = .dispatch pkt) (hs : Step cfg rules e l e') :
    (e'.lbs i).thread = .dispatch pkt := by
  have hset {k : ℕ} {lb : LoadBalancer} (hk : (e.lbs k).thread = .dispatch pkt → False) :
      ((e.setLB k lb).lbs i).thread = .dispatch pkt := by
    have hne : i ≠ k := fun hik => hk (hik ▸ hthread)
    rw [setLB_lbs, if_neg hne]
    exact hthread
  cases hs.move with
  | readPush pkt' rest k queue hm hpos hi hq =>
    change ((e.setLB k { e.lbs k with inputQueue := queue }).lbs i).thread = .dispatch pkt
    rw [setLB_lbs]
    split_ifs with hik
    · exact hik ▸ hthread
    · exact hthread
  | stop e' hm hread => rw [(sameWork_stop hm hread).lbThread, hthread]
  | lbTest k hk ht => exact hset fun hx => by rw [ht] at hx; cases hx
  | lbIdle k hk ht hq => exact hset fun hx => by rw [ht] at hx; cases hx
  | lbPop k pkt' queue hk ht hq => exact hset fun hx => by rw [ht] at hx; cases hx
  | lbDispatch k j pkt' queue hk ht hpos hj hq => exact absurd hperLb hpos.ne'
  | lbCount k hk ht => exact hset fun hx => by rw [ht] at hx; cases hx
  | _ => exact hthread

/-- Some run brings the first packet into the hands of its load balancer. -/
theorem exists_dispatch (rules : Rules) (pkt : Packet) (rest : List Packet) (hlbs : 0 < cfg.lbs) :
    ∃ ts e i, Run (Step cfg rules) (start (pkt :: rest)) ts e ∧ i < cfg.lbs ∧
      (e.lbs i).thread = .dispatch pkt := by
  obtain ⟨i, hi⟩ : ∃ i, i = (fiveTupleHash pkt.tuple).toNat % cfg.lbs := ⟨_, rfl⟩
  have hlt : i < cfg.lbs := hi ▸ Nat.mod_lt _ hlbs
  obtain ⟨queue, hq⟩ := exists_push {} pkt (Nat.succ_pos 9999) rfl
  have hqueue : queue.queue = [pkt] := (ThreadSafeQueue.push_eq_some hq).2 rfl
  obtain ⟨⟨p, queue'⟩, hp⟩ := Option.ne_none_iff_exists'.1
    (mt ThreadSafeQueue.popWithTimeout_eq_none_iff.1 (by rw [hqueue]; exact nofun))
  obtain rfl : pkt = p := by
    have hhead := (ThreadSafeQueue.popWithTimeout_eq_some hp).2
    rw [hqueue] at hhead
    exact (List.cons.inj hhead).1
  let lb : LoadBalancer := { inputQueue := queue }
  let read : Engine :=
    { start (pkt :: rest) with main := .pushing pkt rest, stats := Stats.read {} pkt }
  let pushed : Engine := { read.setLB i lb with main := .reading rest }
  have hpush : Step cfg rules read .main pushed := by
    change stepMain cfg read = some pushed
    unfold stepMain
    dsimp only [read]
    rw [hashIndex_of_pos hlbs, ← hi, Option.bind_eq_bind, Option.bind_some]
    change (({} : TSQueue Packet).push pkt >>= _) = _
    rw [hq]
    rfl
  have htest : Step cfg rules pushed (.lb i) (pushed.setLB i { lb with thread := .pop }) := by
    refine (if_pos hlt).trans ?_
    unfold stepLB
    have hsame : pushed.lbs i = lb := (setLB_lbs read i i lb).trans (if_pos rfl)
    rw [hsame]
    rfl
  have hpop : Step cfg rules (pushed.setLB i { lb with thread := .pop }) (.lb i)
      ((pushed.setLB i { lb with thread := .pop }).setLB i
        { lb with inputQueue := queue', thread := .dispatch pkt }) := by
    refine (if_pos hlt).trans ?_
    unfold stepLB
    rw [setLB_lbs, if_pos rfl]
    dsimp only
    rw [TSQueue.pop, hp]
  have hread : Step cfg rules (start (pkt :: rest)) .main read := rfl
  have hnil : Run (Step cfg rules) (start (pkt :: rest)) [] (start (pkt :: rest)) := .nil _
  have hrun := ((hnil.snoc hread).snoc hpush).snoc htest
  refine ⟨_, _, i, hrun.snoc hpop, hlt, ?_⟩
  rw [setLB_lbs, if_pos rfl]

end Engine

open Mt.Engine

/-- Whatever the threads of a constructed engine have done so far, `process` can still return,
unless the file has a packet and the configuration has no load balancer or no fast path for it. -/
theorem can_return_iff (cfg : Config) (rules : Rules) (input : List Packet) :
    (∀ ts e, Run (Step cfg rules) (start input) ts e →
      Leads (Step cfg rules) e fun e' => e'.main = .returned) ↔
    input = [] ∨ 0 < cfg.numLbs ∧ 0 < cfg.fpsPerLb := by
  constructor
  · intro hall
    by_contra hnot
    obtain ⟨hinput, hconfig⟩ := not_or.1 hnot
    obtain ⟨pkt, rest, rfl⟩ := List.exists_cons_of_ne_nil hinput
    by_cases hlbs : cfg.lbs = 0
    · have hread : Step cfg rules (start (pkt :: rest)) .main
          { start (pkt :: rest) with
            main := .pushing pkt rest
            stats := Stats.read {} pkt } := rfl
      obtain ⟨ts, e, hrun, hret⟩ := hall _ _ ((Run.nil _).snoc hread)
      have hstuck := (hrun.invariant (fun e => e.main = .pushing pkt rest) (fun _ => True)
        (fun _ _ _ hs _ h => pushing_step hlbs h hs) (fun _ _ => trivial) rfl).1
      rw [hret] at hstuck
      cases hstuck
    · have hperLb : cfg.perLb = 0 := by
        by_contra hperLb
        exact hconfig ⟨Int.pos_iff_toNat_pos.2 (Nat.pos_of_ne_zero hlbs),
          Int.pos_iff_toNat_pos.2 (Nat.pos_of_ne_zero hperLb)⟩
      obtain ⟨ts, e, i, hrun, hi, hthread⟩ :=
        exists_dispatch rules pkt rest (Nat.pos_of_ne_zero hlbs)
      obtain ⟨ts', e', hrun', hret⟩ := hall ts e hrun
      have hstuck := (hrun'.invariant (fun e => (e.lbs i).thread = .dispatch pkt) (fun _ => True)
        (fun _ _ _ hs _ h => dispatch_step hperLb h hs) (fun _ _ => trivial) hthread).1
      have hcontrol := ((Run.append_iff.2 ⟨e, hrun, hrun'⟩).invariant (Control cfg)
        (fun _ => True) (fun _ _ _ hs _ h => h.step hs) (fun _ _ => trivial)
        (control_start cfg _)).1
      rw [hcontrol.lbExited i (by rw [hret]; exact hi)] at hstuck
      cases hstuck
  · intro hconfig ts e hrun
    have hall (I : Engine → Prop) (hI : ∀ e l e', Step cfg rules e l e' → I e → I e')
        (hserved : ∀ e, I e → Served cfg e) (hstart : I (start input)) :
        Leads (Step cfg rules) e fun e' => e'.main = .returned := by
      obtain ⟨hc, hd, hr, h⟩ := (hrun.invariant
        (fun e => Control cfg e ∧ Draining cfg e ∧ Roomy e ∧ I e) (fun _ => True)
        (fun e l e' hs _ ⟨hc, hd, hr, h⟩ =>
          ⟨hc.step hs, hd.step hs, hr.step hs, hI e l e' hs h⟩) (fun _ _ => trivial)
        ⟨control_start cfg input, draining_start cfg input, roomy_start input, hstart⟩).1
      exact leads_returned hI hserved hc hd hr h
    rcases hconfig with rfl | ⟨hlbs, hperLb⟩
    · exact hall Vacant (fun _ _ _ hs h => h.step hs) (fun _ h => h.served)
        ⟨rfl, rfl, fun _ => rfl⟩
    · exact hall (fun _ => True) (fun _ _ _ _ _ => trivial)
        (fun _ _ => ⟨fun _ _ _ => Int.pos_iff_toNat_pos.1 hlbs,
          fun _ _ _ => Int.pos_iff_toNat_pos.1 hperLb⟩) trivial

end DPI.Mt
