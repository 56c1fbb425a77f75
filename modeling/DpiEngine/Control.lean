import DpiEngine.Moves
import DpiEngine.Lib.Run

/-!
# Shutdown order

What the program counter of the main thread says about the flags, the queues and the other
threads: which threads are told to stop, which have ended, and which queues are still in service.
-/

namespace DPI

namespace MainThread

/-- The number of load balancers whose `running_` flag is cleared, out of `n`. -/
def clearedLBs (n : ℕ) : MainThread → ℕ
  | .joinReader | .complete | .stop => 0
  | .stopLB i .clear => i
  | .stopLB i _ => i + 1
  | _ => n

/-- The number of load balancers whose threads are joined, out of `n`. -/
def joinedLBs (n : ℕ) : MainThread → ℕ
  | .joinReader | .complete | .stop => 0
  | .stopLB i _ => i
  | _ => n

/-- The number of fast paths whose `running_` flag is cleared, out of `n`. -/
def clearedFPs (n : ℕ) : MainThread → ℕ
  | .joinReader | .complete | .stop | .stopLB _ _ => 0
  | .stopFP j .clear => j
  | .stopFP j _ => j + 1
  | _ => n

/-- The number of fast paths whose threads are joined, out of `n`. -/
def joinedFPs (n : ℕ) : MainThread → ℕ
  | .joinReader | .complete | .stop | .stopLB _ _ => 0
  | .stopFP j _ => j
  | _ => n

/-- `stop` has not cleared the flag of the engine yet. -/
def beforeStop : MainThread → Bool
  | .joinReader | .complete | .stop => true
  | _ => false

/-- The output thread is joined. -/
def joinedOutput : MainThread → Bool
  | .closeFile | .returned => true
  | _ => false

/-- How far the main thread has got with each kind of thread. -/
def progress (cfg : Config) (p : MainThread) : ℕ × ℕ × ℕ × ℕ × Bool :=
  (p.clearedLBs cfg.numLoadBalancers, p.joinedLBs cfg.numLoadBalancers,
    p.clearedFPs cfg.totalFps, p.joinedFPs cfg.totalFps, p.joinedOutput)

end MainThread

namespace Engine

variable {cfg : Config} {rm : RuleManager} {e e' : Engine} {l : Label}

/-- The flags are those that the main thread has set so far, and what it has waited for holds. -/
structure Control (cfg : Config) (e : Engine) : Prop where
  readerDone : e.main = .joinReader ∨ e.reader = .done
  running : e.running = e.main.beforeStop
  lbRunning : ∀ i < cfg.numLoadBalancers,
    (e.lbs i).running = decide (e.main.clearedLBs cfg.numLoadBalancers ≤ i)
  lbShutdown : ∀ i, (e.lbs i).inputQueue.isShutdown = true → e.main ≠ .joinReader
  lbExited : ∀ i < e.main.joinedLBs cfg.numLoadBalancers, (e.lbs i).thread = .exited
  fpRunning : ∀ j < cfg.totalFps,
    (e.fps j).running = decide (e.main.clearedFPs cfg.totalFps ≤ j)
  fpShutdown : ∀ j, (e.fps j).inputQueue.isShutdown = true →
    e.main.joinedLBs cfg.numLoadBalancers = cfg.numLoadBalancers
  fpExited : ∀ j < e.main.joinedFPs cfg.totalFps, (e.fps j).thread = .exited
  outputShutdown : e.outputQueue.isShutdown = true →
    e.main.joinedFPs cfg.totalFps = cfg.totalFps
  outputExited : e.main.joinedOutput = true → e.output = .exited
  fileOpen : e.outputFileOpen = true ∨ e.main.joinedOutput = true

theorem control_start (cfg : Config) (input : List PacketJob) : Control cfg (start input) where
  readerDone := Or.inl rfl
  running := rfl
  lbRunning := fun _ _ => rfl
  lbShutdown := fun _ h => by cases h
  lbExited := fun _ h => by cases h
  fpRunning := fun _ _ => rfl
  fpShutdown := fun _ h => by cases h
  fpExited := fun _ h => by cases h
  outputShutdown := fun h => by cases h
  outputExited := fun h => by cases h
  fileOpen := Or.inl rfl

/-- The main thread and the flags are as before, and threads that had ended have not moved. -/
structure SameControl (e e' : Engine) : Prop where
  main : e'.main = e.main
  running : e'.running = e.running
  fileOpen : e'.outputFileOpen = e.outputFileOpen
  outputShutdown : e'.outputQueue.isShutdown = e.outputQueue.isShutdown
  readerDone : e.reader = .done → e'.reader = .done
  outputExited : e.output = .exited → e'.output = .exited
  lbRunning : ∀ i, (e'.lbs i).running = (e.lbs i).running
  lbShutdown : ∀ i, (e'.lbs i).inputQueue.isShutdown = (e.lbs i).inputQueue.isShutdown
  lbExited : ∀ i, (e.lbs i).thread = .exited → (e'.lbs i).thread = .exited
  fpRunning : ∀ j, (e'.fps j).running = (e.fps j).running
  fpShutdown : ∀ j, (e'.fps j).inputQueue.isShutdown = (e.fps j).inputQueue.isShutdown
  fpExited : ∀ j, (e.fps j).thread = .exited → (e'.fps j).thread = .exited

theorem Control.of_same (h : Control cfg e) (hs : SameControl e e') : Control cfg e' where
  readerDone := by rw [hs.main]; exact h.readerDone.imp_right hs.readerDone
  running := by rw [hs.running, hs.main]; exact h.running
  lbRunning := fun i hi => by rw [hs.lbRunning, hs.main]; exact h.lbRunning i hi
  lbShutdown := fun i hi => by rw [hs.main]; exact h.lbShutdown i (hs.lbShutdown i ▸ hi)
  lbExited := fun i hi => hs.lbExited i (h.lbExited i (hs.main ▸ hi))
  fpRunning := fun j hj => by rw [hs.fpRunning, hs.main]; exact h.fpRunning j hj
  fpShutdown := fun j hj => by rw [hs.main]; exact h.fpShutdown j (hs.fpShutdown j ▸ hj)
  fpExited := fun j hj => hs.fpExited j (h.fpExited j (hs.main ▸ hj))
  outputShutdown := fun ho => by rw [hs.main]; exact h.outputShutdown (hs.outputShutdown ▸ ho)
  outputExited := fun ho => hs.outputExited (h.outputExited (hs.main ▸ ho))
  fileOpen := by rw [hs.fileOpen, hs.main]; exact h.fileOpen

theorem SameControl.refl (e : Engine) : SameControl e e :=
  ⟨rfl, rfl, rfl, rfl, id, id, fun _ => rfl, fun _ => rfl, fun _ => id, fun _ => rfl,
    fun _ => rfl, fun _ => id⟩

/-- A load balancer that has not ended takes a step of its own. -/
theorem SameControl.setLB (hs : SameControl e e') (i : ℕ) (lb : LoadBalancer)
    (hrun : lb.running = (e'.lbs i).running)
    (hshut : lb.inputQueue.isShutdown = (e'.lbs i).inputQueue.isShutdown)
    (hex : (e'.lbs i).thread = .exited → lb.thread = .exited) :
    SameControl e (e'.setLB i lb) :=
  { hs with
    lbRunning := fun i' => by
      rw [← hs.lbRunning, setLB_lbs]
      split_ifs with hi
      · rw [hi, hrun]
      · rfl
    lbShutdown := fun i' => by
      rw [← hs.lbShutdown, setLB_lbs]
      split_ifs with hi
      · rw [hi, hshut]
      · rfl
    lbExited := fun i' h => by
      rw [setLB_lbs]
      split_ifs with hi
      · exact hex (hi ▸ hs.lbExited i' h)
      · exact hs.lbExited i' h }

/-- A fast path that has not ended takes a step of its own. -/
theorem SameControl.setFP (hs : SameControl e e') (j : ℕ) (fp : FastPath)
    (hrun : fp.running = (e'.fps j).running)
    (hshut : fp.inputQueue.isShutdown = (e'.fps j).inputQueue.isShutdown)
    (hex : (e'.fps j).thread = .exited → fp.thread = .exited) :
    SameControl e (e'.setFP j fp) :=
  { hs with
    fpRunning := fun j' => by
      rw [← hs.fpRunning, setFP_fps]
      split_ifs with hj
      · rw [hj, hrun]
      · rfl
    fpShutdown := fun j' => by
      rw [← hs.fpShutdown, setFP_fps]
      split_ifs with hj
      · rw [hj, hshut]
      · rfl
    fpExited := fun j' h => by
      rw [setFP_fps]
      split_ifs with hj
      · exact hex (hj ▸ hs.fpExited j' h)
      · exact hs.fpExited j' h }

open ThreadSafeQueue in
/-- Only the main thread moves the flags. -/
theorem Move.sameControl (h : Move cfg rm e l e') (hl : l ≠ .main) : SameControl e e' := by
  have hrefl := SameControl.refl e
  cases h with
  | readEnd h => exact { hrefl with readerDone := fun _ => rfl }
  | read job rest h => exact { hrefl with readerDone := fun hd => by rw [h] at hd; cases hd }
  | readPush job rest i queue h hi hq =>
    have hset := hrefl.setLB i { e.lbs i with inputQueue := queue } rfl (push_eq_some hq).1 id
    exact { hset with readerDone := fun hd => by rw [h] at hd; cases hd }
  | lbTest i hi h => exact hrefl.setLB i _ rfl rfl fun hx => by rw [h] at hx; cases hx
  | lbIdle i hi h => exact hrefl.setLB i _ rfl rfl fun hx => by rw [h] at hx; cases hx
  | lbPop i job queue hi h hq =>
    exact hrefl.setLB i _ rfl (popWithTimeout_eq_some hq).1 fun hx => by rw [h] at hx; cases hx
  | lbDispatch i j job queue hi h hj hq =>
    have hset := hrefl.setFP j { e.fps j with inputQueue := queue } rfl (push_eq_some hq).1 id
    exact hset.setLB i _ rfl rfl fun hx => by rw [Engine.setFP, h] at hx; cases hx
  | fpTest j env hj h => exact hrefl.setFP j _ rfl rfl fun hx => by rw [h] at hx; cases hx
  | fpIdle j env hj h => exact hrefl.setFP j _ rfl rfl fun hx => by rw [h] at hx; cases hx
  | fpPop j env job queue hj h hq =>
    exact hrefl.setFP j _ rfl (popWithTimeout_eq_some hq).1 fun hx => by rw [h] at hx; cases hx
  | fpProcess j env job action processor hj h hp =>
    exact hrefl.setFP j _ rfl rfl fun hx => by rw [h] at hx; cases hx
  | fpOutput j env job action hj h =>
    have hstats : SameControl e { e with
        stats := e.stats.output job action
        handled := e.handled ++ [(job, action)] } := { hrefl with }
    exact hstats.setFP j _ rfl rfl fun hx => by rw [h] at hx; cases hx
  | fpPush j env job action queue hj h hq =>
    have hset : SameControl e (e.setFP j { e.fps j with thread := .count action }) :=
      hrefl.setFP j _ rfl rfl fun hx => by rw [h] at hx; cases hx
    exact { hset with outputShutdown := (push_eq_some hq).1 }
  | fpCount j env action processor hj h hp =>
    exact hrefl.setFP j _ rfl rfl fun hx => by rw [h] at hx; cases hx
  | outputTest h => exact { hrefl with outputExited := fun hx => by rw [h] at hx; cases hx }
  | outputEmpty h => exact { hrefl with outputExited := fun hx => by rw [h] at hx; cases hx }
  | outputIdle h => exact { hrefl with outputExited := fun hx => by rw [h] at hx; cases hx }
  | outputPop job queue h hq =>
    exact { hrefl with
      outputShutdown := (popWithTimeout_eq_some hq).1
      outputExited := fun hx => by rw [h] at hx; cases hx }
  | outputWrite job h =>
    exact { hrefl with outputExited := fun hx => by rw [h] at hx; cases hx }
  | main e' h => exact absurd rfl hl

/-! ## Steps of the main thread -/

theorem Control.done (h : Control cfg e) (hm : e.main ≠ .joinReader) : e.reader = .done :=
  h.readerDone.resolve_left hm

/-- A step inside a phase: which threads are told to stop and which are joined stays the same. -/
theorem Control.turn (h : Control cfg e) {p : MainThread} {r : Bool} (hp : p ≠ .joinReader)
    (hd : e.reader = .done) (hr : r = p.beforeStop) (hm : p.progress cfg = e.main.progress cfg) :
    Control cfg { e with running := r, main := p } := by
  obtain ⟨hcl, hjl, hcf, hjf, hjo⟩ :
      p.clearedLBs cfg.numLoadBalancers = e.main.clearedLBs cfg.numLoadBalancers ∧
      p.joinedLBs cfg.numLoadBalancers = e.main.joinedLBs cfg.numLoadBalancers ∧
      p.clearedFPs cfg.totalFps = e.main.clearedFPs cfg.totalFps ∧
      p.joinedFPs cfg.totalFps = e.main.joinedFPs cfg.totalFps ∧
      p.joinedOutput = e.main.joinedOutput := by
    simpa only [MainThread.progress, Prod.mk.injEq] using hm
  exact
    { readerDone := .inr hd
      running := hr
      lbRunning := fun i hi => by rw [hcl]; exact h.lbRunning i hi
      lbShutdown := fun _ _ => hp
      lbExited := fun i hi => h.lbExited i (hjl ▸ hi)
      fpRunning := fun j hj => by rw [hcf]; exact h.fpRunning j hj
      fpShutdown := fun j hj => by rw [hjl]; exact h.fpShutdown j hj
      fpExited := fun j hj => h.fpExited j (hjf ▸ hj)
      outputShutdown := fun ho => by rw [hjf]; exact h.outputShutdown ho
      outputExited := fun ho => h.outputExited (hjo ▸ ho)
      fileOpen := by rw [hjo]; exact h.fileOpen }

/-- While the load balancers are stopped in turn, only they and the program counter change. -/
theorem Control.moveLBs (h : Control cfg e) {i i' : ℕ} {phase phase' : StopPhase}
    {lbs : ℕ → LoadBalancer} (hmain : e.main = .stopLB i phase) (hi : i < cfg.numLoadBalancers)
    (hrun : ∀ k < cfg.numLoadBalancers, (lbs k).running =
      decide ((MainThread.stopLB i' phase').clearedLBs cfg.numLoadBalancers ≤ k))
    (hex : ∀ k < i', (lbs k).thread = .exited) :
    Control cfg { e with lbs := lbs, main := .stopLB i' phase' } := by
  have hrunning := h.running
  have hfpRunning := h.fpRunning
  have hfpShutdown := h.fpShutdown
  have hopen := h.fileOpen
  rw [hmain] at hrunning hfpRunning hfpShutdown hopen
  exact
    { readerDone := .inr (h.done (by rw [hmain]; nofun))
      running := hrunning
      lbRunning := hrun
      lbShutdown := fun _ _ => nofun
      lbExited := hex
      fpRunning := hfpRunning
      fpShutdown := fun j hj => absurd (hfpShutdown j hj) hi.ne
      fpExited := fun j hj => absurd hj (Nat.not_lt_zero j)
      outputShutdown := fun ho => by
        have hzero := h.outputShutdown ho
        rw [hmain] at hzero
        exact hzero
      outputExited := fun ho => by cases ho
      fileOpen := hopen }

/-- While the fast paths are stopped in turn, only they and the program counter change. -/
theorem Control.moveFPs (h : Control cfg e) {j j' : ℕ} {phase phase' : StopPhase}
    {fps : ℕ → FastPath} (hmain : e.main = .stopFP j phase) (hj : j < cfg.totalFps)
    (hrun : ∀ k < cfg.totalFps, (fps k).running =
      decide ((MainThread.stopFP j' phase').clearedFPs cfg.totalFps ≤ k))
    (hex : ∀ k < j', (fps k).thread = .exited) :
    Control cfg { e with fps := fps, main := .stopFP j' phase' } := by
  have hrunning := h.running
  have hlbRunning := h.lbRunning
  have hlbExited := h.lbExited
  have houtput := h.outputShutdown
  have hopen := h.fileOpen
  rw [hmain] at hrunning hlbRunning hlbExited houtput hopen
  exact
    { readerDone := .inr (h.done (by rw [hmain]; nofun))
      running := hrunning
      lbRunning := hlbRunning
      lbShutdown := fun _ _ => nofun
      lbExited := hlbExited
      fpRunning := hrun
      fpShutdown := fun _ _ => rfl
      fpExited := hex
      outputShutdown := fun ho => absurd (houtput ho) hj.ne
      outputExited := fun ho => by cases ho
      fileOpen := hopen }

/-- `LoadBalancer::stop` has returned for each load balancer. -/
theorem Control.leaveLBs (h : Control cfg e) {i : ℕ} {phase : StopPhase}
    (hmain : e.main = .stopLB i phase) (hi : cfg.numLoadBalancers ≤ i) :
    Control cfg { e with main := .stopFP 0 .clear } := by
  have hrunning := h.running
  have hlbRunning := h.lbRunning
  have hlbExited := h.lbExited
  have hfpRunning := h.fpRunning
  have houtput := h.outputShutdown
  have hopen := h.fileOpen
  rw [hmain] at hrunning hlbRunning hlbExited hfpRunning houtput hopen
  have hcleared : cfg.numLoadBalancers ≤
      (MainThread.stopLB i phase).clearedLBs cfg.numLoadBalancers := by
    cases phase <;> simp only [MainThread.clearedLBs] <;> omega
  exact
    { readerDone := .inr (h.done (by rw [hmain]; nofun))
      running := hrunning
      lbRunning := fun k hk => by
        rw [hlbRunning k hk, decide_eq_decide]
        exact iff_of_false (by omega) (Nat.not_le.2 hk)
      lbShutdown := fun _ _ => nofun
      lbExited := fun k hk => hlbExited k (lt_of_lt_of_le hk hi)
      fpRunning := hfpRunning
      fpShutdown := fun _ _ => rfl
      fpExited := fun k hk => absurd hk (Nat.not_lt_zero k)
      outputShutdown := houtput
      outputExited := fun ho => by cases ho
      fileOpen := hopen }

/-- `FastPathProcessor::stop` has returned for each fast path. -/
theorem Control.leaveFPs (h : Control cfg e) {j : ℕ} {phase : StopPhase}
    (hmain : e.main = .stopFP j phase) (hj : cfg.totalFps ≤ j) :
    Control cfg { e with main := .shutdownOutput } := by
  have hrunning := h.running
  have hlbRunning := h.lbRunning
  have hlbExited := h.lbExited
  have hfpRunning := h.fpRunning
  have hfpExited := h.fpExited
  have hopen := h.fileOpen
  rw [hmain] at hrunning hlbRunning hlbExited hfpRunning hfpExited hopen
  have hcleared : cfg.totalFps ≤ (MainThread.stopFP j phase).clearedFPs cfg.totalFps := by
    cases phase <;> simp only [MainThread.clearedFPs] <;> omega
  exact
    { readerDone := .inr (h.done (by rw [hmain]; nofun))
      running := hrunning
      lbRunning := hlbRunning
      lbShutdown := fun _ _ => nofun
      lbExited := hlbExited
      fpRunning := fun k hk => by
        rw [hfpRunning k hk, decide_eq_decide]
        exact iff_of_false (by omega) (Nat.not_le.2 hk)
      fpShutdown := fun _ _ => rfl
      fpExited := fun k hk => hfpExited k (lt_of_lt_of_le hk hj)
      outputShutdown := fun _ => rfl
      outputExited := fun ho => by cases ho
      fileOpen := hopen }

theorem Control.stopLB (h : Control cfg e) {i : ℕ} {phase : StopPhase}
    (hmain : e.main = .stopLB i phase) (hs : e.stepStopLB cfg i phase = some e') :
    Control cfg e' := by
  have hlbRunning := h.lbRunning
  have hlbExited := h.lbExited
  rw [hmain] at hlbRunning hlbExited
  unfold stepStopLB at hs
  split_ifs at hs with hi
  · cases phase with
    | clear =>
      have hset : (e.lbs i).running = true := by
        rw [hlbRunning i hi]
        exact decide_eq_true le_rfl
      dsimp only at hs
      rw [if_pos hset] at hs
      cases hs
      apply h.moveLBs hmain hi
      · intro k hk
        rw [setLB_lbs]
        split_ifs with hki
        · exact (decide_eq_false (by rw [hki]; exact Nat.not_succ_le_self i)).symm
        · rw [hlbRunning k hk, decide_eq_decide]
          simp only [MainThread.clearedLBs]
          omega
      · intro k hk
        rw [setLB_lbs, if_neg hk.ne]
        exact hlbExited k hk
    | shutdown =>
      cases hs
      apply h.moveLBs hmain hi
      · intro k hk
        rw [setLB_lbs]
        split_ifs with hki
        · subst hki
          exact hlbRunning k hk
        · exact hlbRunning k hk
      · intro k hk
        rw [setLB_lbs, if_neg hk.ne]
        exact hlbExited k hk
    | join =>
      dsimp only at hs
      split at hs
      · next hexited =>
        cases hs
        apply h.moveLBs hmain hi
        · exact hlbRunning
        · intro k hk
          rcases Nat.lt_succ_iff_lt_or_eq.1 hk with hk | rfl
          · exact hlbExited k hk
          · exact hexited
      · cases hs
  · cases hs
    exact h.leaveLBs hmain (Nat.not_lt.1 hi)

theorem Control.stopFP (h : Control cfg e) {j : ℕ} {phase : StopPhase}
    (hmain : e.main = .stopFP j phase) (hs : e.stepStopFP cfg j phase = some e') :
    Control cfg e' := by
  have hfpRunning := h.fpRunning
  have hfpExited := h.fpExited
  rw [hmain] at hfpRunning hfpExited
  unfold stepStopFP at hs
  split_ifs at hs with hj
  · cases phase with
    | clear =>
      have hset : (e.fps j).running = true := by
        rw [hfpRunning j hj]
        exact decide_eq_true le_rfl
      dsimp only at hs
      rw [if_pos hset] at hs
      cases hs
      apply h.moveFPs hmain hj
      · intro k hk
        rw [setFP_fps]
        split_ifs with hkj
        · exact (decide_eq_false (by rw [hkj]; exact Nat.not_succ_le_self j)).symm
        · rw [hfpRunning k hk, decide_eq_decide]
          simp only [MainThread.clearedFPs]
          omega
      · intro k hk
        rw [setFP_fps, if_neg hk.ne]
        exact hfpExited k hk
    | shutdown =>
      cases hs
      apply h.moveFPs hmain hj
      · intro k hk
        rw [setFP_fps]
        split_ifs with hkj
        · subst hkj
          exact hfpRunning k hk
        · exact hfpRunning k hk
      · intro k hk
        rw [setFP_fps, if_neg hk.ne]
        exact hfpExited k hk
    | join =>
      dsimp only at hs
      split at hs
      · next hexited =>
        cases hs
        apply h.moveFPs hmain hj
        · exact hfpRunning
        · intro k hk
          rcases Nat.lt_succ_iff_lt_or_eq.1 hk with hk | rfl
          · exact hfpExited k hk
          · exact hexited
      · cases hs
  · cases hs
    exact h.leaveFPs hmain (Nat.not_lt.1 hj)

/-- The output thread is joined once its queue is shut down, and the file is closed after that. -/
theorem Control.joined (h : Control cfg e) (hmain : e.main = .joinOutput)
    (hexited : e.output = .exited) : Control cfg { e with main := .closeFile } := by
  have hrunning := h.running
  have hlbRunning := h.lbRunning
  have hlbExited := h.lbExited
  have hfpRunning := h.fpRunning
  have hfpExited := h.fpExited
  rw [hmain] at hrunning hlbRunning hlbExited hfpRunning hfpExited
  exact
    { readerDone := .inr (h.done (by rw [hmain]; nofun))
      running := hrunning
      lbRunning := hlbRunning
      lbShutdown := fun _ _ => nofun
      lbExited := hlbExited
      fpRunning := hfpRunning
      fpShutdown := fun _ _ => rfl
      fpExited := hfpExited
      outputShutdown := fun _ => rfl
      outputExited := fun _ => hexited
      fileOpen := .inr rfl }

/-- The main thread moves the flags in the order of `stop`, and waits for each thread that it has
told to stop. -/
theorem Control.main (h : Control cfg e) (hs : e.stepMain cfg = some e') : Control cfg e' := by
  have hrunning := h.running
  unfold stepMain at hs
  split at hs
  · next hmain =>
    rw [hmain] at hrunning
    split at hs
    · next hd =>
      cases hs
      exact h.turn nofun hd hrunning (by rw [hmain]; rfl)
    · cases hs
  · next hmain =>
    rw [hmain] at hrunning
    cases hs
    have hturn := h.turn (p := .stop) nofun (h.done (by rw [hmain]; nofun)) hrunning
      (by rw [hmain]; rfl)
    exact { hturn with }
  · next hmain =>
    have hset : e.running = true := by rw [hrunning, hmain]; rfl
    rw [if_pos hset] at hs
    cases hs
    exact h.turn nofun (h.done (by rw [hmain]; nofun)) rfl (by rw [hmain]; rfl)
  · next i phase hmain => exact h.stopLB hmain hs
  · next j phase hmain => exact h.stopFP hmain hs
  · next hmain =>
    rw [hmain] at hrunning
    cases hs
    have hturn := h.turn (p := .joinOutput) nofun (h.done (by rw [hmain]; nofun)) hrunning
      (by rw [hmain]; rfl)
    exact { hturn with outputShutdown := fun _ => rfl }
  · next hmain =>
    split at hs
    · next hexited =>
      cases hs
      exact h.joined hmain hexited
    · cases hs
  · next hmain =>
    rw [hmain] at hrunning
    cases hs
    have hturn := h.turn (p := .returned) nofun (h.done (by rw [hmain]; nofun)) hrunning
      (by rw [hmain]; rfl)
    exact { hturn with fileOpen := .inr rfl }
  · cases hs

theorem Control.step (h : Control cfg e) (hs : Step cfg rm e l e') : Control cfg e' := by
  have hmove := hs.move
  by_cases hl : l = .main
  · subst hl
    cases hmove with
    | main _ hm => exact h.main hm
  · exact h.of_same (hmove.sameControl hl)

end Engine

end DPI
