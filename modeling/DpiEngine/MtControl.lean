import DpiEngine.MtDelivery
import DpiEngine.MtMoves

/-!
# Shutdown order of the stand-alone program

What the program counter of the main thread of `dpi_mt.cpp` says about the flags, the queues and the
other threads.
-/

namespace DPI.Mt

namespace MainThread

/-- The number of load balancers whose `running_` flag is cleared, out of `n`. -/
def clearedLBs (n : ℕ) : MainThread → ℕ
  | .reading _ | .pushing _ _ | .sleep => 0
  | .stopLB i .clear => i
  | .stopLB i _ => i + 1
  | _ => n

/-- The number of load balancers whose threads are joined, out of `n`. -/
def joinedLBs (n : ℕ) : MainThread → ℕ
  | .reading _ | .pushing _ _ | .sleep => 0
  | .stopLB i _ => i
  | _ => n

/-- The number of fast paths whose `running_` flag is cleared, out of `n`. -/
def clearedFPs (n : ℕ) : MainThread → ℕ
  | .reading _ | .pushing _ _ | .sleep | .stopLB _ _ => 0
  | .stopFP j .clear => j
  | .stopFP j _ => j + 1
  | _ => n

/-- The main thread has told the output thread to finish. -/
def clearedOutput : MainThread → Bool
  | .shutdownOutput | .joinOutput | .closeOutput | .returned => true
  | _ => false

end MainThread

namespace Engine

variable {cfg : Config} {rules : Rules} {e e' : Engine} {l : Label}

theorem setLB_lbs (e : Engine) (i i' : ℕ) (lb : LoadBalancer) :
    (e.setLB i lb).lbs i' = if i' = i then lb else e.lbs i' := Function.update_apply ..

/-- The flags are those that the main thread has set so far, a thread that has ended was told to,
and a queue that is shut down gets no packet any more. -/
structure Control (cfg : Config) (e : Engine) : Prop where
  lbRunning : ∀ i < cfg.lbs, (e.lbs i).running = decide (e.main.clearedLBs cfg.lbs ≤ i)
  lbStopped : ∀ i < cfg.lbs, (e.lbs i).thread = .exited → (e.lbs i).running = false
  lbShutdown : ∀ i, (e.lbs i).inputQueue.isShutdown = true → e.main.readAll = true
  lbExited : ∀ i < e.main.joinedLBs cfg.lbs, (e.lbs i).thread = .exited
  fpRunning : ∀ j < cfg.fps, (e.fps j).running = decide (e.main.clearedFPs cfg.fps ≤ j)
  fpStopped : ∀ j < cfg.fps, (e.fps j).thread = .exited → (e.fps j).running = false
  fpShutdown : ∀ j, (e.fps j).inputQueue.isShutdown = true →
    e.main.joinedLBs cfg.lbs = cfg.lbs
  outputRunning : e.outputRunning = !e.main.clearedOutput

theorem control_start (cfg : Config) (input : List Packet) : Control cfg (start input) where
  lbRunning := fun _ _ => rfl
  lbStopped := fun _ _ h => by cases h
  lbShutdown := fun _ h => by cases h
  lbExited := fun _ h => by cases h
  fpRunning := fun _ _ => rfl
  fpStopped := fun _ _ h => by cases h
  fpShutdown := fun _ h => by cases h
  outputRunning := rfl

/-! ## Steps of the workers -/

/-- A step of a load balancer or a fast path leaves the flags alone, ends only a thread that was
told to stop, and moves no thread that has ended. -/
structure SameFlags (e e' : Engine) : Prop where
  lbRunning : ∀ i, (e'.lbs i).running = (e.lbs i).running
  lbShutdown : ∀ i, (e'.lbs i).inputQueue.isShutdown = (e.lbs i).inputQueue.isShutdown
  lbKept : ∀ i, (e.lbs i).thread = .exited → (e'.lbs i).thread = .exited
  lbEnded : ∀ i, (e'.lbs i).thread = .exited →
    (e.lbs i).thread = .exited ∨ (e.lbs i).running = false
  fpRunning : ∀ j, (e'.fps j).running = (e.fps j).running
  fpShutdown : ∀ j, (e'.fps j).inputQueue.isShutdown = (e.fps j).inputQueue.isShutdown
  fpEnded : ∀ j, (e'.fps j).thread = .exited →
    (e.fps j).thread = .exited ∨ (e.fps j).running = false
  outputRunning : e'.outputRunning = e.outputRunning

theorem SameFlags.refl (e : Engine) : SameFlags e e :=
  ⟨fun _ => rfl, fun _ => rfl, fun _ => id, fun _ => Or.inl, fun _ => rfl, fun _ => rfl,
    fun _ => Or.inl, rfl⟩

theorem SameFlags.setLB (hs : SameFlags e e') (i : ℕ) (lb : LoadBalancer)
    (hrun : lb.running = (e.lbs i).running)
    (hshut : lb.inputQueue.isShutdown = (e.lbs i).inputQueue.isShutdown)
    (hkept : (e.lbs i).thread = .exited → lb.thread = .exited)
    (hended : lb.thread = .exited → (e.lbs i).thread = .exited ∨ (e.lbs i).running = false) :
    SameFlags e (e'.setLB i lb) :=
  { hs with
    lbRunning := fun i' => by
      rw [setLB_lbs]
      split_ifs with hi
      · rw [hi, hrun]
      · exact hs.lbRunning i'
    lbShutdown := fun i' => by
      rw [setLB_lbs]
      split_ifs with hi
      · rw [hi, hshut]
      · exact hs.lbShutdown i'
    lbKept := fun i' h => by
      rw [setLB_lbs]
      split_ifs with hi
      · exact hkept (hi ▸ h)
      · exact hs.lbKept i' h
    lbEnded := fun i' h => by
      rw [setLB_lbs] at h
      split_ifs at h with hi
      · exact hi ▸ hended h
      · exact hs.lbEnded i' h }

theorem SameFlags.setFP (hs : SameFlags e e') (j : ℕ) (fp : FastPath)
    (hrun : fp.running = (e.fps j).running)
    (hshut : fp.inputQueue.isShutdown = (e.fps j).inputQueue.isShutdown)
    (hended : fp.thread = .exited → (e.fps j).thread = .exited ∨ (e.fps j).running = false) :
    SameFlags e (e'.setFP j fp) :=
  { hs with
    fpRunning := fun j' => by
      rw [setFP_fps]
      split_ifs with hj
      · rw [hj, hrun]
      · exact hs.fpRunning j'
    fpShutdown := fun j' => by
      rw [setFP_fps]
      split_ifs with hj
      · rw [hj, hshut]
      · exact hs.fpShutdown j'
    fpEnded := fun j' h => by
      rw [setFP_fps] at h
      split_ifs at h with hj
      · exact hj ▸ hended h
      · exact hs.fpEnded j' h }

open ThreadSafeQueue in
theorem Move.sameFlags (h : Move cfg rules e l e') (hread : l = .main → e.main.readAll = false) :
    SameFlags e e' := by
  have hrefl := SameFlags.refl e
  cases h with
  | readEnd h => exact { hrefl with }
  | read pkt rest h => exact { hrefl with }
  | readPush pkt rest i queue h hpos hi hq =>
    have hset := hrefl.setLB i { e.lbs i with inputQueue := queue } rfl (push_eq_some hq).1 id
      Or.inl
    exact { hset with }
  | stop e' h hall =>
    rw [hread rfl] at hall
    cases hall
  | lbTest i hi h =>
    refine hrefl.setLB i _ rfl rfl (fun hx => by rw [h] at hx; cases hx) fun hx => Or.inr ?_
    dsimp only at hx
    split_ifs at hx with hrun
    exact Bool.eq_false_of_not_eq_true hrun
  | lbIdle i hi h hq =>
    exact hrefl.setLB i _ rfl rfl (fun hx => by rw [h] at hx; cases hx) nofun
  | lbPop i pkt queue hi h hq =>
    exact hrefl.setLB i _ rfl (popWithTimeout_eq_some hq).1
      (fun hx => by rw [h] at hx; cases hx) nofun
  | lbDispatch i j pkt queue hi h hpos hj hq =>
    have hset := hrefl.setFP j { e.fps j with inputQueue := queue } rfl (push_eq_some hq).1 Or.inl
    exact hset.setLB i _ rfl rfl (fun hx => by rw [h] at hx; cases hx) nofun
  | lbCount i hi h =>
    exact hrefl.setLB i _ rfl rfl (fun hx => by rw [h] at hx; cases hx) nofun
  | fpTest j hj h =>
    refine hrefl.setFP j _ rfl rfl fun hx => Or.inr ?_
    dsimp only at hx
    split_ifs at hx with hrun
    exact Bool.eq_false_of_not_eq_true hrun
  | fpIdle j hj h hq => exact hrefl.setFP j _ rfl rfl nofun
  | fpPop j pkt queue hj h hq => exact hrefl.setFP j _ rfl (popWithTimeout_eq_some hq).1 nofun
  | fpProcess j pkt flow flows hj h hp => exact hrefl.setFP j _ rfl rfl nofun
  | fpRecord j pkt flow hj h =>
    have hset := hrefl.setFP j { e.fps j with thread := .count pkt flow.blocked } rfl rfl nofun
    exact { hset with }
  | fpDrop j pkt hj h =>
    have hset := hrefl.setFP j { e.fps j with thread := .test } rfl rfl nofun
    exact { hset with }
  | fpForward j pkt hj h =>
    have hset := hrefl.setFP j { e.fps j with thread := .push pkt } rfl rfl nofun
    exact { hset with }
  | fpPush j pkt queue hj h hq =>
    have hset := hrefl.setFP j { e.fps j with thread := .test } rfl rfl nofun
    exact { hset with }
  | _ => exact { hrefl with }

theorem Control.of_same (h : Control cfg e) (hs : SameFlags e e')
    (hread : e.main.readAll = true → e'.main.readAll = true)
    (hlbs : e'.main.clearedLBs cfg.lbs = e.main.clearedLBs cfg.lbs)
    (hjoined : e'.main.joinedLBs cfg.lbs = e.main.joinedLBs cfg.lbs)
    (hfps : e'.main.clearedFPs cfg.fps = e.main.clearedFPs cfg.fps)
    (hout : e'.main.clearedOutput = e.main.clearedOutput) : Control cfg e' where
  lbRunning := fun i hi => by rw [hs.lbRunning, hlbs]; exact h.lbRunning i hi
  lbStopped := fun i hi hx => by
    rw [hs.lbRunning]
    exact (hs.lbEnded i hx).elim (h.lbStopped i hi) id
  lbShutdown := fun i hx => hread (h.lbShutdown i (hs.lbShutdown i ▸ hx))
  lbExited := fun i hi => hs.lbKept i (h.lbExited i (hjoined ▸ hi))
  fpRunning := fun j hj => by rw [hs.fpRunning, hfps]; exact h.fpRunning j hj
  fpStopped := fun j hj hx => by
    rw [hs.fpRunning]
    exact (hs.fpEnded j hx).elim (h.fpStopped j hj) id
  fpShutdown := fun j hx => hjoined.trans (h.fpShutdown j (hs.fpShutdown j ▸ hx))
  outputRunning := by rw [hs.outputRunning, hout]; exact h.outputRunning

/-! ## Steps of the main thread -/

/-- While the load balancers are stopped in turn, only they and the program counter change. -/
theorem Control.moveLBs (h : Control cfg e) {i i' : ℕ} {phase phase' : StopPhase}
    {lbs : ℕ → LoadBalancer} (hmain : e.main = .stopLB i phase) (hi : i < cfg.lbs)
    (hrun : ∀ k < cfg.lbs, (lbs k).running =
      decide ((MainThread.stopLB i' phase').clearedLBs cfg.lbs ≤ k))
    (hstopped : ∀ k < cfg.lbs, (lbs k).thread = .exited → (lbs k).running = false)
    (hex : ∀ k < i', (lbs k).thread = .exited) :
    Control cfg { e with lbs := lbs, main := .stopLB i' phase' } := by
  have hfpRunning := h.fpRunning
  have hfpShutdown := h.fpShutdown
  have houtput := h.outputRunning
  rw [hmain] at hfpRunning hfpShutdown houtput
  exact
    { lbRunning := hrun
      lbStopped := hstopped
      lbShutdown := fun _ _ => rfl
      lbExited := hex
      fpRunning := hfpRunning
      fpStopped := h.fpStopped
      fpShutdown := fun j hj => absurd (hfpShutdown j hj) hi.ne
      outputRunning := houtput }

/-- While the fast paths are stopped in turn, only they and the program counter change. -/
theorem Control.moveFPs (h : Control cfg e) {j j' : ℕ} {phase phase' : StopPhase}
    {fps : ℕ → FastPath} (hmain : e.main = .stopFP j phase)
    (hrun : ∀ k < cfg.fps, (fps k).running =
      decide ((MainThread.stopFP j' phase').clearedFPs cfg.fps ≤ k))
    (hstopped : ∀ k < cfg.fps, (fps k).thread = .exited → (fps k).running = false) :
    Control cfg { e with fps := fps, main := .stopFP j' phase' } := by
  have hlbRunning := h.lbRunning
  have hlbExited := h.lbExited
  have houtput := h.outputRunning
  rw [hmain] at hlbRunning hlbExited houtput
  exact
    { lbRunning := hlbRunning
      lbStopped := h.lbStopped
      lbShutdown := fun _ _ => rfl
      lbExited := hlbExited
      fpRunning := hrun
      fpStopped := hstopped
      fpShutdown := fun _ _ => rfl
      outputRunning := houtput }

theorem Control.stopLB (h : Control cfg e) {i : ℕ} {phase : StopPhase}
    (hmain : e.main = .stopLB i phase) (hs : e.stepStopLB cfg i phase = some e') :
    Control cfg e' := by
  have hlbRunning := h.lbRunning
  have hlbExited := h.lbExited
  have hfpRunning := h.fpRunning
  have houtput := h.outputRunning
  rw [hmain] at hlbRunning hlbExited hfpRunning houtput
  unfold stepStopLB at hs
  split_ifs at hs with hi
  · cases phase with
    | clear =>
      cases hs
      apply h.moveLBs hmain hi
      · intro k hk
        rw [setLB_lbs]
        split_ifs with hki
        · exact (decide_eq_false (by rw [hki]; exact Nat.not_succ_le_self i)).symm
        · rw [hlbRunning k hk, decide_eq_decide]
          simp only [MainThread.clearedLBs]
          omega
      · intro k hk hx
        rw [setLB_lbs] at hx ⊢
        split_ifs at hx ⊢ with hki
        · rfl
        · exact h.lbStopped k hk hx
      · intro k hk
        rw [setLB_lbs, if_neg hk.ne]
        exact hlbExited k hk
    | shutdown =>
      cases hs
      apply h.moveLBs hmain hi
      · intro k hk
        rw [setLB_lbs]
        split_ifs with hki
        · subst hki
          exact hlbRunning k hk
        · exact hlbRunning k hk
      · intro k hk hx
        rw [setLB_lbs] at hx ⊢
        split_ifs at hx ⊢ with hki
        · subst hki
          exact h.lbStopped k hk hx
        · exact h.lbStopped k hk hx
      · intro k hk
        rw [setLB_lbs, if_neg hk.ne]
        exact hlbExited k hk
    | join =>
      dsimp only at hs
      split at hs
      · next hexited =>
        cases hs
        refine h.moveLBs hmain hi hlbRunning h.lbStopped fun k hk => ?_
        rcases Nat.lt_succ_iff_lt_or_eq.1 hk with hk | rfl
        · exact hlbExited k hk
        · exact hexited
      · cases hs
  · cases hs
    have hle : cfg.lbs ≤ (MainThread.stopLB i phase).clearedLBs cfg.lbs := by
      cases phase <;> simp only [MainThread.clearedLBs] <;> omega
    exact
      { h with
        lbRunning := fun k hk => by
          rw [hlbRunning k hk, decide_eq_decide]
          exact iff_of_false (by omega) (Nat.not_le.2 hk)
        lbShutdown := fun _ _ => rfl
        lbExited := fun k hk => hlbExited k (lt_of_lt_of_le hk (Nat.not_lt.1 hi))
        fpRunning := hfpRunning
        fpShutdown := fun _ _ => rfl
        outputRunning := houtput }

theorem Control.stopFP (h : Control cfg e) {j : ℕ} {phase : StopPhase}
    (hmain : e.main = .stopFP j phase) (hs : e.stepStopFP cfg j phase = some e') :
    Control cfg e' := by
  have hlbRunning := h.lbRunning
  have hlbExited := h.lbExited
  have hfpRunning := h.fpRunning
  have houtput := h.outputRunning
  rw [hmain] at hlbRunning hlbExited hfpRunning houtput
  unfold stepStopFP at hs
  split_ifs at hs with hj
  · cases phase with
    | clear =>
      cases hs
      apply h.moveFPs hmain
      · intro k hk
        rw [setFP_fps]
        split_ifs with hkj
        · exact (decide_eq_false (by rw [hkj]; exact Nat.not_succ_le_self j)).symm
        · rw [hfpRunning k hk, decide_eq_decide]
          simp only [MainThread.clearedFPs]
          omega
      · intro k hk hx
        rw [setFP_fps] at hx ⊢
        split_ifs at hx ⊢ with hkj
        · rfl
        · exact h.fpStopped k hk hx
    | shutdown =>
      cases hs
      apply h.moveFPs hmain
      · intro k hk
        rw [setFP_fps]
        split_ifs with hkj
        · subst hkj
          exact hfpRunning k hk
        · exact hfpRunning k hk
      · intro k hk hx
        rw [setFP_fps] at hx ⊢
        split_ifs at hx ⊢ with hkj
        · subst hkj
          exact h.fpStopped k hk hx
        · exact h.fpStopped k hk hx
    | join =>
      dsimp only at hs
      split at hs <;> cases hs
      exact h.moveFPs hmain hfpRunning h.fpStopped
  · cases hs
    have hle : cfg.fps ≤ (MainThread.stopFP j phase).clearedFPs cfg.fps := by
      cases phase <;> simp only [MainThread.clearedFPs] <;> omega
    exact
      { h with
        lbRunning := hlbRunning
        lbShutdown := fun _ _ => rfl
        lbExited := hlbExited
        fpRunning := fun k hk => by
          rw [hfpRunning k hk, decide_eq_decide]
          exact iff_of_false (by omega) (Nat.not_le.2 hk)
        fpShutdown := fun _ _ => rfl
        outputRunning := houtput }

theorem Control.main (h : Control cfg e) (hs : e.stepMain cfg = some e')
    (hread : e.main.readAll = true) : Control cfg e' := by
  have hlbRunning := h.lbRunning
  have hlbExited := h.lbExited
  have hfpRunning := h.fpRunning
  have houtput := h.outputRunning
  unfold stepMain at hs
  split at hs
  · next hmain => rw [hmain] at hread; cases hread
  · next hmain => rw [hmain] at hread; cases hread
  · next hmain => rw [hmain] at hread; cases hread
  · next hmain =>
    cases hs
    exact h.of_same { SameFlags.refl e with } (fun _ => rfl) (by rw [hmain]; rfl)
      (by rw [hmain]; rfl) (by rw [hmain]; rfl) (by rw [hmain]; rfl)
  · next i phase hmain => exact h.stopLB hmain hs
  · next j phase hmain => exact h.stopFP hmain hs
  · next hmain =>
    cases hs
    rw [hmain] at hlbRunning hlbExited hfpRunning
    exact
      { h with
        lbRunning := hlbRunning
        lbShutdown := fun _ _ => rfl
        lbExited := hlbExited
        fpRunning := hfpRunning
        fpShutdown := fun _ _ => rfl
        outputRunning := rfl }
  · next hmain =>
    cases hs
    exact h.of_same { SameFlags.refl e with } (fun _ => rfl) (by rw [hmain]; rfl)
      (by rw [hmain]; rfl) (by rw [hmain]; rfl) (by rw [hmain]; rfl)
  · next hmain =>
    split at hs
    · cases hs
      exact h.of_same { SameFlags.refl e with } (fun _ => rfl) (by rw [hmain]; rfl)
        (by rw [hmain]; rfl) (by rw [hmain]; rfl) (by rw [hmain]; rfl)
    · cases hs
  · next hmain =>
    cases hs
    exact h.of_same { SameFlags.refl e with } (fun _ => rfl) (by rw [hmain]; rfl)
      (by rw [hmain]; rfl) (by rw [hmain]; rfl) (by rw [hmain]; rfl)
  · cases hs

theorem Control.step (h : Control cfg e) (hs : Step cfg rules e l e') : Control cfg e' := by
  have hsame := hs.move.sameFlags
  cases hs.move with
  | stop e' hmain hread => exact h.main hmain hread
  | readEnd hmain =>
    exact h.of_same (hsame fun _ => by rw [hmain]; rfl)
      (fun hx => by rw [hmain] at hx; cases hx) (by rw [hmain]; rfl) (by rw [hmain]; rfl)
      (by rw [hmain]; rfl) (by rw [hmain]; rfl)
  | read pkt rest hmain =>
    exact h.of_same (hsame fun _ => by rw [hmain]; rfl)
      (fun hx => by rw [hmain] at hx; cases hx) (by rw [hmain]; rfl) (by rw [hmain]; rfl)
      (by rw [hmain]; rfl) (by rw [hmain]; rfl)
  | readPush pkt rest i queue hmain hpos hi hq =>
    exact h.of_same (hsame fun _ => by rw [hmain]; rfl)
      (fun hx => by rw [hmain] at hx; cases hx) (by rw [hmain]; rfl) (by rw [hmain]; rfl)
      (by rw [hmain]; rfl) (by rw [hmain]; rfl)
  | _ => exact h.of_same (hsame nofun) id rfl rfl rfl rfl

/-! ## What is open -/

/-- While the main thread has a packet to push, the queues of the load balancers are in service. -/
theorem Control.lbOpen (h : Control cfg e) (hread : e.main.readAll = false) (i : ℕ) :
    (e.lbs i).inputQueue.isShutdown = false := by
  by_contra hs
  rw [h.lbShutdown i (by simpa using hs)] at hread
  cases hread

/-- While a load balancer runs, the queues of the fast paths are in service. -/
theorem Control.fpOpen (h : Control cfg e) {i : ℕ} (hi : i < cfg.lbs)
    (ht : (e.lbs i).thread ≠ .exited) (j : ℕ) : (e.fps j).inputQueue.isShutdown = false := by
  by_contra hs
  exact ht (h.lbExited i (by rw [h.fpShutdown j (by simpa using hs)]; exact hi))

/-- While the output thread runs, the output file is open. -/
theorem Draining.fileIsOpen (h : Draining cfg e) (ht : e.output ≠ .exited) :
    e.outputOpen = true := by
  by_contra hclosed
  exact ht (h.outputExited (h.outputClosed (by simpa using hclosed)))

end Engine

end DPI.Mt
