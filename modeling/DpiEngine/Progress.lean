import DpiEngine.Shutdown
import DpiEngine.TableInvariant

/-!
# Progress

A thread without a step waits for room in a queue or for another thread to end.  Followed from the
main thread, these waits lead down the pipeline to a thread that can move, or to a fast path that
waits for room in the output queue after the output thread has ended.
-/

namespace DPI

open Bytes FastPathProcessor ConnectionTracker

/-- Some clock and some iteration order of the table let a packet be decided: a tick after the
last packet of another connection, the new entry is not the one that is evicted. -/
theorem exists_processPacket_ok (rm : Option RuleManager) (fp : FastPathProcessor)
    (job : PacketJob) (hmax : 0 < fp.connTracker.maxConnections) :
    ∃ env action fp', fp.connTracker.Scans env.created (.getOrCreate env.order job.tuple) ∧
      fp.processPacket rm env job = .ok (action, fp') := by
  have horder (now : Time) : Table.IsOrder (fp.connTracker.emplace job.tuple now).connections
      (fp.connTracker.emplace job.tuple now).connections.keys.val.toList :=
    Multiset.coe_toList _
  by_cases hroom : canonicalTuple job.tuple ∈ fp.connTracker.connections ∨
      Table.size fp.connTracker.connections < fp.connTracker.maxConnections
  · obtain ⟨action, fp', hproc, -⟩ := processPacket_of_room rm fp ⟨0, 0, _⟩ job hroom
    exact ⟨_, action, fp', fun _ => horder 0, hproc⟩
  · obtain ⟨hnew, hfull⟩ := not_or.1 hroom
    have hsize : 0 < fp.connTracker.connections.keys.card := hmax.trans_le (Nat.not_lt.1 hfull)
    obtain ⟨key, hkey⟩ := Finset.card_pos.1 hsize
    have hmem := Finmap.mem_keys.1 hkey
    have hne : key ≠ canonicalTuple job.tuple := fun h => hnew (h ▸ hmem)
    obtain ⟨now, hnow⟩ : ∃ now, now = fp.connTracker.lastSeenOf key + 1 := ⟨_, rfl⟩
    obtain ⟨order, hlist⟩ : ∃ order, Table.IsOrder
      (fp.connTracker.emplace job.tuple now).connections order := ⟨_, horder now⟩
    have hlive : canonicalTuple job.tuple ∈
        (fp.connTracker.getOrCreateConnection now order job.tuple).1.connections := by
      rcases getOrCreateConnection_cases fp.connTracker now order job.tuple with
        ⟨hk, -⟩ | ⟨-, hlt, -⟩ | ⟨-, -, h⟩
      · exact absurd hk hnew
      · exact absurd hlt hfull
      · rw [h, mem_evictOldest_emplace_iff]
        intro hpick
        have hlisted := (hlist.mem_iff key).2 (Finmap.mem_insert.2 (Or.inr hmem))
        have hle := List.le_of_mem_argmin hlisted hpick
        rw [lastSeenOf_emplace_self, lastSeenOf_emplace_ne _ now hne] at hle
        exact absurd hle (Nat.not_le.2 (hnow ▸ Nat.lt_succ_self _))
    obtain ⟨action, fp', hproc, -⟩ := processPacket_of_mem rm fp ⟨now, now, order⟩ job rfl hlive
    exact ⟨_, action, fp', fun _ => hlist, hproc⟩

namespace Engine

variable {cfg : Config} {rm : RuleManager} {e e' : Engine} {l : Label}

/-- A thread that has ended was told to, and every table has room for an entry. -/
structure Attended (cfg : Config) (e : Engine) : Prop where
  lb : ∀ i < cfg.numLoadBalancers, (e.lbs i).thread = .exited → (e.lbs i).running = false
  fp : ∀ j < cfg.totalFps, (e.fps j).thread = .exited → (e.fps j).running = false
  tables : ∀ j, 0 < (e.fps j).processor.connTracker.maxConnections

theorem attended_start (cfg : Config) (input : List PacketJob) : Attended cfg (start input) where
  lb := fun _ _ h => by cases h
  fp := fun _ _ h => by cases h
  tables := fun _ => Nat.succ_pos _

theorem Attended.setLB (h : Attended cfg e) {i : ℕ} {lb : LoadBalancer}
    (hlb : i < cfg.numLoadBalancers → lb.thread = .exited → lb.running = false) :
    Attended cfg (e.setLB i lb) :=
  { h with
    lb := setLB_forall (P := fun lb => lb.thread = .exited → lb.running = false) h.lb hlb }

theorem Attended.setFP (h : Attended cfg e) {j : ℕ} {fp : FastPath}
    (hfp : j < cfg.totalFps → fp.thread = .exited → fp.running = false)
    (htable : fp.processor.connTracker.maxConnections =
      (e.fps j).processor.connTracker.maxConnections) :
    Attended cfg (e.setFP j fp) :=
  { h with
    fp := setFP_forall (P := fun fp => fp.thread = .exited → fp.running = false) h.fp hfp
    tables := fun j' => by
      rw [setFP_fps]
      split_ifs with hj
      · rw [htable]
        exact h.tables j
      · exact h.tables j' }

theorem Move.attended (h : Move cfg rm e l e') (hI : Attended cfg e) : Attended cfg e' := by
  cases h with
  | readPush job rest i queue h hi hq =>
    have hset : Attended cfg (e.setLB i { e.lbs i with inputQueue := queue }) :=
      hI.setLB fun hi' => hI.lb i hi'
    exact { hset with }
  | lbTest i hi h =>
    apply hI.setLB
    intro _ ht
    dsimp only at ht
    split_ifs at ht with hrun
    exact Bool.eq_false_of_not_eq_true hrun
  | lbIdle i hi h => exact hI.setLB fun _ => nofun
  | lbPop i job queue hi h hq => exact hI.setLB fun _ => nofun
  | lbDispatch i j job queue hi h hj hq =>
    have hset : Attended cfg (e.setFP j { e.fps j with inputQueue := queue }) :=
      hI.setFP (fun hj' => hI.fp j hj') rfl
    exact hset.setLB fun _ => nofun
  | fpTest j env hj h =>
    refine hI.setFP (fun _ ht => ?_) rfl
    dsimp only at ht
    split_ifs at ht with hrun
    exact Bool.eq_false_of_not_eq_true hrun
  | fpIdle j env hj h => exact hI.setFP (fun _ => nofun) rfl
  | fpPop j env job queue hj h hq => exact hI.setFP (fun _ => nofun) rfl
  | fpProcess j env job action processor hj h hp =>
    exact hI.setFP (fun _ => nofun) (processPacket_ok hp).maxConnections
  | fpOutput j env job action hj h =>
    have hstats : Attended cfg { e with
        stats := e.stats.output job action
        handled := e.handled ++ [(job, action)] } := { hI with }
    refine hstats.setFP (fun _ ht => ?_) rfl
    split_ifs at ht
  | fpPush j env job action queue hj h hq =>
    have hset : Attended cfg (e.setFP j { e.fps j with thread := .count action }) :=
      hI.setFP (fun _ => nofun) rfl
    exact { hset with }
  | fpCount j env action processor hj h hp =>
    exact hI.setFP (fun _ => nofun) (congrArg maxConnections hp)
  | main e' h =>
    have hs := sameWork_main h
    refine ⟨fun i hi ht => ?_, fun j hj ht => ?_, fun j => ?_⟩
    · exact hs.lb_stopped (hI.lb i hi (hs.lbThread i ▸ ht))
    · exact hs.fp_stopped (hI.fp j hj (hs.fpThread j ▸ ht))
    · rw [hs.fpProcessor]
      exact hI.tables j
  | _ => exact { hI with }

/-! ## Waiting -/

/-- A label under which the scan of an eviction, should one take place, meets every entry of the
table. -/
def Genuine (e : Engine) : Label → Prop
  | .fp j env => ∀ job, (e.fps j).thread = .process job →
    (e.fps j).processor.connTracker.Scans env.created (.getOrCreate env.order job.tuple)
  | _ => True

theorem genuine_of_ne {j : ℕ} (h : ∀ job, (e.fps j).thread ≠ .process job) (env : Env) :
    e.Genuine (.fp j env) := fun job hjob => absurd hjob (h job)

/-- Some thread has an enabled step. -/
def CanStep (cfg : Config) (rm : RuleManager) (e : Engine) : Prop :=
  ∃ l, e.Genuine l ∧ (e.step cfg rm l).isSome

/-- Fast path `j` is blocked in `push` on a full output queue after the output thread has ended. -/
def Stranded (e : Engine) (j : ℕ) : Prop :=
  ∃ job action, (e.fps j).thread = .push job action ∧ e.outputQueue.push job = none ∧
    e.output = .exited

/-- The output thread waits for nothing. -/
theorem output_canStep (h : e.output ≠ .exited) : CanStep cfg rm e := by
  refine ⟨.output, trivial, ?_⟩
  simp only [step, stepOutput]
  split
  · rfl
  · rfl
  · split <;> rfl
  · rfl
  · next hexited => exact absurd hexited h

/-- A fast path waits for the output thread only. -/
theorem Attended.fp_canStep (hI : Attended cfg e) {j : ℕ} (hj : j < cfg.totalFps)
    (ht : (e.fps j).thread ≠ .exited) (hfree : ¬ e.Stranded j) : CanStep cfg rm e := by
  cases hthread : (e.fps j).thread with
  | process job =>
    obtain ⟨env, action, fp', hscan, hproc⟩ := exists_processPacket_ok (some rm)
      { (e.fps j).processor with packetsProcessed := (e.fps j).processor.packetsProcessed + 1 }
      job (hI.tables j)
    refine ⟨.fp j env, fun job' hjob => ?_, ?_⟩
    · rw [hthread] at hjob
      cases hjob
      exact hscan
    · simp only [step, if_pos hj, stepFP, hthread, hproc, Option.isSome_some]
  | push job action =>
    cases hpush : e.outputQueue.push job with
    | some queue =>
      refine ⟨.fp j ⟨0, 0, []⟩, genuine_of_ne (by rw [hthread]; exact nofun) _, ?_⟩
      simp [step, hj, stepFP, hthread, hpush]
    | none =>
      apply output_canStep
      exact fun hexited => hfree ⟨job, action, hthread, hpush, hexited⟩
  | exited => exact absurd hthread ht
  | pop =>
    refine ⟨.fp j ⟨0, 0, []⟩, genuine_of_ne (by rw [hthread]; exact nofun) _, ?_⟩
    simp only [step, if_pos hj, stepFP, hthread]
    split <;> rfl
  | _ =>
    refine ⟨.fp j ⟨0, 0, []⟩, genuine_of_ne (by rw [hthread]; exact nofun) _, ?_⟩
    simp only [step, if_pos hj, stepFP, hthread, Option.isSome_some]

/-- A load balancer waits for its fast paths only, and they end after it. -/
theorem Attended.lb_canStep (hI : Attended cfg e) (hc : Control cfg e) (hf : 0 < cfg.fpsPerLb)
    {i : ℕ} (hi : i < cfg.numLoadBalancers) (ht : (e.lbs i).thread ≠ .exited)
    (hfree : ∀ j < cfg.totalFps, ¬ e.Stranded j) : CanStep cfg rm e := by
  cases hthread : (e.lbs i).thread with
  | test => exact ⟨.lb i, trivial, by simp [step, hi, stepLB, hthread]⟩
  | pop =>
    refine ⟨.lb i, trivial, ?_⟩
    simp only [step, if_pos hi, stepLB, hthread]
    split <;> rfl
  | dispatch job =>
    have hpick := getElem?_lbFpQueues hf i job.tuple
    obtain ⟨j, hj⟩ : ∃ j, j = i * cfg.fpsPerLb + selectFP cfg.fpsPerLb job.tuple := ⟨_, rfl⟩
    rw [← hj] at hpick
    have hlt : j < cfg.totalFps := hj ▸ fpIndex_lt hi hf job.tuple
    cases hpush : (e.fps j).inputQueue.push job with
    | some queue => exact ⟨.lb i, trivial, by simp [step, hi, stepLB, hthread, hpick, hpush]⟩
    | none =>
      refine hI.fp_canStep hlt (fun hexited => ?_) (hfree j hlt)
      exact ht (hc.lbExited_of_fp hlt (hI.fp j hlt hexited) hi)
  | exited => exact absurd hthread ht

/-- The reader waits for a load balancer only, and these end after it. -/
theorem Attended.reader_canStep (hI : Attended cfg e) (hc : Control cfg e)
    (hl : 0 < cfg.numLoadBalancers) (hf : 0 < cfg.fpsPerLb) (hr : e.reader ≠ .done)
    (hfree : ∀ j < cfg.totalFps, ¬ e.Stranded j) : CanStep cfg rm e := by
  cases hreader : e.reader with
  | reading rest =>
    refine ⟨.reader, trivial, ?_⟩
    simp only [step, stepReader, hreader]
    cases rest <;> rfl
  | pushing job rest =>
    have hi : getLBForPacket cfg.numLoadBalancers job.tuple < cfg.numLoadBalancers :=
      Nat.mod_lt _ hl
    cases hpush : (e.lbs (getLBForPacket cfg.numLoadBalancers job.tuple)).inputQueue.push job with
    | some queue => exact ⟨.reader, trivial, by simp [step, stepReader, hreader, hpush]⟩
    | none =>
      refine hI.lb_canStep hc hf hi (fun hexited => ?_) hfree
      exact hr (hc.readerDone_of_lb hi (hI.lb _ hi hexited))
  | done => exact absurd hreader hr

/-- Unless a fast path is stranded, some thread can move until `processFile` returns. -/
theorem Attended.canStep (hI : Attended cfg e) (hc : Control cfg e)
    (hl : 0 < cfg.numLoadBalancers) (hf : 0 < cfg.fpsPerLb)
    (hfree : ∀ j < cfg.totalFps, ¬ e.Stranded j) (hm : e.main ≠ .returned) :
    CanStep cfg rm e := by
  have hmain (h : (e.stepMain cfg).isSome) : CanStep cfg rm e := ⟨.main, trivial, h⟩
  cases hpc : e.main with
  | joinReader =>
    by_cases hr : e.reader = .done
    · exact hmain (by simp [stepMain, hpc, hr])
    · exact hI.reader_canStep hc hl hf hr hfree
  | stop =>
    apply hmain
    simp only [stepMain, hpc]
    split <;> rfl
  | stopLB i phase =>
    by_cases hi : i < cfg.numLoadBalancers
    · by_cases ht : (e.lbs i).thread = .exited
      · apply hmain
        cases phase <;> simp only [stepMain, hpc, stepStopLB, if_pos hi, ht]
        · split <;> rfl
        · rfl
        · rfl
      · exact hI.lb_canStep hc hf hi ht hfree
    · exact hmain (by simp [stepMain, hpc, stepStopLB, hi])
  | stopFP j phase =>
    by_cases hj : j < cfg.totalFps
    · by_cases ht : (e.fps j).thread = .exited
      · apply hmain
        cases phase <;> simp only [stepMain, hpc, stepStopFP, if_pos hj, ht]
        · split <;> rfl
        · rfl
        · rfl
      · exact hI.fp_canStep hj ht (hfree j hj)
    · exact hmain (by simp [stepMain, hpc, stepStopFP, hj])
  | joinOutput =>
    by_cases ho : e.output = .exited
    · exact hmain (by simp [stepMain, hpc, ho])
    · exact output_canStep ho
  | returned => exact absurd hpc hm
  | _ => exact hmain (by simp [stepMain, hpc])

end Engine

end DPI
