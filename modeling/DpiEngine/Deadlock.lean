import DpiEngine.Progress

/-!
# Deadlock

Every consumer but the output thread ends after the threads that feed it.  The output thread may
end before them, its queue is not emptied any more, and the fast path that finds it full waits for
good, with the main thread waiting for the fast path.
-/

namespace DPI

open Bytes FastPathProcessor

namespace Engine

variable {cfg : Config} {rm : RuleManager} {e e' : Engine} {l : Label}

/-! ## Packets for the output queue -/

/-- The packets in the output queue and those that a fast path is about to push. -/
def pending (cfg : Config) (e : Engine) : ℕ :=
  e.outputQueue.queue.length + ∑ j ∈ Finset.range cfg.totalFps, (e.fps j).thread.outbox.length

/-- The step neither brings a fast path to push a packet while the output thread has ended and its
queue is full, where packets that other fast paths are about to push count as queued, nor ends the
output thread while more packets are about to be pushed than its queue has room for. -/
def hasRoom (cfg : Config) (e : Engine) : Label → Bool
  | .fp j _ =>
    match (e.fps j).thread, e.output with
    | .output _ action, .exited =>
      action = .drop || decide (e.pending cfg < e.outputQueue.maxSize)
    | _, _ => true
  | .output =>
    match e.output with
    | .testEmpty => !e.outputQueue.empty || decide (e.pending cfg ≤ e.outputQueue.maxSize)
    | _ => true
  | _ => true

/-- The output thread has ended, and more packets are to be pushed than its queue can take. -/
def Jammed (cfg : Config) (e : Engine) : Prop :=
  e.output = .exited ∧ e.outputQueue.maxSize < e.pending cfg

/-- Where only fast path `j` moves, what it is about to push and what the output queue holds are all
that matters. -/
theorem pending_update (e e' : Engine) {j : ℕ} (hj : j < cfg.totalFps)
    (hother : ∀ k ≠ j, (e'.fps k).thread = (e.fps k).thread) :
    e'.pending cfg + (e.outputQueue.queue.length + (e.fps j).thread.outbox.length) =
      e.pending cfg + (e'.outputQueue.queue.length + (e'.fps j).thread.outbox.length) := by
  have hmem := Finset.mem_range.2 hj
  have hrest : ∑ k ∈ (Finset.range cfg.totalFps).erase j, (e'.fps k).thread.outbox.length =
      ∑ k ∈ (Finset.range cfg.totalFps).erase j, (e.fps k).thread.outbox.length :=
    Finset.sum_congr rfl fun k hk => by rw [hother k (Finset.ne_of_mem_erase hk)]
  rw [pending, pending, ← Finset.add_sum_erase _ _ hmem, ← Finset.add_sum_erase _ _ hmem, hrest]
  ring

theorem setFP_thread_ne (e : Engine) {j k : ℕ} (fp : FastPath) (hk : k ≠ j) :
    ((e.setFP j fp).fps k).thread = (e.fps k).thread := by rw [setFP_fps, if_neg hk]

/-- A step of a fast path that hands on nothing leaves the number of packets as it is. -/
theorem pending_setFP_same {j : ℕ} (hj : j < cfg.totalFps) {fp : FastPath}
    (h : fp.thread.outbox = (e.fps j).thread.outbox) :
    (e.setFP j fp).pending cfg = e.pending cfg := by
  have heq := pending_update e (e.setFP j fp) hj fun k hk => setFP_thread_ne e fp hk
  rw [setFP_fps, if_pos rfl, h] at heq
  exact Nat.add_right_cancel heq

theorem pending_congr (hqueue : e'.outputQueue.queue = e.outputQueue.queue)
    (hthread : ∀ j, (e'.fps j).thread = (e.fps j).thread) : e'.pending cfg = e.pending cfg := by
  simp only [pending, hqueue, hthread]

theorem jammed_congr (ho : e'.output = e.output)
    (hsize : e'.outputQueue.maxSize = e.outputQueue.maxSize)
    (hp : e'.pending cfg = e.pending cfg) : Jammed cfg e' ↔ Jammed cfg e := by
  rw [Jammed, Jammed, ho, hsize, hp]

theorem outputSize_main (hs : e.stepMain cfg = some e') :
    e'.outputQueue.maxSize = e.outputQueue.maxSize := by
  have hlb {i : ℕ} {phase : StopPhase} (hs : e.stepStopLB cfg i phase = some e') :
      e'.outputQueue = e.outputQueue := by
    unfold stepStopLB at hs
    grind [setLB]
  have hfp {j : ℕ} {phase : StopPhase} (hs : e.stepStopFP cfg j phase = some e') :
      e'.outputQueue = e.outputQueue := by
    unfold stepStopFP at hs
    grind [setFP]
  unfold stepMain at hs
  grind [ThreadSafeQueue.shutdown]

/-- Only a packet that is not dropped asks for room. -/
theorem hasRoom_output_eq_false_iff {j : ℕ} {job : PacketJob} {action : PacketAction}
    (h : (e.fps j).thread = .output job action) (env : Env) :
    e.hasRoom cfg (.fp j env) = false ↔
      action ≠ .drop ∧ e.output = .exited ∧ e.outputQueue.maxSize ≤ e.pending cfg := by
  simp only [hasRoom, h]
  cases e.output <;> simp

open ThreadSafeQueue in
/-- The engine jams with a step for which there is no room, and stays so. -/
theorem Move.jammed_iff (hc : Control cfg e) (h : Move cfg rm e l e') :
    Jammed cfg e' ↔ Jammed cfg e ∨ e.hasRoom cfg l = false := by
  have hsame {j : ℕ} {fp : FastPath} (hj : j < cfg.totalFps)
      (hout : fp.thread.outbox = (e.fps j).thread.outbox) :
      Jammed cfg (e.setFP j fp) ↔ Jammed cfg e :=
    jammed_congr rfl rfl (pending_setFP_same hj hout)
  cases h with
  | lbDispatch i j job queue hi h hj hq =>
    rw [or_iff_left (by simp [hasRoom])]
    refine jammed_congr rfl rfl (pending_congr rfl fun k => ?_)
    simp only [setLB, setFP_fps]
    split_ifs with hk
    · rw [hk]
    · rfl
  | fpTest j env hj h =>
    rw [or_iff_left (by simp [hasRoom, h])]
    apply hsame hj
    rw [h]
    cases (e.fps j).running <;> rfl
  | fpIdle j env hj h =>
    rw [or_iff_left (by simp [hasRoom, h])]
    exact hsame hj (by rw [h]; rfl)
  | fpPop j env job queue hj h hq =>
    rw [or_iff_left (by simp [hasRoom, h])]
    exact hsame hj (by rw [h]; rfl)
  | fpProcess j env job action processor hj h hp =>
    rw [or_iff_left (by simp [hasRoom, h])]
    exact hsame hj (by rw [h]; rfl)
  | fpOutput j env job action hj h =>
    rw [hasRoom_output_eq_false_iff h]
    have hout : (e.fps j).thread.outbox = [] := by rw [h]; rfl
    have heq := pending_update e (({ e with
      stats := e.stats.output job action
      handled := e.handled ++ [(job, action)] } : Engine).setFP j
        { e.fps j with thread := if action = .drop then .count action else .push job action })
      hj fun k hk => setFP_thread_ne _ _ hk
    rw [setFP_fps, if_pos rfl, hout] at heq
    by_cases hact : action = .drop
    · rw [or_iff_left (fun hfull => hfull.1 hact)]
      simp only [if_pos hact] at heq ⊢
      exact jammed_congr rfl rfl (Nat.add_right_cancel heq)
    · simp only [if_neg hact] at heq ⊢
      change _ + (e.outputQueue.queue.length + 0) = _ + (e.outputQueue.queue.length + 1) at heq
      simp only [Jammed, hact, ne_eq, not_false_eq_true, true_and, ← and_or_left]
      refine and_congr_right fun _ => ?_
      change e.outputQueue.maxSize < _ ↔ _
      omega
  | fpPush j env job action queue hj h hq =>
    rw [or_iff_left (by simp [hasRoom, h])]
    have hrunning : (e.fps j).thread ≠ .exited := by
      rw [h]
      rintro ⟨⟩
    have hqueue := (push_eq_some hq).2 (hc.outputOpen hj hrunning)
    refine jammed_congr rfl (push_maxSize hq) ?_
    have hout : (e.fps j).thread.outbox = [job] := by rw [h]; rfl
    have heq := pending_update e
      { e.setFP j { e.fps j with thread := .count action } with outputQueue := queue } hj
      fun k hk => setFP_thread_ne _ _ hk
    rw [hout] at heq
    change _ = _ + (queue.queue.length + _) at heq
    rw [hqueue, List.length_append, setFP_fps, if_pos rfl] at heq
    exact Nat.add_right_cancel heq
  | fpCount j env action processor hj h hp =>
    rw [or_iff_left (by simp [hasRoom, h])]
    exact hsame hj (by rw [h]; rfl)
  | outputTest h =>
    cases hrun : e.running <;> simp [Jammed, hasRoom, h]
  | outputEmpty h =>
    cases hempty : e.outputQueue.empty
    · simp [Jammed, hasRoom, h, hempty]
    · simp [Jammed, hasRoom, h, hempty]
      rfl
  | outputIdle h =>
    simp [Jammed, hasRoom, h]
  | outputPop job queue h hq =>
    simp [Jammed, hasRoom, h]
  | outputWrite job h =>
    simp [Jammed, hasRoom, h]
  | main e' h =>
    have hs := sameWork_main h
    rw [or_iff_left (by simp [hasRoom])]
    exact jammed_congr hs.output (outputSize_main h) (pending_congr hs.outputQueue hs.fpThread)
  | _ =>
    rw [or_iff_left (by simp [hasRoom])]
    exact jammed_congr rfl rfl rfl

/-! ## Shutdown -/

/-- Some thread can move until `processFile` has returned, and the main thread does not wait for a
fast path that is blocked on the output queue for good. -/
def Live (cfg : Config) (rm : RuleManager) (e : Engine) : Prop :=
  (e.main ≠ .returned → CanStep cfg rm e) ∧
    ∀ j < cfg.totalFps, e.main = .stopFP j .join → ¬ e.Stranded j

theorem jammed_of_stranded {j : ℕ} (hj : j < cfg.totalFps) (h : e.Stranded j) :
    Jammed cfg e := by
  obtain ⟨job, action, hthread, hpush, hexited⟩ := h
  have hfull := (ThreadSafeQueue.push_eq_none_iff.1 hpush).2
  have hone : (e.fps j).thread.outbox.length = 1 := by rw [hthread]; rfl
  have hle : (e.fps j).thread.outbox.length ≤
      ∑ k ∈ Finset.range cfg.totalFps, (e.fps k).thread.outbox.length :=
    Finset.single_le_sum (f := fun k => (e.fps k).thread.outbox.length)
      (fun _ _ => Nat.zero_le _) (Finset.mem_range.2 hj)
  refine ⟨hexited, ?_⟩
  rw [pending]
  omega

/-- A jammed engine never returns from `processFile`: a fast path is left with its packet. -/
theorem Jammed.not_returned (h : Jammed cfg e) (hc : Control cfg e) : e.main ≠ .returned := by
  intro hm
  have hnone : ∑ j ∈ Finset.range cfg.totalFps, (e.fps j).thread.outbox.length = 0 := by
    refine Finset.sum_eq_zero fun j hj => ?_
    rw [hc.fpExited j (by rw [hm]; exact Finset.mem_range.1 hj)]
    rfl
  have hlt := h.2
  have hbounded := e.outputQueue.bounded
  rw [pending, hnone] at hlt
  omega

/-- Exactly the runs that take a step for which there is no room end in a jammed engine. -/
theorem jammed_iff_exists {input : List PacketJob} {ts : List (Taken Engine Label)}
    (hrun : Run (Step cfg rm) (start input) ts e) :
    Jammed cfg e ↔ ∃ t ∈ ts, t.pre.hasRoom cfg t.label = false := by
  have hcontrol := (hrun.invariant (Control cfg) (fun _ => True)
    (fun s l s' hs _ h => h.step hs) (fun _ _ => trivial) (control_start cfg input)).2
  have hstart : ¬ Jammed cfg (start input) := fun h => by cases h.1
  rw [hrun.holds_iff_exists fun t ht =>
    (hrun.step_of_mem ht).move.jammed_iff (hcontrol t ht).1, or_iff_right hstart]

/-! ## A backlog -/

open ThreadSafeQueue

/-- A queue of the constructed size that is in service and holds `n` times the same packet. -/
structure Stacked (q : ThreadSafeQueue PacketJob) (n : ℕ) : Prop where
  maxSize : q.maxSize = 10000
  isShutdown : q.isShutdown = false
  queue : q.queue = List.replicate n opening

theorem Stacked.push {q : ThreadSafeQueue PacketJob} {n : ℕ} (h : Stacked q n) (hn : n < 10000) :
    ∃ q', q.push opening = some q' ∧ Stacked q' (n + 1) := by
  cases hpush : q.push opening with
  | none =>
    have hfull := (push_eq_none_iff.1 hpush).2
    rw [h.queue, h.maxSize, List.length_replicate] at hfull
    omega
  | some q' =>
    obtain ⟨hshut, hqueue⟩ := push_eq_some hpush
    refine ⟨q', rfl, (push_maxSize hpush).trans h.maxSize, hshut.trans h.isShutdown, ?_⟩
    rw [hqueue h.isShutdown, h.queue, List.replicate_succ']

theorem Stacked.pop {q : ThreadSafeQueue PacketJob} {n : ℕ} (h : Stacked q (n + 1)) :
    ∃ q', q.popWithTimeout = some (opening, q') ∧ Stacked q' n := by
  cases hpop : q.popWithTimeout with
  | none => simp [popWithTimeout_eq_none_iff, h.queue, List.replicate_succ] at hpop
  | some r =>
    obtain ⟨item, q'⟩ := r
    obtain ⟨hshut, hqueue⟩ := popWithTimeout_eq_some hpop
    rw [h.queue, List.replicate_succ, List.cons.injEq] at hqueue
    obtain ⟨rfl, hrest⟩ := hqueue
    exact ⟨q', rfl, (popWithTimeout_maxSize hpop).trans h.maxSize, hshut.trans h.isShutdown,
      hrest.symm⟩

/-- The processor holds no entry but that of the packet, and will forward the packet. -/
structure Forwards (fp : FastPathProcessor) : Prop where
  maxConnections : fp.connTracker.maxConnections = 100000
  keys : fp.connTracker.connections.keys ⊆ {canonicalTuple opening.tuple}
  flow : fp.flowOf (canonicalTuple opening.tuple) = {} ∨
    fp.flowOf (canonicalTuple opening.tuple) = { synSeen := true }

theorem Forwards.process {fp : FastPathProcessor} (h : Forwards fp) (env : Env) :
    ∃ fp', fp.processPacket (some {}) env opening = .ok (.forward, fp') ∧ Forwards fp' := by
  have hroom : canonicalTuple opening.tuple ∈ fp.connTracker.connections ∨
      Table.size fp.connTracker.connections < fp.connTracker.maxConnections := by
    right
    have hcard := Finset.card_le_card h.keys
    rw [Finset.card_singleton] at hcard
    rw [h.maxConnections, Table.size]
    omega
  obtain ⟨action, fp', hproc, hkeys⟩ := processPacket_of_room (some {}) fp env opening hroom
  have heff := processPacket_ok hproc
  obtain ⟨f, hstep, hf⟩ := heff.own
  have hforward : Flow.step (some {}) (fp.flowOf (canonicalTuple opening.tuple)) opening =
      .ok (.forward, { synSeen := true }) := by
    rcases h.flow with hflow | hflow <;> rw [hflow] <;> decide +kernel
  rw [hforward] at hstep
  cases hstep
  refine ⟨fp', hproc, heff.maxConnections.trans h.maxConnections, ?_, Or.inr ?_⟩
  · rw [hkeys]
    exact Finset.insert_subset (Finset.mem_singleton_self _) h.keys
  · rw [flowOf, hf]
    rfl

/-- What the threads of an engine with one worker show, where every packet is the same and counting
the packets in the queues says what is in them. -/
structure View where
  reader : ReaderThread
  lbThread : LBThread := .test
  lbQueue : ℕ := 0
  fpThread : FPThread := .test
  fpQueue : ℕ := 0
  output : OutputThread := .testRunning
  outputQueue : ℕ := 0
  main : MainThread := .joinReader
  running : Bool := true

structure Shows (v : View) (e : Engine) : Prop where
  reader : e.reader = v.reader
  lbThread : (e.lbs 0).thread = v.lbThread
  lbRunning : (e.lbs 0).running = true
  lbQueue : Stacked (e.lbs 0).inputQueue v.lbQueue
  fpThread : (e.fps 0).thread = v.fpThread
  fpRunning : (e.fps 0).running = true
  fpQueue : Stacked (e.fps 0).inputQueue v.fpQueue
  forwards : Forwards (e.fps 0).processor
  output : e.output = v.output
  outputQueue : Stacked e.outputQueue v.outputQueue
  main : e.main = v.main
  running : e.running = v.running

theorem shows_start (input : List PacketJob) :
    Shows { reader := .reading input } (start input) where
  reader := rfl
  lbThread := rfl
  lbRunning := rfl
  lbQueue := ⟨rfl, rfl, rfl⟩
  fpThread := rfl
  fpRunning := rfl
  fpQueue := ⟨rfl, rfl, rfl⟩
  forwards := ⟨rfl, Finset.empty_subset _, .inl rfl⟩
  output := rfl
  outputQueue := ⟨rfl, rfl, rfl⟩
  main := rfl
  running := rfl

variable {v : View}

theorem Shows.read (h : Shows v e) {rest : List PacketJob}
    (hr : v.reader = .reading (opening :: rest)) :
    Leads (Step oneWorker {}) e (Shows { v with reader := .pushing opening rest }) := by
  have hs : Step oneWorker {} e .reader { e with
      reader := .pushing opening rest
      stats := e.stats.read opening
      accepted := e.accepted ++ [opening] } := by simp [Step, step, stepReader, h.reader, hr]
  exact .step_next hs (.refl { h with reader := rfl })

theorem Shows.readPush (h : Shows v e) {rest : List PacketJob}
    (hr : v.reader = .pushing opening rest) (hq : v.lbQueue < 10000) :
    Leads (Step oneWorker {}) e
      (Shows { v with reader := .reading rest, lbQueue := v.lbQueue + 1 }) := by
  obtain ⟨queue, hpush, hqueue⟩ := h.lbQueue.push hq
  have hi : getLBForPacket 1 opening.tuple = 0 := Nat.mod_one _
  have hs : Step oneWorker {} e .reader
      { e.setLB 0 { e.lbs 0 with inputQueue := queue } with reader := .reading rest } := by
    simp [Step, step, stepReader, oneWorker, h.reader, hr, hi, hpush]
  exact .step_next hs (.refl { h with reader := rfl, lbQueue := hqueue })

theorem Shows.lbTest (h : Shows v e) (ht : v.lbThread = .test) :
    Leads (Step oneWorker {}) e (Shows { v with lbThread := .pop }) := by
  have hs : Step oneWorker {} e (.lb 0) (e.setLB 0 { e.lbs 0 with thread := .pop }) := by
    simp [Step, step, stepLB, oneWorker, h.lbThread, h.lbRunning, ht]
  exact .step_next hs (.refl { h with lbThread := rfl })

theorem Shows.lbPop (h : Shows v e) (ht : v.lbThread = .pop) {n : ℕ} (hq : v.lbQueue = n + 1) :
    Leads (Step oneWorker {}) e (Shows { v with lbThread := .dispatch opening, lbQueue := n }) := by
  have hold := h.lbQueue
  rw [hq] at hold
  obtain ⟨queue, hpop, hqueue⟩ := hold.pop
  have hs : Step oneWorker {} e (.lb 0) (e.setLB 0
      { e.lbs 0 with inputQueue := queue, thread := .dispatch opening }) := by
    simp [Step, step, stepLB, oneWorker, h.lbThread, ht, hpop]
  exact .step_next hs (.refl { h with lbThread := rfl, lbQueue := hqueue })

theorem Shows.lbDispatch (h : Shows v e) (ht : v.lbThread = .dispatch opening)
    (hq : v.fpQueue < 10000) :
    Leads (Step oneWorker {}) e
      (Shows { v with lbThread := .test, fpQueue := v.fpQueue + 1 }) := by
  obtain ⟨queue, hpush, hqueue⟩ := h.fpQueue.push hq
  have hj : (lbFpQueues 1 0)[selectFP 1 opening.tuple]? = some 0 := by
    rw [selectFP, Nat.mod_one]
    rfl
  have hs : Step oneWorker {} e (.lb 0)
      ((e.setFP 0 { e.fps 0 with inputQueue := queue }).setLB 0
        { e.lbs 0 with thread := .test }) := by
    simp [Step, step, stepLB, oneWorker, h.lbThread, ht, hj, hpush]
  exact .step_next hs (.refl { h with lbThread := rfl, fpQueue := hqueue })

theorem Shows.fpTest (h : Shows v e) (ht : v.fpThread = .test) :
    Leads (Step oneWorker {}) e (Shows { v with fpThread := .pop }) := by
  have hs : Step oneWorker {} e (.fp 0 ⟨0, 0, []⟩)
      (e.setFP 0 { e.fps 0 with thread := .pop }) := by
    simp [Step, step, stepFP, oneWorker, Config.totalFps, h.fpThread, h.fpRunning, ht]
  exact .step_next hs (.refl { h with fpThread := rfl })

theorem Shows.fpPop (h : Shows v e) (ht : v.fpThread = .pop) {n : ℕ} (hq : v.fpQueue = n + 1) :
    Leads (Step oneWorker {}) e (Shows { v with fpThread := .process opening, fpQueue := n }) := by
  have hold := h.fpQueue
  rw [hq] at hold
  obtain ⟨queue, hpop, hqueue⟩ := hold.pop
  have hs : Step oneWorker {} e (.fp 0 ⟨0, 0, []⟩) (e.setFP 0
      { e.fps 0 with inputQueue := queue, thread := .process opening }) := by
    simp [Step, step, stepFP, oneWorker, Config.totalFps, h.fpThread, ht, hpop]
  exact .step_next hs (.refl { h with fpThread := rfl, fpQueue := hqueue })

theorem Shows.fpProcess (h : Shows v e) (ht : v.fpThread = .process opening) :
    Leads (Step oneWorker {}) e (Shows { v with fpThread := .output opening .forward }) := by
  have hcounted : Forwards { (e.fps 0).processor with
      packetsProcessed := (e.fps 0).processor.packetsProcessed + 1 } := { h.forwards with }
  obtain ⟨processor, hproc, hforwards⟩ := hcounted.process ⟨0, 0, []⟩
  have hs : Step oneWorker {} e (.fp 0 ⟨0, 0, []⟩) (e.setFP 0
      { e.fps 0 with processor := processor, thread := .output opening .forward }) := by
    simp [Step, step, stepFP, oneWorker, Config.totalFps, h.fpThread, ht, hproc]
  exact .step_next hs (.refl { h with fpThread := rfl, forwards := hforwards })

theorem Shows.fpOutput (h : Shows v e) (ht : v.fpThread = .output opening .forward) :
    Leads (Step oneWorker {}) e (Shows { v with fpThread := .push opening .forward }) := by
  have hs : Step oneWorker {} e (.fp 0 ⟨0, 0, []⟩) (({ e with
      stats := e.stats.output opening .forward
      handled := e.handled ++ [(opening, .forward)] } : Engine).setFP 0
        { e.fps 0 with thread := .push opening .forward }) := by
    simp [Step, step, stepFP, oneWorker, Config.totalFps, h.fpThread, ht]
  exact .step_next hs (.refl { h with fpThread := rfl })

theorem Shows.fpPush (h : Shows v e) (ht : v.fpThread = .push opening .forward)
    (hq : v.outputQueue < 10000) :
    Leads (Step oneWorker {}) e
      (Shows { v with fpThread := .count .forward, outputQueue := v.outputQueue + 1 }) := by
  obtain ⟨queue, hpush, hqueue⟩ := h.outputQueue.push hq
  have hs : Step oneWorker {} e (.fp 0 ⟨0, 0, []⟩)
      { e.setFP 0 { e.fps 0 with thread := .count .forward } with outputQueue := queue } := by
    simp [Step, step, stepFP, oneWorker, Config.totalFps, h.fpThread, ht, hpush]
  exact .step_next hs (.refl { h with fpThread := rfl, outputQueue := hqueue })

theorem Shows.fpCount (h : Shows v e) (ht : v.fpThread = .count .forward) :
    Leads (Step oneWorker {}) e (Shows { v with fpThread := .test }) := by
  have hs : Step oneWorker {} e (.fp 0 ⟨0, 0, []⟩) (e.setFP 0 { e.fps 0 with
      processor := { (e.fps 0).processor with
        packetsForwarded := (e.fps 0).processor.packetsForwarded + 1 }
      thread := .test }) := by
    simp [Step, step, stepFP, oneWorker, Config.totalFps, h.fpThread, ht]
  exact .step_next hs (.refl { h with fpThread := rfl, forwards := { h.forwards with } })

/-- A packet is read and goes through the load balancer to the queue of the fast path. -/
theorem leads_feed (rest : ℕ) {waiting : ℕ} {t : FPThread} (hw : waiting < 10000)
    (h : Shows
      { reader := .reading (List.replicate (rest + 1) opening), fpThread := t
        fpQueue := waiting } e) :
    Leads (Step oneWorker {}) e (Shows
      { reader := .reading (List.replicate rest opening), fpThread := t
        fpQueue := waiting + 1 }) :=
  (h.read rfl).trans fun _ h =>
  (h.readPush rfl (Nat.succ_pos _)).trans fun _ h =>
  (h.lbTest rfl).trans fun _ h =>
  (h.lbPop rfl rfl).trans fun _ h => h.lbDispatch rfl hw

/-- The last packet is read, the main thread waits as long as it does, and the output thread finds
nothing to write. -/
theorem leads_outputExited {waiting : ℕ} {t : FPThread}
    (h : Shows { reader := .reading [], fpThread := t, fpQueue := waiting } e) :
    Leads (Step oneWorker {}) e (Shows
      { reader := .done, fpThread := t, fpQueue := waiting, output := .exited
        main := .stopLB 0 .clear, running := false }) := by
  have hreader : Step oneWorker {} e .reader { e with reader := .done } := by
    simp [Step, step, stepReader, h.reader]
  have hjoin : Step oneWorker {} { e with reader := .done } .main
      { e with reader := .done, main := .complete } := by simp [Step, step, stepMain, h.main]
  have hcomplete : Step oneWorker {} { e with reader := .done, main := .complete } .main
      { e with reader := .done, processingComplete := true, main := .stop } := by
    simp [Step, step, stepMain]
  have hstop : Step oneWorker {}
      { e with reader := .done, processingComplete := true, main := .stop } .main
      { e with reader := .done, processingComplete := true, main := .stopLB 0 .clear
               running := false } := by
    simp [Step, step, stepMain, h.running]
  have htest : Step oneWorker {}
      { e with reader := .done, processingComplete := true, main := .stopLB 0 .clear
               running := false } .output
      { e with reader := .done, processingComplete := true, main := .stopLB 0 .clear
               running := false, output := .testEmpty } := by
    simp [Step, step, stepOutput, h.output]
  have hempty : Step oneWorker {}
      { e with reader := .done, processingComplete := true, main := .stopLB 0 .clear
               running := false, output := .testEmpty } .output
      { e with reader := .done, processingComplete := true, main := .stopLB 0 .clear
               running := false, output := .exited } := by
    simp [Step, step, stepOutput, ThreadSafeQueue.empty, h.outputQueue.queue]
  refine .step_next hreader (.step_next hjoin (.step_next hcomplete (.step_next hstop
    (.step_next htest (.step_next hempty (.refl ?_))))))
  exact { h with reader := rfl, output := rfl, main := rfl, running := rfl }

/-- The fast path forwards the packet it has taken, and takes the next. -/
theorem leads_forward {waiting sent : ℕ} (hs : sent < 10000)
    (h : Shows
      { reader := .done, fpThread := .process opening, fpQueue := waiting + 1, output := .exited
        outputQueue := sent, main := .stopLB 0 .clear, running := false } e) :
    Leads (Step oneWorker {}) e (Shows
      { reader := .done, fpThread := .process opening, fpQueue := waiting, output := .exited
        outputQueue := sent + 1, main := .stopLB 0 .clear, running := false }) :=
  (h.fpProcess rfl).trans fun _ h =>
  (h.fpOutput rfl).trans fun _ h =>
  (h.fpPush rfl hs).trans fun _ h =>
  (h.fpCount rfl).trans fun _ h =>
  (h.fpTest rfl).trans fun _ h => h.fpPop rfl rfl

/-- The engine with another state of its worker and of its main thread. -/
def withWorker (e : Engine) (lb : LoadBalancer) (fp : FastPath) (p : MainThread) : Engine :=
  { (e.setLB 0 lb).setFP 0 fp with main := p }

theorem withWorker_self (e : Engine) : e.withWorker (e.lbs 0) (e.fps 0) e.main = e := by
  simp [withWorker, setLB, setFP]

/-- The main thread stops the load balancer and waits for the fast path. -/
theorem leads_stopFP (hm : e.main = .stopLB 0 .clear) (hlb : (e.lbs 0).running = true)
    (ht : (e.lbs 0).thread = .test) (hfp : (e.fps 0).running = true) :
    Leads (Step oneWorker {}) e fun e' => ∃ lb fp, e' = e.withWorker lb fp (.stopFP 0 .join) ∧
      lb.thread = .exited ∧ fp.thread = (e.fps 0).thread := by
  have hclearLB (lb : LoadBalancer) (fp : FastPath) (h : lb.running = true) :
      Step oneWorker {} (e.withWorker lb fp (.stopLB 0 .clear)) .main
        (e.withWorker { lb with running := false } fp (.stopLB 0 .shutdown)) := by
    simp [Step, step, stepMain, stepStopLB, oneWorker, withWorker, setLB, setFP, h]
  have hshutdownLB (lb : LoadBalancer) (fp : FastPath) :
      Step oneWorker {} (e.withWorker lb fp (.stopLB 0 .shutdown)) .main
        (e.withWorker { lb with inputQueue := lb.inputQueue.shutdown } fp (.stopLB 0 .join)) := by
    simp [Step, step, stepMain, stepStopLB, oneWorker, withWorker, setLB, setFP]
  have hexit (lb : LoadBalancer) (fp : FastPath) (h : lb.thread = .test)
      (h' : lb.running = false) :
      Step oneWorker {} (e.withWorker lb fp (.stopLB 0 .join)) (.lb 0)
        (e.withWorker { lb with thread := .exited } fp (.stopLB 0 .join)) := by
    simp [Step, step, stepLB, oneWorker, withWorker, setLB, setFP, h, h']
  have hjoin (lb : LoadBalancer) (fp : FastPath) (h : lb.thread = .exited) :
      Step oneWorker {} (e.withWorker lb fp (.stopLB 0 .join)) .main
        (e.withWorker lb fp (.stopLB 1 .clear)) := by
    simp [Step, step, stepMain, stepStopLB, oneWorker, withWorker, setLB, setFP, h]
  have hleave (lb : LoadBalancer) (fp : FastPath) :
      Step oneWorker {} (e.withWorker lb fp (.stopLB 1 .clear)) .main
        (e.withWorker lb fp (.stopFP 0 .clear)) := by
    simp [Step, step, stepMain, stepStopLB, oneWorker, withWorker, setLB, setFP]
  have hclearFP (lb : LoadBalancer) (fp : FastPath) (h : fp.running = true) :
      Step oneWorker {} (e.withWorker lb fp (.stopFP 0 .clear)) .main
        (e.withWorker lb { fp with running := false } (.stopFP 0 .shutdown)) := by
    simp [Step, step, stepMain, stepStopFP, oneWorker, Config.totalFps, withWorker, setLB, setFP,
      h]
  have hshutdownFP (lb : LoadBalancer) (fp : FastPath) :
      Step oneWorker {} (e.withWorker lb fp (.stopFP 0 .shutdown)) .main
        (e.withWorker lb { fp with inputQueue := fp.inputQueue.shutdown } (.stopFP 0 .join)) := by
    simp [Step, step, stepMain, stepStopFP, oneWorker, Config.totalFps, withWorker, setLB, setFP]
  have hstart := withWorker_self e
  rw [hm] at hstart
  rw [← hstart]
  refine .step_next (hclearLB _ _ hlb) (.step_next (hshutdownLB _ _) (.step_next
    (hexit _ _ ht rfl) (.step_next (hjoin _ _ rfl) (.step_next (hleave _ _) (.step_next
      (hclearFP _ _ hfp) (.step_next (hshutdownFP _ _) (.refl ?_)))))))
  rw [hstart]
  exact ⟨_, _, rfl, rfl, rfl⟩

/-- A thread of the one worker that has ended, or that waits, has no step. -/
theorem step_eq_none_of_stranded (hm : e.main = .stopFP 0 .join) (hr : e.reader = .done)
    (hlb : (e.lbs 0).thread = .exited) (hfp : e.Stranded 0) (l : Label) :
    e.step oneWorker {} l = none := by
  obtain ⟨job, action, hthread, hpush, hout⟩ := hfp
  cases l with
  | reader => simp [step, stepReader, hr]
  | lb i =>
    by_cases hi : i < oneWorker.numLoadBalancers
    · obtain rfl : i = 0 := Nat.lt_one_iff.1 hi
      simp [step, stepLB, hlb]
    · exact if_neg hi
  | fp j env =>
    by_cases hj : j < oneWorker.totalFps
    · obtain rfl : j = 0 := Nat.lt_one_iff.1 hj
      simp [step, stepFP, hthread, hpush]
    · exact if_neg hj
  | output => simp [step, stepOutput, hout]
  | main => simp [step, stepMain, stepStopFP, hm, oneWorker, Config.totalFps, hthread]

end Engine

open Engine

/-- In every run in which no fast path takes a packet to a full output queue that the output thread
has left, and the output thread does not end on more packets than its queue has room for, the
shutdown is live in every state.  In every other run `processFile` does not return. -/
theorem shutdown_live {cfg : Config} {rm : RuleManager} {input : List PacketJob}
    {ts : List (Taken Engine Label)} {e : Engine} (hl : 0 < cfg.numLoadBalancers)
    (hf : 0 < cfg.fpsPerLb) (hrun : Run (Step cfg rm) (start input) ts e) :
    ((∀ t ∈ ts, t.pre.hasRoom cfg t.label = true) →
      Live cfg rm e ∧ ∀ t ∈ ts, Live cfg rm t.pre ∧ Live cfg rm t.post) ∧
    (∀ t ∈ ts, t.pre.hasRoom cfg t.label = false → e.main ≠ .returned) := by
  have hlive {s : Engine} (h : Control cfg s ∧ Attended cfg s ∧ ¬ Jammed cfg s) :
      Live cfg rm s := by
    obtain ⟨hc, hI, hfree⟩ := h
    have hstranded (j : ℕ) (hj : j < cfg.totalFps) : ¬ s.Stranded j :=
      fun hs => hfree (jammed_of_stranded hj hs)
    exact ⟨hI.canStep hc hl hf hstranded, fun j hj _ => hstranded j hj⟩
  constructor
  · intro hroom
    have hinv := hrun.invariant (fun s => Control cfg s ∧ Attended cfg s ∧ ¬ Jammed cfg s)
      (fun t => t.pre.hasRoom cfg t.label = true)
      (fun s l s' hs hok h => ⟨h.1.step hs, hs.move.attended h.2.1, fun hjam =>
        ((hs.move.jammed_iff h.1).1 hjam).elim h.2.2 (by simp [hok])⟩) hroom
      ⟨control_start cfg input, attended_start cfg input, fun h => by cases h.1⟩
    exact ⟨hlive hinv.1, fun t ht => ⟨hlive (hinv.2 t ht).1, hlive (hinv.2 t ht).2⟩⟩
  · intro t ht hfull
    have hcontrol := (hrun.invariant (Control cfg) (fun _ => True)
      (fun s l s' hs _ h => h.step hs) (fun _ _ => trivial) (control_start cfg input)).1
    exact ((jammed_iff_exists hrun).2 ⟨t, ht, hfull⟩).not_returned hcontrol

/-- Some thread can move all the way through the patient shutdown. -/
theorem shutdown_live_patientStop :
    ∃ ts e, Run (Step oneWorker {}) (start [opening]) ts e ∧ e.main = .returned ∧
      ∀ t ∈ ts, Live oneWorker {} t.pre := by
  have h : ((exec oneWorker {} (start [opening]) patientStop).map fun r =>
      decide ((∀ t ∈ r.1, t.pre.hasRoom oneWorker t.label = true) ∧ r.2.main = .returned)) =
      some true := by decide +kernel
  obtain ⟨⟨ts, e⟩, hexec, h⟩ := Option.map_eq_some_iff.1 h
  obtain ⟨hroom, hret⟩ := of_decide_eq_true h
  have hlive := (shutdown_live (by decide) (by decide) (run_of_exec hexec)).1 hroom
  exact ⟨ts, e, run_of_exec hexec, hret, fun t ht => (hlive.2 t ht).1⟩

/-- The output thread ends while the fast path still has 10001 packets to forward, and the main
thread waits for the fast path when no thread can move any more. -/
theorem shutdown_deadlocks :
    ∃ ts e, Run (Step oneWorker {}) (start (List.replicate 10001 opening)) ts e ∧
      e.main = .stopFP 0 .join ∧ e.Stranded 0 ∧ ∀ l, e.step oneWorker {} l = none := by
  have hfill : Leads (Step oneWorker {}) (start (List.replicate 10001 opening)) fun e =>
      ∃ k, k + 0 = 10000 ∧
        Shows { reader := .reading (List.replicate 1 opening), fpQueue := k } e := by
    refine Leads.descend (P := fun n e => ∃ k, k + n = 10000 ∧
      Shows { reader := .reading (List.replicate (n + 1) opening), fpQueue := k } e) ?_ 10000
      ⟨0, rfl, shows_start _⟩
    rintro n e ⟨k, hk, h⟩
    exact (leads_feed (n + 1) (by omega) h).trans fun e h => .refl ⟨k + 1, by omega, h⟩
  have hdrain {e : Engine} (h : Shows
      { reader := .done, fpThread := .process opening, fpQueue := 10000, output := .exited
        main := .stopLB 0 .clear, running := false } e) :
      Leads (Step oneWorker {}) e fun e => ∃ k, k + 0 = 10000 ∧ Shows
        { reader := .done, fpThread := .process opening, output := .exited
          outputQueue := k, main := .stopLB 0 .clear, running := false } e := by
    refine Leads.descend (P := fun n e => ∃ k, k + n = 10000 ∧ Shows
      { reader := .done, fpThread := .process opening, fpQueue := n, output := .exited
        outputQueue := k, main := .stopLB 0 .clear, running := false } e) ?_ 10000
      ⟨0, rfl, h⟩
    rintro n e ⟨k, hk, h⟩
    exact (leads_forward (by omega) h).trans fun e h => .refl ⟨k + 1, by omega, h⟩
  refine hfill.trans fun e h => ?_
  obtain ⟨k, rfl, h⟩ := h
  refine (h.fpTest rfl).trans fun e h => (h.fpPop rfl rfl).trans fun e h => ?_
  refine (leads_feed 0 (by decide) h).trans fun e h => ?_
  refine (leads_outputExited h).trans fun e h => (hdrain h).trans fun e h => ?_
  obtain ⟨k, rfl, h⟩ := h
  refine (h.fpProcess rfl).trans fun e h => (h.fpOutput rfl).trans fun e h => ?_
  refine (leads_stopFP h.main h.lbRunning h.lbThread h.fpRunning).trans fun e' h' => ?_
  obtain ⟨lb, fp, rfl, hlb, hfp⟩ := h'
  have hstranded : (e.withWorker lb fp (.stopFP 0 .join)).Stranded 0 := by
    refine ⟨opening, .forward, hfp.trans h.fpThread, ?_, h.output⟩
    refine ThreadSafeQueue.push_eq_none_iff.2 ⟨h.outputQueue.isShutdown, ?_⟩
    exact (congrArg List.length h.outputQueue.queue).trans
      ((List.length_replicate ..).trans h.outputQueue.maxSize.symm)
  exact .refl ⟨rfl, hstranded, step_eq_none_of_stranded rfl h.reader hlb hstranded⟩

end DPI
