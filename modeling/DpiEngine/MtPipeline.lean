import DpiEngine.Agreement
import DpiEngine.Lib.Network
import DpiEngine.MtControl

/-!
# The stand-alone program as a routing network

The reading loop of `dpi_mt.cpp` is the source of a network, its load balancers are the first row,
its fast paths the workers and its output file the sink.  Unlike the engine, the program routes by
the five-tuple as it is, and each direction of a connection has its own flow.
-/

namespace DPI.Mt

open Bytes

/-- Packets go to fast paths by the two stages of routing, and only those whose flow is not blocked
pass. -/
def Config.shape (cfg : Config) : Network.Shape Packet PacketAction where
  worker := fun pkt => worker cfg.lbs cfg.perLb pkt.tuple
  dispatcher := fun w => w / cfg.perLb
  passes := fun action => action != .drop

def MainThread.held : MainThread → List Packet
  | .pushing pkt _ => [pkt]
  | _ => []

theorem MainThread.held_of_readAll {m : MainThread} (h : m.readAll = true) : m.held = [] := by
  cases m <;> first | rfl | cases h

theorem MainThread.rest_of_readAll {m : MainThread} (h : m.readAll = true) : m.rest = [] := by
  cases m <;> first | rfl | cases h

def LBThread.held : LBThread → List Packet
  | .dispatch pkt => [pkt]
  | _ => []

/-- A packet is held by its fast path until it is counted as forwarded or dropped. -/
def FPThread.held : FPThread → List Packet
  | .process pkt => [pkt]
  | .record pkt _ => [pkt]
  | .count pkt _ => [pkt]
  | _ => []

/-- A packet that is decided and not yet counted. -/
def FPThread.decided : FPThread → List (Packet × PacketAction)
  | .record pkt flow => [(pkt, verdict flow.blocked)]
  | .count pkt blocked => [(pkt, verdict blocked)]
  | _ => []

/-- The packet that the thread counts next. -/
def FPThread.counted : FPThread → List (Packet × PacketAction)
  | .count pkt blocked => [(pkt, verdict blocked)]
  | _ => []

namespace Engine

variable {cfg : Config} {rules : Rules} {e e' : Engine} {l : Label} {t : Taken Engine Label}
  {accepted : List Packet} {handled : List (Packet × PacketAction)}

/-! ## History -/

/-- The packet that a step takes from the input file. -/
def readBy (t : Taken Engine Label) : List Packet :=
  match t.label, t.pre.main with
  | .main, .reading (pkt :: _) => [pkt]
  | _, _ => []

/-- The packet that a step counts as forwarded or dropped. -/
def handledBy (t : Taken Engine Label) : List (Packet × PacketAction) :=
  match t.label with
  | .fp j => (t.pre.fps j).thread.counted
  | _ => []

def network (e : Engine) (accepted : List Packet) (handled : List (Packet × PacketAction)) :
    Network Packet PacketAction where
  accepted := accepted
  source := e.main.held
  first := fun i => (e.lbs i).thread.held ++ (e.lbs i).inputQueue.queue
  second := fun j => (e.fps j).thread.held ++ (e.fps j).inputQueue.queue
  handled := handled
  outbox := fun j => (e.fps j).thread.outbox
  sink := e.output.held ++ e.outputQueue.queue
  written := e.written

/-! ## Steps that move no packet -/

structure SameWork (e e' : Engine) : Prop where
  held : e'.main.held = e.main.held
  rest : e'.main.rest = e.main.rest
  lbThread : ∀ i, (e'.lbs i).thread = (e.lbs i).thread
  lbQueue : ∀ i, (e'.lbs i).inputQueue.queue = (e.lbs i).inputQueue.queue
  lbSize : ∀ i, (e'.lbs i).inputQueue.maxSize = (e.lbs i).inputQueue.maxSize
  lbDispatched : ∀ i, (e'.lbs i).dispatched = (e.lbs i).dispatched
  fpFlows : ∀ j, (e'.fps j).flows = (e.fps j).flows
  fpThread : ∀ j, (e'.fps j).thread = (e.fps j).thread
  fpQueue : ∀ j, (e'.fps j).inputQueue.queue = (e.fps j).inputQueue.queue
  fpSize : ∀ j, (e'.fps j).inputQueue.maxSize = (e.fps j).inputQueue.maxSize
  fpProcessed : ∀ j, (e'.fps j).processed = (e.fps j).processed
  output : e'.output = e.output
  outputQueue : e'.outputQueue.queue = e.outputQueue.queue
  outputSize : e'.outputQueue.maxSize = e.outputQueue.maxSize
  written : e'.written = e.written
  stats : e'.stats = e.stats

theorem SameWork.network (h : SameWork e e') (accepted : List Packet)
    (handled : List (Packet × PacketAction)) :
    e'.network accepted handled = e.network accepted handled := by
  simp only [Engine.network, h.held, h.lbThread, h.lbQueue, h.fpThread, h.fpQueue, h.output,
    h.outputQueue, h.written]

theorem SameWork.refl (e : Engine) : SameWork e e :=
  ⟨rfl, rfl, fun _ => rfl, fun _ => rfl, fun _ => rfl, fun _ => rfl, fun _ => rfl, fun _ => rfl,
    fun _ => rfl, fun _ => rfl, fun _ => rfl, rfl, rfl, rfl, rfl, rfl⟩

theorem SameWork.setLB (e : Engine) (i : ℕ) (lb : LoadBalancer)
    (hthread : lb.thread = (e.lbs i).thread)
    (hqueue : lb.inputQueue.queue = (e.lbs i).inputQueue.queue)
    (hsize : lb.inputQueue.maxSize = (e.lbs i).inputQueue.maxSize)
    (hdispatched : lb.dispatched = (e.lbs i).dispatched) : SameWork e (e.setLB i lb) :=
  { SameWork.refl e with
    lbThread := fun i' => by
      rw [setLB_lbs]
      split_ifs with hi
      · rw [hi, hthread]
      · rfl
    lbQueue := fun i' => by
      rw [setLB_lbs]
      split_ifs with hi
      · rw [hi, hqueue]
      · rfl
    lbSize := fun i' => by
      rw [setLB_lbs]
      split_ifs with hi
      · rw [hi, hsize]
      · rfl
    lbDispatched := fun i' => by
      rw [setLB_lbs]
      split_ifs with hi
      · rw [hi, hdispatched]
      · rfl }

theorem SameWork.setFP (e : Engine) (j : ℕ) (fp : FastPath)
    (hflows : fp.flows = (e.fps j).flows) (hthread : fp.thread = (e.fps j).thread)
    (hqueue : fp.inputQueue.queue = (e.fps j).inputQueue.queue)
    (hsize : fp.inputQueue.maxSize = (e.fps j).inputQueue.maxSize)
    (hprocessed : fp.processed = (e.fps j).processed) : SameWork e (e.setFP j fp) :=
  { SameWork.refl e with
    fpFlows := fun j' => by
      rw [setFP_fps]
      split_ifs with hj
      · rw [hj, hflows]
      · rfl
    fpThread := fun j' => by
      rw [setFP_fps]
      split_ifs with hj
      · rw [hj, hthread]
      · rfl
    fpQueue := fun j' => by
      rw [setFP_fps]
      split_ifs with hj
      · rw [hj, hqueue]
      · rfl
    fpSize := fun j' => by
      rw [setFP_fps]
      split_ifs with hj
      · rw [hj, hsize]
      · rfl
    fpProcessed := fun j' => by
      rw [setFP_fps]
      split_ifs with hj
      · rw [hj, hprocessed]
      · rfl }

/-- A move of the main thread after it has read its file. -/
theorem SameWork.turn (h : SameWork e e') (hread : e.main.readAll = true) {main : MainThread}
    (hmain : main.readAll = true) : SameWork e { e' with main := main } :=
  { h with
    held := (MainThread.held_of_readAll hmain).trans (MainThread.held_of_readAll hread).symm
    rest := (MainThread.rest_of_readAll hmain).trans (MainThread.rest_of_readAll hread).symm }

/-- Once it has read its file, the main thread moves no packet. -/
theorem sameWork_stop (hs : e.stepMain cfg = some e') (hread : e.main.readAll = true) :
    SameWork e e' := by
  have hrefl := SameWork.refl e
  unfold stepMain at hs
  split at hs
  · next hmain => rw [hmain] at hread; cases hread
  · next hmain => rw [hmain] at hread; cases hread
  · next hmain => rw [hmain] at hread; cases hread
  · cases hs
    exact hrefl.turn hread rfl
  · next i phase _ =>
    unfold stepStopLB at hs
    split_ifs at hs
    · cases phase with
      | clear =>
        cases hs
        exact (SameWork.setLB e i { e.lbs i with running := false } rfl rfl rfl rfl).turn hread rfl
      | shutdown =>
        cases hs
        exact (SameWork.setLB e i { e.lbs i with
          inputQueue := (e.lbs i).inputQueue.shutdown } rfl rfl rfl rfl).turn hread rfl
      | join =>
        dsimp only at hs
        split at hs <;> cases hs
        exact hrefl.turn hread rfl
    · cases hs
      exact hrefl.turn hread rfl
  · next j phase _ =>
    unfold stepStopFP at hs
    split_ifs at hs
    · cases phase with
      | clear =>
        cases hs
        exact (SameWork.setFP e j { e.fps j with
          running := false } rfl rfl rfl rfl rfl).turn hread rfl
      | shutdown =>
        cases hs
        exact (SameWork.setFP e j { e.fps j with
          inputQueue := (e.fps j).inputQueue.shutdown } rfl rfl rfl rfl rfl).turn hread rfl
      | join =>
        dsimp only at hs
        split at hs <;> cases hs
        exact hrefl.turn hread rfl
    · cases hs
      exact hrefl.turn hread rfl
  · cases hs
    have hset : SameWork e { e with outputRunning := false } := { hrefl with }
    exact hset.turn hread rfl
  · cases hs
    have hset : SameWork e { e with outputQueue := e.outputQueue.shutdown } := { hrefl with }
    exact hset.turn hread rfl
  · split at hs <;> cases hs
    exact hrefl.turn hread rfl
  · cases hs
    have hset : SameWork e { e with outputOpen := false } := { hrefl with }
    exact hset.turn hread rfl
  · cases hs

/-! ## Each step is a step of the network -/

theorem network_setLB (e : Engine) (accepted : List Packet)
    (handled : List (Packet × PacketAction)) (i : ℕ) (lb : LoadBalancer) :
    (e.setLB i lb).network accepted handled = { e.network accepted handled with
      first := Function.update (e.network accepted handled).first i
        (lb.thread.held ++ lb.inputQueue.queue) } := by
  simp only [network, setLB, Network.mk.injEq, true_and, and_true]
  funext i'
  rw [Function.update_apply, Function.update_apply]
  split_ifs <;> rfl

theorem network_setFP (e : Engine) (accepted : List Packet)
    (handled : List (Packet × PacketAction)) (j : ℕ) (fp : FastPath) :
    (e.setFP j fp).network accepted handled = { e.network accepted handled with
      second := Function.update (e.network accepted handled).second j
        (fp.thread.held ++ fp.inputQueue.queue)
      outbox := Function.update (e.network accepted handled).outbox j fp.thread.outbox } := by
  simp only [network, setFP, Network.mk.injEq, true_and, and_true]
  constructor <;>
  · funext j'
    rw [Function.update_apply, Function.update_apply]
    split_ifs <;> rfl

theorem network_setLB_same {i : ℕ} {lb : LoadBalancer}
    (h : lb.thread.held ++ lb.inputQueue.queue =
      (e.lbs i).thread.held ++ (e.lbs i).inputQueue.queue) :
    (e.setLB i lb).network accepted handled = e.network accepted handled := by
  rw [network_setLB, h]
  exact congrArg (fun f => { e.network accepted handled with first := f })
    (Function.update_eq_self i _)

theorem network_setFP_same {j : ℕ} {fp : FastPath}
    (h : fp.thread.held ++ fp.inputQueue.queue =
      (e.fps j).thread.held ++ (e.fps j).inputQueue.queue)
    (hout : fp.thread.outbox = (e.fps j).thread.outbox) :
    (e.setFP j fp).network accepted handled = e.network accepted handled := by
  rw [network_setFP, h, hout]
  exact congrArg₂ (fun f g => { e.network accepted handled with second := f, outbox := g })
    (Function.update_eq_self j _) (Function.update_eq_self j _)

theorem step_of_nil {n : Network Packet PacketAction} (hread : readBy t = [])
    (hcounted : handledBy t = [])
    (h : Network.Step cfg.shape n (t.post.network accepted handled)) :
    Network.Step cfg.shape n (t.post.network (accepted ++ readBy t) (handled ++ handledBy t)) := by
  rwa [hread, hcounted, List.append_nil, List.append_nil]

theorem network_of_nil (hread : readBy t = []) (hcounted : handledBy t = []) :
    t.post.network (accepted ++ readBy t) (handled ++ handledBy t) =
      t.post.network accepted handled := by
  rw [hread, hcounted, List.append_nil, List.append_nil]

/-- A packet is handled when its fast path counts it. -/
theorem step_count {j : ℕ} {pkt : Packet} {blocked : Bool} {fp : FastPath}
    (h : (e.fps j).thread = .count pkt blocked) (hheld : fp.thread.held = [])
    (hqueue : fp.inputQueue = (e.fps j).inputQueue)
    (hout : fp.thread.outbox = if blocked then [] else [pkt]) :
    Network.Step cfg.shape (e.network accepted handled)
      ((e.setFP j fp).network accepted (handled ++ [(pkt, verdict blocked)])) := by
  have hsecond : (e.network accepted handled).second j = pkt :: (e.fps j).inputQueue.queue := by
    simp [Engine.network, h, FPThread.held]
  have houtbox : (e.network accepted handled).outbox j = [] := by
    simp [Engine.network, h, FPThread.outbox]
  have hstep := Network.Step.handle (S := cfg.shape) (e.network accepted handled) j pkt
    (verdict blocked) _ hsecond
  rw [houtbox, List.nil_append] at hstep
  rw [network_setFP, hheld, hqueue, hout]
  cases blocked with
  | true =>
    have hempty : Function.update (e.network accepted handled).outbox j [] =
        (e.network accepted handled).outbox := by
      rw [← houtbox]
      exact Function.update_eq_self j _
    rw [if_neg (show ¬ cfg.shape.passes (verdict true) = true by simp [Config.shape, verdict]),
      ← hempty] at hstep
    exact hstep
  | false =>
    rw [if_pos (show cfg.shape.passes (verdict false) = true by
      simp [Config.shape, verdict])] at hstep
    exact hstep

/-- The packets stay where they are, or move as in a step of the network. -/
def Relays (cfg : Config) (accepted : List Packet) (handled : List (Packet × PacketAction))
    (t : Taken Engine Label) : Prop :=
  t.post.network (accepted ++ readBy t) (handled ++ handledBy t) =
      t.pre.network accepted handled ∨
    Network.Step cfg.shape (t.pre.network accepted handled)
      (t.post.network (accepted ++ readBy t) (handled ++ handledBy t))

section Threads

open ThreadSafeQueue

theorem Move.relays_main (hc : Control cfg e) (hf : 0 < cfg.perLb)
    (h : Move cfg rules e .main e') : Relays cfg accepted handled ⟨e, .main, e'⟩ := by
  cases h with
  | readEnd h =>
    refine Or.inl ((network_of_nil (by simp [readBy, h]) rfl).trans ?_)
    simp [Engine.network, h, MainThread.held]
  | read pkt rest h =>
    have hread : readBy ⟨e, .main, { e with
        main := .pushing pkt rest, stats := e.stats.read pkt }⟩ = [pkt] := by simp [readBy, h]
    have hstep := Network.Step.accept (S := cfg.shape) (e.network accepted handled) pkt
      (by simp [Engine.network, h, MainThread.held])
    rw [Relays, hread, handledBy, List.append_nil]
    exact Or.inr hstep
  | readPush pkt rest i queue h hpos hi hq =>
    have hqueue := (push_eq_some hq).2 (hc.lbOpen (by rw [h]; rfl) i)
    have hi' : cfg.shape.dispatcher (cfg.shape.worker pkt) = i := by
      rw [hi]
      exact worker_div hf pkt.tuple
    have hstep := Network.Step.dispatch (S := cfg.shape) (e.network accepted handled) pkt
      (by simp [Engine.network, h, MainThread.held])
    rw [hi'] at hstep
    have hnet : ({ e.setLB i { e.lbs i with inputQueue := queue } with
        main := .reading rest } : Engine).network accepted handled =
        { e.network accepted handled with
          source := []
          first := Function.update (e.network accepted handled).first i
            ((e.network accepted handled).first i ++ [pkt]) } := by
      have := network_setLB e accepted handled i { e.lbs i with inputQueue := queue }
      rw [hqueue, ← List.append_assoc] at this
      exact congrArg (fun n : Network Packet PacketAction => { n with source := [] }) this
    exact Or.inr (step_of_nil (by simp [readBy, h]) rfl (hnet ▸ hstep))
  | stop e' h hread =>
    refine Or.inl ((network_of_nil ?_ rfl).trans ((sameWork_stop h hread).network _ _))
    unfold readBy
    split
    · next hmain => rw [hmain] at hread; cases hread
    · rfl

theorem Move.relays_lb {i : ℕ} (hc : Control cfg e)
    (hord : Network.Ordered cfg.shape (e.network accepted handled)) (hf : 0 < cfg.perLb)
    (h : Move cfg rules e (.lb i) e') : Relays cfg accepted handled ⟨e, .lb i, e'⟩ := by
  cases h with
  | lbTest i hi h =>
    refine Or.inl ((network_of_nil rfl rfl).trans (network_setLB_same ?_))
    rw [h]
    cases (e.lbs i).running <;> rfl
  | lbIdle i hi h hq =>
    exact Or.inl ((network_of_nil rfl rfl).trans (network_setLB_same (by rw [h]; rfl)))
  | lbPop i pkt queue hi h hq =>
    refine Or.inl ((network_of_nil rfl rfl).trans (network_setLB_same ?_))
    rw [h, (popWithTimeout_eq_some hq).2]
    rfl
  | lbDispatch i j pkt queue hi h hpos hj hq =>
    have hqueue := (push_eq_some hq).2 (hc.fpOpen hi (fun hx => by rw [h] at hx; cases hx) j)
    have hfirst : (e.network accepted handled).first i = pkt :: (e.lbs i).inputQueue.queue := by
      simp [Engine.network, h, LBThread.held]
    have hj' : cfg.shape.worker pkt = j := by
      have hroute : getLBForPacket cfg.lbs pkt.tuple = i := by
        rw [← worker_div hf]
        exact hord.first_routed i pkt (by simp [hfirst])
      rw [hj, ← hroute]
      rfl
    have hstep := Network.Step.assign (S := cfg.shape) (e.network accepted handled) i pkt _ hfirst
    rw [hj'] at hstep
    have houtbox : Function.update (e.network accepted handled).outbox j
        (e.fps j).thread.outbox = (e.network accepted handled).outbox :=
      Function.update_eq_self j _
    refine Or.inr (step_of_nil rfl rfl ?_)
    rw [network_setLB, network_setFP, hqueue, ← List.append_assoc, houtbox]
    exact hstep
  | lbCount i hi h =>
    exact Or.inl ((network_of_nil rfl rfl).trans (network_setLB_same (by rw [h]; rfl)))

theorem Move.relays_fp {j : ℕ} (hd : Draining cfg e) (h : Move cfg rules e (.fp j) e') :
    Relays cfg accepted handled ⟨e, .fp j, e'⟩ := by
  cases h with
  | fpTest j hj h =>
    refine Or.inl ((network_of_nil rfl (by simp [handledBy, h, FPThread.counted])).trans
      (network_setFP_same ?_ ?_)) <;> rw [h] <;> cases (e.fps j).running <;> rfl
  | fpIdle j hj h hq =>
    exact Or.inl ((network_of_nil rfl (by simp [handledBy, h, FPThread.counted])).trans
      (network_setFP_same (by rw [h]; rfl) (by rw [h]; rfl)))
  | fpPop j pkt queue hj h hq =>
    refine Or.inl ((network_of_nil rfl (by simp [handledBy, h, FPThread.counted])).trans
      (network_setFP_same ?_ (by rw [h]; rfl)))
    rw [h, (popWithTimeout_eq_some hq).2]
    rfl
  | fpProcess j pkt flow flows hj h hp =>
    exact Or.inl ((network_of_nil rfl (by simp [handledBy, h, FPThread.counted])).trans
      (network_setFP_same (by rw [h]; rfl) (by rw [h]; rfl)))
  | fpRecord j pkt flow hj h =>
    have hset : (e.setFP j { e.fps j with thread := .count pkt flow.blocked }).network accepted
        handled = e.network accepted handled :=
      network_setFP_same (by rw [h]; rfl) (by rw [h]; rfl)
    exact Or.inl ((network_of_nil rfl (by simp [handledBy, h, FPThread.counted])).trans hset)
  | fpDrop j pkt hj h =>
    have hcounted : handledBy ⟨e, .fp j, { e.setFP j { e.fps j with thread := .test } with
        stats := { e.stats with dropped := e.stats.dropped + 1 } }⟩ = [(pkt, verdict true)] := by
      simp [handledBy, h, FPThread.counted]
    rw [Relays, hcounted, readBy, List.append_nil]
    exact Or.inr (step_count h rfl rfl rfl)
  | fpForward j pkt hj h =>
    have hcounted : handledBy ⟨e, .fp j, { e.setFP j { e.fps j with thread := .push pkt } with
        stats := { e.stats with forwarded := e.stats.forwarded + 1 }
        forwarded := e.forwarded ++ [pkt] }⟩ = [(pkt, verdict false)] := by
      simp [handledBy, h, FPThread.counted]
    rw [Relays, hcounted, readBy, List.append_nil]
    exact Or.inr (step_count h rfl rfl rfl)
  | fpPush j pkt queue hj h hq =>
    have hqueue := (push_eq_some hq).2 (hd.active hj (fun hx => by rw [h] at hx; cases hx)).2.1
    have houtbox : (e.network accepted handled).outbox j = [pkt] := by
      simp [Engine.network, h, FPThread.outbox]
    have hstep := Network.Step.emit (S := cfg.shape) (e.network accepted handled) j pkt [] houtbox
    have hsecond : Function.update (e.network accepted handled).second j
        (e.fps j).inputQueue.queue = (e.network accepted handled).second := by
      refine Eq.trans ?_ (Function.update_eq_self j _)
      simp [Engine.network, h, FPThread.held]
    have hnet : ({ e.setFP j { e.fps j with thread := .test } with
        outputQueue := queue } : Engine).network accepted handled =
        { e.network accepted handled with
          outbox := Function.update (e.network accepted handled).outbox j []
          sink := (e.network accepted handled).sink ++ [pkt] } := by
      have hset := network_setFP e accepted handled j { e.fps j with thread := .test }
      rw [show FPThread.held .test = [] from rfl, List.nil_append, hsecond] at hset
      refine (congrArg (fun n : Network Packet PacketAction => { n with
        sink := e.output.held ++ queue.queue }) hset).trans ?_
      rw [hqueue, ← List.append_assoc]
      rfl
    exact Or.inr (step_of_nil rfl (by simp [handledBy, h, FPThread.counted]) (hnet ▸ hstep))

theorem Move.relays_output (hd : Draining cfg e) (h : Move cfg rules e .output e') :
    Relays cfg accepted handled ⟨e, .output, e'⟩ := by
  cases h with
  | outputTest h =>
    refine Or.inl ((network_of_nil rfl rfl).trans ?_)
    simp only [Engine.network, h]
    cases e.outputRunning <;> rfl
  | outputSize h =>
    refine Or.inl ((network_of_nil rfl rfl).trans ?_)
    simp only [Engine.network, h]
    split_ifs <;> rfl
  | outputIdle h hq =>
    refine Or.inl ((network_of_nil rfl rfl).trans ?_)
    simp only [Engine.network, h]
    rfl
  | outputPop pkt queue h hq =>
    refine Or.inl ((network_of_nil rfl rfl).trans ?_)
    simp only [Engine.network, h, (popWithTimeout_eq_some hq).2]
    rfl
  | outputWrite pkt h =>
    have hopen := hd.fileIsOpen (fun hx => by rw [h] at hx; cases hx)
    have hsink : (e.network accepted handled).sink = pkt :: e.outputQueue.queue := by
      simp [Engine.network, h, OutputThread.held]
    have hstep := Network.Step.write (S := cfg.shape) (e.network accepted handled) pkt _ hsink
    refine Or.inr (step_of_nil rfl rfl ?_)
    rw [if_pos hopen]
    exact hstep

end Threads

theorem Move.network (hc : Control cfg e) (hd : Draining cfg e)
    (hord : Network.Ordered cfg.shape (e.network accepted handled)) (hf : 0 < cfg.perLb)
    (h : Move cfg rules e l e') : Relays cfg accepted handled ⟨e, l, e'⟩ := by
  cases l with
  | main => exact h.relays_main hc hf
  | lb i => exact h.relays_lb hc hord hf
  | fp j => exact h.relays_fp hd
  | output => exact h.relays_output hd

theorem Move.readBy_rest (h : Move cfg rules e l e') :
    readBy ⟨e, l, e'⟩ ++ e'.main.rest = e.main.rest := by
  cases h with
  | readEnd h => simp [readBy, h, MainThread.rest]
  | read pkt rest h => simp [readBy, h, MainThread.rest]
  | readPush pkt rest i queue h hpos hi hq => simp [readBy, h, MainThread.rest]
  | stop e' h hread =>
    have hnone : readBy ⟨e, .main, e'⟩ = [] := by
      unfold readBy
      split
      · next hmain => rw [hmain] at hread; cases hread
      · rfl
    rw [hnone]
    exact (sameWork_stop h hread).rest
  | _ => rfl

/-! ## The flows of the fast paths -/

/-- The packets that fast path `w` has decided, in order, with their verdicts. -/
def decided (cfg : Config) (e : Engine) (handled : List (Packet × PacketAction)) (w : ℕ) :
    List (Packet × PacketAction) :=
  (handled.filter fun d => cfg.shape.worker d.1 == w) ++ (e.fps w).thread.decided

/-- Each fast path is at the flows that one fast path reaches on the packets it decided. -/
def Faithful (cfg : Config) (rules : Rules) (e : Engine)
    (handled : List (Packet × PacketAction)) : Prop :=
  ∀ w, Outcome rules (Flows.at ∅) (e.decided cfg handled w) (e.fps w).flows.at

theorem Faithful.of_same (h : Faithful cfg rules e handled)
    (hthread : ∀ w, (e'.fps w).thread.decided = (e.fps w).thread.decided)
    (hflows : ∀ w, (e'.fps w).flows = (e.fps w).flows) : Faithful cfg rules e' handled := by
  intro w
  rw [decided, hthread, hflows]
  exact h w

theorem Faithful.setFP (h : Faithful cfg rules e handled) {j : ℕ} {fp : FastPath}
    (hthread : fp.thread.decided = (e.fps j).thread.decided)
    (hflows : fp.flows = (e.fps j).flows) : Faithful cfg rules (e.setFP j fp) handled := by
  refine h.of_same (fun w => ?_) fun w => ?_ <;>
  · rw [setFP_fps]
    split_ifs with hw
    · rw [hw]
      assumption
    · rfl

/-- A packet is decided once, whether it is counted or not. -/
theorem Faithful.count (h : Faithful cfg rules e handled) {j : ℕ} {pkt : Packet} {blocked : Bool}
    (fp : FastPath) (hthread : (e.fps j).thread = .count pkt blocked)
    (hroute : cfg.shape.worker pkt = j) (hdecided : fp.thread.decided = [])
    (hflows : fp.flows = (e.fps j).flows) :
    Faithful cfg rules (e.setFP j fp) (handled ++ [(pkt, verdict blocked)]) := by
  intro w
  have hold := h w
  rw [decided] at hold ⊢
  rw [List.filter_append, setFP_fps]
  by_cases hw : w = j
  · subst hw
    rw [hthread] at hold
    rw [if_pos rfl, hdecided, hflows, List.append_nil,
      List.filter_cons_of_pos (by simp [hroute])]
    exact hold
  · rw [if_neg hw, List.filter_cons_of_neg (by simpa [hroute] using Ne.symm hw), List.filter_nil,
      List.append_nil]
    exact hold

theorem Move.faithful (hord : Network.Ordered cfg.shape (e.network accepted handled))
    (h : Move cfg rules e l e') (hI : Faithful cfg rules e handled) :
    Faithful cfg rules e' (handled ++ handledBy ⟨e, l, e'⟩) := by
  have hidle (hnone : handledBy ⟨e, l, e'⟩ = []) (hsame : Faithful cfg rules e' handled) :
      Faithful cfg rules e' (handled ++ handledBy ⟨e, l, e'⟩) := by
    rwa [hnone, List.append_nil]
  cases h with
  | fpTest j hj h =>
    refine hidle (by simp [handledBy, h, FPThread.counted]) (hI.setFP ?_ rfl)
    rw [h]
    cases (e.fps j).running <;> rfl
  | fpIdle j hj h hq =>
    exact hidle (by simp [handledBy, h, FPThread.counted]) (hI.setFP (by rw [h]; rfl) rfl)
  | fpPop j pkt queue hj h hq =>
    exact hidle (by simp [handledBy, h, FPThread.counted]) (hI.setFP (by rw [h]; rfl) rfl)
  | fpProcess j pkt flow flows hj h hp =>
    refine hidle (by simp [handledBy, h, FPThread.counted]) fun w => ?_
    have hold := hI w
    rw [decided] at hold ⊢
    rw [setFP_fps]
    by_cases hw : w = j
    · subst hw
      rw [h, show FPThread.decided (.process pkt) = [] from rfl, List.append_nil] at hold
      obtain ⟨f, hf, hret⟩ := bind_eq_ok_iff.1 hp
      cases hret
      rw [if_pos rfl, Flows.at_insert]
      refine hold.snoc ?_
      rw [FlowEntry.step, hf]
      rfl
    · rw [if_neg hw]
      exact hold
  | fpRecord j pkt flow hj h =>
    have hset : Faithful cfg rules (e.setFP j { e.fps j with thread := .count pkt flow.blocked })
        handled := hI.setFP (by rw [h]; rfl) rfl
    exact hidle (by simp [handledBy, h, FPThread.counted])
      (hset.of_same (fun _ => rfl) fun _ => rfl)
  | fpDrop j pkt hj h =>
    have hroute : cfg.shape.worker pkt = j :=
      hord.second_routed j pkt (by simp [Engine.network, h, FPThread.held])
    have hset := hI.count { e.fps j with thread := .test } h hroute rfl rfl
    rw [show handledBy ⟨e, .fp j, _⟩ = (e.fps j).thread.counted from rfl, h]
    exact hset.of_same (fun _ => rfl) fun _ => rfl
  | fpForward j pkt hj h =>
    have hroute : cfg.shape.worker pkt = j :=
      hord.second_routed j pkt (by simp [Engine.network, h, FPThread.held])
    have hset := hI.count { e.fps j with thread := .push pkt } h hroute rfl rfl
    rw [show handledBy ⟨e, .fp j, _⟩ = (e.fps j).thread.counted from rfl, h]
    exact hset.of_same (fun _ => rfl) fun _ => rfl
  | fpPush j pkt queue hj h hq =>
    have hset : Faithful cfg rules (e.setFP j { e.fps j with thread := .test }) handled :=
      hI.setFP (by rw [h]; rfl) rfl
    exact hidle (by simp [handledBy, h, FPThread.counted])
      (hset.of_same (fun _ => rfl) fun _ => rfl)
  | lbDispatch i j pkt queue hi h hpos hj hq =>
    have hset : Faithful cfg rules (e.setFP j { e.fps j with inputQueue := queue }) handled :=
      hI.setFP rfl rfl
    exact hidle rfl (hset.of_same (fun _ => rfl) fun _ => rfl)
  | stop e' h hread =>
    have hs := sameWork_stop h hread
    exact hidle rfl (hI.of_same (fun w => by rw [hs.fpThread]) hs.fpFlows)
  | _ => exact hidle rfl (hI.of_same (fun _ => rfl) fun _ => rfl)

/-- What the steps taken so far say of the state they lead to. -/
structure Sound (cfg : Config) (rules : Rules) (input : List Packet)
    (ts : List (Taken Engine Label)) (e : Engine) : Prop where
  control : Control cfg e
  draining : Draining cfg e
  ordered : Network.Ordered cfg.shape (e.network (ts.flatMap readBy) (ts.flatMap handledBy))
  faithful : Faithful cfg rules e (ts.flatMap handledBy)
  accepted : ts.flatMap readBy ++ e.main.rest = input

theorem sound_start (cfg : Config) (rules : Rules) (input : List Packet) :
    Sound cfg rules input [] (start input) where
  control := control_start cfg input
  draining := draining_start cfg input
  ordered := Network.ordered_initial cfg.shape
  faithful := fun _ => .nil _
  accepted := rfl

theorem Sound.step {input : List Packet} {ts : List (Taken Engine Label)}
    (h : Sound cfg rules input ts e) (hf : 0 < cfg.perLb) (hs : Step cfg rules e l e') :
    Sound cfg rules input (ts ++ [⟨e, l, e'⟩]) e' where
  control := h.control.step hs
  draining := h.draining.step hs
  ordered := by
    rw [List.flatMap_append, List.flatMap_append, List.flatMap_singleton, List.flatMap_singleton]
    rcases hs.move.network h.control h.draining h.ordered hf with heq | hstep
    · rw [heq]
      exact h.ordered
    · exact h.ordered.step cfg.shape hstep
  faithful := by
    rw [List.flatMap_append, List.flatMap_singleton]
    exact hs.move.faithful h.ordered h.faithful
  accepted := by
    rw [List.flatMap_append, List.flatMap_singleton, List.append_assoc, hs.move.readBy_rest,
      h.accepted]

theorem sound_of_run {input : List Packet} {ts : List (Taken Engine Label)} (hf : 0 < cfg.perLb)
    (hrun : Run (Step cfg rules) (start input) ts e) : Sound cfg rules input ts e :=
  hrun.history (Sound cfg rules input) (fun _ _ _ _ hs h => h.step hf hs)
    (sound_start cfg rules input)

/-- What each fast path has decided are the first of the packets that are routed to it. -/
theorem Sound.decided_in_order {input : List Packet} {ts : List (Taken Engine Label)}
    (h : Sound cfg rules input ts e) (w : ℕ) :
    (e.decided cfg (ts.flatMap handledBy) w).map Prod.fst <+:
      input.filter fun pkt => cfg.shape.worker pkt == w := by
  have hintake := h.ordered.intake w
  have hheld : (e.fps w).thread.decided.map Prod.fst <+:
      (e.network (ts.flatMap readBy) (ts.flatMap handledBy)).second w := by
    simp only [Engine.network]
    cases (e.fps w).thread with
    | record pkt flow => exact List.cons_prefix_cons.2 ⟨rfl, List.nil_prefix⟩
    | count pkt blocked => exact List.cons_prefix_cons.2 ⟨rfl, List.nil_prefix⟩
    | _ => exact List.nil_prefix
  have hread : (e.decided cfg (ts.flatMap handledBy) w).map Prod.fst <+:
      Network.of cfg.shape w (ts.flatMap readBy) := by
    have hhandled : ((ts.flatMap handledBy).filter fun d => cfg.shape.worker d.1 == w).map
        Prod.fst = Network.of cfg.shape w ((ts.flatMap handledBy).map Prod.fst) := by
      rw [Network.of, List.filter_map]
      rfl
    rw [decided, List.map_append, hhandled]
    apply List.IsPrefix.trans ((List.prefix_append_right_inj _).2 hheld)
    rw [show ts.flatMap readBy = (e.network (ts.flatMap readBy) (ts.flatMap handledBy)).accepted
      from rfl, hintake, List.append_assoc, List.append_assoc, ← List.append_assoc]
    exact List.prefix_append _ _
  apply hread.trans
  rw [← h.accepted, List.filter_append]
  exact List.prefix_append _ _

end Engine

end DPI.Mt
