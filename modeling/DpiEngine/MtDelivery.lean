import DpiEngine.Lib.Outlet
import DpiEngine.MtEngine

/-!
# What is forwarded is written

The fast paths, the output queue and the output thread form an outlet.  The main thread tells the
output thread to finish after it has joined all fast paths, and the output thread finishes at an
empty queue, so what the fast paths count as forwarded is what is written.
-/

namespace DPI.Mt

/-! ## The outlet -/

def FPThread.outbox : FPThread → List Packet
  | .push pkt => [pkt]
  | _ => []

def OutputThread.held : OutputThread → List Packet
  | .write pkt => [pkt]
  | _ => []

namespace MainThread

/-- The number of fast paths whose threads are joined, out of `n`. -/
def joinedFPs (n : ℕ) : MainThread → ℕ
  | .reading _ | .pushing _ _ | .sleep | .stopLB _ _ => 0
  | .stopFP j _ => j
  | _ => n

/-- The output thread is joined. -/
def joinedOutput : MainThread → Bool
  | .closeOutput | .returned => true
  | _ => false

end MainThread

namespace Engine

variable {cfg : Config} {rules : Rules} {e e' : Engine} {l : Label}

def outlet (e : Engine) : Outlet Packet where
  produced := e.forwarded
  outbox := fun j => (e.fps j).thread.outbox
  sink := e.output.held ++ e.outputQueue.queue
  delivered := e.written

/-- What a moment of a run promises about the end: no packet is lost on its way out, and the main
thread lets the output thread finish only when no fast path can push any more. -/
structure Draining (cfg : Config) (e : Engine) : Prop where
  balanced : e.outlet.Balanced cfg.fps
  counted : e.stats.forwarded = UInt64.ofNat e.forwarded.length
  fpExited : ∀ j < e.main.joinedFPs cfg.fps, (e.fps j).thread = .exited
  queueShutdown : e.outputQueue.isShutdown = true → e.main.joinedFPs cfg.fps = cfg.fps
  outputCleared : e.outputRunning = false → e.main.joinedFPs cfg.fps = cfg.fps
  outputFinishing : e.output = .testSize ∨ e.output = .exited → e.outputRunning = false
  outputEmpty : e.output = .exited → e.outputQueue.queue = []
  outputExited : e.main.joinedOutput = true → e.output = .exited
  outputClosed : e.outputOpen = false → e.main.joinedOutput = true

theorem draining_start (cfg : Config) (input : List Packet) : Draining cfg (start input) where
  balanced := Outlet.balanced_initial cfg.fps
  counted := rfl
  fpExited := fun _ h => by cases h
  queueShutdown := fun h => by cases h
  outputCleared := fun h => by cases h
  outputFinishing := fun h => by rcases h with h | h <;> cases h
  outputEmpty := fun h => by cases h
  outputExited := fun h => by cases h
  outputClosed := fun h => by cases h

/-! ## Steps that touch nothing on the way out -/

structure SameOutlet (e e' : Engine) : Prop where
  thread : ∀ j, (e'.fps j).thread = (e.fps j).thread
  outputQueue : e'.outputQueue = e.outputQueue
  outputRunning : e'.outputRunning = e.outputRunning
  output : e'.output = e.output
  outputOpen : e'.outputOpen = e.outputOpen
  written : e'.written = e.written
  forwarded : e'.forwarded = e.forwarded
  counted : e'.stats.forwarded = e.stats.forwarded

theorem SameOutlet.refl (e : Engine) : SameOutlet e e :=
  ⟨fun _ => rfl, rfl, rfl, rfl, rfl, rfl, rfl, rfl⟩

theorem SameOutlet.setFP (e : Engine) (j : ℕ) (fp : FastPath)
    (h : fp.thread = (e.fps j).thread) : SameOutlet e (e.setFP j fp) :=
  { SameOutlet.refl e with
    thread := fun j' => by
      rw [setFP_fps]
      split_ifs with hj
      · rw [hj, h]
      · rfl }

theorem SameOutlet.outlet (h : SameOutlet e e') : e'.outlet = e.outlet := by
  simp only [Engine.outlet, h.thread, h.outputQueue, h.output, h.written, h.forwarded]

theorem Draining.of_same (h : Draining cfg e) (hs : SameOutlet e e')
    (hfps : e'.main.joinedFPs cfg.fps = e.main.joinedFPs cfg.fps)
    (hout : e'.main.joinedOutput = e.main.joinedOutput) : Draining cfg e' where
  balanced := by rw [hs.outlet]; exact h.balanced
  counted := by rw [hs.counted, hs.forwarded]; exact h.counted
  fpExited := fun j hj => by rw [hs.thread]; exact h.fpExited j (hfps ▸ hj)
  queueShutdown := by rw [hs.outputQueue, hfps]; exact h.queueShutdown
  outputCleared := by rw [hs.outputRunning, hfps]; exact h.outputCleared
  outputFinishing := by rw [hs.output, hs.outputRunning]; exact h.outputFinishing
  outputEmpty := by rw [hs.output, hs.outputQueue]; exact h.outputEmpty
  outputExited := by rw [hout, hs.output]; exact h.outputExited
  outputClosed := by rw [hs.outputOpen, hout]; exact h.outputClosed

theorem sameOutlet_stepLB {i : ℕ} (hs : e.stepLB cfg i = some e') :
    SameOutlet e e' ∧ e'.main = e.main := by
  dsimp only [stepLB] at hs
  split at hs
  · cases hs
    exact ⟨{ SameOutlet.refl e with }, rfl⟩
  · split at hs <;> cases hs <;> exact ⟨{ SameOutlet.refl e with }, rfl⟩
  · obtain ⟨fpIdx, -, hs⟩ := Option.bind_eq_some_iff.1 hs
    obtain ⟨j, -, hs⟩ := Option.bind_eq_some_iff.1 hs
    obtain ⟨queue, -, hs⟩ := Option.bind_eq_some_iff.1 hs
    cases hs
    exact ⟨{ SameOutlet.setFP e j { e.fps j with inputQueue := queue } rfl with }, rfl⟩
  · cases hs
    exact ⟨{ SameOutlet.refl e with }, rfl⟩
  · cases hs

/-! ## Fast paths -/

/-- A fast path that runs has not been joined, so the output queue is in service and the output
thread has not been told to finish. -/
theorem Draining.active (h : Draining cfg e) {j : ℕ} (hj : j < cfg.fps)
    (hthread : (e.fps j).thread ≠ .exited) :
    e.main.joinedFPs cfg.fps ≤ j ∧ e.outputQueue.isShutdown = false ∧ e.output ≠ .exited := by
  have hle : e.main.joinedFPs cfg.fps ≤ j := by
    by_contra hlt
    exact hthread (h.fpExited j (Nat.lt_of_not_le hlt))
  have hne : e.main.joinedFPs cfg.fps ≠ cfg.fps := (lt_of_le_of_lt hle hj).ne
  refine ⟨hle, ?_, fun hx => ?_⟩
  · by_contra hq
    exact hne (h.queueShutdown (by simpa using hq))
  · exact hne (h.outputCleared (h.outputFinishing (Or.inr hx)))

/-- A step of fast path `j` that leaves the other threads alone; `hout` is what it does to the
outlet. -/
theorem Draining.moveFP (h : Draining cfg e) {j : ℕ} (hj : j < cfg.fps)
    (hthread : (e.fps j).thread ≠ .exited) (hbal : e'.outlet.Balanced cfg.fps)
    (hcount : e'.stats.forwarded = UInt64.ofNat e'.forwarded.length)
    (hfps : ∀ j' ≠ j, e'.fps j' = e.fps j') (hmain : e'.main = e.main)
    (hrun : e'.outputRunning = e.outputRunning) (hout : e'.output = e.output)
    (hopen : e'.outputOpen = e.outputOpen)
    (hqueue : e'.outputQueue.isShutdown = e.outputQueue.isShutdown) : Draining cfg e' := by
  obtain ⟨hle, hopen', hnot⟩ := h.active hj hthread
  exact
    { balanced := hbal
      counted := hcount
      fpExited := fun j' hj' => by
        rw [hmain] at hj'
        rw [hfps j' (lt_of_lt_of_le hj' hle).ne]
        exact h.fpExited j' hj'
      queueShutdown := by rw [hqueue, hmain]; exact h.queueShutdown
      outputCleared := by rw [hrun, hmain]; exact h.outputCleared
      outputFinishing := by rw [hout, hrun]; exact h.outputFinishing
      outputEmpty := fun hx => absurd (hout ▸ hx) hnot
      outputExited := by rw [hmain, hout]; exact h.outputExited
      outputClosed := by rw [hopen, hmain]; exact h.outputClosed }

theorem outlet_eq (e e' : Engine) (j : ℕ) (fp : FastPath)
    (h : e'.fps = Function.update e.fps j fp) :
    e'.outlet =
      { produced := e'.forwarded
        outbox := Function.update e.outlet.outbox j fp.thread.outbox
        sink := e'.output.held ++ e'.outputQueue.queue
        delivered := e'.written } := by
  simp only [outlet, h, Outlet.mk.injEq, true_and, and_true]
  funext j'
  rw [Function.update_apply, Function.update_apply]
  split_ifs <;> rfl

/-- A step of fast path `j` outside its pushes. -/
theorem Draining.setFP (h : Draining cfg e) {j : ℕ} (hj : j < cfg.fps)
    (hthread : (e.fps j).thread ≠ .exited) (fp : FastPath)
    (hbox : fp.thread.outbox = (e.fps j).thread.outbox) {stats : Stats}
    (hstats : stats.forwarded = e.stats.forwarded) :
    Draining cfg { e.setFP j fp with stats := stats } := by
  refine h.moveFP hj hthread ?_ ?_ ?_ rfl rfl rfl rfl rfl
  · have hsame : Function.update e.outlet.outbox j (e.fps j).thread.outbox = e.outlet.outbox :=
      Function.update_eq_self j _
    rw [outlet_eq e _ j fp rfl, hbox, hsame]
    exact h.balanced
  · exact hstats.trans h.counted
  · intro j' hj'
    exact (setFP_fps e j j' fp).trans (if_neg hj')

open ThreadSafeQueue in
theorem Draining.stepFP (h : Draining cfg e) {j : ℕ} (hj : j < cfg.fps)
    (hs : e.stepFP rules j = some e') : Draining cfg e' := by
  dsimp only [Engine.stepFP] at hs
  split at hs
  · next ht =>
    cases hs
    refine h.setFP hj (by rw [ht]; nofun) _ ?_ rfl
    rw [ht]
    cases (e.fps j).running <;> rfl
  · next ht =>
    split at hs <;> cases hs <;>
      exact h.setFP hj (by rw [ht]; nofun) _ (by rw [ht]; rfl) rfl
  · next pkt ht =>
    split at hs <;> cases hs
    exact h.setFP hj (by rw [ht]; nofun) _ (by rw [ht]; rfl) rfl
  · next pkt flow ht =>
    cases hs
    refine h.setFP hj (by rw [ht]; nofun) _ (by rw [ht]; rfl) ?_
    unfold Stats.recordApp
    split_ifs <;> rfl
  · next pkt ht =>
    cases hs
    exact h.setFP hj (by rw [ht]; nofun) _ (by rw [ht]; rfl) rfl
  · next pkt ht =>
    cases hs
    have hbox : e.outlet.outbox j = [] := by simp [outlet, ht, FPThread.outbox]
    have hstep := Outlet.Step.produce e.outlet j pkt hj
    rw [hbox] at hstep
    refine h.moveFP hj (by rw [ht]; nofun) ?_ ?_ ?_ rfl rfl rfl rfl rfl
    · rw [outlet_eq e _ j _ rfl]
      exact h.balanced.step hstep
    · rw [List.length_append, UInt64.ofNat_add, ← h.counted]
      rfl
    · intro j' hj'
      exact (setFP_fps e j j' _).trans (if_neg hj')
  · next pkt ht =>
    obtain ⟨queue, hq, hs⟩ := Option.bind_eq_some_iff.1 hs
    cases hs
    have hthread : (e.fps j).thread ≠ .exited := by rw [ht]; nofun
    have hbox : e.outlet.outbox j = [pkt] := by simp [outlet, ht, FPThread.outbox]
    have hqueue := (push_eq_some hq).2 (h.active hj hthread).2.1
    have hstep := Outlet.Step.emit e.outlet j pkt [] hj hbox
    refine h.moveFP hj hthread ?_ h.counted ?_ rfl rfl rfl rfl (push_eq_some hq).1
    · rw [outlet_eq e _ j _ rfl, hqueue, ← List.append_assoc]
      exact h.balanced.step hstep
    · intro j' hj'
      exact (setFP_fps e j j' _).trans (if_neg hj')
  · cases hs

/-! ## The output thread -/

/-- A step of the output thread, which has not ended before it; `hfinish` and `hempty` are the two
parts of its exit test. -/
theorem Draining.moveOutput (h : Draining cfg e) (hrun : e.output ≠ .exited)
    {output : OutputThread} {queue : TSQueue Packet} {written : List Packet}
    (hqueue : queue.isShutdown = e.outputQueue.isShutdown)
    (hfinish : output = .testSize ∨ output = .exited → e.outputRunning = false)
    (hempty : output = .exited → queue.queue = [])
    (hbal : Outlet.Balanced cfg.fps
      { e.outlet with sink := output.held ++ queue.queue, delivered := written }) :
    Draining cfg { e with output := output, outputQueue := queue, written := written } where
  balanced := hbal
  counted := h.counted
  fpExited := h.fpExited
  queueShutdown := by rw [hqueue]; exact h.queueShutdown
  outputCleared := h.outputCleared
  outputFinishing := hfinish
  outputEmpty := hempty
  outputExited := fun hj => absurd (h.outputExited hj) hrun
  outputClosed := h.outputClosed

open ThreadSafeQueue in
/-- The output thread ends only after it was told to finish, and at an empty queue. -/
theorem Draining.stepOutput (h : Draining cfg e) (hs : e.stepOutput = some e') :
    Draining cfg e' := by
  have hbal := h.balanced
  unfold Engine.stepOutput at hs
  split at hs
  · next ht =>
    cases hs
    apply h.moveOutput (by rw [ht]; nofun) rfl
    · cases hrun : e.outputRunning with
      | true => rintro (hx | hx) <;> cases hx
      | false => exact fun _ => rfl
    · split_ifs <;> nofun
    · rw [outlet, ht] at hbal
      cases e.outputRunning <;> exact hbal
  · next ht =>
    cases hs
    apply h.moveOutput (by rw [ht]; nofun) rfl
    · exact fun _ => h.outputFinishing (Or.inl ht)
    · split_ifs with hsize
      · nofun
      · intro _
        exact List.length_eq_zero_iff.1 (Nat.eq_zero_of_not_pos hsize)
    · rw [outlet, ht] at hbal
      split_ifs <;> exact hbal
  · next ht =>
    have hnext {output : OutputThread} (hne : output = .testRunning ∨ ∃ pkt, output = .write pkt) :
        ¬ (output = .testSize ∨ output = .exited) := by
      rcases hne with rfl | ⟨pkt, rfl⟩ <;> rintro (hx | hx) <;> cases hx
    split at hs
    · cases hs
      apply h.moveOutput (by rw [ht]; nofun) rfl
      · exact fun hx => absurd hx (hnext (Or.inl rfl))
      · nofun
      · rw [outlet, ht] at hbal
        exact hbal
    · next pkt queue hq =>
      cases hs
      obtain ⟨hshut, hqueue⟩ := popWithTimeout_eq_some hq
      apply h.moveOutput (by rw [ht]; nofun) hshut
      · exact fun hx => absurd hx (hnext (Or.inr ⟨pkt, rfl⟩))
      · nofun
      · rw [outlet, ht, hqueue] at hbal
        exact hbal
  · next pkt ht =>
    cases hs
    have hopen : e.outputOpen = true := by
      by_contra hclosed
      have hx := h.outputExited (h.outputClosed (by simpa using hclosed))
      rw [ht] at hx
      cases hx
    have hsink : e.outlet.sink = pkt :: e.outputQueue.queue := by
      simp [outlet, ht, OutputThread.held]
    rw [if_pos hopen]
    apply h.moveOutput (by rw [ht]; nofun) rfl
    · rintro (hx | hx) <;> cases hx
    · nofun
    · exact hbal.step (.deliver e.outlet pkt _ hsink)
  · cases hs

/-! ## The main thread -/

theorem Draining.stepStopLB (h : Draining cfg e) {i : ℕ} {phase : StopPhase}
    (hmain : e.main = .stopLB i phase) (hs : e.stepStopLB cfg i phase = some e') :
    Draining cfg e' := by
  have hfps : e.main.joinedFPs cfg.fps = 0 := by rw [hmain]; rfl
  have hout : e.main.joinedOutput = false := by rw [hmain]; rfl
  have hsame : SameOutlet e e' ∧ e'.main.joinedFPs cfg.fps = 0 ∧ e'.main.joinedOutput = false := by
    unfold Engine.stepStopLB at hs
    split_ifs at hs
    · cases phase with
      | clear =>
        cases hs
        exact ⟨{ SameOutlet.refl e with }, rfl, rfl⟩
      | shutdown =>
        cases hs
        exact ⟨{ SameOutlet.refl e with }, rfl, rfl⟩
      | join =>
        dsimp only at hs
        split at hs <;> cases hs
        exact ⟨{ SameOutlet.refl e with }, rfl, rfl⟩
    · cases hs
      exact ⟨{ SameOutlet.refl e with }, rfl, rfl⟩
  exact h.of_same hsame.1 (hsame.2.1.trans hfps.symm) (hsame.2.2.trans hout.symm)

/-- A step of the main thread after it has joined all fast paths. -/
theorem Draining.finish (h : Draining cfg e) (hexited : ∀ j < cfg.fps, (e.fps j).thread = .exited)
    {main : MainThread} {running isOpen : Bool} {queue : TSQueue Packet}
    (hmain : main.joinedFPs cfg.fps = cfg.fps) (hqueue : queue.queue = e.outputQueue.queue)
    (hrunning : e.outputRunning = false → running = false)
    (hjoined : main.joinedOutput = true → e.output = .exited)
    (hopen : isOpen = false → main.joinedOutput = true) :
    Draining cfg { e with
      main := main
      outputQueue := queue
      outputRunning := running
      outputOpen := isOpen } where
  balanced := by
    have hbal := h.balanced
    rw [outlet, ← hqueue] at hbal
    exact hbal
  counted := h.counted
  fpExited := by rw [hmain]; exact hexited
  queueShutdown := fun _ => hmain
  outputCleared := fun _ => hmain
  outputFinishing := fun hx => hrunning (h.outputFinishing hx)
  outputEmpty := fun hx => hqueue.trans (h.outputEmpty hx)
  outputExited := hjoined
  outputClosed := hopen

/-- `FastPath::stop` returns once the thread has ended. -/
theorem Draining.stepStopFP (h : Draining cfg e) {j : ℕ} {phase : StopPhase}
    (hmain : e.main = .stopFP j phase) (hs : e.stepStopFP cfg j phase = some e') :
    Draining cfg e' := by
  have hexited := h.fpExited
  have hclosed := h.outputClosed
  rw [hmain] at hexited hclosed
  unfold Engine.stepStopFP at hs
  split_ifs at hs with hj
  · cases phase with
    | clear =>
      cases hs
      exact h.of_same { SameOutlet.setFP e j { e.fps j with running := false } rfl with }
        (by rw [hmain]; rfl) (by rw [hmain]; rfl)
    | shutdown =>
      cases hs
      exact h.of_same { SameOutlet.setFP e j { e.fps j with
        inputQueue := (e.fps j).inputQueue.shutdown } rfl with } (by rw [hmain]; rfl)
        (by rw [hmain]; rfl)
    | join =>
      dsimp only at hs
      split at hs
      · next hthread =>
        cases hs
        have hshut := h.queueShutdown
        have hcleared := h.outputCleared
        rw [hmain] at hshut hcleared
        exact
          { h with
            fpExited := fun k hk => by
              rcases Nat.lt_succ_iff_lt_or_eq.1 hk with hk | rfl
              · exact hexited k hk
              · exact hthread
            queueShutdown := fun hq => absurd (hshut hq) hj.ne
            outputCleared := fun hq => absurd (hcleared hq) hj.ne
            outputExited := nofun
            outputClosed := hclosed }
      · cases hs
  · cases hs
    exact h.finish (fun k hk => hexited k (lt_of_lt_of_le hk (Nat.not_lt.1 hj))) rfl rfl id nofun
      hclosed

/-- The main thread clears the flag of the output thread once it has joined all fast paths. -/
theorem Draining.stepMain (h : Draining cfg e) (hs : e.stepMain cfg = some e') :
    Draining cfg e' := by
  have hexited := h.fpExited
  have hjoined := h.outputExited
  have hclosed := h.outputClosed
  unfold Engine.stepMain at hs
  split at hs
  · next hmain =>
    cases hs
    exact h.of_same { SameOutlet.refl e with } (by rw [hmain]; rfl) (by rw [hmain]; rfl)
  · next pkt rest hmain =>
    cases hs
    have hcounted : (e.stats.read pkt).forwarded = e.stats.forwarded := by
      unfold Stats.read
      dsimp only
      split_ifs <;> rfl
    exact h.of_same { SameOutlet.refl e with counted := hcounted } (by rw [hmain]; rfl)
      (by rw [hmain]; rfl)
  · next pkt rest hmain =>
    obtain ⟨i, -, hs⟩ := Option.bind_eq_some_iff.1 hs
    obtain ⟨queue, -, hs⟩ := Option.bind_eq_some_iff.1 hs
    cases hs
    exact h.of_same { SameOutlet.refl e with } (by rw [hmain]; rfl) (by rw [hmain]; rfl)
  · next hmain =>
    cases hs
    exact h.of_same { SameOutlet.refl e with } (by rw [hmain]; rfl) (by rw [hmain]; rfl)
  · next i phase hmain => exact h.stepStopLB hmain hs
  · next j phase hmain => exact h.stepStopFP hmain hs
  · next hmain =>
    cases hs
    rw [hmain] at hexited hclosed
    exact h.finish hexited rfl rfl (fun _ => rfl) nofun hclosed
  · next hmain =>
    cases hs
    rw [hmain] at hexited hclosed
    exact h.finish hexited rfl rfl id nofun hclosed
  · next hmain =>
    split at hs
    · next hout =>
      cases hs
      rw [hmain] at hexited
      exact h.finish hexited rfl rfl id (fun _ => hout) fun _ => rfl
    · cases hs
  · next hmain =>
    cases hs
    rw [hmain] at hexited hjoined
    exact h.finish hexited rfl rfl id hjoined fun _ => rfl
  · cases hs

theorem Draining.step (h : Draining cfg e) (hs : Step cfg rules e l e') : Draining cfg e' := by
  change e.step cfg rules l = some e' at hs
  cases l with
  | main => exact h.stepMain hs
  | lb i =>
    obtain ⟨-, hs⟩ := Option.ite_none_right_eq_some.1 hs
    obtain ⟨hsame, hmain⟩ := sameOutlet_stepLB hs
    exact h.of_same hsame (by rw [hmain]) (by rw [hmain])
  | fp j =>
    obtain ⟨hj, hs⟩ := Option.ite_none_right_eq_some.1 hs
    exact h.stepFP hj hs
  | output => exact h.stepOutput hs

end Engine

open Bytes Mt.Engine

/-- In every run, once `process` has returned, the packets in the output file are, up to their
order, those for which a fast path counted a forwarded packet. -/
theorem written_perm_forwarded {cfg : Config} {rules : Rules} {input : List Packet}
    {ts : List (Taken Engine Label)} {e : Engine}
    (hrun : Run (Step cfg rules) (start input) ts e) (hret : e.main = .returned) :
    e.written.Perm e.forwarded ∧ e.stats.forwarded = UInt64.ofNat e.forwarded.length := by
  have h : Draining cfg e := (hrun.invariant (Draining cfg) (fun _ => True)
    (fun _ _ _ hs _ h => h.step hs) (fun _ _ => trivial) (draining_start cfg input)).1
  have houtput : e.output = .exited := h.outputExited (by rw [hret]; rfl)
  refine ⟨h.balanced.perm (fun j hj => ?_) ?_, h.counted⟩
  · have hthread : (e.fps j).thread = .exited := h.fpExited j (by rw [hret]; exact hj)
    simp [outlet, hthread, FPThread.outbox]
  · simp [outlet, houtput, h.outputEmpty houtput, OutputThread.held]

/-! ## Two clients -/

/-- Two load balancers with two fast paths each. -/
def twoByTwo : Config := { numLbs := 2, fpsPerLb := 2 }

/-- A segment to a web server. -/
def webPacket (srcPort : UInt16) (payload : Str) : Packet where
  tuple := ⟨0x0100000a, 0x0200000a, srcPort, 80, 6⟩
  data := payload
  payloadLength := payload.length
  payload_wf := fun _ => Nat.zero_add _

def firstByte : Packet := webPacket 40000 (text "x")

def allowedRequest : Packet := webPacket 40001 (requestText "ok.com")

def blockedRequest : Packet := webPacket 40000 (requestText "bad.com")

def lastByte : Packet := webPacket 40000 (text "y")

/-- One client asks for a host that is blocked, after a packet and before another; a second client
has another fast path. -/
def visits : List Packet := [firstByte, allowedRequest, blockedRequest, lastByte]

def badBlocked : Rules := { blockedDomains := [text "bad"] }

/-- All packets are read and handed to the fast paths. -/
def distribute : List Label :=
  List.replicate 8 .main ++ List.replicate 12 (.lb 0) ++ List.replicate 4 (.lb 1)

/-- A load balancer is told to stop while it tests its loop condition. -/
def joinLB (i : ℕ) : List Label := [.main, .main, .lb i, .main]

def joinFP (j : ℕ) : List Label := [.main, .main, .fp j, .main]

/-- The reader sleeps, and all threads are told to stop; `left` packets are still to be written. -/
def stopAll (cfg : Config) (left : ℕ) : List Label :=
  List.flatten [[.main, .main], (List.range cfg.lbs).flatMap joinLB, [.main],
    (List.range cfg.fps).flatMap joinFP, [.main, .main, .main],
    List.replicate (4 * left + 2) .output, [.main, .main]]

/-- The second client is served first; the last packet is still in the queue of its fast path when
that is stopped, and the output thread writes only then. -/
def hastyStop : List Label :=
  distribute ++ List.replicate 6 (.fp 3) ++ List.replicate 11 (.fp 0) ++ stopAll twoByTwo 2

theorem written_perm_forwarded_visits :
    ∃ ts e, Run (Step twoByTwo badBlocked) (start visits) ts e ∧ e.main = .returned ∧
      e.forwarded = [allowedRequest, firstByte] ∧ (e.fps 0).inputQueue.queue = [lastByte] ∧
      e.written.Perm [allowedRequest, firstByte] := by
  have h : ((Run.exec (fun e l => e.step twoByTwo badBlocked l) (start visits) hastyStop).map
      fun e => decide (e.main = .returned ∧ e.forwarded = [allowedRequest, firstByte] ∧
        (e.fps 0).inputQueue.queue = [lastByte])) = some true := by decide +kernel
  obtain ⟨e, hexec, h⟩ := Option.map_eq_some_iff.1 h
  obtain ⟨hret, hforwarded, hleft⟩ := of_decide_eq_true h
  obtain ⟨ts, hrun⟩ := Run.of_exec hexec
  have hperm := (written_perm_forwarded hrun hret).1
  rw [hforwarded] at hperm
  exact ⟨ts, e, hrun, hret, hforwarded, hleft, hperm⟩

/-- The fast paths handle all packets, and all that pass are written before the stop. -/
def patientStop : List Label :=
  distribute ++ List.replicate 6 (.fp 3) ++ List.replicate 16 (.fp 0) ++ List.replicate 6 .output ++
    stopAll twoByTwo 0

/-- Every queue is drained, and what follows the blocked request is cut off. -/
theorem exists_run_visits :
    ∃ ts e, Run (Step twoByTwo badBlocked) (start visits) ts e ∧ e.main = .returned ∧
      (∀ i < 2, (e.lbs i).inputQueue.queue = []) ∧ (∀ j < 4, (e.fps j).inputQueue.queue = []) ∧
      e.written = [allowedRequest, firstByte] := by
  have h : ((Run.exec (fun e l => e.step twoByTwo badBlocked l) (start visits) patientStop).map
      fun e => decide (e.main = .returned ∧
        (∀ i ∈ List.range 2, (e.lbs i).inputQueue.queue = []) ∧
        (∀ j ∈ List.range 4, (e.fps j).inputQueue.queue = []) ∧
        e.written = [allowedRequest, firstByte])) = some true := by decide +kernel
  obtain ⟨e, hexec, h⟩ := Option.map_eq_some_iff.1 h
  obtain ⟨hret, hlbs, hfps, hwritten⟩ := of_decide_eq_true h
  obtain ⟨ts, hrun⟩ := Run.of_exec hexec
  exact ⟨ts, e, hrun, hret, fun i hi => hlbs i (List.mem_range.2 hi),
    fun j hj => hfps j (List.mem_range.2 hj), hwritten⟩

end DPI.Mt
