import DpiEngine.MtEngine

/-!
# Moves of the stand-alone program

What each step of `dpi_mt.cpp` can do, one constructor for each branch of a thread's loop, the steps
that stop the threads taken together.
-/

namespace DPI.Mt

open ThreadSafeQueue

/-- The number of fast paths that a load balancer is given. -/
def Config.perLb (cfg : Config) : ℕ := cfg.fpsPerLb.toNat

/-- The packets still to be read. -/
def MainThread.rest : MainThread → List Packet
  | .reading rest => rest
  | .pushing _ rest => rest
  | _ => []

/-- The main thread has read its file. -/
def MainThread.readAll : MainThread → Bool
  | .reading _ => false
  | .pushing _ _ => false
  | _ => true

theorem hashIndex_eq_some {tuple : FiveTuple} {n i : ℕ} (h : hashIndex tuple n = some i) :
    0 < n ∧ i = (fiveTupleHash tuple).toNat % n := by
  unfold hashIndex at h
  split_ifs at h with hn
  exact ⟨Nat.pos_of_ne_zero hn, (Option.some.inj h).symm⟩

theorem hashIndex_of_pos {tuple : FiveTuple} {n : ℕ} (h : 0 < n) :
    hashIndex tuple n = some ((fiveTupleHash tuple).toNat % n) := if_neg h.ne'

theorem Config.length_fpsOf (cfg : Config) (i : ℕ) : (cfg.fpsOf i).length = cfg.perLb := by
  simp [fpsOf, perLb]

theorem Config.getElem?_fpsOf (cfg : Config) (i : ℕ) {k : ℕ} (hk : k < cfg.perLb) :
    (cfg.fpsOf i)[k]? = some (i * cfg.perLb + k) := by
  have hk' : k < cfg.fpsPerLb.toNat := hk
  simp [fpsOf, perLb, hk']

theorem Config.fps_eq (cfg : Config) (hlbs : 0 < cfg.lbs) (hperLb : 0 < cfg.perLb) :
    cfg.fps = cfg.lbs * cfg.perLb :=
  Int.toNat_mul (Int.pos_iff_toNat_pos.2 hlbs).le (Int.pos_iff_toNat_pos.2 hperLb).le

/-- The fast path that a load balancer pushes to exists. -/
theorem Config.dispatch_lt (cfg : Config) {i : ℕ} (hi : i < cfg.lbs) (hperLb : 0 < cfg.perLb)
    (pkt : Packet) : i * cfg.perLb + selectFP cfg.perLb pkt.tuple < cfg.fps := by
  have hsel : selectFP cfg.perLb pkt.tuple < cfg.perLb := Nat.mod_lt _ hperLb
  rw [cfg.fps_eq (Nat.zero_lt_of_lt hi) hperLb]
  calc i * cfg.perLb + selectFP cfg.perLb pkt.tuple < i * cfg.perLb + cfg.perLb := by omega
    _ = (i + 1) * cfg.perLb := (Nat.succ_mul i cfg.perLb).symm
    _ ≤ cfg.lbs * cfg.perLb := Nat.mul_le_mul_right _ hi

namespace Engine

variable {cfg : Config} {rules : Rules} {e e' : Engine} {l : Label}

inductive Move (cfg : Config) (rules : Rules) (e : Engine) : Label → Engine → Prop
  | readEnd (h : e.main = .reading []) : Move cfg rules e .main { e with main := .sleep }
  | read (pkt : Packet) (rest : List Packet) (h : e.main = .reading (pkt :: rest)) :
      Move cfg rules e .main { e with main := .pushing pkt rest, stats := e.stats.read pkt }
  | readPush (pkt : Packet) (rest : List Packet) (i : ℕ) (queue : TSQueue Packet)
      (h : e.main = .pushing pkt rest) (hpos : 0 < cfg.lbs)
      (hi : i = getLBForPacket cfg.lbs pkt.tuple)
      (hq : (e.lbs i).inputQueue.push pkt = some queue) :
      Move cfg rules e .main
        { e.setLB i { e.lbs i with inputQueue := queue } with main := .reading rest }
  | stop (e' : Engine) (h : e.stepMain cfg = some e') (hread : e.main.readAll = true) :
      Move cfg rules e .main e'
  | lbTest (i : ℕ) (hi : i < cfg.lbs) (h : (e.lbs i).thread = .test) :
      Move cfg rules e (.lb i) (e.setLB i
        { e.lbs i with thread := if (e.lbs i).running then .pop else .exited })
  | lbIdle (i : ℕ) (hi : i < cfg.lbs) (h : (e.lbs i).thread = .pop)
      (hq : (e.lbs i).inputQueue.queue = []) :
      Move cfg rules e (.lb i) (e.setLB i { e.lbs i with thread := .test })
  | lbPop (i : ℕ) (pkt : Packet) (queue : TSQueue Packet) (hi : i < cfg.lbs)
      (h : (e.lbs i).thread = .pop) (hq : (e.lbs i).inputQueue.popWithTimeout = some (pkt, queue)) :
      Move cfg rules e (.lb i) (e.setLB i
        { e.lbs i with inputQueue := queue, thread := .dispatch pkt })
  | lbDispatch (i j : ℕ) (pkt : Packet) (queue : TSQueue Packet) (hi : i < cfg.lbs)
      (h : (e.lbs i).thread = .dispatch pkt) (hpos : 0 < cfg.perLb)
      (hj : j = i * cfg.perLb + selectFP cfg.perLb pkt.tuple)
      (hq : (e.fps j).inputQueue.push pkt = some queue) :
      Move cfg rules e (.lb i) ((e.setFP j { e.fps j with inputQueue := queue }).setLB i
        { e.lbs i with thread := .count })
  | lbCount (i : ℕ) (hi : i < cfg.lbs) (h : (e.lbs i).thread = .count) :
      Move cfg rules e (.lb i) (e.setLB i
        { e.lbs i with dispatched := (e.lbs i).dispatched + 1, thread := .test })
  | fpTest (j : ℕ) (hj : j < cfg.fps) (h : (e.fps j).thread = .test) :
      Move cfg rules e (.fp j) (e.setFP j
        { e.fps j with thread := if (e.fps j).running then .pop else .exited })
  | fpIdle (j : ℕ) (hj : j < cfg.fps) (h : (e.fps j).thread = .pop)
      (hq : (e.fps j).inputQueue.queue = []) :
      Move cfg rules e (.fp j) (e.setFP j { e.fps j with thread := .test })
  | fpPop (j : ℕ) (pkt : Packet) (queue : TSQueue Packet) (hj : j < cfg.fps)
      (h : (e.fps j).thread = .pop) (hq : (e.fps j).inputQueue.popWithTimeout = some (pkt, queue)) :
      Move cfg rules e (.fp j) (e.setFP j
        { e.fps j with inputQueue := queue, thread := .process pkt })
  | fpProcess (j : ℕ) (pkt : Packet) (flow : FlowEntry) (flows : Flows) (hj : j < cfg.fps)
      (h : (e.fps j).thread = .process pkt)
      (hp : (e.fps j).flows.receive rules pkt = .ok (flow, flows)) :
      Move cfg rules e (.fp j) (e.setFP j { e.fps j with
        flows := flows
        thread := .record pkt flow
        processed := (e.fps j).processed + 1 })
  | fpRecord (j : ℕ) (pkt : Packet) (flow : FlowEntry) (hj : j < cfg.fps)
      (h : (e.fps j).thread = .record pkt flow) :
      Move cfg rules e (.fp j)
        { e.setFP j { e.fps j with thread := .count pkt flow.blocked } with
          stats := e.stats.recordApp flow.appType flow.sni }
  | fpDrop (j : ℕ) (pkt : Packet) (hj : j < cfg.fps) (h : (e.fps j).thread = .count pkt true) :
      Move cfg rules e (.fp j)
        { e.setFP j { e.fps j with thread := .test } with
          stats := { e.stats with dropped := e.stats.dropped + 1 } }
  | fpForward (j : ℕ) (pkt : Packet) (hj : j < cfg.fps) (h : (e.fps j).thread = .count pkt false) :
      Move cfg rules e (.fp j)
        { e.setFP j { e.fps j with thread := .push pkt } with
          stats := { e.stats with forwarded := e.stats.forwarded + 1 }
          forwarded := e.forwarded ++ [pkt] }
  | fpPush (j : ℕ) (pkt : Packet) (queue : TSQueue Packet) (hj : j < cfg.fps)
      (h : (e.fps j).thread = .push pkt) (hq : e.outputQueue.push pkt = some queue) :
      Move cfg rules e (.fp j)
        { e.setFP j { e.fps j with thread := .test } with outputQueue := queue }
  | outputTest (h : e.output = .testRunning) :
      Move cfg rules e .output { e with output := if e.outputRunning then .pop else .testSize }
  | outputSize (h : e.output = .testSize) :
      Move cfg rules e .output
        { e with output := if e.outputQueue.size > 0 then .pop else .exited }
  | outputIdle (h : e.output = .pop) (hq : e.outputQueue.queue = []) :
      Move cfg rules e .output { e with output := .testRunning }
  | outputPop (pkt : Packet) (queue : TSQueue Packet) (h : e.output = .pop)
      (hq : e.outputQueue.popWithTimeout = some (pkt, queue)) :
      Move cfg rules e .output { e with outputQueue := queue, output := .write pkt }
  | outputWrite (pkt : Packet) (h : e.output = .write pkt) :
      Move cfg rules e .output { e with
        written := if e.outputOpen then e.written ++ [pkt] else e.written
        output := .testRunning }

theorem move_main (h : e.stepMain cfg = some e') : Move cfg rules e .main e' := by
  by_cases hread : e.main.readAll = true
  · exact .stop e' h hread
  cases hmain : e.main with
  | reading rest =>
    rw [stepMain, hmain] at h
    cases rest <;> cases h
    · exact .readEnd hmain
    · exact .read _ _ hmain
  | pushing pkt rest =>
    rw [stepMain, hmain] at h
    obtain ⟨i, hi, h⟩ := Option.bind_eq_some_iff.1 h
    obtain ⟨queue, hq, h⟩ := Option.bind_eq_some_iff.1 h
    cases h
    obtain ⟨hpos, hi⟩ := hashIndex_eq_some hi
    exact .readPush pkt rest i queue hmain hpos hi hq
  | _ =>
    rw [hmain] at hread
    exact absurd rfl hread

theorem move_lb {i : ℕ} (hi : i < cfg.lbs) (h : e.stepLB cfg i = some e') :
    Move cfg rules e (.lb i) e' := by
  unfold stepLB at h
  dsimp only at h
  split at h
  · next ht =>
    cases h
    exact .lbTest i hi ht
  · next ht =>
    split at h
    · next hq =>
      cases h
      exact .lbIdle i hi ht (popWithTimeout_eq_none_iff.1 hq)
    · next pkt queue hq =>
      cases h
      exact .lbPop i pkt queue hi ht hq
  · next pkt ht =>
    obtain ⟨k, hk, h⟩ := Option.bind_eq_some_iff.1 h
    obtain ⟨j, hj, h⟩ := Option.bind_eq_some_iff.1 h
    obtain ⟨queue, hq, h⟩ := Option.bind_eq_some_iff.1 h
    cases h
    obtain ⟨hpos, rfl⟩ := hashIndex_eq_some hk
    rw [cfg.length_fpsOf] at hpos hj
    rw [cfg.getElem?_fpsOf i (Nat.mod_lt _ hpos)] at hj
    exact .lbDispatch i j pkt queue hi ht hpos (Option.some.inj hj).symm hq
  · next ht =>
    cases h
    exact .lbCount i hi ht
  · cases h

theorem move_fp {j : ℕ} (hj : j < cfg.fps) (h : e.stepFP rules j = some e') :
    Move cfg rules e (.fp j) e' := by
  unfold stepFP at h
  dsimp only at h
  split at h
  · next ht =>
    cases h
    exact .fpTest j hj ht
  · next ht =>
    split at h
    · next hq =>
      cases h
      exact .fpIdle j hj ht (popWithTimeout_eq_none_iff.1 hq)
    · next pkt queue hq =>
      cases h
      exact .fpPop j pkt queue hj ht hq
  · next pkt ht =>
    split at h
    · cases h
    · next flow flows hp =>
      cases h
      exact .fpProcess j pkt flow flows hj ht hp
  · next pkt flow ht =>
    cases h
    exact .fpRecord j pkt flow hj ht
  · next pkt ht =>
    cases h
    exact .fpDrop j pkt hj ht
  · next pkt ht =>
    cases h
    exact .fpForward j pkt hj ht
  · next pkt ht =>
    obtain ⟨queue, hq, h⟩ := Option.bind_eq_some_iff.1 h
    cases h
    exact .fpPush j pkt queue hj ht hq
  · cases h

theorem move_output (h : e.stepOutput = some e') : Move cfg rules e .output e' := by
  unfold stepOutput at h
  split at h
  · next ht =>
    cases h
    exact .outputTest ht
  · next ht =>
    cases h
    exact .outputSize ht
  · next ht =>
    split at h
    · next hq =>
      cases h
      exact .outputIdle ht (popWithTimeout_eq_none_iff.1 hq)
    · next pkt queue hq =>
      cases h
      exact .outputPop pkt queue ht hq
  · next pkt ht =>
    cases h
    exact .outputWrite pkt ht
  · cases h

theorem Step.move (h : Step cfg rules e l e') : Move cfg rules e l e' := by
  change e.step cfg rules l = some e' at h
  cases l with
  | main => exact move_main h
  | lb i =>
    obtain ⟨hi, h⟩ := Option.ite_none_right_eq_some.1 h
    exact move_lb hi h
  | fp j =>
    obtain ⟨hj, h⟩ := Option.ite_none_right_eq_some.1 h
    exact move_fp hj h
  | output => exact move_output h

end Engine

end DPI.Mt
