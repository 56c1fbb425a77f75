import DpiEngine.ConnectionTracker
import DpiEngine.ThreadSafeQueue

/-!
# Load balancers

Routing of `load_balancer.cpp`: the reader picks a load balancer by the hash of the five-tuple, and
the load balancer picks one of its fast paths by the same hash.
-/

namespace DPI

/-- `LBManager::getLBForPacket`: the index of the load balancer. -/
def getLBForPacket (numLbs : ℕ) (tuple : FiveTuple) : ℕ := (fiveTupleHash tuple).toNat % numLbs

/-- `LoadBalancer::selectFP`: an index into the fast paths of one load balancer. -/
def selectFP (numFps : ℕ) (tuple : FiveTuple) : ℕ := (fiveTupleHash tuple).toNat % numFps

/-- `LBManager::LBManager`: the fast paths whose queues load balancer `lbId` is given. -/
def lbFpQueues (fpsPerLb lbId : ℕ) : List ℕ :=
  let fpStart := lbId * fpsPerLb
  (List.range fpsPerLb).map fun i => fpStart + i

/-- The fast path that the reader and then the load balancer route a tuple to. -/
def worker (numLbs fpsPerLb : ℕ) (tuple : FiveTuple) : ℕ :=
  getLBForPacket numLbs tuple * fpsPerLb + selectFP fpsPerLb tuple

theorem getElem?_lbFpQueues {fpsPerLb : ℕ} (h : 0 < fpsPerLb) (lbId : ℕ) (tuple : FiveTuple) :
    (lbFpQueues fpsPerLb lbId)[selectFP fpsPerLb tuple]? =
      some (lbId * fpsPerLb + selectFP fpsPerLb tuple) := by
  have hlt : selectFP fpsPerLb tuple < fpsPerLb := Nat.mod_lt _ h
  simp [lbFpQueues, hlt]

/-- A load balancer picks fast paths that exist. -/
theorem fpIndex_lt {numLbs fpsPerLb lbId : ℕ} (hi : lbId < numLbs) (hf : 0 < fpsPerLb)
    (tuple : FiveTuple) : lbId * fpsPerLb + selectFP fpsPerLb tuple < numLbs * fpsPerLb := by
  have hsel : selectFP fpsPerLb tuple < fpsPerLb := Nat.mod_lt _ hf
  calc lbId * fpsPerLb + selectFP fpsPerLb tuple
      < lbId * fpsPerLb + fpsPerLb := Nat.add_lt_add_left hsel _
    _ = (lbId + 1) * fpsPerLb := by ring
    _ ≤ numLbs * fpsPerLb := Nat.mul_le_mul_right _ hi

theorem worker_lt {numLbs fpsPerLb : ℕ} (hl : 0 < numLbs) (hf : 0 < fpsPerLb)
    (tuple : FiveTuple) : worker numLbs fpsPerLb tuple < numLbs * fpsPerLb :=
  fpIndex_lt (Nat.mod_lt _ hl) hf tuple

/-- The load balancer of a worker. -/
theorem worker_div {numLbs fpsPerLb : ℕ} (hf : 0 < fpsPerLb) (tuple : FiveTuple) :
    worker numLbs fpsPerLb tuple / fpsPerLb = getLBForPacket numLbs tuple := by
  have h : selectFP fpsPerLb tuple < fpsPerLb := Nat.mod_lt _ hf
  rw [worker, Nat.mul_comm, Nat.mul_add_div hf, Nat.div_eq_of_lt h, Nat.add_zero]

/-! ## Both directions of a connection -/

theorem fiveTupleHash_canonicalTuple (t : FiveTuple) :
    fiveTupleHash (canonicalTuple t) = fiveTupleHash t := by
  have hcanon : ¬ (canonicalTuple t).Descending := by
    unfold canonicalTuple
    by_cases h : t.Descending
    · rw [if_pos h]
      exact not_descending_reverse h
    · rwa [if_neg h]
  simp only [fiveTupleHash, if_neg hcanon]
  rfl

theorem worker_canonicalTuple (numLbs fpsPerLb : ℕ) (t : FiveTuple) :
    worker numLbs fpsPerLb (canonicalTuple t) = worker numLbs fpsPerLb t := by
  simp only [worker, getLBForPacket, selectFP, fiveTupleHash_canonicalTuple]

end DPI
