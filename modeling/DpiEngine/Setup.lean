import DpiEngine.LoadBalancer
import DpiEngine.RuleReload

/-!
# Setup

From the command line to the first packet: the options of `main_dpi.cpp`, the managers that
`DPIEngine::initialize` constructs from two integers that nobody checks, and the two routing
functions over the vectors the managers hold.  Arithmetic on `int` and accesses to vectors are
checked, since both are undefined outside their range.
-/

namespace DPI

open Bytes

/-! ## Options -/

structure Options where
  blockIps : List Str := []
  blockApps : List Str := []
  blockDomains : List Str := []
  rulesFile : Str := []
  numLoadBalancers : ℤ := 2
  fpsPerLb : ℤ := 2
  verbose : Bool := false
  deriving DecidableEq, Repr

/-- An argument that takes no value, or is unknown; `none` when the usage is printed. -/
def flagOption (o : Options) (arg : Str) : Option Options :=
  if arg = text "--verbose" then some { o with verbose := true }
  else if arg = text "--help" ∨ arg = text "-h" then none
  else some o

/-- The loop over the options.  `std::stoi` may throw; an option in the last place is without its
value and ignored. -/
def parseOptions (o : Options) : List Str → Except StoiError (Option Options)
  | [] => .ok (some o)
  | [arg] => .ok (flagOption o arg)
  | arg :: value :: rest =>
    if arg = text "--block-ip" then
      parseOptions { o with blockIps := o.blockIps ++ [value] } rest
    else if arg = text "--block-app" then
      parseOptions { o with blockApps := o.blockApps ++ [value] } rest
    else if arg = text "--block-domain" then
      parseOptions { o with blockDomains := o.blockDomains ++ [value] } rest
    else if arg = text "--rules" then parseOptions { o with rulesFile := value } rest
    else if arg = text "--lbs" then do
      let n ← stoi value
      parseOptions { o with numLoadBalancers := n } rest
    else if arg = text "--fps" then do
      let n ← stoi value
      parseOptions { o with fpsPerLb := n } rest
    else
      match flagOption o arg with
      | some o => parseOptions o (value :: rest)
      | none => .ok none

/-- The options after the names of the two files. -/
def mainOptions : List Str → Except StoiError (Option Options)
  | _ :: _ :: options => parseOptions {} options
  | _ => .ok none

/-! ## Checked operations -/

inductive RoutingFault where
  | overflow
  | outOfBounds
  | divisionByZero
  deriving DecidableEq, Repr

/-- How `initialize` may fail: it does something undefined, or `vector::resize` throws. -/
inductive SetupError where
  | undefined (fault : RoutingFault)
  | lengthError
  deriving DecidableEq, Repr

/-- The range of `int`. -/
def InInt (n : ℤ) : Prop := -(intMax + 1 : ℤ) ≤ n ∧ n ≤ intMax

instance (n : ℤ) : Decidable (InInt n) := inferInstanceAs (Decidable (_ ∧ _))

def checkInt (n : ℤ) : Except RoutingFault ℤ := if InInt n then .ok n else .error .overflow

/-- The element of a vector at an `int`. -/
def elementAt {α : Type} (v : List α) (i : ℤ) : Except RoutingFault α :=
  if 0 ≤ i then
    match v[i.toNat]? with
    | some a => .ok a
    | none => .error .outOfBounds
  else .error .outOfBounds

/-- The remainder of two `size_t`. -/
def remainder (n size : ℕ) : Except RoutingFault ℕ :=
  if size = 0 then .error .divisionByZero else .ok (n % size)

/-- `size_t` narrowed to `int`. -/
def toInt (n : ℕ) : ℤ := (n : ℤ).bmod (2 ^ 32)

/-- `int` converted to `size_t`. -/
def toSize (n : ℤ) : ℕ := (n % 2 ^ 64).toNat

/-! ## Managers -/

/-- `FPManager::FPManager`: the identifiers of the fast paths. -/
def fpManager (numFps : ℤ) : List ℕ := List.range numFps.toNat

/-- The fast paths whose queues a load balancer is given. -/
def lbFps (fps : List ℕ) (fpsPerLb : ℤ) (lbId : ℕ) : Except RoutingFault (List ℕ) := do
  let fpStart ← checkInt (lbId * fpsPerLb)
  (List.range fpsPerLb.toNat).mapM fun i : ℕ => do
    let index ← checkInt (fpStart + i)
    elementAt fps index

/-- `LBManager::LBManager`: the fast paths of each load balancer. -/
def lbManager (numLbs fpsPerLb : ℤ) (fps : List ℕ) : Except RoutingFault (List (List ℕ)) :=
  (List.range numLbs.toNat).mapM (lbFps fps fpsPerLb)

/-- `GlobalConnectionTable::GlobalConnectionTable`: a negative number of fast paths is a huge
`size_t`. -/
def resizeTrackers (numFps : ℤ) : Except SetupError ℕ :=
  if numFps < 0 then .error .lengthError else .ok numFps.toNat

structure Managers where
  fps : List ℕ
  lbs : List (List ℕ)
  numTrackers : ℕ

/-- `DPIEngine::initialize`. -/
def initializeEngine (o : Options) : Except SetupError Managers := do
  let totalFps ← (checkInt (o.numLoadBalancers * o.fpsPerLb)).mapError .undefined
  let fps := fpManager totalFps
  let lbs ← (lbManager o.numLoadBalancers o.fpsPerLb fps).mapError .undefined
  let numTrackers ← resizeTrackers totalFps
  return { fps := fps, lbs := lbs, numTrackers := numTrackers }

/-! ## Routing -/

/-- `LBManager::getLBForPacket`: the index into `lbs_`. -/
def LBManager.getLBForPacket (lbs : List (List ℕ)) (tuple : FiveTuple) : Except RoutingFault ℤ := do
  let lbIndex ← remainder (fiveTupleHash tuple).toNat lbs.length
  return toInt lbIndex

/-- `LoadBalancer::selectFP`: the index into `fp_queues_`, whose size was narrowed to `num_fps_`. -/
def LoadBalancer.selectFP (fpQueues : List ℕ) (tuple : FiveTuple) : Except RoutingFault ℤ := do
  let numFps := toInt fpQueues.length
  let fpIndex ← remainder (fiveTupleHash tuple).toNat (toSize numFps)
  return toInt fpIndex

/-- No remainder is by zero, and the indices are within the vectors. -/
def Routed (m : Managers) (tuple : FiveTuple) : Prop :=
  ∃ i fpQueues j fp,
    LBManager.getLBForPacket m.lbs tuple = .ok i ∧ elementAt m.lbs i = .ok fpQueues ∧
    LoadBalancer.selectFP fpQueues tuple = .ok j ∧ elementAt fpQueues j = .ok fp ∧ fp ∈ m.fps

/-- Routing is defined once the engine is initialised.  If `initialize` throws, no packet is routed;
if it does something undefined, nothing is known of the vectors. -/
def RoutingDefined (o : Options) (tuple : FiveTuple) : Prop :=
  match initializeEngine o with
  | .ok m => Routed m tuple
  | .error .lengthError => True
  | .error (.undefined _) => False

/-! ## What is constructed -/

theorem checkInt_of_inInt {n : ℤ} (h : InInt n) : checkInt n = .ok n := if_pos h

theorem mapM_eq_ok {α β ε : Type} {f : α → Except ε β} {g : α → β} {l : List α}
    (h : ∀ a ∈ l, f a = .ok (g a)) : l.mapM f = .ok (l.map g) := by
  induction l with
  | nil => rfl
  | cons a l ih =>
    rw [List.mapM_cons, h a List.mem_cons_self, ih fun b hb => h b (List.mem_cons_of_mem _ hb)]
    rfl

theorem elementAt_eq_ok {α : Type} {v : List α} {i : ℕ} {a : α} (h : v[i]? = some a) :
    elementAt v i = .ok a := by
  unfold elementAt
  rw [if_pos (Int.natCast_nonneg i), Int.toNat_natCast, h]

/-- The first fast path of a load balancer that is constructed is within `int`. -/
theorem inInt_fpStart {lbs fps : ℤ} (hproduct : InInt (lbs * fps)) {lbId : ℕ}
    (hlb : lbId < lbs.toNat) : InInt (lbId * fps) := by
  have hlt : (lbId : ℤ) < lbs := Int.lt_toNat.1 hlb
  obtain ⟨hlow, hhigh⟩ := hproduct
  rcases le_total 0 fps with hfps | hfps
  · have hle : (lbId : ℤ) * fps ≤ lbs * fps := mul_le_mul_of_nonneg_right hlt.le hfps
    have hnonneg : 0 ≤ (lbId : ℤ) * fps := mul_nonneg (Int.natCast_nonneg _) hfps
    constructor <;> omega
  · have hle : lbs * fps ≤ (lbId : ℤ) * fps := mul_le_mul_of_nonpos_right hlt.le hfps
    have hnonpos : (lbId : ℤ) * fps ≤ 0 :=
      mul_nonpos_of_nonneg_of_nonpos (Int.natCast_nonneg _) hfps
    constructor <;> omega

/-- A fast path of a load balancer is one of those constructed. -/
theorem elementAt_fpManager {lbs fps lbId i : ℕ} (hproduct : InInt ((lbs : ℤ) * fps))
    (hlb : lbId < lbs) (hi : i < fps) :
    (do
      let index ← checkInt ((lbId : ℤ) * fps + i)
      elementAt (fpManager ((lbs : ℤ) * fps)) index) = .ok (lbId * fps + i) := by
  have hlt : lbId * fps + i < lbs * fps := by
    calc lbId * fps + i < lbId * fps + fps := Nat.add_lt_add_left hi _
      _ = (lbId + 1) * fps := by ring
      _ ≤ lbs * fps := Nat.mul_le_mul_right _ hlb
  have hindex : (lbId : ℤ) * fps + i = ((lbId * fps + i : ℕ) : ℤ) := by push_cast; rfl
  have hfps : fpManager ((lbs : ℤ) * fps) = List.range (lbs * fps) := by
    rw [fpManager, ← Int.natCast_mul, Int.toNat_natCast]
  have hin : InInt ((lbId * fps + i : ℕ) : ℤ) := by
    have hhigh := hproduct.2
    rw [← Int.natCast_mul] at hhigh
    constructor <;> omega
  rw [hindex, checkInt_of_inInt hin, hfps]
  exact elementAt_eq_ok (List.getElem?_range hlt)

/-- A load balancer that is constructed is given the fast paths of its own range. -/
theorem lbFps_eq {lbs fps : ℤ} (hproduct : InInt (lbs * fps)) {lbId : ℕ}
    (hlb : lbId < lbs.toNat) :
    lbFps (fpManager (lbs * fps)) fps lbId = .ok (lbFpQueues fps.toNat lbId) := by
  unfold lbFps
  rw [checkInt_of_inInt (inInt_fpStart hproduct hlb)]
  refine mapM_eq_ok fun i hi => ?_
  have hi' : i < fps.toNat := List.mem_range.1 hi
  have hlbs : 0 ≤ lbs := by omega
  have hfps : 0 ≤ fps := by omega
  lift lbs to ℕ using hlbs
  lift fps to ℕ using hfps
  exact elementAt_fpManager hproduct hlb hi'

theorem lbManager_eq {lbs fps : ℤ} (hproduct : InInt (lbs * fps)) :
    lbManager lbs fps (fpManager (lbs * fps)) =
      .ok ((List.range lbs.toNat).map (lbFpQueues fps.toNat)) :=
  mapM_eq_ok fun _ h => lbFps_eq hproduct (List.mem_range.1 h)

/-- The managers of a number of load balancers and of fast paths for each. -/
def managers (numLbs fpsPerLb : ℤ) : Managers where
  fps := fpManager (numLbs * fpsPerLb)
  lbs := (List.range numLbs.toNat).map (lbFpQueues fpsPerLb.toNat)
  numTrackers := (numLbs * fpsPerLb).toNat

/-- What `initialize` constructs where the number of fast paths is within `int`. -/
theorem initializeEngine_eq {o : Options} (hproduct : InInt (o.numLoadBalancers * o.fpsPerLb)) :
    initializeEngine o =
      if o.numLoadBalancers * o.fpsPerLb < 0 then .error .lengthError
      else .ok (managers o.numLoadBalancers o.fpsPerLb) := by
  unfold initializeEngine resizeTrackers
  rw [checkInt_of_inInt hproduct]
  dsimp only [Except.mapError, bind, Except.bind]
  rw [lbManager_eq hproduct]
  split_ifs <;> rfl

/-! ## What is routed -/

theorem toInt_of_le {n : ℕ} (h : n ≤ intMax) : toInt n = n := by
  unfold intMax at h
  exact Int.bmod_eq_of_le (by omega) (by omega)

theorem toSize_natCast {n : ℕ} (h : n ≤ intMax) : toSize n = n := by
  unfold intMax at h
  rw [toSize, Int.emod_eq_of_lt (Int.natCast_nonneg n) (by omega), Int.toNat_natCast]

theorem mem_of_elementAt {α : Type} {v : List α} {i : ℤ} {a : α} (h : elementAt v i = .ok a) :
    a ∈ v := by
  unfold elementAt at h
  split_ifs at h
  split at h
  · rename_i hget
    cases h
    exact List.mem_of_getElem? hget
  · cases h

theorem remainder_of_pos {n size : ℕ} (h : 0 < size) : remainder n size = .ok (n % size) :=
  if_neg h.ne'

/-- Routing over vectors of `int` size that are not empty is the routing of the pipeline. -/
theorem getLBForPacket_eq {lbs : List (List ℕ)} (hpos : 0 < lbs.length)
    (hsize : lbs.length ≤ intMax) (t : FiveTuple) :
    LBManager.getLBForPacket lbs t = .ok (getLBForPacket lbs.length t : ℤ) := by
  unfold LBManager.getLBForPacket getLBForPacket
  rw [remainder_of_pos hpos]
  have hlt : (fiveTupleHash t).toNat % lbs.length < lbs.length := Nat.mod_lt _ hpos
  exact congrArg Except.ok (toInt_of_le (by omega))

theorem selectFP_eq {fpQueues : List ℕ} (hpos : 0 < fpQueues.length)
    (hsize : fpQueues.length ≤ intMax) (t : FiveTuple) :
    LoadBalancer.selectFP fpQueues t = .ok (selectFP fpQueues.length t : ℤ) := by
  unfold LoadBalancer.selectFP selectFP
  dsimp only
  rw [toInt_of_le hsize, toSize_natCast hsize, remainder_of_pos hpos]
  have hlt : (fiveTupleHash t).toNat % fpQueues.length < fpQueues.length := Nat.mod_lt _ hpos
  exact congrArg Except.ok (toInt_of_le (by omega))

/-- Without load balancers the first remainder is by zero, and without fast paths the second. -/
theorem pos_of_routed {numLbs fpsPerLb : ℤ} {t : FiveTuple}
    (h : Routed (managers numLbs fpsPerLb) t) : 0 < numLbs ∧ 0 < fpsPerLb := by
  obtain ⟨i, fpQueues, j, fp, hi, hqueues, hj, -, -⟩ := h
  constructor
  · by_contra hneg
    have hlbs : (managers numLbs fpsPerLb).lbs = [] := by
      rw [managers, Int.toNat_of_nonpos (not_lt.1 hneg)]
      rfl
    rw [hlbs] at hi
    cases hi
  · by_contra hneg
    obtain ⟨lbId, -, rfl⟩ := List.mem_map.1 (mem_of_elementAt hqueues)
    have hqueues : lbFpQueues fpsPerLb.toNat lbId = [] := by
      rw [Int.toNat_of_nonpos (not_lt.1 hneg)]
      rfl
    rw [hqueues] at hj
    cases hj

/-- Between managers that are not empty a packet is routed as in the pipeline. -/
theorem routed_of_pos {numLbs fpsPerLb : ℕ} (hproduct : InInt ((numLbs : ℤ) * fpsPerLb))
    (hl : 0 < numLbs) (hf : 0 < fpsPerLb) (t : FiveTuple) :
    Routed (managers numLbs fpsPerLb) t := by
  have hmax : numLbs * fpsPerLb ≤ intMax := by
    have hhigh := hproduct.2
    rw [← Int.natCast_mul] at hhigh
    exact_mod_cast hhigh
  have hlbsMax : numLbs ≤ intMax := (Nat.le_mul_of_pos_right _ hf).trans hmax
  have hfpsMax : fpsPerLb ≤ intMax := (Nat.le_mul_of_pos_left _ hl).trans hmax
  have hlbs : (managers numLbs fpsPerLb).lbs =
      (List.range numLbs).map (lbFpQueues fpsPerLb) := rfl
  have hlen : (managers numLbs fpsPerLb).lbs.length = numLbs := by
    rw [hlbs, List.length_map, List.length_range]
  have hfps : (managers numLbs fpsPerLb).fps = List.range (numLbs * fpsPerLb) := by
    rw [managers, fpManager, ← Int.natCast_mul, Int.toNat_natCast]
  let lbId := getLBForPacket numLbs t
  have hlt : lbId < numLbs := Nat.mod_lt _ hl
  have hlen' : (lbFpQueues fpsPerLb lbId).length = fpsPerLb := by simp [lbFpQueues]
  refine ⟨lbId, lbFpQueues fpsPerLb lbId, selectFP fpsPerLb t,
    lbId * fpsPerLb + selectFP fpsPerLb t, ?_, ?_, ?_, ?_, ?_⟩
  · have hroute := getLBForPacket_eq (by rwa [hlen]) (by rwa [hlen]) t
    rwa [hlen] at hroute
  · refine elementAt_eq_ok ?_
    rw [hlbs, List.getElem?_map, List.getElem?_range hlt, Option.map_some]
  · have hroute := selectFP_eq (by rwa [hlen']) (by rwa [hlen']) t
    rwa [hlen'] at hroute
  · exact elementAt_eq_ok (getElem?_lbFpQueues hf lbId t)
  · rw [hfps, List.mem_range]
    exact fpIndex_lt hlt hf t

theorem routingDefined_iff (o : Options) (t : FiveTuple) :
    RoutingDefined o t ↔
      InInt (o.numLoadBalancers * o.fpsPerLb) ∧
        (0 < o.numLoadBalancers ∧ 0 < o.fpsPerLb ∨ o.numLoadBalancers * o.fpsPerLb < 0) := by
  unfold RoutingDefined
  by_cases hproduct : InInt (o.numLoadBalancers * o.fpsPerLb)
  · rw [initializeEngine_eq hproduct, and_iff_right hproduct]
    by_cases hneg : o.numLoadBalancers * o.fpsPerLb < 0
    · rw [if_pos hneg]
      exact iff_of_true trivial (Or.inr hneg)
    · rw [if_neg hneg, or_iff_left hneg]
      refine ⟨pos_of_routed, fun ⟨hl, hf⟩ => ?_⟩
      generalize o.numLoadBalancers = numLbs at *
      generalize o.fpsPerLb = fpsPerLb at *
      lift numLbs to ℕ using hl.le
      lift fpsPerLb to ℕ using hf.le
      exact routed_of_pos hproduct (Int.natCast_pos.1 hl) (Int.natCast_pos.1 hf) t
  · have hoverflow : initializeEngine o = .error (.undefined .overflow) := by
      unfold initializeEngine checkInt
      rw [if_neg hproduct]
      rfl
    rw [hoverflow]
    exact iff_of_false id fun h => hproduct h.1

/-! ## Accepted numbers -/

/-- An `int` as it is written on the command line. -/
def intText (n : ℤ) : Str := if n < 0 then 0x2d :: decimal n.natAbs else decimal n.natAbs

theorem stoi_intText {n : ℤ} (h : InInt n) : stoi (intText n) = .ok n := by
  obtain ⟨hlow, hhigh⟩ := h
  unfold intText
  split_ifs with hneg
  · have hdigits : (decimal n.natAbs).takeWhile isDigit = decimal n.natAbs :=
      List.takeWhile_eq_self_iff.2 fun c hc => isDigit_of_mem_decimal hc
    have hempty : (decimal n.natAbs).isEmpty = false := by
      rw [List.isEmpty_eq_false_iff]
      exact decimal_ne_nil _
    unfold stoi
    rw [List.dropWhile_cons_of_neg (by decide)]
    simp only [hdigits, hempty, digitsValue_decimal, if_neg Bool.false_ne_true, if_true]
    have hvalue : -(n.natAbs : ℤ) = n := by omega
    rw [hvalue]
    exact if_pos ⟨hlow, hhigh⟩
  · have hvalue : (n.natAbs : ℤ) = n := by omega
    have hstoi : stoi (decimal n.natAbs) = .ok (n.natAbs : ℤ) := stoi_decimal (by omega)
    rwa [hvalue] at hstoi

/-- Every pair of numbers is accepted. -/
theorem exists_mainOptions {numLbs fpsPerLb : ℤ} (hl : InInt numLbs) (hf : InInt fpsPerLb) :
    ∃ args o, mainOptions args = .ok (some o) ∧ o.numLoadBalancers = numLbs ∧
      o.fpsPerLb = fpsPerLb := by
  refine ⟨[text "in.pcap", text "out.pcap", text "--lbs", intText numLbs, text "--fps",
    intText fpsPerLb], { numLoadBalancers := numLbs, fpsPerLb := fpsPerLb }, ?_, rfl, rfl⟩
  have hfps (o : Options) : parseOptions o [text "--fps", intText fpsPerLb] =
      .ok (some { o with fpsPerLb := fpsPerLb }) := by
    unfold parseOptions
    rw [stoi_intText hf]
    rfl
  change parseOptions {} (text "--lbs" :: intText numLbs :: [text "--fps", intText fpsPerLb]) = _
  unfold parseOptions
  rw [stoi_intText hl]
  exact hfps _

/-- `main` accepts every pair of numbers within `int`.  With the numbers it accepts, routing is
defined for a five-tuple iff their product is within `int` and both are positive or the product is
negative, in which case `initialize` throws before any packet is routed. -/
theorem routing_defined_iff_accepted (numLbs fpsPerLb : ℤ) (t : FiveTuple) :
    (InInt numLbs → InInt fpsPerLb → ∃ args o,
      mainOptions args = .ok (some o) ∧ o.numLoadBalancers = numLbs ∧ o.fpsPerLb = fpsPerLb) ∧
    ∀ args o, mainOptions args = .ok (some o) → o.numLoadBalancers = numLbs →
      o.fpsPerLb = fpsPerLb →
      (RoutingDefined o t ↔
        InInt (numLbs * fpsPerLb) ∧ (0 < numLbs ∧ 0 < fpsPerLb ∨ numLbs * fpsPerLb < 0)) := by
  refine ⟨exists_mainOptions, ?_⟩
  rintro _ o - rfl rfl
  exact routingDefined_iff o t

/-- `--lbs 0` is accepted, and the reader's remainder is by zero. -/
theorem remainder_by_zero :
    ∃ args o, mainOptions args = .ok (some o) ∧ ¬ RoutingDefined o ⟨0, 0, 0, 0, 6⟩ := by
  refine ⟨[text "in.pcap", text "out.pcap", text "--lbs", text "0"],
    { numLoadBalancers := 0 }, by decide +kernel, ?_⟩
  rw [routingDefined_iff]
  decide

end DPI
