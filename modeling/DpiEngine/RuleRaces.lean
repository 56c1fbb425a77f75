import DpiEngine.Lib.Run
import DpiEngine.RuleSet

/-!
# Rule checks during rule changes

Each kind of rule has its own lock, so `shouldBlock` is four critical sections, and calls that
change rules can fall between them.  The model runs one check against any number of such calls.
-/

namespace DPI

open Bytes

/-- The arguments of `shouldBlock`. -/
structure Query where
  srcIp : UInt32
  dstPort : UInt16
  app : AppType
  domain : Str
  deriving DecidableEq, Repr

namespace Query

variable (q : Query)

/-- The check of one kind of rule, under the lock of that kind. -/
def matchedBy (rm : RuleManager) : BlockReasonType → Bool
  | .ip => rm.isIPBlocked q.srcIp
  | .port => rm.isPortBlocked q.dstPort
  | .app => rm.isAppBlocked q.app
  | .domain => !q.domain.isEmpty && rm.isDomainBlocked q.domain

/-- The answer when a check succeeds. -/
def reason : BlockReasonType → BlockReason
  | .ip => ⟨.ip, ipToString q.srcIp⟩
  | .port => ⟨.port, decimal q.dstPort.toNat⟩
  | .app => ⟨.app, appTypeToString q.app⟩
  | .domain => ⟨.domain, q.domain⟩

/-- All four checks on one state of the rules. -/
def shouldBlock (rm : RuleManager) : Option BlockReason :=
  rm.shouldBlock q.srcIp q.dstPort q.app q.domain

theorem isSome_shouldBlock (rm : RuleManager) :
    (q.shouldBlock rm).isSome = true ↔ ∃ k, q.matchedBy rm k = true := by
  rw [shouldBlock, RuleManager.isSome_shouldBlock]
  constructor
  · rintro (h | h | h | ⟨hne, h⟩)
    · exact ⟨.ip, h⟩
    · exact ⟨.port, h⟩
    · exact ⟨.app, h⟩
    · exact ⟨.domain, by simp [matchedBy, hne, h]⟩
  · rintro ⟨k, h⟩
    cases k with
    | ip => exact Or.inl h
    | port => exact Or.inr (Or.inl h)
    | app => exact Or.inr (Or.inr (Or.inl h))
    | domain => exact Or.inr (Or.inr (Or.inr (by simpa [matchedBy] using h)))

end Query

/-- Where a call of `shouldBlock` is: before the check of a kind, or back. -/
inductive CheckPoint where
  | before (kind : BlockReasonType)
  | returned (result : Option BlockReason)
  deriving DecidableEq, Repr

/-- The check after one that failed. -/
def CheckPoint.next : BlockReasonType → CheckPoint
  | .ip => .before .port
  | .port => .before .app
  | .app => .before .domain
  | .domain => .returned none

/-- The rules and the call that checks them. -/
structure Checking where
  rules : RuleManager
  point : CheckPoint

/-- What happens while the call runs: a check of its own, or a call of another thread. -/
inductive RuleEvent where
  | check
  | block (r : Rule)
  | unblock (r : Rule)
  deriving DecidableEq, Repr

inductive Checking.Step (q : Query) : Checking → RuleEvent → Checking → Prop
  | check (rm : RuleManager) (k : BlockReasonType) :
      Step q ⟨rm, .before k⟩ .check
        ⟨rm, if q.matchedBy rm k then .returned (some (q.reason k)) else .next k⟩
  | block (rm : RuleManager) (k : BlockReasonType) (r : Rule) :
      Step q ⟨rm, .before k⟩ (.block r) ⟨rm.block r, .before k⟩
  | unblock (rm : RuleManager) (k : BlockReasonType) (r : Rule) :
      Step q ⟨rm, .before k⟩ (.unblock r) ⟨rm.unblock r, .before k⟩

/-! ## What a change does to a check -/

def Rule.kind : Rule → BlockReasonType
  | .ip _ => .ip
  | .app _ => .app
  | .domain _ => .domain
  | .port _ => .port

namespace RuleManager

/-- The rules of one kind are among those of another manager. -/
def Grows (k : BlockReasonType) (rm rm' : RuleManager) : Prop :=
  match k with
  | .ip => rm.blockedIps ⊆ rm'.blockedIps
  | .port => rm.blockedPorts ⊆ rm'.blockedPorts
  | .app => rm.blockedApps ⊆ rm'.blockedApps
  | .domain => rm.blockedDomains ⊆ rm'.blockedDomains ∧ rm.domainPatterns ⊆ rm'.domainPatterns

theorem Grows.refl (k : BlockReasonType) (rm : RuleManager) : Grows k rm rm := by
  cases k <;> simp [Grows]

theorem Grows.trans {k : BlockReasonType} {a b c : RuleManager} (h : Grows k a b)
    (h' : Grows k b c) : Grows k a c := by
  cases k with
  | ip | port | app => exact Finset.Subset.trans h h'
  | domain => exact ⟨Finset.Subset.trans h.1 h'.1, fun _ hp => h'.2 (h.2 hp)⟩

theorem grows_block (rm : RuleManager) (r : Rule) (k : BlockReasonType) :
    Grows k rm (rm.block r) := by
  cases r with
  | ip _ | app _ | port _ => cases k <;> simp [Grows, block, blockIP, blockApp, blockPort]
  | domain d => by_cases hd : 0x2a ∈ d <;> cases k <;> simp [Grows, block, blockDomain, hd]

theorem unblock_grows (rm : RuleManager) (r : Rule) (k : BlockReasonType) :
    Grows k (rm.unblock r) rm := by
  cases r with
  | ip _ | app _ | port _ =>
    cases k <;> simp [Grows, unblock, unblockIP, unblockApp, unblockPort, Finset.erase_subset]
  | domain d =>
    by_cases hd : 0x2a ∈ d <;> cases k <;>
      simp [Grows, unblock, unblockDomain, hd, Finset.erase_subset, List.erase_subset]

/-- A call leaves the rules of the other kinds as they are. -/
theorem block_grows_of_ne (rm : RuleManager) {r : Rule} {k : BlockReasonType} (h : r.kind ≠ k) :
    Grows k (rm.block r) rm := by
  cases r with
  | ip _ | app _ | port _ =>
    cases k <;> simp [Grows, block, blockIP, blockApp, blockPort, Rule.kind] at h ⊢
  | domain d =>
    by_cases hd : 0x2a ∈ d <;> cases k <;> simp [Grows, block, blockDomain, hd, Rule.kind] at h ⊢

theorem grows_unblock_of_ne (rm : RuleManager) {r : Rule} {k : BlockReasonType} (h : r.kind ≠ k) :
    Grows k rm (rm.unblock r) := by
  cases r with
  | ip _ | app _ | port _ =>
    cases k <;> simp [Grows, unblock, unblockIP, unblockApp, unblockPort, Rule.kind] at h ⊢
  | domain d =>
    by_cases hd : 0x2a ∈ d <;> cases k <;>
      simp [Grows, unblock, unblockDomain, hd, Rule.kind] at h ⊢

/-- The managers have the same rules of every kind but `k`. -/
def SameBut (k : BlockReasonType) (rm rm' : RuleManager) : Prop :=
  ∀ k', k ≠ k' → Grows k' rm rm' ∧ Grows k' rm' rm

instance (k : BlockReasonType) : Std.Symm (SameBut k) := ⟨fun _ _ h k' hk => (h k' hk).symm⟩

theorem SameBut.refl (k : BlockReasonType) (rm : RuleManager) : SameBut k rm rm :=
  fun k' _ => ⟨Grows.refl k' rm, Grows.refl k' rm⟩

theorem SameBut.trans {k : BlockReasonType} {a b c : RuleManager} (h : SameBut k a b)
    (h' : SameBut k b c) : SameBut k a c :=
  fun k' hk => ⟨(h k' hk).1.trans (h' k' hk).1, (h' k' hk).2.trans (h k' hk).2⟩

end RuleManager

open RuleManager

/-- A check that succeeds on some rules succeeds on more of them. -/
theorem Query.matchedBy_of_grows (q : Query) {rm rm' : RuleManager} {k : BlockReasonType}
    (h : Grows k rm rm') (hmatch : q.matchedBy rm k = true) : q.matchedBy rm' k = true := by
  cases k with
  | ip | port | app => exact decide_eq_true (h (of_decide_eq_true hmatch))
  | domain =>
    simp only [matchedBy, Bool.and_eq_true] at hmatch ⊢
    refine ⟨hmatch.1, ?_⟩
    have hblocked := hmatch.2
    rw [isDomainBlocked, Bool.or_eq_true, decide_eq_true_iff, List.any_eq_true] at hblocked ⊢
    apply hblocked.imp
    · exact fun hname => h.1 hname
    · rintro ⟨p, hp, hpattern⟩
      exact ⟨p, h.2 hp, hpattern⟩

/-! ## Runs of one call -/

namespace Checking

variable {q : Query}

/-- The rules at the moments of a call: before each of the steps taken while it runs. -/
def moments (ts : List (Taken Checking RuleEvent)) : List RuleManager := ts.map fun t => t.pre.rules

/-- The kinds that a call still has to check. -/
def pending : CheckPoint → List BlockReasonType
  | .before .ip => [.ip, .port, .app, .domain]
  | .before .port => [.port, .app, .domain]
  | .before .app => [.app, .domain]
  | .before .domain => [.domain]
  | .returned _ => []

theorem pending_before (k : BlockReasonType) : pending (.before k) = k :: pending (.next k) := by
  cases k <;> rfl

theorem run_returned {rm : RuleManager} {r : Option BlockReason} {c' : Checking}
    {ts : List (Taken Checking RuleEvent)} (h : Run (Step q) ⟨rm, .returned r⟩ ts c') :
    ts = [] ∧ c' = ⟨rm, .returned r⟩ := by
  cases h with
  | nil => exact ⟨rfl, rfl⟩
  | cons hstep _ => cases hstep

/-- A call that returns nothing checked each kind in vain, one after the other. -/
theorem run_unmatched {c c' : Checking} {ts : List (Taken Checking RuleEvent)}
    (h : Run (Step q) c ts c') (hend : c'.point = .returned none) :
    ∃ l, l.Sublist (moments ts) ∧
      List.Forall₂ (fun k rm => q.matchedBy rm k = false) (pending c.point) l := by
  induction h with
  | nil c =>
    rw [hend]
    exact ⟨[], List.Sublist.slnil, .nil⟩
  | cons hstep hrun ih =>
    obtain ⟨l, hl, hall⟩ := ih hend
    cases hstep with
    | check rm k =>
      by_cases hmatch : q.matchedBy rm k = true
      · rw [if_pos hmatch] at hrun
        obtain ⟨-, rfl⟩ := run_returned hrun
        cases hend
      · rw [if_neg hmatch] at hall
        refine ⟨rm :: l, hl.cons_cons rm, ?_⟩
        rw [pending_before]
        exact .cons (by simpa using hmatch) hall
    | block rm k r => exact ⟨l, hl.cons _, hall⟩
    | unblock rm k r => exact ⟨l, hl.cons _, hall⟩

/-- A call that returns a reason found it in the rules at some moment. -/
theorem run_matched {c c' : Checking} {ts : List (Taken Checking RuleEvent)}
    (h : Run (Step q) c ts c') {k₀ : BlockReasonType} (hstart : c.point = .before k₀)
    {reason : BlockReason} (hend : c'.point = .returned (some reason)) :
    ∃ rm ∈ moments ts, ∃ k, q.matchedBy rm k = true := by
  induction h generalizing k₀ with
  | nil c =>
    rw [hend] at hstart
    cases hstart
  | cons hstep hrun ih =>
    cases hstep with
    | check rm k =>
      by_cases hmatch : q.matchedBy rm k = true
      · exact ⟨rm, List.mem_cons_self, k, hmatch⟩
      · rw [if_neg hmatch] at ih hrun
        cases k with
        | ip | port | app =>
          obtain ⟨x, hx, hx'⟩ := ih rfl hend
          exact ⟨x, List.mem_cons_of_mem _ hx, hx'⟩
        | domain =>
          obtain ⟨-, rfl⟩ := run_returned hrun
          cases hend
    | block rm k r =>
      obtain ⟨x, hx, hmatch⟩ := ih rfl hend
      exact ⟨x, List.mem_cons_of_mem _ hx, hmatch⟩
    | unblock rm k r =>
      obtain ⟨x, hx, hmatch⟩ := ih rfl hend
      exact ⟨x, List.mem_cons_of_mem _ hx, hmatch⟩

/-- Every call of another thread is about rules of one kind. -/
def OneKind (ts : List (Taken Checking RuleEvent)) : Prop :=
  ∃ k, ∀ t ∈ ts, ∀ r, t.label = .block r ∨ t.label = .unblock r → r.kind = k

def OnlyBlocks (ts : List (Taken Checking RuleEvent)) : Prop := ∀ t ∈ ts, ∀ r, t.label ≠ .unblock r

def OnlyUnblocks (ts : List (Taken Checking RuleEvent)) : Prop := ∀ t ∈ ts, ∀ r, t.label ≠ .block r

/-- What every step does to the rules holds between any two moments. -/
theorem moments_pairwise {c c' : Checking} {ts : List (Taken Checking RuleEvent)}
    (h : Run (Step q) c ts c') (R : RuleManager → RuleManager → Prop) (hrefl : ∀ rm, R rm rm)
    (htrans : ∀ a b c, R a b → R b c → R a c)
    (hblock : ∀ t ∈ ts, ∀ r, t.label = .block r → ∀ rm, R rm (rm.block r))
    (hunblock : ∀ t ∈ ts, ∀ r, t.label = .unblock r → ∀ rm, R rm (rm.unblock r)) :
    (moments ts).Pairwise R := by
  have hpair := h.pairwise (R := fun a b : Checking => R a.rules b.rules)
    (fun _ _ _ => htrans _ _ _) ?_
  · rw [moments, show (fun t : Taken Checking RuleEvent => t.pre.rules) =
      Checking.rules ∘ Taken.pre from rfl, ← List.map_map, List.pairwise_map]
    exact hpair.sublist h.pre_sublist
  · intro t ht
    have hstep := h.step_of_mem ht
    have hb := hblock t ht
    have hu := hunblock t ht
    obtain ⟨pre, label, post⟩ := t
    cases hstep with
    | check rm k => exact hrefl rm
    | block rm k r => exact hb r rfl rm
    | unblock rm k r => exact hu r rfl rm

theorem unmatched_of_grows {rm rm' : RuleManager} {k : BlockReasonType} (h : Grows k rm rm')
    (hnot : q.matchedBy rm' k = false) : q.matchedBy rm k = false := by
  by_contra hmatch
  rw [q.matchedBy_of_grows h (by simpa using hmatch)] at hnot
  cases hnot

section Unmatched

variable {c₀ c₁ : Checking} {ts : List (Taken Checking RuleEvent)}
  {m : BlockReasonType → RuleManager}

theorem mem_pending_ip (k : BlockReasonType) : k ∈ pending (.before .ip) := by
  cases k <;> decide

/-- The rules of the other kinds stay the same, so the moment of the check of the one kind has them
all as they were checked. -/
theorem exists_grows_of_oneKind (h : Run (Step q) c₀ ts c₁) (hts : OneKind ts)
    (hsub : ((pending (.before .ip)).map m).Sublist (moments ts)) :
    ∃ k₀, ∀ k, Grows k (m k₀) (m k) := by
  obtain ⟨k₀, hkind⟩ := hts
  have hpair : ((pending (.before .ip)).map m).Pairwise (SameBut k₀) := by
    apply List.Pairwise.sublist hsub
    apply moments_pairwise h _ (SameBut.refl k₀) fun _ _ _ => SameBut.trans
    · intro t ht r hr rm k hk
      rw [← hkind t ht r (Or.inl hr)] at hk
      exact ⟨grows_block rm r k, block_grows_of_ne rm hk⟩
    · intro t ht r hr rm k hk
      rw [← hkind t ht r (Or.inr hr)] at hk
      exact ⟨grows_unblock_of_ne rm hk, unblock_grows rm r k⟩
  have hsame := hpair.forall_of_forall fun x _ => SameBut.refl k₀ x
  refine ⟨k₀, fun k => ?_⟩
  by_cases hk : k₀ = k
  · rw [hk]
    exact Grows.refl k (m k)
  · have hmem (k) := List.mem_map_of_mem (f := m) (mem_pending_ip k)
    exact (hsame (hmem k₀) (hmem k) k hk).1

/-- The rules only grow, so the first check saw the fewest. -/
theorem grows_of_onlyBlocks (h : Run (Step q) c₀ ts c₁) (hts : OnlyBlocks ts)
    (hsub : ((pending (.before .ip)).map m).Sublist (moments ts)) (k : BlockReasonType) :
    Grows k (m .ip) (m k) := by
  have hpair : ((pending (.before .ip)).map m).Pairwise fun x y => ∀ k, Grows k x y := by
    apply List.Pairwise.sublist hsub
    apply moments_pairwise h
    · exact fun rm k => Grows.refl k rm
    · exact fun x y z hxy hyz k => (hxy k).trans (hyz k)
    · exact fun t ht r hr rm k => grows_block rm r k
    · exact fun t ht r hr => absurd hr (hts t ht r)
  have hfirst := (List.pairwise_cons.1 hpair).1
  cases k with
  | ip => exact Grows.refl .ip (m .ip)
  | port | app | domain => exact hfirst _ (by simp) _

/-- The rules only shrink, so the last check saw the fewest. -/
theorem grows_of_onlyUnblocks (h : Run (Step q) c₀ ts c₁) (hts : OnlyUnblocks ts)
    (hsub : ((pending (.before .ip)).map m).Sublist (moments ts)) (k : BlockReasonType) :
    Grows k (m .domain) (m k) := by
  have hpair : ((pending (.before .ip)).map m).Pairwise fun x y => ∀ k, Grows k y x := by
    apply List.Pairwise.sublist hsub
    apply moments_pairwise h
    · exact fun rm k => Grows.refl k rm
    · exact fun x y z hxy hyz k => (hyz k).trans (hxy k)
    · exact fun t ht r hr => absurd hr (hts t ht r)
    · exact fun t ht r hr rm k => unblock_grows rm r k
  simp only [pending, List.map_cons, List.map_nil, List.pairwise_cons, List.mem_cons,
    List.not_mem_nil, or_false, forall_eq_or_imp, forall_eq] at hpair
  obtain ⟨⟨-, -, hip⟩, ⟨-, hport⟩, happ, -⟩ := hpair
  cases k with
  | ip => exact hip .ip
  | port => exact hport .port
  | app => exact happ .app
  | domain => exact Grows.refl .domain (m .domain)

/-- If the calls of other threads are about rules of one kind, or only block, or only unblock, and
each kind was checked in vain at some moment, then all kinds were in vain at one moment. -/
theorem exists_unmatched (h : Run (Step q) c₀ ts c₁)
    (hts : OneKind ts ∨ OnlyBlocks ts ∨ OnlyUnblocks ts)
    (hsub : ((pending (.before .ip)).map m).Sublist (moments ts))
    (hnot : ∀ k, q.matchedBy (m k) k = false) :
    ∃ rm ∈ moments ts, ∀ k, q.matchedBy rm k = false := by
  have hfewest : ∃ k₀, ∀ k, Grows k (m k₀) (m k) := by
    rcases hts with hkind | hblocks | hunblocks
    · exact exists_grows_of_oneKind h hkind hsub
    · exact ⟨.ip, grows_of_onlyBlocks h hblocks hsub⟩
    · exact ⟨.domain, grows_of_onlyUnblocks h hunblocks hsub⟩
  obtain ⟨k₀, hgrows⟩ := hfewest
  exact ⟨m k₀, hsub.subset (List.mem_map_of_mem (mem_pending_ip k₀)), fun k =>
    unmatched_of_grows (hgrows k) (hnot k)⟩

end Unmatched

/-- A call that no other thread disturbs returns what `shouldBlock` returns. -/
theorem run_alone (q : Query) (rm : RuleManager) :
    ∃ ts, (∀ t ∈ ts, t.label = .check) ∧
      Run (Step q) ⟨rm, .before .ip⟩ ts ⟨rm, .returned (q.shouldBlock rm)⟩ := by
  have hip := Step.check (q := q) rm .ip
  have hport := Step.check (q := q) rm .port
  have happ := Step.check (q := q) rm .app
  have hdomain := Step.check (q := q) rm .domain
  unfold Query.shouldBlock RuleManager.shouldBlock
  split_ifs with h1 h2 h3 h4
  · rw [if_pos (show q.matchedBy rm .ip = true from h1)] at hip
    exact ⟨_, by simp, .cons hip (.nil _)⟩
  · rw [if_neg (show ¬ q.matchedBy rm .ip = true from h1)] at hip
    rw [if_pos (show q.matchedBy rm .port = true from h2)] at hport
    exact ⟨_, by simp, .cons hip (.cons hport (.nil _))⟩
  · rw [if_neg (show ¬ q.matchedBy rm .ip = true from h1)] at hip
    rw [if_neg (show ¬ q.matchedBy rm .port = true from h2)] at hport
    rw [if_pos (show q.matchedBy rm .app = true from h3)] at happ
    exact ⟨_, by simp, .cons hip (.cons hport (.cons happ (.nil _)))⟩
  all_goals
    rw [if_neg (show ¬ q.matchedBy rm .ip = true from h1)] at hip
    rw [if_neg (show ¬ q.matchedBy rm .port = true from h2)] at hport
    rw [if_neg (show ¬ q.matchedBy rm .app = true from h3)] at happ
  · rw [if_pos (show q.matchedBy rm .domain = true from h4)] at hdomain
    exact ⟨_, by simp, .cons hip (.cons hport (.cons happ (.cons hdomain (.nil _))))⟩
  · rw [if_neg (show ¬ q.matchedBy rm .domain = true from h4)] at hdomain
    exact ⟨_, by simp, .cons hip (.cons hport (.cons happ (.cons hdomain (.nil _))))⟩

/-- A call that blocks is right about the rules at some moment.  A call that lets a packet through
checked each kind in vain, in order, so a kind that matches all the time is noticed, and if the
changes are about one kind, or only block, or only unblock, its answer is right about one moment. -/
theorem result_of_run {q : Query} {rm rm' : RuleManager} {ts : List (Taken Checking RuleEvent)}
    {r : Option BlockReason} (h : Run (Step q) ⟨rm, .before .ip⟩ ts ⟨rm', .returned r⟩) :
    (r ≠ none → ∃ x ∈ moments ts, (q.shouldBlock x).isSome = true) ∧
    (r = none → ∃ a b c d, [a, b, c, d].Sublist (moments ts) ∧ q.matchedBy a .ip = false ∧
      q.matchedBy b .port = false ∧ q.matchedBy c .app = false ∧
      q.matchedBy d .domain = false) ∧
    (∀ k, (∀ x ∈ moments ts, q.matchedBy x k = true) → r ≠ none) ∧
    (OneKind ts ∨ OnlyBlocks ts ∨ OnlyUnblocks ts →
      ∃ x ∈ moments ts, (q.shouldBlock x).isSome = r.isSome) := by
  have hblocked (hr : r ≠ none) : ∃ x ∈ moments ts, (q.shouldBlock x).isSome = true := by
    obtain ⟨reason, rfl⟩ := Option.ne_none_iff_exists'.1 hr
    obtain ⟨x, hx, hmatch⟩ := run_matched h rfl rfl
    exact ⟨x, hx, (q.isSome_shouldBlock x).2 hmatch⟩
  have hpassed (hr : r = none) : ∃ a b c d, [a, b, c, d].Sublist (moments ts) ∧
      q.matchedBy a .ip = false ∧ q.matchedBy b .port = false ∧ q.matchedBy c .app = false ∧
      q.matchedBy d .domain = false := by
    subst hr
    obtain ⟨l, hl, hall⟩ := run_unmatched h rfl
    simp only [pending, List.forall₂_cons_left_iff, List.forall₂_nil_left_iff] at hall
    obtain ⟨a, _, ha, ⟨b, _, hb, ⟨c, _, hc, ⟨d, _, hd, rfl, rfl⟩, rfl⟩, rfl⟩, rfl⟩ := hall
    exact ⟨a, b, c, d, hl, ha, hb, hc, hd⟩
  refine ⟨hblocked, hpassed, fun k hk hr => ?_, fun hts => ?_⟩
  · obtain ⟨a, b, c, d, hsub, ha, hb, hc, hd⟩ := hpassed hr
    have hmem {x : RuleManager} (hx : x ∈ [a, b, c, d]) := hk x (hsub.subset hx)
    cases k with
    | ip => rw [hmem (by simp)] at ha; cases ha
    | port => rw [hmem (by simp)] at hb; cases hb
    | app => rw [hmem (by simp)] at hc; cases hc
    | domain => rw [hmem (by simp)] at hd; cases hd
  · by_cases hr : r = none
    · obtain ⟨a, b, c, d, hsub, ha, hb, hc, hd⟩ := hpassed hr
      let m : BlockReasonType → RuleManager
        | .ip => a | .port => b | .app => c | .domain => d
      obtain ⟨x, hx, hnot⟩ := exists_unmatched (m := m) h hts hsub fun k => by
        cases k <;> assumption
      refine ⟨x, hx, ?_⟩
      rw [hr, Option.isSome_none, ← Bool.not_eq_true, q.isSome_shouldBlock]
      simp [hnot]
    · obtain ⟨x, hx, hsome⟩ := hblocked hr
      exact ⟨x, hx, hsome.trans (Option.isSome_iff_ne_none.2 hr).symm⟩

/-- A packet to a web server from a client. -/
def webQuery : Query := ⟨0x0100000a, 80, .http, []⟩

theorem Step.check_fails {rm : RuleManager} {k : BlockReasonType} (h : q.matchedBy rm k = false) :
    Step q ⟨rm, .before k⟩ .check ⟨rm, .next k⟩ := by
  have hstep := Step.check (q := q) rm k
  rwa [if_neg (by simp [h])] at hstep

/-- While the call runs, another thread blocks the port and unblocks it again. -/
theorem result_of_run_portBlocked :
    ∃ ts rm', Run (Step webQuery) ⟨{}, .before .ip⟩ ts ⟨rm', .returned none⟩ ∧
      (∃ x ∈ moments ts, (webQuery.shouldBlock x).isSome = true) ∧
      ∃ x ∈ moments ts, (webQuery.shouldBlock x).isSome = false := by
  have hrun : Run (Step webQuery) ⟨{}, .before .ip⟩ _ _ :=
    .cons (.check_fails (k := .ip) (by decide)) <|
    .cons (.block _ _ (.port 80)) <|
    .cons (.unblock _ _ (.port 80)) <|
    .cons (.check_fails (k := .port) (by decide)) <|
    .cons (.check_fails (k := .app) (by decide)) <|
    .cons (.check_fails (k := .domain) (by decide)) (.nil _)
  refine ⟨_, _, hrun, ⟨RuleManager.blockPort {} 80, by decide, by decide⟩,
    (result_of_run hrun).2.2.2 (Or.inl ⟨.port, ?_⟩)⟩
  simp [Rule.kind]

/-- While the call runs, the block of the port is replaced by a block of the client. -/
theorem replaced_rule_missed :
    ∃ ts rm', Run (Step webQuery) ⟨RuleManager.blockPort {} 80, .before .ip⟩ ts
        ⟨rm', .returned none⟩ ∧
      ∀ x ∈ moments ts, (webQuery.shouldBlock x).isSome = true := by
  refine ⟨_, _, .cons (.check_fails (k := .ip) (by decide))
    (.cons (.block _ _ (.ip 0x0100000a)) (.cons (.unblock _ _ (.port 80))
      (.cons (.check_fails (k := .port) (by decide)) (.cons (.check_fails (k := .app) (by decide))
        (.cons (.check_fails (k := .domain) (by decide)) (.nil _)))))), ?_⟩
  simp only [moments, List.map_cons, List.map_nil, List.forall_mem_cons]
  decide

end Checking

end DPI
