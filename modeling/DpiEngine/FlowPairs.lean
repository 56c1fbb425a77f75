import DpiEngine.SameNames
import Mathlib.Data.List.ReduceOption

/-!
# One flow in both stand-alone programs

The two programs hold a flow of one five-tuple in step until a name is found: `dpi_mt.cpp` takes any
name for good, and `main_working.cpp` only a name that is not empty and came over TCP.  So a pair of
flows waits for a name, then is fixed, or is parted by a name that only one program takes.  Its
verdicts are alike exactly when such a name makes no difference under the rules.
-/

namespace DPI

open Bytes PacketAnalyzer

theorem sniToAppType_ne_unknown {name : Str} (h : name ≠ []) : sniToAppType name ≠ .unknown := by
  have hrows : ∀ row ∈ appPatterns, row.1 ≠ .unknown := by decide
  rw [sniToAppType, if_neg (by simpa using h)]
  dsimp only
  split
  · next row hrow => exact hrows row (List.mem_of_find?_eq_some hrow)
  · decide

/-! ## Rules and names -/

/-- The rules match a flow of `t` that has this name. -/
def namedBlocked (rules : Mt.Rules) (t : FiveTuple) (name : Str) : Bool :=
  rules.isBlocked t.srcIp (sniToAppType name) name

/-- The rules match a flow of `t` that has no name. -/
def unnamedBlocked (rules : Mt.Rules) (t : FiveTuple) : Bool :=
  rules.isBlocked t.srcIp (unnamedApp t) []

/-- It makes no difference under the rules that only `dpi_mt.cpp` takes `name`: the flow was blocked
without it before (where it was `late`), or it is blocked with the name as without it, and also
with the next name that `main_working.cpp` could still take of the `others`. -/
def Harmless (rules : Mt.Rules) (t : FiveTuple) (late : Prop) (name : Str) (others : List Str) :
    Prop :=
  (late ∧ unnamedBlocked rules t = true) ∨
    (namedBlocked rules t name = unnamedBlocked rules t ∧
      (unnamedBlocked rules t = false → t.protocol = 6 →
        ∀ later, others.find? (· ≠ []) = some later → namedBlocked rules t later = false))

/-! ## Packets of a pair -/

/-- A packet as both programs see it, and its name. -/
structure PacketPair where
  mt : Mt.Packet
  simple : Simple.Packet
  name : Option Str

namespace Mt.FlowEntry

def after (flow : FlowEntry) (rules : Rules) (t : FiveTuple) (pkt : PacketPair) : FlowEntry :=
  ((flow.count pkt.mt).next t pkt.name).judge rules t.srcIp

end Mt.FlowEntry

namespace Simple.Flow

def after (flow : Flow) (rules : BlockingRules) (t : FiveTuple) (pkt : PacketPair) : Flow :=
  ((flow.count pkt.simple).next t pkt.name).judge rules t.srcIp

end Simple.Flow

/-- The two flows get the same verdicts on the packets to come. -/
def Alike (rules : Mt.Rules) (t : FiveTuple) : Mt.FlowEntry → Simple.Flow → List PacketPair → Prop
  | _, _, [] => True
  | m, s, pkt :: rest =>
    (m.after rules t pkt).blocked = (s.after rules t pkt).blocked ∧
      Alike rules t (m.after rules t pkt) (s.after rules t pkt) rest

/-- The names by which a flow of `t` may be classified: of a DNS flow only the first packet
counts. -/
def counted (t : FiveTuple) (names : List (Option Str)) : List (Option Str) :=
  if IsDns t then names.take 1 else names

variable {rules : Mt.Rules} {t : FiveTuple} {m : Mt.FlowEntry} {s : Simple.Flow} {name : Str}

/-! ## Flows that nothing changes -/

/-- Both flows are blocked, or neither is and nothing changes their classification. -/
structure Fixed (rules : Mt.Rules) (t : FiveTuple) (m : Mt.FlowEntry) (s : Simple.Flow) :
    Prop where
  blocked : m.blocked = s.blocked
  final : m.blocked = true ∨ (m.classified = true ∧ s.appType ≠ .unknown ∧ ¬ s.Looks t)
  passes : m.blocked = false →
    rules.isBlocked t.srcIp m.appType m.sni = false ∧
      rules.isBlocked t.srcIp s.appType s.sni = false

theorem Mt.FlowEntry.blocked_next (flow : FlowEntry) (t : FiveTuple) (found : Option Str) :
    (flow.next t found).blocked = flow.blocked := by
  unfold next unnamed
  cases found <;> dsimp only [Option.elim] <;> split_ifs <;> rfl

/-- Flows whose classification is final are fixed by their next common verdict. -/
theorem fixed_judge (hm : m.classified = true) (hs : s.appType ≠ .unknown) (hlooks : ¬ s.Looks t)
    (hblocked : (m.judge rules t.srcIp).blocked = (s.judge rules t.srcIp).blocked) :
    Fixed rules t (m.judge rules t.srcIp) (s.judge rules t.srcIp) := by
  rw [Mt.FlowEntry.judge_eq, Simple.Flow.judge_eq] at hblocked ⊢
  refine ⟨hblocked, Or.inr ⟨hm, hs, hlooks⟩, fun hclear => ?_⟩
  have hclear' := hblocked.symm.trans hclear
  exact ⟨(Bool.or_eq_false_iff.1 hclear).2, (Bool.or_eq_false_iff.1 hclear').2⟩

theorem fixed_of_blocked (hm : m.blocked = true) (hs : s.blocked = true) : Fixed rules t m s :=
  ⟨hm.trans hs.symm, Or.inl hm, fun h => by rw [hm] at h; cases h⟩

theorem Mt.FlowEntry.blocked_after (flow : FlowEntry) (rules : Rules) (t : FiveTuple)
    (pkt : PacketPair) (h : flow.blocked = true) : (flow.after rules t pkt).blocked = true := by
  rw [after, judge_eq]
  refine Bool.or_eq_true_iff.2 (Or.inl ?_)
  rw [blocked_next, count_eq]
  exact h

theorem Simple.Flow.blocked_after (flow : Flow) (rules : BlockingRules) (t : FiveTuple)
    (pkt : PacketPair) (h : flow.blocked = true) : (flow.after rules t pkt).blocked = true := by
  rw [after, judge_eq]
  refine Bool.or_eq_true_iff.2 (Or.inl ?_)
  rw [blocked_next, count_eq]
  exact h

theorem Mt.FlowEntry.next_of_classified {flow : FlowEntry} (h : flow.classified = true)
    (t : FiveTuple) (found : Option Str) : flow.next t found = flow := if_pos h

theorem Simple.Flow.next_of_not_looks {flow : Flow} (h : ¬ flow.Looks t)
    (happ : flow.appType ≠ .unknown) (found : Option Str) : flow.next t found = flow := by
  rw [next, if_neg h, fallback, if_neg happ]

theorem Fixed.after (h : Fixed rules t m s) (pkt : PacketPair) :
    Fixed rules t (m.after rules t pkt) (s.after rules t pkt) := by
  by_cases hblocked : m.blocked = true
  · exact fixed_of_blocked (m.blocked_after rules t pkt hblocked)
      (s.blocked_after rules t pkt (h.blocked.symm.trans hblocked))
  obtain ⟨hm, hs, hlooks⟩ := h.final.resolve_left hblocked
  obtain ⟨hpass, hpass'⟩ := h.passes (Bool.eq_false_iff.2 hblocked)
  have hcount : (m.count pkt.mt).next t pkt.name = m.count pkt.mt :=
    Mt.FlowEntry.next_of_classified (by rw [Mt.FlowEntry.count_eq]; exact hm) _ _
  have hcount' : (s.count pkt.simple).next t pkt.name = s.count pkt.simple :=
    Simple.Flow.next_of_not_looks (by rw [Simple.Flow.count_eq]; exact hlooks)
      (by rw [Simple.Flow.count_eq]; exact hs) _
  rw [Mt.FlowEntry.after, Simple.Flow.after, hcount, hcount', Mt.FlowEntry.count_eq,
    Simple.Flow.count_eq]
  refine fixed_judge hm hs hlooks ?_
  rw [Mt.FlowEntry.judge_eq, Simple.Flow.judge_eq]
  dsimp only
  rw [h.blocked, hpass]
  exact congrArg _ hpass'.symm

/-- Fixed flows get the same verdicts for ever. -/
theorem Fixed.alike (h : Fixed rules t m s) (rest : List PacketPair) : Alike rules t m s rest := by
  induction rest generalizing m s with
  | nil => trivial
  | cons pkt rest ih => exact ⟨(h.after pkt).blocked, ih (h.after pkt)⟩

/-! ## Flows without a name -/

theorem unnamedApp_ne_unknown (hport : t.dstPort = 443 ∨ t.dstPort = 80) :
    unnamedApp t ≠ .unknown := by
  unfold unnamedApp appOfPort
  split_ifs with hdns htls hhttp
  · decide
  · decide
  · decide
  · exact absurd hport (not_or.2 ⟨htls, hhttp⟩)

theorem not_looks_of_dns (h : s.appType = .dns) : ¬ s.Looks t := by
  rintro ⟨-, -, ⟨-, happ | happ⟩ | ⟨-, happ | happ⟩⟩ <;> rw [h] at happ <;> cases happ

/-- The loop keeps looking for a name in the packets of a TCP flow that does not count as DNS. -/
theorem looks_unnamed_iff (hport : t.dstPort = 443 ∨ t.dstPort = 80)
    (happ : s.appType = unnamedApp t) (hsni : s.sni = []) :
    s.Looks t ↔ t.protocol = 6 ∧ ¬ IsDns t := by
  constructor
  · intro h
    refine ⟨h.1, fun hdns => not_looks_of_dns ?_ h⟩
    rw [happ, unnamedApp, if_pos hdns]
  · rintro ⟨hproto, hdns⟩
    rw [unnamedApp, if_neg hdns, appOfPort] at happ
    refine ⟨hproto, hsni, ?_⟩
    rcases hport with hport | hport
    · rw [if_pos hport] at happ
      exact Or.inl ⟨hport, Or.inr happ⟩
    · rw [hport] at happ
      exact Or.inr ⟨hport, Or.inr happ⟩

/-- The loop takes no name that is empty or that it does not look for. -/
theorem Simple.Flow.next_idle {flow : Flow} {found : Option Str} (hsni : flow.sni = [])
    (happ : flow.appType = .unknown ∨ flow.appType = unnamedApp t)
    (hidle : ∀ name, found = some name → name = [] ∨ ¬ flow.Looks t) :
    flow.next t found = { flow with appType := unnamedApp t } := by
  have hfallback : flow.fallback t = { flow with appType := unnamedApp t } := by
    rw [fallback]
    rcases happ with happ | happ
    · rw [if_pos happ]
    · rw [← happ, ite_self]
  rw [next]
  by_cases hlooks : flow.Looks t
  · rw [if_pos hlooks]
    cases found with
    | none => exact hfallback
    | some name =>
      obtain rfl := (hidle name rfl).resolve_right (not_not.2 hlooks)
      rw [← hsni]
      exact if_pos (by rw [hsni]; rfl)
  · rw [if_neg hlooks]
    exact hfallback

/-- A name that it looks for is the loop's last. -/
theorem Simple.Flow.next_name {flow : Flow} (hlooks : flow.Looks t) (hname : name ≠ []) :
    flow.next t (some name) = flow.named name := by
  rw [next, if_pos hlooks, Option.elim_some, fallback]
  exact if_neg (sniToAppType_ne_unknown hname)

theorem Simple.Flow.not_looks_named (flow : Flow) (hname : name ≠ []) :
    ¬ (flow.named name).Looks t := fun h => hname h.2.1

/-! ## Flows that are parted -/

/-- Only `dpi_mt.cpp` has a name for the flow, and neither program has blocked it. -/
structure Parted (rules : Mt.Rules) (t : FiveTuple) (m : Mt.FlowEntry) (s : Simple.Flow) :
    Prop where
  classified : m.classified = true
  passes : rules.isBlocked t.srcIp m.appType m.sni = false
  clear : m.blocked = false
  appType : s.appType = unnamedApp t
  sni : s.sni = []
  clear' : s.blocked = false

theorem Parted.count (h : Parted rules t m s) (pkt : PacketPair) :
    Parted rules t (m.count pkt.mt) (s.count pkt.simple) := by
  rw [Mt.FlowEntry.count_eq, Simple.Flow.count_eq]
  exact ⟨h.classified, h.passes, h.clear, h.appType, h.sni, h.clear'⟩

theorem Parted.after_mt (h : Parted rules t m s) (pkt : PacketPair) :
    m.after rules t pkt = (m.count pkt.mt).judge rules t.srcIp := by
  rw [Mt.FlowEntry.after, Mt.FlowEntry.next_of_classified (h.count pkt).classified]

theorem Parted.blocked_mt (h : Parted rules t m s) :
    (m.judge rules t.srcIp).blocked = false := by
  rw [Mt.FlowEntry.judge_eq]
  exact Bool.or_eq_false_iff.2 ⟨h.clear, h.passes⟩

theorem Parted.after_idle (h : Parted rules t m s) (hcold : unnamedBlocked rules t = false)
    {pkt : PacketPair}
    (hidle : ∀ name, pkt.name = some name → name = [] ∨ ¬ (s.count pkt.simple).Looks t) :
    Parted rules t (m.after rules t pkt) (s.after rules t pkt) := by
  have hcount := h.count pkt
  have hm := hcount.blocked_mt
  rw [h.after_mt, Simple.Flow.after, Simple.Flow.next_idle hcount.sni (Or.inr hcount.appType) hidle]
  rw [Mt.FlowEntry.judge_eq] at hm ⊢
  rw [Simple.Flow.judge_eq]
  refine ⟨hcount.classified, hcount.passes, hm, rfl, hcount.sni, ?_⟩
  refine Bool.or_eq_false_iff.2 ⟨hcount.clear', ?_⟩
  rw [hcount.sni]
  exact hcold

theorem blocked_named (flow : Simple.Flow) (rules : Mt.Rules) (t : FiveTuple) (name : Str) :
    ((flow.named name).judge rules t.srcIp).blocked =
      (flow.blocked || namedBlocked rules t name) := by
  rw [Simple.Flow.judge_eq]
  rfl

/-- A name that the loop takes after all. -/
theorem Parted.after_name (h : Parted rules t m s) {pkt : PacketPair}
    (hfound : pkt.name = some name) (hname : name ≠ [])
    (hlooks : (s.count pkt.simple).Looks t) :
    (m.after rules t pkt).blocked = false ∧
      (s.after rules t pkt).blocked = namedBlocked rules t name ∧
      (namedBlocked rules t name = false →
        Fixed rules t (m.after rules t pkt) (s.after rules t pkt)) := by
  have hcount := h.count pkt
  have hs : s.after rules t pkt = ((s.count pkt.simple).named name).judge rules t.srcIp := by
    rw [Simple.Flow.after, hfound, Simple.Flow.next_name hlooks hname]
  have hblocked := blocked_named (s.count pkt.simple) rules t name
  rw [hcount.clear', Bool.false_or] at hblocked
  rw [h.after_mt, hs]
  refine ⟨hcount.blocked_mt, hblocked, fun hpass => ?_⟩
  refine fixed_judge hcount.classified (sniToAppType_ne_unknown hname)
    (Simple.Flow.not_looks_named _ hname) ?_
  rw [hcount.blocked_mt, hblocked, hpass]

/-- Parted flows get the same verdicts as long as the loop takes no name that is blocked. -/
theorem Parted.alike_iff (h : Parted rules t m s) (hport : t.dstPort = 443 ∨ t.dstPort = 80)
    (hcold : unnamedBlocked rules t = false) (rest : List PacketPair) :
    Alike rules t m s rest ↔ (t.protocol = 6 → ¬ IsDns t → ∀ later,
      (rest.map PacketPair.name).reduceOption.find? (· ≠ []) = some later →
        namedBlocked rules t later = false) := by
  induction rest generalizing m s with
  | nil =>
    refine iff_of_true trivial fun _ _ later hlater => ?_
    cases hlater
  | cons pkt rest ih =>
    have hcount := h.count pkt
    have hlooks := looks_unnamed_iff hport hcount.appType hcount.sni
    rw [Alike, List.map_cons]
    by_cases htake : (t.protocol = 6 ∧ ¬ IsDns t) ∧ ∃ name, pkt.name = some name ∧ name ≠ []
    · obtain ⟨hlook, name, hfound, hname⟩ := htake
      have hfirst : ((pkt.name :: rest.map PacketPair.name).reduceOption.find? (· ≠ [])) =
          some name := by
        rw [hfound, List.reduceOption_cons_of_some]
        exact List.find?_cons_of_pos (by simpa using hname)
      obtain ⟨hm, hs, hfixed⟩ := h.after_name hfound hname (hlooks.2 hlook)
      rw [hfirst, hm, hs]
      constructor
      · rintro ⟨hverdict, -⟩ - - later hlater
        rw [← Option.some.inj hlater]
        exact hverdict.symm
      · intro hpass
        have hclear := hpass hlook.1 hlook.2 name rfl
        exact ⟨hclear.symm, (hfixed hclear).alike rest⟩
    · have hidle : ∀ name, pkt.name = some name →
          name = [] ∨ ¬ (s.count pkt.simple).Looks t := by
        intro name hfound
        by_contra hnot
        obtain ⟨hname, hlook⟩ := not_or.1 hnot
        exact htake ⟨hlooks.1 (not_not.1 hlook), name, hfound, hname⟩
      have hafter := h.after_idle hcold hidle
      rw [hafter.clear, hafter.clear', ih hafter]
      refine (and_iff_right rfl).trans ?_
      refine forall_congr' fun hproto => forall_congr' fun hdns => ?_
      have hnext : ((pkt.name :: rest.map PacketPair.name).reduceOption.find? (· ≠ [])) =
          (rest.map PacketPair.name).reduceOption.find? (· ≠ []) := by
        cases hfound : pkt.name with
        | none => rw [List.reduceOption_cons_of_none]
        | some name =>
          have hnil := (hidle name hfound).resolve_right (not_not.2 (hlooks.2 ⟨hproto, hdns⟩))
          rw [List.reduceOption_cons_of_some, hnil]
          exact List.find?_cons_of_neg (by simp)
      rw [hnext]

/-! ## Flows that wait for a name -/

/-- Both flows may still get a name; `late` says whether a packet has come. -/
structure Waiting (rules : Mt.Rules) (t : FiveTuple) (late : Bool) (m : Mt.FlowEntry)
    (s : Simple.Flow) : Prop where
  classified : m.classified = false
  appType : m.appType = s.appType
  unnamed : m.sni = []
  sni : s.sni = []
  blocked : m.blocked = s.blocked
  past : if late then ¬ IsDns t ∧ s.appType = unnamedApp t ∧ s.blocked = unnamedBlocked rules t
    else s.appType = .unknown ∧ s.blocked = false

theorem waiting_initial (rules : Mt.Rules) (t : FiveTuple) : Waiting rules t false {} {} :=
  ⟨rfl, rfl, rfl, rfl, rfl, rfl, rfl⟩

section Waiting

variable {late : Bool}

theorem Waiting.count (h : Waiting rules t late m s) (pkt : PacketPair) :
    Waiting rules t late (m.count pkt.mt) (s.count pkt.simple) := by
  rw [Mt.FlowEntry.count_eq, Simple.Flow.count_eq]
  exact ⟨h.classified, h.appType, h.unnamed, h.sni, h.blocked, h.past⟩

theorem Waiting.byPort (h : Waiting rules t late m s) :
    s.appType = .unknown ∨ s.appType = unnamedApp t := by
  have hpast := h.past
  split_ifs at hpast
  · exact Or.inr hpast.2.1
  · exact Or.inl hpast.1

/-- What the flow is without a name does not depend on the packets so far. -/
theorem Waiting.blocked_unnamed (h : Waiting rules t late m s) :
    (s.blocked || unnamedBlocked rules t) = unnamedBlocked rules t := by
  have hpast := h.past
  split_ifs at hpast
  · rw [hpast.2.2, Bool.or_self]
  · rw [hpast.2, Bool.false_or]

theorem Waiting.late_of_blocked (h : Waiting rules t late m s) (hs : s.blocked = true) :
    late = true ∧ unnamedBlocked rules t = true := by
  have hpast := h.past
  split_ifs at hpast with hlate
  · exact ⟨hlate, hpast.2.2.symm.trans hs⟩
  · rw [hpast.2] at hs
    cases hs

theorem Waiting.cold_of_late (h : Waiting rules t late m s) (hs : s.blocked = false)
    (hlate : late = true) : unnamedBlocked rules t = false := by
  have hpast := h.past
  rw [if_pos hlate] at hpast
  exact hpast.2.2.symm.trans hs

theorem Waiting.looks (h : Waiting rules t late m s) (hport : t.dstPort = 443 ∨ t.dstPort = 80)
    (hproto : t.protocol = 6) : s.Looks t := by
  have hpast := h.past
  split_ifs at hpast
  · exact (looks_unnamed_iff hport hpast.2.1 h.sni).2 ⟨hproto, hpast.1⟩
  · refine ⟨hproto, h.sni, ?_⟩
    exact hport.imp (fun hp => ⟨hp, Or.inl hpast.1⟩) fun hp => ⟨hp, Or.inl hpast.1⟩

theorem Waiting.next_mt (h : Waiting rules t late m s) (name : Str) :
    m.next t (some name) = m.named name := by
  rw [Mt.FlowEntry.next, if_neg (by rw [h.classified]; decide), Option.elim_some]

theorem Waiting.next_mt_none (h : Waiting rules t late m s) :
    m.next t none = { m with appType := unnamedApp t, classified := decide (IsDns t) } := by
  have hm : m.next t none = m.unnamed t := by
    rw [Mt.FlowEntry.next, if_neg (by rw [h.classified]; decide), Option.elim_none]
  rw [hm, Mt.FlowEntry.unnamed]
  by_cases hdns : IsDns t
  · rw [if_pos hdns, unnamedApp, if_pos hdns, decide_eq_true hdns]
  · have happ : appOfPort t = .unknown → m.appType = appOfPort t := by
      intro hnone
      rw [h.appType]
      rcases h.byPort with hx | hx
      · rw [hx, hnone]
      · rw [hx, unnamedApp, if_neg hdns]
    rw [if_neg hdns, unnamedApp, if_neg hdns, decide_eq_false hdns, ← h.classified]
    split_ifs with hnone
    · rw [← happ hnone]
    · rfl

/-- Without a name the flows keep waiting, or both are classified as DNS. -/
theorem Waiting.after_none (h : Waiting rules t late m s) {pkt : PacketPair}
    (hnone : pkt.name = none) :
    if IsDns t then Fixed rules t (m.after rules t pkt) (s.after rules t pkt)
    else Waiting rules t true (m.after rules t pkt) (s.after rules t pkt) := by
  have hcount := h.count pkt
  have hm := hcount.next_mt_none
  have hs : (s.count pkt.simple).next t none =
      { s.count pkt.simple with appType := unnamedApp t } :=
    Simple.Flow.next_idle hcount.sni hcount.byPort nofun
  have hcold := hcount.blocked_unnamed
  rw [Mt.FlowEntry.after, Simple.Flow.after, hnone, hm, hs]
  by_cases hdns : IsDns t
  · have happ : unnamedApp t = .dns := if_pos hdns
    rw [if_pos hdns]
    refine fixed_judge (decide_eq_true hdns) ?_ (not_looks_of_dns happ) ?_
    · dsimp only
      rw [happ]
      decide
    · rw [Mt.FlowEntry.judge_eq, Simple.Flow.judge_eq, hcount.blocked]
      dsimp only
      rw [hcount.unnamed, hcount.sni]
      rfl
  · rw [if_neg hdns, Mt.FlowEntry.judge_eq, Simple.Flow.judge_eq]
    have hpass : rules.isBlocked t.srcIp (unnamedApp t) (s.count pkt.simple).sni =
        unnamedBlocked rules t := by
      rw [hcount.sni]
      rfl
    refine ⟨decide_eq_false hdns, rfl, hcount.unnamed, hcount.sni, ?_, hdns, rfl, ?_⟩
    · dsimp only
      rw [hcount.blocked, hcount.unnamed, hcount.sni]
      rfl
    · exact (congrArg (fun b => (s.count pkt.simple).blocked || b) hpass).trans hcold

/-- A name that both programs take fixes the flows. -/
theorem Waiting.after_name (h : Waiting rules t late m s) {pkt : PacketPair}
    (hfound : pkt.name = some name) (hport : t.dstPort = 443 ∨ t.dstPort = 80) (hname : name ≠ [])
    (hproto : t.protocol = 6) : Fixed rules t (m.after rules t pkt) (s.after rules t pkt) := by
  have hcount := h.count pkt
  rw [Mt.FlowEntry.after, Simple.Flow.after, hfound, hcount.next_mt,
    Simple.Flow.next_name (hcount.looks hport hproto) hname]
  refine fixed_judge rfl (sniToAppType_ne_unknown hname) (Simple.Flow.not_looks_named _ hname) ?_
  rw [Mt.FlowEntry.judge_eq, Simple.Flow.judge_eq]
  dsimp only [Mt.FlowEntry.named, Simple.Flow.named]
  rw [hcount.blocked]
  rfl

/-- Any other name is taken by one program only. -/
theorem Waiting.after_bad (h : Waiting rules t late m s) {pkt : PacketPair}
    (hfound : pkt.name = some name) (hbad : name = [] ∨ t.protocol ≠ 6) :
    (m.after rules t pkt).blocked = (s.blocked || namedBlocked rules t name) ∧
      (s.after rules t pkt).blocked = (s.blocked || unnamedBlocked rules t) ∧
      (s.blocked = false → namedBlocked rules t name = false → unnamedBlocked rules t = false →
        Parted rules t (m.after rules t pkt) (s.after rules t pkt)) := by
  have hcount := h.count pkt
  have hsame : (s.count pkt.simple).blocked = s.blocked := by rw [Simple.Flow.count_eq]
  have hidle : ∀ n, some name = some n → n = [] ∨ ¬ (s.count pkt.simple).Looks t := by
    rintro n ⟨⟩
    exact hbad.imp_right fun hproto hlooks => hproto hlooks.1
  rw [Mt.FlowEntry.after, Simple.Flow.after, hfound, hcount.next_mt,
    Simple.Flow.next_idle hcount.sni hcount.byPort hidle, Mt.FlowEntry.judge_eq,
    Simple.Flow.judge_eq]
  dsimp only [Mt.FlowEntry.named]
  rw [hcount.blocked, hsame, hcount.sni]
  refine ⟨rfl, rfl, fun hclear hnamed hcold => ⟨rfl, hnamed, ?_, rfl, rfl, ?_⟩⟩
  · rw [hclear]
    exact hnamed
  · rw [hclear]
    exact hcold

/-- Such a name keeps the verdicts alike exactly when it makes no difference. -/
theorem Waiting.alike_bad_iff (h : Waiting rules t late m s) {pkt : PacketPair}
    (hfound : pkt.name = some name) (hport : t.dstPort = 443 ∨ t.dstPort = 80)
    (hbad : name = [] ∨ t.protocol ≠ 6) (rest : List PacketPair) :
    Alike rules t m s (pkt :: rest) ↔ Harmless rules t (late = true) name
      (if IsDns t then [] else (rest.map PacketPair.name).reduceOption) := by
  obtain ⟨hm, hs, hparted⟩ := h.after_bad hfound hbad
  rw [Alike]
  by_cases hblocked : s.blocked = true
  · rw [hblocked, Bool.true_or] at hm hs
    exact iff_of_true ⟨hm.trans hs.symm, (fixed_of_blocked hm hs).alike rest⟩
      (Or.inl (h.late_of_blocked hblocked))
  rw [Bool.not_eq_true] at hblocked
  rw [hblocked, Bool.false_or] at hm hs
  have hnot : ¬ (late = true ∧ unnamedBlocked rules t = true) := by
    rintro ⟨hlate, hcold⟩
    rw [h.cold_of_late hblocked hlate] at hcold
    cases hcold
  rw [Harmless, or_iff_right hnot, hm, hs]
  refine and_congr_right fun hsame => ?_
  cases hcold : unnamedBlocked rules t with
  | true =>
    have hdrop : Fixed rules t (m.after rules t pkt) (s.after rules t pkt) :=
      fixed_of_blocked (hm.trans (hsame.trans hcold)) (hs.trans hcold)
    exact iff_of_true (hdrop.alike rest) nofun
  | false =>
    rw [(hparted hblocked (hsame.trans hcold) hcold).alike_iff hport hcold rest]
    by_cases hdns : IsDns t
    · rw [if_pos hdns]
      exact iff_of_true (fun _ hnot => absurd hdns hnot) fun _ _ later hlater => by cases hlater
    · rw [if_neg hdns]
      exact ⟨fun hall _ hproto => hall hproto hdns, fun hall hproto _ => hall rfl hproto⟩

theorem counted_cons_some (t : FiveTuple) (name : Str) (names : List (Option Str)) :
    (counted t (some name :: names)).reduceOption =
      name :: (if IsDns t then [] else names.reduceOption) := by
  unfold counted
  split_ifs
  · rfl
  · exact List.reduceOption_cons_of_some name names

theorem counted_cons_none (t : FiveTuple) (names : List (Option Str)) :
    (counted t (none :: names)).reduceOption =
      if IsDns t then [] else names.reduceOption := by
  unfold counted
  split_ifs
  · rfl
  · exact List.reduceOption_cons_of_none names

theorem head?_counted (t : FiveTuple) (names : List (Option Str)) :
    (counted t names).head? = names.head? := by
  unfold counted
  cases names <;> split_ifs <;> rfl

/-- Waiting flows get the same verdicts exactly when the first name to come is taken by both
programs or makes no difference. -/
theorem Waiting.alike_iff (h : Waiting rules t late m s) (rest : List PacketPair)
    (hports : ∀ pkt ∈ rest, ∀ name, pkt.name = some name → t.dstPort = 443 ∨ t.dstPort = 80) :
    Alike rules t m s rest ↔ ∀ name others,
      (counted t (rest.map PacketPair.name)).reduceOption = name :: others →
        name = [] ∨ t.protocol ≠ 6 →
          Harmless rules t (late = true ∨ (rest.map PacketPair.name).head? = some none) name
            others := by
  induction rest generalizing late m s with
  | nil =>
    refine iff_of_true trivial fun name others hnames => ?_
    rw [List.map_nil, counted, List.take_nil, ite_self] at hnames
    cases hnames
  | cons pkt rest ih =>
    rw [List.map_cons, List.head?_cons]
    cases hfound : pkt.name with
    | none =>
      have hafter := h.after_none hfound
      rw [Alike, counted_cons_none]
      by_cases hdns : IsDns t
      · rw [if_pos hdns] at hafter ⊢
        exact iff_of_true ⟨hafter.blocked, hafter.alike rest⟩ nofun
      · rw [if_neg hdns] at hafter ⊢
        rw [and_iff_right hafter.blocked,
          ih hafter fun p hp => hports p (List.mem_cons_of_mem _ hp), counted, if_neg hdns]
        simp only [true_or, or_true]
    | some name =>
      have hport := hports pkt List.mem_cons_self name hfound
      rw [counted_cons_some]
      have hfirst (P : Str → List Str → Prop) :
          (∀ n others, name :: (if IsDns t then [] else (rest.map PacketPair.name).reduceOption) =
            n :: others → P n others) ↔
          P name (if IsDns t then [] else (rest.map PacketPair.name).reduceOption) := by
        refine ⟨fun hP => hP _ _ rfl, ?_⟩
        rintro hP n others ⟨⟩
        exact hP
      rw [hfirst fun n others => n = [] ∨ t.protocol ≠ 6 → Harmless rules t _ n others]
      by_cases hbad : name = [] ∨ t.protocol ≠ 6
      · rw [h.alike_bad_iff hfound hport hbad rest]
        simp only [hbad, forall_const, Option.some.injEq, reduceCtorEq, or_false]
      · obtain ⟨hname, hproto⟩ := not_or.1 hbad
        have hafter := h.after_name hfound hport hname (not_not.1 hproto)
        exact iff_of_true ⟨hafter.blocked, hafter.alike rest⟩ fun hx => absurd hx hbad

end Waiting

end DPI
