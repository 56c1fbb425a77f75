import DpiEngine.Agreement

/-!
# Where a connection is cut off

The rules act on a five-tuple through the names in its packets only: a connection waits for a name,
is settled by one, or is blocked.  Both stand-alone programs simulate this machine, each with the
names that it takes, so they let the first packets of every connection pass, as many as the machine
says, and none after them.
-/

namespace DPI

open Bytes PacketAnalyzer

variable {rules : Mt.Rules} {t : FiveTuple}

/-! ## Stages of a connection -/

inductive Stage
  | waiting
  | settled
  | blocked
  deriving DecidableEq, Repr

/-- The stage after a packet with this name in it, or without one. -/
def Stage.next (rules : Mt.Rules) (t : FiveTuple) : Stage → Option Str → Stage
  | .waiting, none =>
    if unnamedBlocked rules t then .blocked else if IsDns t then .settled else .waiting
  | .waiting, some name => if namedBlocked rules t name then .blocked else .settled
  | .settled, _ => .settled
  | .blocked, _ => .blocked

def Stage.shut (stage : Stage) : Bool := stage == .blocked

theorem Stage.shut_next (rules : Mt.Rules) (t : FiveTuple) (stage : Stage) (name : Option Str)
    (h : stage.shut = true) : (stage.next rules t name).shut = true := by
  obtain rfl : stage = .blocked := eq_of_beq h
  rfl

/-- How many packets of a connection pass, by the names in its packets. -/
def passing (rules : Mt.Rules) (t : FiveTuple) (names : List (Option Str)) : ℕ :=
  Keyed.openFor (Stage.next rules t) Stage.shut .waiting names

theorem openFor_settled (names : List (Option Str)) :
    Keyed.openFor (Stage.next rules t) Stage.shut .settled names = names.length := by
  induction names with
  | nil => rfl
  | cons name names ih =>
    change Keyed.openFor (Stage.next rules t) Stage.shut .settled names + 1 = _
    rw [ih, List.length_cons]

/-- A connection that is not blocked without a name passes up to the packet that shows a name the
rules match; in a DNS connection only the first packet is looked at. -/
theorem passing_cons (name : Option Str) (names : List (Option Str)) :
    passing rules t (name :: names) =
      if name.elim (unnamedBlocked rules t) (namedBlocked rules t) then 0
      else if name = none ∧ ¬ IsDns t then passing rules t names + 1
      else names.length + 1 := by
  unfold passing
  cases name with
  | none =>
    rw [Option.elim_none]
    by_cases hblocked : unnamedBlocked rules t = true
    · have hnext : Stage.next rules t .waiting none = .blocked := if_pos hblocked
      rw [Keyed.openFor_cons hnext, if_pos hblocked]
      rfl
    · rw [if_neg hblocked]
      by_cases hdns : IsDns t
      · have hnext : Stage.next rules t .waiting none = .settled :=
          (if_neg hblocked).trans (if_pos hdns)
        rw [Keyed.openFor_cons hnext, if_neg (by decide), openFor_settled,
          if_neg fun h => h.2 hdns]
      · have hnext : Stage.next rules t .waiting none = .waiting :=
          (if_neg hblocked).trans (if_neg hdns)
        rw [Keyed.openFor_cons hnext, if_neg (by decide), if_pos ⟨rfl, hdns⟩]
  | some name =>
    rw [Option.elim_some]
    by_cases hblocked : namedBlocked rules t name = true
    · have hnext : Stage.next rules t .waiting (some name) = .blocked := if_pos hblocked
      rw [Keyed.openFor_cons hnext, if_pos hblocked]
      rfl
    · have hnext : Stage.next rules t .waiting (some name) = .settled := if_neg hblocked
      rw [Keyed.openFor_cons hnext, if_neg (by decide), openFor_settled, if_neg hblocked,
        if_neg (by simp)]

/-! ## Flows of `dpi_mt.cpp` -/

namespace Mt

/-- The name that `classifyFlow` finds in the packet. -/
def Packet.name (pkt : Packet) : Option Str := (extractName pkt).toOption.join

theorem extractName_eq (pkt : Packet) : extractName pkt = .ok pkt.name := by
  obtain ⟨name, hname⟩ := defined_extractName pkt
  rw [Packet.name, hname]
  rfl

namespace FlowEntry

/-- The flow of `t` is at a stage. -/
def At (flow : FlowEntry) (rules : Rules) (t : FiveTuple) : Stage → Prop
  | .waiting => flow.classified = false ∧ flow.blocked = false ∧ flow.sni = [] ∧
      (flow.appType = .unknown ∨ flow.appType = appOfPort t)
  | .settled => flow.classified = true ∧ flow.blocked = false ∧
      rules.isBlocked t.srcIp flow.appType flow.sni = false
  | .blocked => flow.blocked = true

variable {flow : FlowEntry} {stage : Stage}

theorem At.count (h : flow.At rules t stage) (pkt : Packet) :
    (flow.count pkt).At rules t stage := by
  rw [count_eq]
  cases stage <;> exact h

theorem unnamed_eq (hclassified : flow.classified = false)
    (happ : flow.appType = .unknown ∨ flow.appType = appOfPort t) :
    flow.unnamed t = { flow with appType := unnamedApp t, classified := decide (IsDns t) } := by
  unfold unnamed unnamedApp
  by_cases hdns : IsDns t
  · rw [if_pos hdns, if_pos hdns, decide_eq_true hdns]
  · rw [if_neg hdns, if_neg hdns, decide_eq_false hdns, ← hclassified]
    split_ifs with hnone
    · rw [hnone, or_self] at happ
      rw [hnone, ← happ]
    · rfl

/-- A flow that has just been judged is blocked or not. -/
theorem at_judge (stage : Stage) {matched : Bool} (hclear : flow.blocked = false)
    (hmatched : rules.isBlocked t.srcIp flow.appType flow.sni = matched)
    (hopen : matched = false → ({ flow with blocked := false } : FlowEntry).At rules t stage) :
    (flow.judge rules t.srcIp).At rules t (if matched then .blocked else stage) := by
  rw [judge_eq, hclear, Bool.false_or, hmatched]
  cases matched with
  | true => rfl
  | false => exact hopen rfl

theorem At.next (h : flow.At rules t stage) (name : Option Str) :
    ((flow.next t name).judge rules t.srcIp).At rules t (stage.next rules t name) := by
  cases stage with
  | waiting =>
    obtain ⟨hclassified, hclear, hsni, happ⟩ := h
    rw [FlowEntry.next, if_neg (by rw [hclassified]; decide)]
    cases name with
    | none =>
      rw [Option.elim_none, unnamed_eq hclassified happ]
      have hmatched : rules.isBlocked t.srcIp (unnamedApp t) flow.sni = unnamedBlocked rules t := by
        rw [hsni, unnamedBlocked]
      refine at_judge _ hclear hmatched fun hopen => ?_
      by_cases hdns : IsDns t
      · rw [if_pos hdns, decide_eq_true hdns]
        exact ⟨rfl, rfl, hmatched.trans hopen⟩
      · rw [if_neg hdns, decide_eq_false hdns]
        refine ⟨rfl, rfl, hsni, Or.inr ?_⟩
        exact if_neg hdns
    | some name => exact at_judge _ hclear rfl fun hopen => ⟨rfl, rfl, hopen⟩
  | settled =>
    obtain ⟨hclassified, hclear, hopen⟩ := h
    rw [next_of_classified hclassified, judge_eq, hclear, hopen]
    exact ⟨hclassified, rfl, hopen⟩
  | blocked =>
    rw [judge_eq]
    refine Bool.or_eq_true_iff.2 (Or.inl ?_)
    rw [blocked_next]
    exact h

theorem At.blocked_iff (h : flow.At rules t stage) : flow.blocked = stage.shut := by
  cases stage with
  | waiting => exact h.2.1
  | settled => exact h.2.1
  | blocked => exact h

/-- A flow simulates its connection. -/
theorem At.step (h : flow.At rules t stage) {pkt : Packet} (ht : pkt.tuple = t)
    {action : PacketAction} {flow' : FlowEntry} (hs : flow.step rules pkt = .ok (action, flow')) :
    flow'.At rules t (stage.next rules t pkt.name) ∧
      action = verdict (stage.next rules t pkt.name).shut := by
  rw [FlowEntry.step, receive_eq (extractName_eq pkt), ht] at hs
  cases hs
  have hnext := (h.count pkt).next pkt.name
  exact ⟨hnext, congrArg verdict hnext.blocked_iff⟩

end FlowEntry

end Mt

/-! ## Flows of `main_working.cpp` -/

namespace Simple

/-- What the two extractions of the loop find in a packet. -/
def extractName (pkt : Packet) : Checked (Option Str) := do
  if pkt.parsed.hasTcp ∧ pkt.parsed.destPort = 443 then
    match ← tcpPayload pkt.data with
    | some payload => if payload.length > 5 then SNIExtractor.extract payload else return none
    | none => return none
  else if pkt.parsed.hasTcp ∧ pkt.parsed.destPort = 80 then
    match ← tcpPayload pkt.data with
    | some payload => HTTPHostExtractor.extract payload
    | none => return none
  else return none

/-- The name that the loop takes from the packet: an empty one is not kept. -/
def Packet.name (pkt : Packet) : Option Str :=
  ((extractName pkt).toOption.join).filter (· ≠ [])

variable {sp : Packet} {mp : Mt.Packet}

/-- The loop looks into TCP packets only. -/
theorem extractName_eq (h : SamePacket sp mp) :
    extractName sp = .ok (if mp.tuple.protocol = 6 then mp.name else none) := by
  have hfound := Mt.extractName_eq mp
  unfold extractName
  simp only [h.hasTcp, h.destPort]
  by_cases hproto : mp.tuple.protocol = 6
  swap
  · rw [if_neg fun hx => hproto hx.1, if_neg fun hx => hproto hx.1, if_neg hproto]
    rfl
  rw [if_pos hproto, h.payload hproto]
  by_cases htls : mp.tuple.dstPort = 443
  · rw [if_pos ⟨hproto, htls⟩, ok_bind, ← hfound, Mt.extractName_tls htls]
    by_cases hlen : mp.payloadLength > 5
    · rw [if_neg (by omega), if_pos hlen]
      dsimp only
      rw [mp.length_payload, if_pos hlen]
    · rw [if_neg hlen]
      split_ifs
      · rfl
      · dsimp only
        rw [mp.length_payload]
        exact if_neg hlen
  · rw [if_neg fun hx => htls hx.2]
    by_cases hhttp : mp.tuple.dstPort = 80
    · rw [if_pos ⟨hproto, hhttp⟩, ok_bind, ← hfound, Mt.extractName_http hhttp]
      split_ifs with hlen
      · rw [HTTPHostExtractor.extract_of_length_le (by rw [mp.length_payload]; omega)]
        rfl
      · rfl
    · rw [if_neg fun hx => hhttp hx.2, ← hfound, Mt.extractName, if_neg fun hx => htls hx.1,
        if_neg fun hx => hhttp hx.1]
      rfl

theorem Packet.name_eq (h : SamePacket sp mp) :
    sp.name = if mp.tuple.protocol = 6 then mp.name.filter (· ≠ []) else none := by
  rw [Packet.name, extractName_eq h]
  split_ifs <;> rfl

namespace Flow

/-- The flow of `t` is at a stage. -/
def At (flow : Flow) (rules : BlockingRules) (t : FiveTuple) : Stage → Prop
  | .waiting => flow.blocked = false ∧ flow.sni = [] ∧
      (flow.appType = .unknown ∨ flow.appType = unnamedApp t ∧ ¬ IsDns t)
  | .settled => flow.blocked = false ∧ flow.appType ≠ .unknown ∧ ¬ flow.Looks t ∧
      rules.isBlocked t.srcIp flow.appType flow.sni = false
  | .blocked => flow.blocked = true

variable {flow : Flow} {stage : Stage}

theorem At.count (h : flow.At rules t stage) (pkt : Packet) :
    (flow.count pkt).At rules t stage := by
  rw [count_eq]
  cases stage <;> exact h

theorem at_judge (stage : Stage) {matched : Bool} (hclear : flow.blocked = false)
    (hmatched : rules.isBlocked t.srcIp flow.appType flow.sni = matched)
    (hopen : matched = false → ({ flow with blocked := false } : Flow).At rules t stage) :
    (flow.judge rules t.srcIp).At rules t (if matched then .blocked else stage) := by
  rw [judge_eq, hclear, Bool.false_or, BlockingRules.isBlocked, hmatched]
  cases matched with
  | true => rfl
  | false => exact hopen rfl

/-- A flow that waits looks at every TCP packet of its ports. -/
theorem looks_of_waiting (h : flow.At rules t .waiting) (hproto : t.protocol = 6)
    (hport : t.dstPort = 443 ∨ t.dstPort = 80) : flow.Looks t := by
  obtain ⟨-, hsni, happ | ⟨happ, hdns⟩⟩ := h
  · exact ⟨hproto, hsni, hport.imp (fun hp => ⟨hp, Or.inl happ⟩) fun hp => ⟨hp, Or.inl happ⟩⟩
  · exact (looks_unnamed_iff hport happ hsni).2 ⟨hproto, hdns⟩

/-- `found` is the name in a packet, and `flow` takes what is left of it as `name`. -/
theorem At.next (h : flow.At rules t stage) {found : Option Str}
    (hport : ∀ name, found = some name → t.dstPort = 443 ∨ t.dstPort = 80) :
    ((flow.next t found).judge rules t.srcIp).At rules t
      (stage.next rules t (if t.protocol = 6 then found.filter (· ≠ []) else none)) := by
  cases stage with
  | waiting =>
    obtain ⟨hclear, hsni, happ⟩ := id h
    obtain ⟨name, hname⟩ : ∃ name, name = if t.protocol = 6 then found.filter (· ≠ []) else none :=
      ⟨_, rfl⟩
    rw [← hname]
    cases name with
    | none =>
      have hidle : ∀ name, found = some name → name = [] ∨ ¬ flow.Looks t := by
        intro name hfound
        by_contra hnot
        obtain ⟨hne, hlooks⟩ := not_or.1 hnot
        rw [if_pos (not_not.1 hlooks).1, hfound, Option.filter_some, if_pos (by simpa using hne)]
          at hname
        cases hname
      rw [next_idle hsni (happ.imp id And.left) hidle]
      have hmatched : rules.isBlocked t.srcIp (unnamedApp t) flow.sni = unnamedBlocked rules t := by
        rw [hsni, unnamedBlocked]
      refine at_judge _ hclear hmatched fun hopen => ?_
      by_cases hdns : IsDns t
      · rw [if_pos hdns]
        have hdnsApp : unnamedApp t = .dns := if_pos hdns
        refine ⟨rfl, ?_, not_looks_of_dns hdnsApp, hmatched.trans hopen⟩
        exact hdnsApp ▸ (by decide : AppType.dns ≠ .unknown)
      · rw [if_neg hdns]
        exact ⟨rfl, hsni, Or.inr ⟨rfl, hdns⟩⟩
    | some name =>
      by_cases hproto : t.protocol = 6
      swap
      · rw [if_neg hproto] at hname
        cases hname
      rw [if_pos hproto] at hname
      obtain ⟨hfound, hne⟩ := Option.filter_eq_some_iff.1 hname.symm
      have hne : name ≠ [] := by simpa using hne
      rw [hfound, next_name (looks_of_waiting h hproto (hport name hfound)) hne]
      exact at_judge _ hclear rfl fun hopen =>
        ⟨rfl, sniToAppType_ne_unknown hne, not_looks_named flow hne, hopen⟩
  | settled =>
    obtain ⟨hclear, happ, hlooks, hopen⟩ := h
    rw [next_of_not_looks hlooks happ, judge_eq, hclear, hopen]
    exact ⟨rfl, happ, hlooks, hopen⟩
  | blocked =>
    rw [judge_eq]
    refine Bool.or_eq_true_iff.2 (Or.inl ?_)
    rw [blocked_next]
    exact h

theorem At.blocked_iff (h : flow.At rules t stage) : flow.blocked = stage.shut := by
  cases stage with
  | waiting => exact h.1
  | settled => exact h.1
  | blocked => exact h

/-- A flow simulates its connection. -/
theorem At.step (h : flow.At rules t stage) (hsame : SamePacket sp mp) (ht : mp.tuple = t)
    {action : PacketAction} {flow' : Flow} (hs : flow.step rules sp = .ok (action, flow')) :
    flow'.At rules t (stage.next rules t sp.name) ∧
      action = verdict (stage.next rules t sp.name).shut := by
  rw [Flow.step, receive_eq hsame (Mt.extractName_eq mp), ht] at hs
  cases hs
  have hnext := (h.count sp).next fun name hname => by
    rw [← ht]
    exact Mt.port_of_extractName ((Mt.extractName_eq mp).trans (congrArg Except.ok hname))
  rw [← ht, ← Packet.name_eq hsame, ht] at hnext
  exact ⟨hnext, congrArg verdict hnext.blocked_iff⟩

end Flow

end Simple

/-! ## Runs -/

theorem passes_verdict (blocked : Bool) : (verdict blocked != .drop) = !blocked := by
  cases blocked <;> rfl

/-- One fast path lets as many packets of a five-tuple pass as the names in them say. -/
theorem Mt.Outcome.passed_eq {σ : FiveTuple → FlowEntry} {log : List (Packet × PacketAction)}
    (h : Outcome rules (Flows.at ∅) log σ) (t : FiveTuple) :
    (log.filter fun e => e.1.tuple == t && e.2 != .drop).map Prod.fst =
      ((log.filter fun e => e.1.tuple == t).map Prod.fst).take (passing rules t
        (((log.filter fun e => e.1.tuple == t).map Prod.fst).map Packet.name)) := by
  refine Keyed.Outcome.passed_take h t (fun action => action != .drop) Packet.name
    (fun flow stage => flow.At rules t stage) (Stage.shut_next rules t) ?_ ?_
  · intro e he ht flow stage action flow' hflow hs
    obtain ⟨hnext, rfl⟩ := hflow.step ht hs
    exact ⟨hnext, passes_verdict _⟩
  · exact ⟨rfl, rfl, rfl, Or.inl rfl⟩

end DPI
