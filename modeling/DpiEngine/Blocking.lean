import DpiEngine.FlowTable

/-!
# Blocked connections and blocked names

What a drop promises for the rest of its connection, and when a packet that carries a blocked name
is dropped.  Both are facts about single flows, carried over to runs of a processor.
-/

namespace DPI

open Bytes FastPathProcessor

namespace Flow

/-- The packet closes the connection, whatever state it is in. -/
def closes (f : Flow) (job : PacketJob) : Bool :=
  job.tuple.protocol == 6 && f.closedBy job.tcpFlags

/-- A rule matches the packet once the connection, opened again by the packet, is inspected. -/
def Rematched (rm : Option RuleManager) (f : Flow) (job : PacketJob) : Prop :=
  ∃ g, (f.receive job).inspected job = .ok g ∧ g.matched rm job = true

theorem step_ok_cases {rm : Option RuleManager} {f f' : Flow} {job : PacketJob}
    {action : PacketAction} (h : f.step rm job = .ok (action, f')) :
    ((f.receive job).state = .blocked ∧ action = .drop ∧ f' = f.receive job) ∨
    ((f.receive job).state ≠ .blocked ∧
      ∃ g, (f.receive job).inspected job = .ok g ∧ g.decide rm job = (action, f')) := by
  unfold step at h
  by_cases hb : (f.receive job).state = .blocked
  · rw [if_pos hb] at h
    cases h
    exact Or.inl ⟨hb, rfl, rfl⟩
  · rw [if_neg hb] at h
    obtain ⟨g, hg, h⟩ := bind_eq_ok_iff.1 h
    exact Or.inr ⟨hb, g, hg, Except.ok.inj h⟩

theorem decide_fst (rm : Option RuleManager) (f : Flow) (job : PacketJob) :
    (f.decide rm job).1 = .drop ↔ f.matched rm job = true := by
  unfold decide
  split_ifs with h <;> simp [h]

/-- A dropped packet leaves its connection blocked. -/
theorem state_of_drop {rm : Option RuleManager} {f f' : Flow} {job : PacketJob}
    (h : f.step rm job = .ok (.drop, f')) : f'.state = .blocked := by
  rcases step_ok_cases h with ⟨hb, -, rfl⟩ | ⟨-, g, -, hg⟩
  · exact hb
  · have hm := (decide_fst rm g job).1 (by rw [hg])
    rw [decide, if_pos hm] at hg
    cases hg
    rfl

theorem state_receive_of_blocked {f : Flow} (h : f.state = .blocked) (job : PacketJob) :
    (f.receive job).state = if f.closes job then .closed else .blocked := by
  unfold receive closes
  by_cases hp : job.tuple.protocol = 6
  · rw [if_pos hp]
    simp [tcp, h, hp]
  · rw [if_neg hp]
    simp [h, hp]

/-- A packet of a blocked connection is dropped unless it closes the connection and no rule
matches it. -/
theorem drop_iff_of_blocked {rm : Option RuleManager} {f f' : Flow} {job : PacketJob}
    {action : PacketAction} (hf : f.state = .blocked) (h : f.step rm job = .ok (action, f')) :
    action = .drop ↔ f.closes job = false ∨ f.Rematched rm job := by
  have hstate := state_receive_of_blocked hf job
  rcases step_ok_cases h with ⟨hb, rfl, -⟩ | ⟨hb, g, hg, hd⟩
  · have hopen : f.closes job = false := by
      by_contra hc
      rw [hstate, if_pos (by simpa using hc)] at hb
      cases hb
    exact iff_of_true rfl (Or.inl hopen)
  · have hc : f.closes job = true := by
      by_contra hc
      rw [hstate, if_neg hc] at hb
      exact hb rfl
    have hact : action = .drop ↔ g.matched rm job = true := by
      rw [← decide_fst, hd]
    rw [hact]
    constructor
    · exact fun hm => Or.inr ⟨g, hg, hm⟩
    · rintro (hopen | ⟨g', hg', hm⟩)
      · rw [hc] at hopen
        cases hopen
      · rw [hg] at hg'
        cases hg'
        exact hm

end Flow

/-- The two tuples are equal or reverses of each other. -/
def SameConnection (t u : FiveTuple) : Prop := u = t ∨ u = t.reverse

/-- Every packet of the connection of `t` that is taken in the steps satisfies `P`, which is told
the flow of the connection before the packet. -/
def PacketsSatisfy (t : FiveTuple) (ts : List (Taken FastPathProcessor Event))
    (P : Flow → PacketJob → PacketAction → Prop) : Prop :=
  ∀ s ∈ ts, ∀ env job action, s.label = .packet env job action → SameConnection t job.tuple →
    P (s.pre.flowOf (canonicalTuple t)) job action

theorem sameConnection_iff (t u : FiveTuple) :
    SameConnection t u ↔ canonicalTuple u = canonicalTuple t := by
  rw [eq_comm, canonicalTuple_eq_iff]
  rfl

/-- After a drop, and while the entry of the connection stays in the table, all later packets of
the connection are dropped iff none of them closes the blocked connection without matching a rule
itself. -/
theorem drops_forever_iff {rm : Option RuleManager} {fp₀ fp fp' : FastPathProcessor} {env₀ : Env}
    {job₀ : PacketJob} {ts : List (Taken FastPathProcessor Event)}
    (hdrop : fp₀.processPacket rm env₀ job₀ = .ok (.drop, fp))
    (hrun : Run (Step rm) fp ts fp')
    (hlive : ∀ s ∈ ts, canonicalTuple job₀.tuple ∈ s.post.connTracker.connections) :
    PacketsSatisfy job₀.tuple ts (fun _ _ action => action = .drop) ↔
      PacketsSatisfy job₀.tuple ts (fun f job _ => f.closes job = false ∨ f.Rematched rm job) := by
  obtain ⟨f₀, hstep₀, hflow₀⟩ := (processPacket_ok hdrop).own
  have hblocked : (fp.flowOf (canonicalTuple job₀.tuple)).state = .blocked := by
    rw [flowOf, hflow₀]
    exact Flow.state_of_drop hstep₀
  clear hdrop hstep₀ hflow₀ f₀
  generalize job₀.tuple = t at *
  -- the induction keeps the connection blocked as long as its packets are dropped
  induction hrun with
  | nil s => exact iff_of_true (fun s hs => by cases hs) (fun s hs => by cases hs)
  | @cons s s' _ l ts hstep _ ih =>
    have hrest (hs' : (s'.flowOf (canonicalTuple t)).state = .blocked) :=
      ih (fun x hx => hlive x (List.mem_cons_of_mem _ hx)) hs'
    simp only [PacketsSatisfy, List.forall_mem_cons] at hrest ⊢
    rcases hstep.flowAt_cases (hlive _ List.mem_cons_self) with
      ⟨env, job, action, f, rfl, hkey, hf, hflow⟩ | ⟨hflow, hother⟩
    · have hiff := Flow.drop_iff_of_blocked hblocked hf
      have hsame := (sameConnection_iff t job.tuple).2 hkey
      by_cases hact : action = .drop
      · subst hact
        have hs' : (s'.flowOf (canonicalTuple t)).state = .blocked := by
          rw [flowOf, hflow]
          exact Flow.state_of_drop hf
        refine and_congr ?_ (hrest hs')
        apply iff_of_true
        · rintro _ _ _ ⟨⟩ -
          rfl
        · rintro _ _ _ ⟨⟩ -
          exact hiff.1 rfl
      · refine iff_of_false (fun h => hact ?_) (fun h => hact ?_)
        · exact h.1 env job action rfl hsame
        · exact hiff.2 (h.1 env job action rfl hsame)
    · have hs' : (s'.flowOf (canonicalTuple t)).state = .blocked := by
        rw [flowOf, hflow]
        exact hblocked
      refine and_congr ?_ (hrest hs')
      refine iff_of_true ?_ ?_ <;>
        exact fun env job action hl hsame =>
          absurd ((sameConnection_iff t job.tuple).1 hsame) (hother env job action hl)

/-- A segment of a connection without payload. -/
def bareSegment (tuple : FiveTuple) (flags : UInt8) : PacketJob where
  tuple := tuple
  data := List.replicate 54 0
  ipOffset := 14
  transportOffset := 34
  payloadOffset := 54
  tcpFlags := flags
  payload_wf := by simp

/-- A client whose address is blocked opens a connection, and the server resets it. -/
def opening : PacketJob := bareSegment ⟨0x0100000a, 0x08080808, 40000, 443, 6⟩ 0x02

def reset : PacketJob := bareSegment opening.tuple.reverse 0x14

def clientBlocked : Option RuleManager := some (RuleManager.blockIP {} 0x0100000a)

/-- The reset of a blocked connection is let through, although the entry is still in the table. -/
theorem reset_forwarded_after_drop :
    ∃ fp₁ fp₂, processPacket clientBlocked {} ⟨0, 0, []⟩ opening = .ok (.drop, fp₁) ∧
      processPacket clientBlocked fp₁ ⟨1, 1, []⟩ reset = .ok (.forward, fp₂) ∧
      SameConnection opening.tuple reset.tuple ∧
      canonicalTuple opening.tuple ∈ fp₁.connTracker.connections ∧
      canonicalTuple opening.tuple ∈ fp₂.connTracker.connections := by
  have h : (do
      let r₁ ← processPacket clientBlocked {} ⟨0, 0, []⟩ opening
      let r₂ ← processPacket clientBlocked r₁.2 ⟨1, 1, []⟩ reset
      return (r₁.1, r₂.1, decide (canonicalTuple opening.tuple ∈ r₁.2.connTracker.connections),
        decide (canonicalTuple opening.tuple ∈ r₂.2.connTracker.connections))) =
      Except.ok (PacketAction.drop, PacketAction.forward, true, true) := by decide +kernel
  obtain ⟨⟨a₁, fp₁⟩, h₁, h⟩ := bind_eq_ok_iff.1 h
  obtain ⟨⟨a₂, fp₂⟩, h₂, h⟩ := bind_eq_ok_iff.1 h
  simp only [pure, Except.pure, Except.ok.injEq, Prod.mk.injEq, decide_eq_true_eq] at h
  obtain ⟨rfl, rfl, hm₁, hm₂⟩ := h
  exact ⟨fp₁, fp₂, h₁, h₂, Or.inr rfl, hm₁, hm₂⟩

theorem drops_forever_iff_reopening :
    ∃ fp₁ fp₂, processPacket clientBlocked {} ⟨0, 0, []⟩ opening = .ok (.drop, fp₁) ∧
      PacketsSatisfy opening.tuple [⟨fp₁, .packet ⟨1, 1, []⟩ opening .drop, fp₂⟩]
        (fun _ _ action => action = .drop) := by
  have h : (do
      let r₁ ← processPacket clientBlocked {} ⟨0, 0, []⟩ opening
      let r₂ ← processPacket clientBlocked r₁.2 ⟨1, 1, []⟩ opening
      return (r₁.1, r₂.1, decide (canonicalTuple opening.tuple ∈ r₂.2.connTracker.connections),
        (r₁.2.flowOf (canonicalTuple opening.tuple)).closes opening)) =
      Except.ok (PacketAction.drop, PacketAction.drop, true, false) := by decide +kernel
  obtain ⟨⟨a₁, fp₁⟩, h₁, h⟩ := bind_eq_ok_iff.1 h
  obtain ⟨⟨a₂, fp₂⟩, h₂, h⟩ := bind_eq_ok_iff.1 h
  simp only [pure, Except.pure, Except.ok.injEq, Prod.mk.injEq, decide_eq_true_eq] at h
  obtain ⟨rfl, rfl, hm, hopen⟩ := h
  refine ⟨fp₁, fp₂, h₁, (drops_forever_iff h₁ (.cons (.packet h₂) (.nil _)) ?_).2 ?_⟩
  · simpa using hm
  · simp only [PacketsSatisfy, List.mem_singleton, forall_eq]
    rintro _ _ _ ⟨⟩ -
    exact Or.inl hopen

/-! ## Blocked names -/

theorem visibleName_of_no_payload {job : PacketJob} (h : job.payloadLength = 0) :
    visibleName job = .ok none := by
  have hp : job.payload = [] := by rw [PacketJob.payload, h, List.take_zero]
  have htls : tlsName job = .ok none := by
    unfold tlsName
    rw [hp, show SNIExtractor.extract [] = .ok none from rfl]
    split_ifs <;> rfl
  have hhttp : httpName job = .ok none := by
    unfold httpName
    rw [hp, show HTTPHostExtractor.extract [] = .ok none from rfl]
    split_ifs <;> rfl
  have hdns : dnsName job = .ok none := by
    unfold dnsName
    rw [hp, show DNSExtractor.extractQuery [] = .ok none from rfl]
    split_ifs <;> rfl
  rw [visibleName, htls, hhttp, hdns]
  rfl

namespace Flow

/-- A packet that carries a blocked name is dropped unless its connection is already classified
and no rule matches what the connection was classified as. -/
theorem drop_iff_of_blockedName {rm : RuleManager} {f f' : Flow} {job : PacketJob}
    {action : PacketAction} {app : AppType} {name : Str}
    (hname : visibleName job = .ok (some (app, name))) (hne : name ≠ [])
    (hblocked : rm.isDomainBlocked name = true)
    (h : f.step (some rm) job = .ok (action, f')) :
    action = .drop ↔ (f.receive job).state ≠ .classified ∨
      (f.receive job).matched (some rm) job = true := by
  rcases step_ok_cases h with ⟨hb, rfl, -⟩ | ⟨-, g, hg, hd⟩
  · exact iff_of_true rfl (Or.inl (by rw [hb]; decide))
  · have hact : action = .drop ↔ g.matched (some rm) job = true := by
      rw [← decide_fst, hd]
    by_cases hc : (f.receive job).state = .classified
    · rw [inspected, if_neg (fun hi => hi.1 hc)] at hg
      cases hg
      rw [hact]
      exact ⟨Or.inr, fun hm => hm.resolve_left (not_not.2 hc)⟩
    · have hlen : job.payloadLength > 0 := by
        by_contra hz
        rw [visibleName_of_no_payload (by omega)] at hname
        cases hname
      rw [inspected, if_pos ⟨hc, hlen⟩, inspect, hname] at hg
      have hg' : (f.receive job).classify app name = g := Except.ok.inj hg
      have hsni : g.sni = name := by
        rw [← hg', classify, if_neg hc]
      refine iff_of_true (hact.2 ?_) (Or.inl hc)
      rw [matched, RuleManager.isSome_shouldBlock, hsni]
      exact Or.inr (Or.inr (Or.inr ⟨hne, hblocked⟩))

end Flow

/-- In every run, a packet that carries a blocked name is dropped iff its connection is not yet
classified when the packet is inspected, or a rule matches the packet and what its connection was
classified as. -/
theorem blocked_name_dropped_iff {rm : RuleManager} {fp fp' : FastPathProcessor}
    {ts : List (Taken FastPathProcessor Event)} (hrun : Run (Step (some rm)) fp ts fp')
    {s : Taken FastPathProcessor Event} (hs : s ∈ ts) {env : Env} {job : PacketJob}
    {action : PacketAction} (hlabel : s.label = .packet env job action)
    {app : AppType} {name : Str} (hname : visibleName job = .ok (some (app, name)))
    (hne : name ≠ []) (hblocked : rm.isDomainBlocked name = true) :
    action = .drop ↔
      ((s.pre.flowOf (canonicalTuple job.tuple)).receive job).state ≠ .classified ∨
      ((s.pre.flowOf (canonicalTuple job.tuple)).receive job).matched (some rm) job = true := by
  have hstep := hrun.step_of_mem hs
  rw [hlabel] at hstep
  cases hstep with
  | packet h =>
    obtain ⟨f, hf, -⟩ := (processPacket_ok h).own
    exact Flow.drop_iff_of_blockedName hname hne hblocked hf

/-- A segment to a web server that carries a request for a host. -/
def request (host : String) : PacketJob where
  tuple := ⟨0x0100000a, 0x08080808, 40000, 80, 6⟩
  data := List.replicate 54 0 ++ requestText host
  ipOffset := 14
  transportOffset := 34
  payloadOffset := 54
  payloadLength := (requestText host).length
  tcpFlags := 0x18
  payload_wf := fun _ => by rw [List.length_append, List.length_replicate]

/-- The answer of the server. -/
def answer : PacketJob := bareSegment (request "ok.com").tuple.reverse 0x10

/-- A request of another client. -/
def otherRequest (host : String) : PacketJob :=
  { request host with tuple := ⟨0x0200000a, 0x08080808, 40001, 80, 6⟩ }

def badHostBlocked : RuleManager := RuleManager.blockDomain {} (text "bad.com")

/-- On a connection that a first request classified, a request for a blocked host is let
through. -/
theorem second_request_forwarded :
    ∃ fp₁ fp₂,
      processPacket (some badHostBlocked) {} ⟨0, 0, []⟩ (request "ok.com") = .ok (.forward, fp₁) ∧
      processPacket (some badHostBlocked) fp₁ ⟨1, 1, []⟩ (request "bad.com") =
        .ok (.forward, fp₂) ∧
      visibleName (request "bad.com") = .ok (some (.https, text "bad.com")) ∧
      badHostBlocked.isDomainBlocked (text "bad.com") = true := by
  have h : (do
      let r₁ ← processPacket (some badHostBlocked) {} ⟨0, 0, []⟩ (request "ok.com")
      let r₂ ← processPacket (some badHostBlocked) r₁.2 ⟨1, 1, []⟩ (request "bad.com")
      return (r₁.1, r₂.1)) = Except.ok (PacketAction.forward, PacketAction.forward) := by
    decide +kernel
  obtain ⟨⟨a₁, fp₁⟩, h₁, h⟩ := bind_eq_ok_iff.1 h
  obtain ⟨⟨a₂, fp₂⟩, h₂, h⟩ := bind_eq_ok_iff.1 h
  cases h
  exact ⟨fp₁, fp₂, h₁, h₂, by decide +kernel, by decide +kernel⟩

theorem blocked_name_dropped_iff_first_request :
    ∃ fp₁, processPacket (some badHostBlocked) {} ⟨0, 0, []⟩ (request "bad.com") =
      .ok (.drop, fp₁) := by
  have h : (do
      let r₁ ← processPacket (some badHostBlocked) {} ⟨0, 0, []⟩ (request "bad.com")
      return ()) = Except.ok () := by decide +kernel
  obtain ⟨⟨action, fp₁⟩, h₁, -⟩ := bind_eq_ok_iff.1 h
  have hname : visibleName (request "bad.com") = .ok (some (.https, text "bad.com")) := by
    decide +kernel
  have hfresh : ((flowOf {} (canonicalTuple (request "bad.com").tuple)).receive
      (request "bad.com")).state ≠ .classified := by decide +kernel
  have hdrop : action = .drop :=
    (blocked_name_dropped_iff (.cons (.packet h₁) (.nil _)) List.mem_cons_self rfl hname
      (by decide) (by decide)).2 (Or.inl hfresh)
  exact ⟨fp₁, hdrop ▸ h₁⟩

end DPI
