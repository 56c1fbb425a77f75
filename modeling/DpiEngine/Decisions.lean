import DpiEngine.Classification

/-!
# Decisions and the rules behind them

No packet passes that a rule in force matches, and no packet is dropped without a rule that matched
it or an earlier packet of its connection.  The rules may be others for every packet.
-/

namespace DPI

open Bytes FastPathProcessor

namespace Flow

variable {f f' : Flow} {rm : Option RuleManager} {job : PacketJob} {action : PacketAction}

/-- No rule matches a packet that is let through and its connection. -/
theorem not_matched_of_forward (h : f.step rm job = .ok (.forward, f')) :
    f'.matched rm job = false := by
  rcases step_ok_cases h with ⟨-, hf, -⟩ | ⟨-, g, -, hd⟩
  · cases hf
  · unfold decide at hd
    by_cases hm : g.matched rm job = true
    · rw [if_pos hm] at hd
      cases hd
    · rw [if_neg hm] at hd
      cases hd
      simpa using hm

/-- A packet after which its connection is blocked was matched by a rule, or its connection was
blocked before. -/
theorem matched_or_blocked (h : f.step rm job = .ok (action, f')) (hb : f'.state = .blocked) :
    f.Rematched rm job ∨ f.state = .blocked := by
  by_cases hf : f.state = .blocked
  · exact Or.inr hf
  · left
    have hr := state_receive_ne_blocked hf job
    rcases step_ok_cases h with ⟨hblocked, -, -⟩ | ⟨-, g, hg, hd⟩
    · exact absurd hblocked hr
    · refine ⟨g, hg, ?_⟩
      by_contra hm
      rw [decide, if_neg hm] at hd
      cases hd
      rcases inspected_cases hg with ⟨app, name, -, rfl⟩ | ⟨-, rfl⟩
      · cases hb
      · exact hr hb

end Flow

namespace FastPathProcessor

variable {fp fp' : FastPathProcessor} {key : FiveTuple}
  {ts : List (Taken FastPathProcessor WorkerEvent)}

/-- The step takes a packet of the connection, and a rule in force matches the packet and its
connection once the packet is inspected. -/
def Matched (key : FiveTuple) (s : Taken FastPathProcessor WorkerEvent) : Prop :=
  ∃ rm env job action, s.label = .packet rm env job action ∧ canonicalTuple job.tuple = key ∧
    (s.pre.flowOf key).Rematched rm job

theorem mem_connections_of_blocked (h : (fp.flowOf key).state = .blocked) :
    key ∈ fp.connTracker.connections := by
  rw [← isSome_flowAt]
  by_contra hnone
  rw [flowOf, Option.not_isSome_iff_eq_none.1 hnone] at h
  cases h

/-- A step with which a connection comes to be blocked takes a packet that a rule matches. -/
theorem matched_of_comes_blocked {t : Taken FastPathProcessor WorkerEvent}
    (hstep : WorkerStep t.pre t.label t.post) (hpre : (t.pre.flowOf key).state ≠ .blocked)
    (hpost : (t.post.flowOf key).state = .blocked) : Matched key t := by
  obtain ⟨fp, e, fp₁⟩ := t
  rcases hstep.flowOf_cases fun _ => mem_connections_of_blocked hpost with
    ⟨e', he', hflow⟩ | ⟨-, hflow⟩
  · dsimp only at hpre hpost hflow
    generalize fp₁.flowOf key = f₁ at hflow hpost
    cases hflow with
    | packet hpacket =>
      obtain ⟨env, rfl, hkey⟩ := label_of_flowEvent he'
      have hmatch := (Flow.matched_or_blocked hpacket hpost).resolve_right hpre
      exact ⟨_, env, _, _, rfl, hkey, hmatch⟩
    | close => cases hpost
  · exact absurd (hflow ▸ hpost) hpre

/-- A connection that is blocked has been so all along, or since a rule matched one of its packets;
its entry was kept since. -/
theorem blocked_since (hrun : Run WorkerStep fp ts fp') (hb : (fp'.flowOf key).state = .blocked) :
    (fp.flowOf key).state = .blocked ∨
      ∃ a s b, ts = a ++ s :: b ∧ Matched key s ∧
        ∀ x ∈ b, key ∈ x.post.connTracker.connections := by
  rcases hrun.always_or_since (P := fun fp => (fp.flowOf key).state = .blocked) hb with
    ⟨hstart, -⟩ | ⟨a, s, b, rfl, hpre, hpost, hsince⟩
  · exact Or.inl hstart
  · have hstep := hrun.step_of_mem (List.mem_append_right a List.mem_cons_self)
    exact Or.inr ⟨a, s, b, rfl, matched_of_comes_blocked hstep hpre hpost,
      fun x hx => mem_connections_of_blocked (hsince x hx)⟩

/-- In every run of a new worker, whatever the rules at each packet: a packet is let through only if
no rule matches it and its connection, and dropped only if a rule matched it or an earlier packet of
its connection, in either direction and since the entry was created. -/
theorem decision_justified (hempty : fp.connTracker.connections = ∅)
    (hrun : Run WorkerStep fp ts fp') :
    (∀ s ∈ ts, ∀ rm env job, s.label = .packet rm env job .forward →
      (s.post.flowOf (canonicalTuple job.tuple)).matched rm job = false) ∧
    (∀ a s b, ts = a ++ s :: b → ∀ rm env job, s.label = .packet rm env job .drop →
      Matched (canonicalTuple job.tuple) s ∨
      ∃ a₁ s' a₂, a = a₁ ++ s' :: a₂ ∧ Matched (canonicalTuple job.tuple) s' ∧
        ∀ x ∈ a₂, canonicalTuple job.tuple ∈ x.post.connTracker.connections) := by
  constructor
  · intro s hs rm env job hlabel
    have hstep := hrun.step_of_mem hs
    rw [hlabel] at hstep
    cases hstep with
    | packet h =>
      obtain ⟨f, hf, hpost⟩ := (processPacket_ok h).own
      rw [flowOf, hpost]
      exact Flow.not_matched_of_forward hf
  · rintro a s b rfl rm env job hlabel
    obtain ⟨m, hbefore, hrest⟩ := Run.append_iff.1 hrun
    cases hrest with
    | cons hstep _ =>
      change WorkerStep _ _ _ at hstep
      obtain rfl : _ = _ := hlabel
      cases hstep with
      | packet h =>
        obtain ⟨f, hf, -⟩ := (processPacket_ok h).own
        rcases Flow.matched_or_blocked hf (Flow.state_of_drop hf) with hmatch | hblocked
        · exact Or.inl ⟨rm, env, job, .drop, rfl, rfl, hmatch⟩
        · rcases blocked_since hbefore hblocked with hstart | hsince
          · have hmem := mem_connections_of_blocked hstart
            rw [hempty] at hmem
            exact absurd hmem Finmap.notMem_empty
          · exact Or.inr hsince

/-- Where the rules are gone, the answer to a request for a blocked host is dropped because a rule
matched the request. -/
theorem decision_justified_answer :
    ∃ fp₁ fp₂ fp₃,
      processPacket (some badHostBlocked) {} ⟨0, 0, []⟩ (request "bad.com") = .ok (.drop, fp₁) ∧
      processPacket none fp₁ ⟨1, 1, []⟩ (otherRequest "ok.com") = .ok (.forward, fp₂) ∧
      processPacket none fp₂ ⟨2, 2, []⟩ answer = .ok (.drop, fp₃) ∧
      ∃ a₁ s a₂, [⟨{}, .packet (some badHostBlocked) ⟨0, 0, []⟩ (request "bad.com") .drop, fp₁⟩,
          ⟨fp₁, .packet none ⟨1, 1, []⟩ (otherRequest "ok.com") .forward, fp₂⟩] = a₁ ++ s :: a₂ ∧
        Matched (canonicalTuple answer.tuple) s ∧
        ∀ x ∈ a₂, canonicalTuple answer.tuple ∈ x.post.connTracker.connections := by
  have h : (do
      let r₁ ← processPacket (some badHostBlocked) {} ⟨0, 0, []⟩ (request "bad.com")
      let r₂ ← processPacket none r₁.2 ⟨1, 1, []⟩ (otherRequest "ok.com")
      let r₃ ← processPacket none r₂.2 ⟨2, 2, []⟩ answer
      return (r₁.1, r₂.1, r₃.1)) =
      Except.ok (PacketAction.drop, PacketAction.forward, PacketAction.drop) := by decide +kernel
  obtain ⟨⟨a₁, fp₁⟩, h₁, h⟩ := bind_eq_ok_iff.1 h
  obtain ⟨⟨a₂, fp₂⟩, h₂, h⟩ := bind_eq_ok_iff.1 h
  obtain ⟨⟨a₃, fp₃⟩, h₃, h⟩ := bind_eq_ok_iff.1 h
  cases h
  refine ⟨fp₁, fp₂, fp₃, h₁, h₂, h₃, ?_⟩
  have hrun : Run WorkerStep {} _ fp₃ :=
    .cons (.packet h₁) (.cons (.packet h₂) (.cons (.packet h₃) (.nil _)))
  rcases (decision_justified rfl hrun).2 [_, _] _ [] rfl _ _ _ rfl with hmatch | hbefore
  · obtain ⟨_, _, _, _, hlabel, -, g, -, hmatched⟩ := hmatch
    cases hlabel
    cases hmatched
  · exact hbefore

end FastPathProcessor

end DPI
