import DpiEngine.Classification

/-!
# The first visible name

A connection is meant to be known by the first name that can be read in its packets.  A packet
whose payload says nothing is classified by its port, without a name, and a classified connection
is not inspected again, so the name of a later packet is lost.
-/

namespace DPI

open Bytes FastPathProcessor

namespace Flow

variable {f f' f'' : Flow} {us : List (Taken Flow Event)}

/-- No packet of the connection had a name to record. -/
def Nameless (us : List (Taken Flow Event)) : Prop :=
  ∀ t ∈ us, ∀ rm job action, t.label = .packet rm job action →
    ∀ app name, visibleName job = .ok (some (app, name)) → name = []

/-- Every packet with payload was let through without a classification. -/
def Unclassified (us : List (Taken Flow Event)) : Prop :=
  ∀ t ∈ us, ∀ rm job action, t.label = .packet rm job action →
    job.payloadLength > 0 → classification job = .ok none

/-- What a nameless packet classifies a connection by is empty. -/
theorem name_of_classification {job : PacketJob} {app : AppType} {name : Str}
    (hnone : ∀ app name, visibleName job = .ok (some (app, name)) → name = [])
    (h : classification job = .ok (some (app, name))) : name = [] := by
  unfold classification at h
  rcases hv : visibleName job with e | _ | ⟨app', name'⟩
  · rw [hv] at h
    cases h
  · rw [hv] at h
    cases hp : portApp job.tuple with
    | none => rw [hp] at h; cases h
    | some app' => rw [hp] at h; cases h; rfl
  · rw [hv] at h
    cases h
    exact hnone _ _ hv

theorem defined_classification (job : PacketJob) : Defined (classification job) := by
  refine (defined_visibleName job).bind fun name _ => ?_
  cases name <;> exact defined_ok _

/-- What a nameless packet does to a connection that stays open: it classifies it without a name, or
leaves its classification alone. -/
theorem nameless_step {rm : Option RuleManager} {job : PacketJob} {action : PacketAction}
    (h : f.step rm job = .ok (action, f'))
    (hb : f'.state ≠ .blocked) (hc : f'.state ≠ .closed)
    (hnone : ∀ app name, visibleName job = .ok (some (app, name)) → name = [])
    (hsni : f.sni = []) :
    f'.sni = [] ∧ (f'.state = .classified ↔
      f.state = .classified ∨ job.payloadLength > 0 ∧ classification job ≠ .ok none) := by
  rcases inspected_cases (inspected_of_step h hb) with ⟨app, name, hclass, rfl⟩ | ⟨hnot, rfl⟩
  · refine ⟨name_of_classification hnone hclass.2.2, iff_of_true rfl (Or.inr ⟨hclass.2.1, ?_⟩)⟩
    rw [hclass.2.2]
    simp
  · refine ⟨(sni_receive f job).trans hsni, fun hstate => ?_, ?_⟩
    · rcases state_receive_cases f job with ⟨-, h⟩ | ⟨-, h | ⟨-, h⟩⟩
      · exact absurd h hc
      · exact Or.inl (h ▸ hstate)
      · rw [h] at hstate
        cases hstate
    · rintro (hstate | ⟨hlen, hclass⟩)
      · rcases state_receive_cases f job with ⟨-, h⟩ | ⟨-, h | ⟨hnew, -⟩⟩
        · exact absurd h hc
        · exact h.trans hstate
        · rw [hnew] at hstate
          cases hstate
      · by_contra hstate
        obtain ⟨_ | ⟨app, name⟩, ha⟩ := defined_classification job
        · exact hclass ha
        · exact hnot app name ⟨hstate, hlen, ha⟩

/-- After nameless packets an open connection has no name, and it is classified iff one of them
classified it. -/
theorem nameless_run (hrun : Run Step f us f')
    (hopen : ∀ t ∈ us, t.post.state ≠ .blocked ∧ t.post.state ≠ .closed) (hnone : Nameless us)
    (hsni : f.sni = []) :
    f'.sni = [] ∧ (f'.state = .classified ↔ f.state = .classified ∨ ¬ Unclassified us) := by
  induction hrun with
  | nil f =>
    refine ⟨hsni, (or_iff_left ?_).symm⟩
    exact not_not.2 fun t ht => absurd ht List.not_mem_nil
  | @cons f f₁ f' e us hstep _ ih =>
    obtain ⟨hb, hc⟩ := hopen _ List.mem_cons_self
    have hrest := ih (fun t ht => hopen t (List.mem_cons_of_mem _ ht))
      fun t ht => hnone t (List.mem_cons_of_mem _ ht)
    cases hstep with
    | close => exact absurd rfl hc
    | packet hstep =>
      rename_i rm job action
      obtain ⟨hsni₁, hstate₁⟩ :=
        nameless_step hstep hb hc (hnone _ List.mem_cons_self rm job action rfl) hsni
      obtain ⟨hsni', hstate'⟩ := hrest hsni₁
      refine ⟨hsni', ?_⟩
      have hsplit : Unclassified (⟨f, .packet rm job action, f₁⟩ :: us) ↔
          (job.payloadLength > 0 → classification job = .ok none) ∧ Unclassified us := by
        unfold Unclassified
        rw [List.forall_mem_cons]
        refine and_congr_left fun _ => ⟨fun h => h rm job action rfl, ?_⟩
        rintro h _ _ _ ⟨⟩
        exact h
      rw [hstate', hstate₁, hsplit, not_and_or, Classical.not_imp, or_assoc]

/-- The first visible name is recorded iff the packet closes the connection itself or no packet
before it classified the connection. -/
theorem sni_iff_unclassified (hrun : Run Step {} us f)
    (hopen : ∀ t ∈ us, t.post.state ≠ .blocked ∧ t.post.state ≠ .closed) (hnone : Nameless us)
    {rm : Option RuleManager} {job : PacketJob} {action : PacketAction}
    (h : f.step rm job = .ok (action, f')) {app : AppType} {name : Str}
    (hname : visibleName job = .ok (some (app, name))) (hne : name ≠ []) :
    f'.sni = name ↔ f.closes job = true ∨ Unclassified us := by
  obtain ⟨hsni, hstate⟩ := nameless_run hrun hopen hnone rfl
  have hclassified : f.state = .classified ↔ ¬ Unclassified us := by
    rw [hstate]
    exact or_iff_right (by decide)
  obtain ⟨hb, hc⟩ := hrun.last (P := fun x => x.state ≠ .blocked ∧ x.state ≠ .closed)
    ⟨by decide, by decide⟩ hopen
  have hlen : job.payloadLength > 0 := by
    by_contra hz
    rw [visibleName_of_no_payload (by omega)] at hname
    cases hname
  have hclass : classification job = .ok (some (app, name)) := by
    rw [classification, hname]
    rfl
  rcases step_ok_cases h with ⟨hblocked, -, -⟩ | ⟨-, g, hg, hd⟩
  · exact absurd hblocked (state_receive_ne_blocked hb job)
  · have hsni' : f'.sni = g.sni := by
      unfold decide at hd
      split_ifs at hd <;> cases hd <;> rfl
    by_cases hr : (f.receive job).state = .classified
    · have hg' : f.receive job = g := by
        rw [inspected, if_neg fun hi => hi.1 hr] at hg
        exact Except.ok.inj hg
      apply iff_of_false
      · rw [hsni', ← hg', sni_receive, hsni]
        exact Ne.symm hne
      · rcases state_receive_cases f job with ⟨-, h⟩ | ⟨hopen, h | ⟨-, h⟩⟩
        · rw [h] at hr
          cases hr
        · rw [hopen]
          exact not_or.2 ⟨by simp, hclassified.1 (h ▸ hr)⟩
        · rw [h] at hr
          cases hr
    · apply iff_of_true
      · rw [hsni']
        exact (state_of_classifies ⟨hr, hlen, hclass⟩ hg).2.2
      · rcases state_receive_cases f job with ⟨hcloses, -⟩ | ⟨-, h | ⟨hnew, -⟩⟩
        · exact Or.inl hcloses
        · exact Or.inr (by_contra fun hu => hr (h.trans (hclassified.2 hu)))
        · refine Or.inr (by_contra fun hu => ?_)
          have := hclassified.2 hu
          rw [hnew] at this
          cases this

end Flow

namespace FastPathProcessor

variable {fp fp₁ fp₂ : FastPathProcessor} {key : FiveTuple}
  {ts : List (Taken FastPathProcessor WorkerEvent)}

/-- On a new connection that is neither blocked nor closed, the name of the first packet with a
non-empty visible name is recorded iff this packet closes the connection itself, or no packet with
payload before it classified the connection. -/
theorem first_name_recorded_iff (hfresh : key ∉ fp.connTracker.connections)
    (hrun : Run WorkerStep fp ts fp₁) (hkeep : ∀ s ∈ ts, Keeps key s)
    (hopen : ∀ t ∈ life key ts, t.post.state ≠ .blocked ∧ t.post.state ≠ .closed)
    (hnone : Flow.Nameless (life key ts)) {rm : Option RuleManager} {env : Env} {job : PacketJob}
    {action : PacketAction} (h : fp₁.processPacket rm env job = .ok (action, fp₂))
    (hkey : canonicalTuple job.tuple = key) {app : AppType} {name : Str}
    (hname : visibleName job = .ok (some (app, name))) (hne : name ≠ []) :
    (fp₂.flowOf key).sni = name ↔
      (fp₁.flowOf key).closes job = true ∨ Flow.Unclassified (life key ts) := by
  have hstart : fp.flowOf key = {} := by
    rw [flowOf, flowAt, Finmap.lookup_eq_none.2 hfresh]
    rfl
  have hlife := run_life hrun hkeep
  rw [hstart] at hlife
  obtain ⟨f, hstep, hf⟩ := (processPacket_ok h).own
  rw [hkey] at hstep hf
  rw [show fp₂.flowOf key = f by rw [flowOf, hf]; rfl]
  exact Flow.sni_iff_unclassified hlife hopen hnone hstep hname hne

/-- A segment of the connection of a request with one byte of payload, as of a message that was cut
into pieces. -/
def fragment : PacketJob where
  tuple := (request "ok.com").tuple
  data := List.replicate 55 0
  ipOffset := 14
  transportOffset := 34
  payloadOffset := 54
  payloadLength := 1
  tcpFlags := 0x18
  payload_wf := fun _ => by rw [List.length_replicate]

/-- The host of a request that follows a fragment is not recorded. -/
theorem name_after_fragment_lost :
    ∃ fp₁ fp₂, processPacket none {} ⟨0, 0, []⟩ fragment = .ok (.forward, fp₁) ∧
      processPacket none fp₁ ⟨1, 1, []⟩ (request "ok.com") = .ok (.forward, fp₂) ∧
      visibleName fragment = .ok none ∧
      visibleName (request "ok.com") = .ok (some (.https, text "ok.com")) ∧
      (fp₁.flowOf (canonicalTuple fragment.tuple)).state = .classified ∧
      (fp₂.flowOf (canonicalTuple fragment.tuple)).sni = [] := by
  have h : (do
      let r₁ ← processPacket none {} ⟨0, 0, []⟩ fragment
      let r₂ ← processPacket none r₁.2 ⟨1, 1, []⟩ (request "ok.com")
      return (r₁.1, r₂.1, (r₁.2.flowOf (canonicalTuple fragment.tuple)).state,
        (r₂.2.flowOf (canonicalTuple fragment.tuple)).sni)) =
      Except.ok (PacketAction.forward, PacketAction.forward, ConnectionState.classified, []) := by
    decide +kernel
  obtain ⟨⟨a₁, fp₁⟩, h₁, h⟩ := bind_eq_ok_iff.1 h
  obtain ⟨⟨a₂, fp₂⟩, h₂, h⟩ := bind_eq_ok_iff.1 h
  simp only [pure, Except.pure, Except.ok.injEq, Prod.mk.injEq] at h
  obtain ⟨rfl, rfl, hs₁, hs₂⟩ := h
  exact ⟨fp₁, fp₂, h₁, h₂, by decide +kernel, by decide +kernel, hs₁, hs₂⟩

/-- A connection is opened, and another client asks for a host. -/
def beforeRequest : List WorkerEvent :=
  [.packet none ⟨0, 0, []⟩ (bareSegment (request "ok.com").tuple 0x02) .forward,
    .packet none ⟨1, 1, []⟩ (otherRequest "bad.com") .forward]

/-- The host of a request that follows the opening of its connection is recorded. -/
theorem first_name_recorded_iff_request :
    ∃ ts fp₁ fp₂, Run.trace after {} beforeRequest = some (ts, fp₁) ∧
      (life (canonicalTuple (request "ok.com").tuple) ts).length = 1 ∧
      processPacket none fp₁ ⟨2, 2, []⟩ (request "ok.com") = .ok (.forward, fp₂) ∧
      (fp₂.flowOf (canonicalTuple (request "ok.com").tuple)).sni = text "ok.com" := by
  let silent (t : Taken Flow Flow.Event) : Bool :=
    t.label.job.any fun job => decide (visibleName job = .ok none) && job.payloadLength == 0
  have h : ((Run.trace after {} beforeRequest).map fun r =>
      (decide ((∀ s ∈ r.1, Keeps (canonicalTuple (request "ok.com").tuple) s) ∧
        (life (canonicalTuple (request "ok.com").tuple) r.1).length = 1 ∧
        ∀ t ∈ life (canonicalTuple (request "ok.com").tuple) r.1,
          (t.post.state ≠ .blocked ∧ t.post.state ≠ .closed) ∧ silent t = true), do
      let r₂ ← processPacket none r.2 ⟨2, 2, []⟩ (request "ok.com")
      return r₂.1)) = some (true, Except.ok PacketAction.forward) := by decide +kernel
  obtain ⟨⟨ts, fp₁⟩, htrace, h⟩ := Option.map_eq_some_iff.1 h
  obtain ⟨h, hprocess⟩ := Prod.mk.inj h
  obtain ⟨hkeep, hlength, hlife⟩ := of_decide_eq_true h
  obtain ⟨⟨a, fp₂⟩, hprocess, ha⟩ := bind_eq_ok_iff.1 hprocess
  cases ha
  refine ⟨ts, fp₁, fp₂, htrace, hlength, hprocess, ?_⟩
  have hsilent (t) (ht : t ∈ life (canonicalTuple (request "ok.com").tuple) ts) {rm job action}
      (hlabel : t.label = .packet rm job action) :
      visibleName job = .ok none ∧ job.payloadLength = 0 := by
    have hs := (hlife t ht).2
    simpa [silent, hlabel, Flow.Event.job] using hs
  have hname : visibleName (request "ok.com") = .ok (some (.https, text "ok.com")) := by
    decide +kernel
  apply (first_name_recorded_iff Finmap.notMem_empty (run_of_trace htrace) hkeep
    (fun t ht => (hlife t ht).1) ?_ hprocess rfl hname (by decide)).2
  · refine Or.inr fun t ht rm job action hlabel hlen => ?_
    rw [(hsilent t ht hlabel).2] at hlen
    exact absurd hlen (lt_irrefl 0)
  · intro t ht rm job action hlabel app name hname
    rw [(hsilent t ht hlabel).1] at hname
    cases hname

end FastPathProcessor

end DPI
