import DpiEngine.Worker

/-!
# Classification over the life of a connection

When the state of a connection only moves forward and keeps the name it was classified by, and when
the first name that is visible in its packets is recorded.
-/

namespace DPI

open Bytes FastPathProcessor

/-- What inspection classifies the connection of a packet as: the visible name, or the port. -/
def classification (job : PacketJob) : Checked (Option (AppType × Str)) := do
  match ← visibleName job with
  | some name => return some name
  | none => return (portApp job.tuple).map fun app => (app, [])

namespace Flow

variable {f f' g : Flow} {job : PacketJob}

theorem inspect_eq (f : Flow) (job : PacketJob) :
    f.inspect job = (fun c => c.elim f fun a => f.classify a.1 a.2) <$> classification job := by
  unfold inspect classification
  cases visibleName job with
  | error e => rfl
  | ok name =>
    cases name with
    | some name => rfl
    | none => cases portApp job.tuple <;> simp [ok_bind]

/-- Inspection of the packet classifies the flow as the application, by the name. -/
def Classifies (f : Flow) (job : PacketJob) (app : AppType) (name : Str) : Prop :=
  f.state ≠ .classified ∧ job.payloadLength > 0 ∧ classification job = .ok (some (app, name))

/-- Inspection classifies the flow or leaves it alone. -/
theorem inspected_cases (h : f.inspected job = .ok g) :
    (∃ app name, f.Classifies job app name ∧
      g = { f with appType := app, sni := name, state := .classified }) ∨
    ((∀ app name, ¬ f.Classifies job app name) ∧ g = f) := by
  unfold inspected at h
  split_ifs at h with hi
  · rw [inspect_eq] at h
    rcases hc : classification job with e | _ | ⟨app, name⟩
    · rw [hc] at h
      cases h
    · rw [hc] at h
      cases h
      refine Or.inr ⟨fun app name hn => ?_, rfl⟩
      have hsome := hn.2.2
      rw [hc] at hsome
      cases hsome
    · rw [hc] at h
      cases h
      refine Or.inl ⟨app, name, ⟨hi.1, hi.2, hc⟩, ?_⟩
      exact if_neg hi.1
  · cases h
    exact Or.inr ⟨fun app name hn => hi ⟨hn.1, hn.2.1⟩, rfl⟩

@[simp] theorem appType_receive (f : Flow) (job : PacketJob) :
    (f.receive job).appType = f.appType := by
  unfold receive tcp
  split_ifs <;> rfl

@[simp] theorem sni_receive (f : Flow) (job : PacketJob) : (f.receive job).sni = f.sni := by
  unfold receive tcp
  split_ifs <;> rfl

/-- Flags close a connection, establish a new one, or leave its state alone. -/
theorem state_receive_cases (f : Flow) (job : PacketJob) :
    (f.closes job = true ∧ (f.receive job).state = .closed) ∨
    (f.closes job = false ∧ ((f.receive job).state = f.state ∨
      f.state = .new ∧ (f.receive job).state = .established)) := by
  unfold receive closes
  by_cases hp : job.tuple.protocol = 6
  · rw [if_pos hp]
    by_cases hc : f.closedBy job.tcpFlags = true
    · exact Or.inl ⟨by simp [hp, hc], if_pos hc⟩
    · refine Or.inr ⟨by simp [hc], ?_⟩
      simp only [tcp, if_neg hc]
      split_ifs with h
      · simp only [Bool.and_eq_true, beq_iff_eq] at h
        exact Or.inr ⟨h.2, rfl⟩
      · exact Or.inl rfl
  · rw [if_neg hp]
    exact Or.inr ⟨by simp [hp], Or.inl rfl⟩

end Flow

/-! ## Forward steps -/

/-- The order of the states of a connection; a blocked connection is outside of it. -/
def ConnectionState.rank : ConnectionState → ℕ
  | .new => 0
  | .established => 1
  | .classified => 2
  | .closed => 3
  | .blocked => 4

namespace Flow

variable {f f' g : Flow} {job : PacketJob}

/-- From an earlier to a later moment, the state does not move backwards, and a classified
connection keeps its application and name. -/
structure Forward (f g : Flow) : Prop where
  state : f.state.rank ≤ g.state.rank
  names : f.state = .classified → g.appType = f.appType ∧ g.sni = f.sni

/-- A packet with payload closes the connection or finds it closed, and is inspected all the same:
it classifies the connection as the application, by the name. -/
def Reopens (f : Flow) (job : PacketJob) (app : AppType) (name : Str) : Prop :=
  (f.closes job = true ∨ f.state = .closed) ∧ job.payloadLength > 0 ∧
    classification job = .ok (some (app, name))

/-- Forward, and a closed connection keeps its names as well; unlike `Forward` this can be
composed. -/
structure Onward (f g : Flow) : Prop where
  state : f.state.rank ≤ g.state.rank
  names : 2 ≤ f.state.rank → g.appType = f.appType ∧ g.sni = f.sni

theorem Onward.trans {a b c : Flow} (h : Onward a b) (h' : Onward b c) : Onward a c where
  state := h.state.trans h'.state
  names := fun ha => by
    obtain ⟨happ, hsni⟩ := h.names ha
    obtain ⟨happ', hsni'⟩ := h'.names (ha.trans h.state)
    exact ⟨happ'.trans happ, hsni'.trans hsni⟩

theorem Onward.forward (h : Onward f g) : Forward f g where
  state := h.state
  names := fun hf => h.names (by rw [hf, ConnectionState.rank])

theorem state_receive_ne_blocked (hf : f.state ≠ .blocked) (job : PacketJob) :
    (f.receive job).state ≠ .blocked := by
  rcases state_receive_cases f job with ⟨-, h⟩ | ⟨-, h | ⟨-, h⟩⟩
  · rw [h]
    decide
  · rw [h]
    exact hf
  · rw [h]
    decide

/-- Flags move a connection onward. -/
theorem onward_receive (hf : f.state ≠ .blocked) (job : PacketJob) : Onward f (f.receive job) := by
  refine ⟨?_, fun _ => ⟨appType_receive f job, sni_receive f job⟩⟩
  rcases state_receive_cases f job with ⟨-, h⟩ | ⟨-, h | ⟨hnew, h⟩⟩
  · rw [h]
    cases hs : f.state with
    | blocked => exact absurd hs hf
    | new | established | classified | closed => decide
  · rw [h]
  · rw [h, hnew]
    decide

/-- A closed connection stays so under flags. -/
theorem state_receive_eq_closed_iff (f : Flow) (job : PacketJob) :
    (f.receive job).state = .closed ↔ f.closes job = true ∨ f.state = .closed := by
  rcases state_receive_cases f job with ⟨hc, h⟩ | ⟨hc, h | ⟨hnew, h⟩⟩
  · simp [hc, h]
  · simp [hc, h]
  · simp [hc, h, hnew]

/-- A packet that leaves its connection unblocked does what flags and inspection do. -/
theorem inspected_of_step {rm : Option RuleManager} {action : PacketAction}
    (h : f.step rm job = .ok (action, f')) (hf' : f'.state ≠ .blocked) :
    (f.receive job).inspected job = .ok f' := by
  rcases step_ok_cases h with ⟨hb, -, rfl⟩ | ⟨-, g, hg, hd⟩
  · exact absurd hb hf'
  · unfold decide at hd
    split_ifs at hd with hm
    · cases hd
      exact absurd rfl hf'
    · cases hd
      exact hg

theorem reopens_iff (f : Flow) (job : PacketJob) (app : AppType) (name : Str) :
    f.Reopens job app name ↔
      (f.receive job).state = .closed ∧ (f.receive job).Classifies job app name := by
  rw [state_receive_eq_closed_iff, Reopens]
  refine and_congr_right fun hclosed => (and_iff_right ?_).symm
  rw [(state_receive_eq_closed_iff f job).2 hclosed]
  decide

/-- Inspection moves a connection onward unless it classifies a closed one. -/
theorem onward_of_inspected (hf : f.state ≠ .blocked) (h : f.inspected job = .ok g)
    (hopen : ∀ app name, f.Classifies job app name → f.state ≠ .closed) : Onward f g := by
  rcases inspected_cases h with ⟨app, name, hc, rfl⟩ | ⟨-, rfl⟩
  · have hclosed := hopen app name hc
    have hclassified := hc.1
    cases hs : f.state with
    | new | established =>
      refine ⟨?_, fun hrank => ?_⟩
      · rw [hs]
        exact show _ ≤ 2 by decide
      · rw [hs] at hrank
        exact absurd hrank (by decide)
    | classified => exact absurd hs hclassified
    | closed => exact absurd hs hclosed
    | blocked => exact absurd hs hf
  · exact ⟨le_rfl, fun _ => ⟨rfl, rfl⟩⟩

theorem state_of_classifies {app : AppType} {name : Str} (hc : f.Classifies job app name)
    (h : f.inspected job = .ok g) : g.state = .classified ∧ g.appType = app ∧ g.sni = name := by
  rcases inspected_cases h with ⟨app', name', hc', rfl⟩ | ⟨hnot, -⟩
  · have heq := hc.2.2.symm.trans hc'.2.2
    cases heq
    exact ⟨rfl, rfl, rfl⟩
  · exact absurd hc (hnot app name)

/-- A packet moves its connection forward iff it does not reopen it, or it opens a connection that
was not closed before and, if classified, gives it the same names again. -/
theorem forward_packet_iff {rm : Option RuleManager} {action : PacketAction}
    (hf : f.state ≠ .blocked) (h : f.step rm job = .ok (action, f')) (hf' : f'.state ≠ .blocked) :
    Forward f f' ↔ ∀ app name, f.Reopens job app name →
      f.state ≠ .closed ∧ (f.state = .classified → f.appType = app ∧ f.sni = name) := by
  have hi := inspected_of_step h hf'
  constructor
  · intro hforward app name hre
    obtain ⟨hstate, happ, hname⟩ := state_of_classifies ((reopens_iff f job app name).1 hre).2 hi
    refine ⟨fun hclosed => ?_, fun hclassified => ?_⟩
    · have hrank := hforward.state
      rw [hclosed, hstate] at hrank
      exact absurd hrank (by decide)
    · obtain ⟨happ', hname'⟩ := hforward.names hclassified
      exact ⟨happ'.symm.trans happ, hname'.symm.trans hname⟩
  · intro hre
    by_cases hopen : ∀ app name, (f.receive job).Classifies job app name →
        (f.receive job).state ≠ .closed
    · have hr := state_receive_ne_blocked hf job
      exact ((onward_receive hf job).trans (onward_of_inspected hr hi hopen)).forward
    · push Not at hopen
      obtain ⟨app, name, hc, hclosed⟩ := hopen
      obtain ⟨hstate, happ, hname⟩ := state_of_classifies hc hi
      obtain ⟨hf3, hnames⟩ := hre app name ((reopens_iff f job app name).2 ⟨hclosed, hc⟩)
      refine ⟨?_, fun hclassified => ?_⟩
      · rw [hstate]
        cases hs : f.state with
        | new | established | classified => decide
        | closed => exact absurd hs hf3
        | blocked => exact absurd hs hf
      · obtain ⟨happ', hname'⟩ := hnames hclassified
        exact ⟨happ.trans happ'.symm, hname.trans hname'.symm⟩

/-- A forward step of the machine is an onward step. -/
theorem onward_of_forward {e : Event} (hstep : Step f e f') (hf : f.state ≠ .blocked)
    (hf' : f'.state ≠ .blocked) (h : Forward f f') : Onward f f' := by
  refine ⟨h.state, fun hrank => ?_⟩
  cases hs : f.state with
  | new | established =>
    rw [hs] at hrank
    exact absurd hrank (by decide)
  | classified => exact h.names hs
  | blocked => exact absurd hs hf
  | closed =>
    cases hstep with
    | close => exact ⟨rfl, rfl⟩
    | packet hstep =>
      rcases inspected_cases (inspected_of_step hstep hf') with ⟨app, name, -, rfl⟩ | ⟨-, rfl⟩
      · have hback := h.state
        rw [hs] at hback
        exact absurd (show 3 ≤ 2 from hback) (by decide)
      · exact ⟨appType_receive f _, sni_receive f _⟩

theorem onward_close (hf : f.state ≠ .blocked) : Onward f { f with state := .closed } := by
  refine ⟨?_, fun _ => ⟨rfl, rfl⟩⟩
  cases hs : f.state with
  | blocked => exact absurd hs hf
  | new | established | classified | closed => exact show _ ≤ 3 by decide

/-! ## Forward runs -/

/-- Between the events of its life, an unblocked connection moves forward iff no packet reopens it
when it was closed before, or under other names when it was classified before. -/
theorem life_forward_iff {us : List (Taken Flow Event)} (hrun : Run Step f us f')
    (hf : f.state ≠ .blocked) (hus : ∀ t ∈ us, t.post.state ≠ .blocked) :
    (f :: us.map Taken.post).Pairwise Forward ↔
      ∀ t ∈ us, ∀ rm job action, t.label = .packet rm job action →
        ∀ app name, t.pre.Reopens job app name → t.pre.state ≠ .closed ∧
          (t.pre.state = .classified → t.pre.appType = app ∧ t.pre.sni = name) := by
  have hpre : ∀ t ∈ us, t.pre.state ≠ .blocked :=
    hrun.forall_pre (P := fun x => x.state ≠ .blocked) hf hus
  have hsteps : (f :: us.map Taken.post).Pairwise Forward ↔ ∀ t ∈ us, Forward t.pre t.post := by
    constructor
    · exact hrun.of_pairwise
    · intro h
      apply List.Pairwise.imp Onward.forward
      apply hrun.pairwise (R := Onward) fun _ _ _ => Onward.trans
      exact fun t ht => onward_of_forward (hrun.step_of_mem ht) (hpre t ht) (hus t ht) (h t ht)
  rw [hsteps]
  refine forall₂_congr fun t ht => ?_
  have hstep := hrun.step_of_mem ht
  have ht₁ := hpre t ht
  have ht₂ := hus t ht
  obtain ⟨pre, label, post⟩ := t
  change Step pre label post at hstep
  cases hstep with
  | packet hstep =>
    rw [forward_packet_iff ht₁ hstep ht₂]
    constructor
    · rintro h rm job action ⟨⟩
      exact h
    · exact fun h => h _ _ _ rfl
  | close =>
    refine iff_of_true (onward_close ht₁).forward ?_
    rintro rm job action ⟨⟩

/-- The writes to the entry of a connection: the flags of a packet come first, and inspection after
them. -/
inductive Write where
  | flags (job : PacketJob)
  | inspect (job : PacketJob)
  | close

inductive WriteStep : Flow → Write → Flow → Prop
  | flags (f : Flow) (job : PacketJob) : WriteStep f (.flags job) (f.receive job)
  | inspect {f g : Flow} {job : PacketJob} (h : f.inspected job = .ok g) :
      WriteStep f (.inspect job) g
  | close (f : Flow) : WriteStep f .close { f with state := .closed }

/-- The writes of an event that does not block the connection. -/
def writes (t : Taken Flow Event) : List (Taken Flow Write) :=
  match t.label with
  | .packet _ job _ =>
    [⟨t.pre, .flags job, t.pre.receive job⟩, ⟨t.pre.receive job, .inspect job, t.post⟩]
  | .close => [⟨t.pre, .close, t.post⟩]

theorem run_writes {us : List (Taken Flow Event)} (hrun : Run Step f us f')
    (hus : ∀ t ∈ us, t.post.state ≠ .blocked) : Run WriteStep f (us.flatMap writes) f' := by
  induction hrun with
  | nil f => exact .nil f
  | cons hstep _ ih =>
    have hrest := ih fun t ht => hus t (List.mem_cons_of_mem _ ht)
    have hpost := hus _ List.mem_cons_self
    cases hstep with
    | packet hstep =>
      exact .cons (.flags _ _) (.cons (.inspect (inspected_of_step hstep hpost)) hrest)
    | close => exact .cons (.close _) hrest

/-- Between the writes to its entry, an unblocked connection moves forward iff no packet reopens
it. -/
theorem writes_forward_iff {us : List (Taken Flow Event)} (hrun : Run Step f us f')
    (hf : f.state ≠ .blocked) (hus : ∀ t ∈ us, t.post.state ≠ .blocked) :
    (f :: (us.flatMap writes).map Taken.post).Pairwise Forward ↔
      ∀ t ∈ us, ∀ rm job action, t.label = .packet rm job action →
        ∀ app name, ¬ t.pre.Reopens job app name := by
  have hpre := hrun.forall_pre (P := fun x => x.state ≠ .blocked) hf hus
  have hwrites := run_writes hrun hus
  constructor
  · intro h t ht rm job action hlabel app name hre
    obtain ⟨hclosed, hc⟩ := (reopens_iff _ _ _ _).1 hre
    have hstep := hrun.step_of_mem ht
    have hpost := hus t ht
    have hlast : (⟨t.pre.receive job, .inspect job, t.post⟩ : Taken Flow Write) ∈
        us.flatMap writes := by
      refine List.mem_flatMap.2 ⟨t, ht, ?_⟩
      rw [writes, hlabel]
      simp
    have hrank := (hwrites.of_pairwise h _ hlast).state
    rw [hlabel] at hstep
    cases hstep with
    | packet hstep =>
      rw [hclosed, (state_of_classifies hc (inspected_of_step hstep hpost)).1] at hrank
      exact absurd hrank (by decide)
  · intro h
    apply List.Pairwise.imp Onward.forward
    apply hwrites.pairwise (R := Onward) fun _ _ _ => Onward.trans
    intro w hw
    obtain ⟨t, ht, hw⟩ := List.mem_flatMap.1 hw
    have ht₁ := hpre t ht
    have hre := h t ht
    have hstep := hrun.step_of_mem ht
    have hpost := hus t ht
    obtain ⟨pre, label, post⟩ := t
    change Step pre label post at hstep
    cases hstep with
    | packet hstep =>
      simp only [writes, List.mem_cons, List.not_mem_nil, or_false] at hw
      rcases hw with rfl | rfl
      · exact onward_receive ht₁ _
      · apply onward_of_inspected (state_receive_ne_blocked ht₁ _) (inspected_of_step hstep hpost)
        intro app name hc hclosed
        exact hre _ _ _ rfl app name ((reopens_iff _ _ _ _).2 ⟨hclosed, hc⟩)
    | close =>
      simp only [writes, List.mem_singleton] at hw
      rw [hw]
      exact onward_close ht₁

end Flow

namespace FastPathProcessor

variable {fp fp' : FastPathProcessor} {key : FiveTuple}
  {ts : List (Taken FastPathProcessor WorkerEvent)}

/-- In every run over a connection that is never blocked: between the events of the connection its
state moves forward and its names stay iff no packet reopens it when it was closed before, or under
other names when it was classified before; and between all writes to its entry iff no packet reopens
it at all. -/
theorem connection_forward_iff (hrun : Run WorkerStep fp ts fp') (hkeep : ∀ s ∈ ts, Keeps key s)
    (hstart : (fp.flowOf key).state ≠ .blocked)
    (hnever : ∀ t ∈ life key ts, t.post.state ≠ .blocked) :
    ((fp.flowOf key :: (life key ts).map Taken.post).Pairwise Flow.Forward ↔
      ∀ t ∈ life key ts, ∀ rm job action, t.label = .packet rm job action →
        ∀ app name, t.pre.Reopens job app name → t.pre.state ≠ .closed ∧
          (t.pre.state = .classified → t.pre.appType = app ∧ t.pre.sni = name)) ∧
    ((fp.flowOf key :: ((life key ts).flatMap Flow.writes).map Taken.post).Pairwise Flow.Forward ↔
      ∀ t ∈ life key ts, ∀ rm job action, t.label = .packet rm job action →
        ∀ app name, ¬ t.pre.Reopens job app name) :=
  ⟨Flow.life_forward_iff (run_life hrun hkeep) hstart hnever,
    Flow.writes_forward_iff (run_life hrun hkeep) hstart hnever⟩

/-- A reset of the connection of a request. -/
def requestReset : PacketJob := bareSegment (request "ok.com").tuple 0x04

/-- A request, its answer and a reset, and the request of another client between them. -/
def requestToReset : List WorkerEvent :=
  [.packet none ⟨0, 0, []⟩ (request "ok.com") .forward,
    .packet none ⟨1, 1, []⟩ (otherRequest "ok.com") .forward,
    .packet none ⟨2, 2, []⟩ answer .forward,
    .packet none ⟨3, 3, []⟩ requestReset .forward]

theorem connection_forward_iff_reset :
    ∃ ts fp, Run.trace after {} requestToReset = some (ts, fp) ∧
      let life := life (canonicalTuple requestReset.tuple) ts
      life.map (fun t => t.post.state) = [.classified, .classified, .closed] ∧
      (flowOf {} (canonicalTuple requestReset.tuple) :: life.map Taken.post).Pairwise
        Flow.Forward ∧
      (flowOf {} (canonicalTuple requestReset.tuple) ::
        (life.flatMap Flow.writes).map Taken.post).Pairwise Flow.Forward := by
  let quiet (t : Taken Flow Flow.Event) : Bool :=
    t.label.job.all fun job =>
      job.payloadLength == 0 || !t.pre.closes job && t.pre.state != .closed
  have h : ((Run.trace after {} requestToReset).map fun r =>
      decide ((∀ s ∈ r.1, Keeps (canonicalTuple requestReset.tuple) s) ∧
        (life (canonicalTuple requestReset.tuple) r.1).map (fun t => t.post.state) =
          [.classified, .classified, .closed] ∧
        ∀ t ∈ life (canonicalTuple requestReset.tuple) r.1,
          t.post.state ≠ .blocked ∧ quiet t = true)) = some true := by decide +kernel
  obtain ⟨⟨ts, fp⟩, htrace, h⟩ := Option.map_eq_some_iff.1 h
  obtain ⟨hkeep, hstates, hquiet⟩ := of_decide_eq_true h
  have hopen (t) (ht : t ∈ life (canonicalTuple requestReset.tuple) ts) (rm job action)
      (hlabel : t.label = .packet rm job action) (app name) : ¬ t.pre.Reopens job app name := by
    rintro ⟨hclosed, hlen, -⟩
    have hq := (hquiet t ht).2
    simp only [quiet, hlabel, Flow.Event.job, Option.all_some] at hq
    rcases hclosed with hclosed | hclosed <;> simp [hclosed] at hq <;> omega
  have hiff := connection_forward_iff (run_of_trace htrace) hkeep (by decide)
    fun t ht => (hquiet t ht).1
  exact ⟨ts, fp, htrace, hstates,
    hiff.1.2 fun t ht rm job action hlabel app name hre =>
      absurd hre (hopen t ht rm job action hlabel app name),
    hiff.2.2 hopen⟩

/-- A request after a reset takes the connection from closed to classified. -/
theorem closed_connection_classified :
    ∃ fp₁ fp₂, processPacket none {} ⟨0, 0, []⟩ requestReset = .ok (.forward, fp₁) ∧
      processPacket none fp₁ ⟨1, 1, []⟩ (request "ok.com") = .ok (.forward, fp₂) ∧
      (fp₁.flowAt (canonicalTuple requestReset.tuple)).map Flow.state = some .closed ∧
      (fp₂.flowAt (canonicalTuple requestReset.tuple)).map Flow.state = some .classified := by
  have h : (do
      let r₁ ← processPacket none {} ⟨0, 0, []⟩ requestReset
      let r₂ ← processPacket none r₁.2 ⟨1, 1, []⟩ (request "ok.com")
      return (r₁.1, r₂.1, (r₁.2.flowAt (canonicalTuple requestReset.tuple)).map Flow.state,
        (r₂.2.flowAt (canonicalTuple requestReset.tuple)).map Flow.state)) =
      Except.ok (PacketAction.forward, PacketAction.forward, some ConnectionState.closed,
        some ConnectionState.classified) := by decide +kernel
  obtain ⟨⟨a₁, fp₁⟩, h₁, h⟩ := bind_eq_ok_iff.1 h
  obtain ⟨⟨a₂, fp₂⟩, h₂, h⟩ := bind_eq_ok_iff.1 h
  simp only [pure, Except.pure, Except.ok.injEq, Prod.mk.injEq] at h
  obtain ⟨rfl, rfl, hs₁, hs₂⟩ := h
  exact ⟨fp₁, fp₂, h₁, h₂, hs₁, hs₂⟩

end FastPathProcessor

end DPI
