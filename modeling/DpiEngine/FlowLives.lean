import DpiEngine.Decisions
import DpiEngine.Ordering
import DpiEngine.TableMoves

/-!
# The lives of a connection

A full table evicts an entry for a new one and an idle fast path removes those that are stale; the
next packet of such a connection finds a fresh entry.  The engine therefore decides the packets of a
connection in lives, and within a life each packet by the rules, the packets before it, and nothing
else.
-/

namespace DPI

open Bytes FastPathProcessor

namespace Flow

variable {rm : Option RuleManager} {f f' : Flow} {job : PacketJob} {action : PacketAction}
  {life : List (PacketJob × PacketAction)}

/-- The machine of one flow gives the packets the actions paired with them. -/
abbrev Serves (rm : Option RuleManager) :
    Flow → List (PacketJob × PacketAction) → Flow → Prop := Keyed.Serves (Flow.step rm)

theorem action_cases (h : f.step rm job = .ok (action, f')) :
    action = .drop ∨ action = .forward := by
  rcases step_ok_cases h with ⟨-, hdrop, -⟩ | ⟨-, g, -, hd⟩
  · exact Or.inl hdrop
  · unfold decide at hd
    split_ifs at hd <;> cases hd
    · exact Or.inl rfl
    · exact Or.inr rfl

/-- A forwarded packet leaves its connection unblocked. -/
theorem state_of_forward (h : f.step rm job = .ok (.forward, f')) : f'.state ≠ .blocked := by
  rcases step_ok_cases h with ⟨-, hf, -⟩ | ⟨hb, g, hg, hd⟩
  · cases hf
  · unfold decide at hd
    split_ifs at hd <;> cases hd
    rcases inspected_cases hg with ⟨app, name, -, rfl⟩ | ⟨-, rfl⟩
    · rintro ⟨⟩
    · exact hb

/-- A packet of a connection that is not blocked is dropped iff a rule matches it. -/
theorem drop_iff_of_open (hf : f.state ≠ .blocked) (h : f.step rm job = .ok (action, f')) :
    action = .drop ↔ f.Rematched rm job := by
  have hr := state_receive_ne_blocked hf job
  rcases step_ok_cases h with ⟨hb, -, -⟩ | ⟨-, g, hg, hd⟩
  · exact absurd hb hr
  · have hact : action = .drop ↔ g.matched rm job = true := by
      rw [← decide_fst, hd]
    rw [hact]
    constructor
    · exact fun hm => ⟨g, hg, hm⟩
    · rintro ⟨g', hg', hm⟩
      rw [hg] at hg'
      cases hg'
      exact hm

/-- The last packet was dropped. -/
def LastDropped (past : List (PacketJob × PacketAction)) : Prop :=
  ∃ before job, past = before ++ [(job, .drop)]

theorem blocked_iff_lastDropped (h : Serves rm {} life f) :
    f.state = .blocked ↔ LastDropped life := by
  induction life using List.reverseRecOn with
  | nil =>
    cases h
    refine iff_of_false (by decide) ?_
    rintro ⟨before, job, heq⟩
    simp at heq
  | append_singleton past d _ =>
    obtain ⟨job, action⟩ := d
    obtain ⟨g, -, hstep⟩ := Keyed.Serves.concat_iff.1 h
    rcases action_cases hstep with rfl | rfl
    · exact iff_of_true (state_of_drop hstep) ⟨past, job, rfl⟩
    · refine iff_of_false (state_of_forward hstep) ?_
      rintro ⟨before, job', heq⟩
      have := (List.append_inj' heq rfl).2
      simp at this

/-- Why each packet of a life got its action: it is dropped iff a rule matches it, or the packet
before it was dropped and it does not close the connection.  What the rules are asked about is the
flow that the packets before it have left. -/
def Explained (rm : Option RuleManager) (life : List (PacketJob × PacketAction)) : Prop :=
  ∀ past job action rest, life = past ++ (job, action) :: rest →
    (action = .drop ∨ action = .forward) ∧
    ∃ f, Serves rm {} past f ∧
      (action = .drop ↔ f.Rematched rm job ∨ LastDropped past ∧ f.closes job = false)

theorem explained_of_serves (h : Serves rm {} life f) : Explained rm life := by
  rintro past job action rest rfl
  obtain ⟨g, hpast, hrest⟩ := Keyed.Serves.append_iff.1 h
  cases hrest with
  | cons hstep _ =>
    refine ⟨action_cases hstep, g, hpast, ?_⟩
    rw [← blocked_iff_lastDropped hpast]
    by_cases hb : g.state = .blocked
    · rw [drop_iff_of_blocked hb hstep, Or.comm]
      simp [hb]
    · rw [drop_iff_of_open hb hstep]
      simp [hb]

end Flow

namespace Engine

variable {cfg : Config} {rm : RuleManager} {e e' : Engine} {l : Label}
  {ts : List (Taken Engine Label)}

/-! ## Entries that are removed -/

/-- The step takes the entry of a connection out of the table of fast path `w`. -/
def Removes (w : ℕ) (key : FiveTuple) (t : Taken Engine Label) : Prop :=
  key ∈ (t.pre.fps w).processor.connTracker.connections ∧
    key ∉ (t.post.fps w).processor.connTracker.connections

instance (w : ℕ) (key : FiveTuple) (t : Taken Engine Label) : Decidable (Removes w key t) :=
  inferInstanceAs (Decidable (_ ∧ _))

/-- How often the steps remove the entry. -/
def removals (w : ℕ) (ts : List (Taken Engine Label)) (key : FiveTuple) : ℕ :=
  ts.countP fun t => Removes w key t

theorem removals_concat (w : ℕ) (ts : List (Taken Engine Label)) (t : Taken Engine Label)
    (key : FiveTuple) : removals w (ts ++ [t]) key =
      if Removes w key t then removals w ts key + 1 else removals w ts key := by
  rw [removals, removals, List.countP_append, List.countP_singleton]
  split_ifs <;> simp_all

/-- A flow that is kept or removed is the same, or it is fresh and its removal is counted. -/
theorem removals_of_kept {w : ℕ} {key : FiveTuple} (ts : List (Taken Engine Label))
    (h : Kept (e.fps w).processor (e'.fps w).processor key) :
    (e'.fps w).processor.flowOf key = (e.fps w).processor.flowOf key ∧
        removals w (ts ++ [⟨e, l, e'⟩]) key = removals w ts key ∨
      (e'.fps w).processor.flowOf key = {} ∧
        removals w (ts ++ [⟨e, l, e'⟩]) key = removals w ts key + 1 := by
  rw [removals_concat]
  by_cases hr : Removes w key ⟨e, l, e'⟩
  · have hnone := hr.2
    rw [← isSome_flowAt, Option.not_isSome_iff_eq_none] at hnone
    exact Or.inr ⟨by rw [flowOf, hnone]; rfl, if_pos hr⟩
  · refine Or.inl ⟨?_, if_neg hr⟩
    rw [flowOf, flowOf, flowAt_of_kept h fun hpre => by_contra fun hpost => hr ⟨hpre, hpost⟩]

/-- Every worker answers its packets by the machine of flows, which loses the flows whose entries
are removed. -/
def Forgets (cfg : Config) (rm : RuleManager) (ts : List (Taken Engine Label)) (e : Engine) :
    Prop :=
  ∀ w, Keyed.Forgetful (fun job : PacketJob => canonicalTuple job.tuple) (Flow.step (some rm)) {}
    (e.decided cfg w) (e.fps w).processor.flowOf (removals w ts)

theorem forgets_start (cfg : Config) (rm : RuleManager) (input : List PacketJob) :
    Forgets cfg rm [] (start input) := fun _ => .nil

theorem Forgets.step (h : Forgets cfg rm ts e) (hord : Network.Ordered cfg.shape e.network)
    (hs : Step cfg rm e l e') : Forgets cfg rm (ts ++ [⟨e, l, e'⟩]) e' := by
  intro w
  cases hs.move.tables hord w with
  | idle hdecided hkept =>
    rw [hdecided]
    exact (h w).forget fun key => removals_of_kept ts (hkept key)
  | decide job action f hdecided hstep hown hother =>
    rw [hdecided]
    refine ((h w).snoc hstep).forget fun key => ?_
    by_cases hkey : key = canonicalTuple job.tuple
    · subst hkey
      have hlive : canonicalTuple job.tuple ∈ (e'.fps w).processor.connTracker.connections := by
        rw [← isSome_flowAt, hown]
        rfl
      refine Or.inl ⟨?_, ?_⟩
      · rw [Function.update_self, flowOf, hown]
        rfl
      · rw [removals_concat, if_neg fun hr => hr.2 hlive]
    · rw [Function.update_of_ne hkey]
      exact removals_of_kept ts (hother key hkey)

/-- The packets of a connection that were handed to `handleOutput`, with their actions. -/
def handledOf (t : FiveTuple) (e : Engine) : List (PacketJob × PacketAction) :=
  e.handled.filter fun d => SameConnection t d.1.tuple

theorem handledOf_prefix (cfg : Config) (t : FiveTuple) (e : Engine) :
    e.handledOf t <+: (e.decided cfg (worker cfg.numLoadBalancers cfg.fpsPerLb t)).filter
      fun d => canonicalTuple d.1.tuple == canonicalTuple t := by
  have hsame : (e.handled.filter fun d => cfg.shape.worker d.1 ==
      worker cfg.numLoadBalancers cfg.fpsPerLb t).filter
        (fun d => canonicalTuple d.1.tuple == canonicalTuple t) = e.handledOf t := by
    rw [List.filter_filter, handledOf]
    refine List.filter_congr fun d _ => ?_
    by_cases hd : SameConnection t d.1.tuple
    · simp [(sameConnection_iff t _).1 hd, hd, Config.shape, hd.worker_eq cfg]
    · have hne : canonicalTuple d.1.tuple ≠ canonicalTuple t :=
        fun heq => hd ((sameConnection_iff t _).2 heq)
      simp [hd, hne]
  rw [decided, List.filter_append, hsame]
  exact List.prefix_append _ _

/-- The packets of a connection are handled in the order of the input, in at most one life more than
the entry is removed. -/
theorem inLives_of_run {input : List PacketJob} (hf : 0 < cfg.fpsPerLb)
    (hrun : Run (Step cfg rm) (start input) ts e) (t : FiveTuple) :
    (e.handledOf t).map Prod.fst <+: ofConnection t input ∧
    Keyed.InLives (Flow.step (some rm)) {} (e.handledOf t)
      (removals (worker cfg.numLoadBalancers cfg.fpsPerLb t) ts (canonicalTuple t)) := by
  obtain ⟨hsound, hforgets⟩ := Run.history
    (fun us e => Sound cfg input e ∧ Forgets cfg rm us e)
    (fun us e l e' hs h => ⟨h.1.step hf hs, h.2.step h.1.ordered hs⟩)
    hrun ⟨sound_start cfg input, forgets_start cfg rm input⟩
  have hinitial := handledOf_prefix cfg t e
  refine ⟨?_, ((hforgets _).inLives (canonicalTuple t)).initial_part hinitial⟩
  have horder := (hsound.decided_in_order (worker cfg.numLoadBalancers cfg.fpsPerLb t)).filter
    fun job => decide (SameConnection t job.tuple)
  have hinput : ofConnection t (input.filter fun job =>
      cfg.shape.worker job == worker cfg.numLoadBalancers cfg.fpsPerLb t) =
        ofConnection t input := ofConnection_of cfg t input
  have hcongr (d : PacketJob × PacketAction) :
      (canonicalTuple d.1.tuple == canonicalTuple t) = decide (SameConnection t d.1.tuple) := by
    rw [beq_eq_decide]
    exact decide_eq_decide.2 (sameConnection_iff t _).symm
  rw [← hinput]
  refine (hinitial.map Prod.fst).trans (List.IsPrefix.trans ?_ horder)
  rw [List.filter_map, List.filter_congr fun d _ => hcongr d]
  exact List.prefix_rfl

end Engine

open Engine

/-- In every run, whatever entries are evicted or removed as stale on the way: the packets of a
connection are handled in the order of the input, and their actions are those of lives, each from a
fresh flow, of which there is at most one more than the entry is removed.  In a life a packet is
dropped iff a rule matches it, or the packet before it was dropped and it closes nothing. -/
theorem lives_of_run {cfg : Config} {rm : RuleManager} {input : List PacketJob}
    {ts : List (Taken Engine Label)} {e : Engine} (hf : 0 < cfg.fpsPerLb)
    (hrun : Run (Step cfg rm) (start input) ts e) (t : FiveTuple) :
    (e.handledOf t).map Prod.fst <+: ofConnection t input ∧
    ∃ lives : List (List (PacketJob × PacketAction)), e.handledOf t = lives.flatten ∧
      lives.length ≤ removals (worker cfg.numLoadBalancers cfg.fpsPerLb t) ts
        (canonicalTuple t) + 1 ∧
      ∀ life ∈ lives, Flow.Explained (some rm) life := by
  obtain ⟨horder, lives, heq, hlength, hlives⟩ := inLives_of_run hf hrun t
  refine ⟨horder, lives, heq, hlength, fun life hmem => ?_⟩
  obtain ⟨f, hserves⟩ := hlives life hmem
  exact Flow.explained_of_serves hserves

/-- A bare segment on the connection of the blocked request. -/
def lateSegment : PacketJob := bareSegment (request "bad.com").tuple 0x10

/-- The request is handled, and five minutes pass before the load balancer hands on the segment. -/
def staleEntry : List Label :=
  List.replicate 5 .reader ++ List.replicate 3 (.lb 0) ++ List.replicate 5 (.fp 0 ⟨0, 0, []⟩) ++
    List.replicate 2 (.fp 0 ⟨301000000000, 301000000000, []⟩) ++ List.replicate 3 (.lb 0) ++
    List.replicate 4 (.fp 0 ⟨301000000000, 301000000000, []⟩)

/-- A connection that asked for a blocked host is let through again once its entry is stale: its
two packets are two lives. -/
theorem lives_of_run_staleEntry :
    ∃ ts e, Run (Step oneWorker badHostBlocked) (start [request "bad.com", lateSegment]) ts e ∧
      e.handled = [(request "bad.com", .drop), (lateSegment, .forward)] ∧
      ∃ lives : List (List (PacketJob × PacketAction)),
        e.handledOf lateSegment.tuple = lives.flatten ∧ lives.length ≤ 2 ∧
        ∀ life ∈ lives, Flow.Explained (some badHostBlocked) life := by
  have h : ((exec oneWorker badHostBlocked (start [request "bad.com", lateSegment])
      staleEntry).map fun r =>
        decide (r.2.handled = [(request "bad.com", .drop), (lateSegment, .forward)] ∧
          removals 0 r.1 (canonicalTuple lateSegment.tuple) = 1)) = some true := by decide +kernel
  obtain ⟨⟨ts, e⟩, hexec, h⟩ := Option.map_eq_some_iff.1 h
  obtain ⟨hhandled, hremovals⟩ := of_decide_eq_true h
  obtain ⟨-, lives, heq, hlength, hlives⟩ :=
    lives_of_run (by decide) (run_of_exec hexec) lateSegment.tuple
  have hworker : worker oneWorker.numLoadBalancers oneWorker.fpsPerLb lateSegment.tuple = 0 := by
    decide +kernel
  rw [hworker, hremovals] at hlength
  exact ⟨ts, e, run_of_exec hexec, hhandled, lives, heq, hlength, hlives⟩

end DPI
