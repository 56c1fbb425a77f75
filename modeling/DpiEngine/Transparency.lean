import DpiEngine.EngineReport
import DpiEngine.MainProgram

/-!
# Connections that no rule hits

The engine passes a connection unchanged unless a rule hits one of its own packets.  Which other
connections there are, how the threads are interleaved and which entries are removed on the way does
not matter; packets can only be left in the queues when the engine is stopped.
-/

namespace DPI

open Bytes FastPathProcessor Engine RuleManager

namespace Flow

variable {rm : Option RuleManager} {f f' : Flow} {job : PacketJob}

/-- A packet that is forwarded moves its flow as it does when there are no rules. -/
theorem step_none_of_forward (h : f.step rm job = .ok (.forward, f')) :
    f.step none job = .ok (.forward, f') := by
  rcases step_ok_cases h with ⟨-, hf, -⟩ | ⟨hb, g, hg, hd⟩
  · cases hf
  · unfold decide at hd
    split_ifs at hd <;> cases hd
    rw [step, if_neg hb, hg]
    rfl

theorem serves_none_of_forward {log : List (PacketJob × PacketAction)} (h : Serves rm f log f')
    (hforward : ∀ d ∈ log, d.2 = .forward) : Serves none f log f' := by
  induction h with
  | nil f => exact .nil f
  | cons hstep _ ih =>
    obtain ⟨hfirst, hrest⟩ := List.forall_mem_cons.1 hforward
    obtain rfl : _ = PacketAction.forward := hfirst
    exact .cons (step_none_of_forward hstep) (ih hrest)

end Flow

/-- The packets as they are forwarded. -/
def allForwarded (jobs : List PacketJob) : List (PacketJob × PacketAction) :=
  jobs.map fun job => (job, .forward)

/-- No rule that a line denotes hits a packet, whichever of the packets before it the entry has
seen. -/
def Spared (entries : List (Str × Str)) (jobs : List PacketJob) : Prop :=
  ∀ seen job, seen ++ [job] <:+: jobs → ∀ f g, Flow.Serves none {} (allForwarded seen) f →
    (f.receive job).inspected job = .ok g → ∀ r, Denoted entries r → ¬ r.Hits job g

theorem Spared.part_of {entries : List (Str × Str)} {jobs jobs' : List PacketJob}
    (h : Spared entries jobs) (hsub : jobs' <:+: jobs) : Spared entries jobs' :=
  fun seen job hseen => h seen job (hseen.trans hsub)

theorem allForwarded_append (jobs jobs' : List PacketJob) :
    allForwarded (jobs ++ jobs') = allForwarded jobs ++ allForwarded jobs' :=
  List.map_append

theorem action_of_allForwarded {jobs : List PacketJob} :
    ∀ d ∈ allForwarded jobs, d.2 = .forward := by
  intro d hd
  obtain ⟨_, -, rfl⟩ := List.mem_map.1 hd
  rfl

theorem Flow.state_of_serves_forwarded {rm : Option RuleManager} {jobs : List PacketJob} {f : Flow}
    (h : Flow.Serves rm {} (allForwarded jobs) f) : f.state ≠ .blocked := by
  intro hb
  obtain ⟨before, job, heq⟩ := (Flow.blocked_iff_lastDropped h).1 hb
  have hdropped := action_of_allForwarded (job, .drop) (heq ▸ List.mem_append_right _ (by simp))
  cases hdropped

/-- A connection is spared iff the machine of its flow forwards all its packets, whichever packet it
starts at. -/
theorem spared_iff {entries : List (Str × Str)} {rm : RuleManager}
    (hrules : addAll {} entries = .ok rm) {jobs : List PacketJob} :
    Spared entries jobs ↔
      ∀ rest, rest <:+ jobs → ∃ f, Flow.Serves (some rm) {} (allForwarded rest) f := by
  constructor
  · intro h rest hrest
    have hpart := hrest.isInfix
    clear hrest
    induction rest using List.reverseRecOn with
    | nil => exact ⟨_, .nil _⟩
    | append_singleton seen job ih =>
      obtain ⟨f, hf⟩ := ih ((List.prefix_append _ _).isInfix.trans hpart)
      obtain ⟨⟨action, f'⟩, hstep⟩ := f.defined_step (some rm) job
      have hnone := Flow.serves_none_of_forward hf action_of_allForwarded
      have hnot : action ≠ .drop := by
        intro hdrop
        obtain ⟨g, hg, hmatched⟩ :=
          (Flow.drop_iff_of_open (Flow.state_of_serves_forwarded hf) hstep).1 hdrop
        obtain ⟨r, hr, hhits⟩ := (hits_iff_matched hrules job g).2 hmatched
        exact h seen job hpart f g hnone hg r hr hhits
      obtain rfl := (Flow.action_cases hstep).resolve_left hnot
      rw [allForwarded_append]
      exact ⟨f', Keyed.Serves.concat_iff.2 ⟨f, hf, hstep⟩⟩
  · rintro h seen job ⟨before, after, rfl⟩ f g hf hg r hr hhits
    obtain ⟨_, hserves⟩ := h (seen ++ [job] ++ after) ⟨before, by simp⟩
    rw [allForwarded_append] at hserves
    obtain ⟨f₁, hserves, -⟩ := Keyed.Serves.append_iff.1 hserves
    rw [allForwarded_append] at hserves
    obtain ⟨f', hseen, hstep⟩ := Keyed.Serves.concat_iff.1 hserves
    have hnone := Flow.serves_none_of_forward hseen action_of_allForwarded
    obtain rfl := hf.unique hnone
    have hdrop := Flow.drop_iff_of_open (Flow.state_of_serves_forwarded hseen) hstep
    have hmatched := (hits_iff_matched hrules job g).1 ⟨r, hr, hhits⟩
    exact absurd (hdrop.2 ⟨g, hg, hmatched⟩) (by decide)

theorem EnforcedBy.forward_of_spared {entries : List (Str × Str)} {rm : RuleManager}
    {life : List (PacketJob × PacketAction)} (h : EnforcedBy entries rm life)
    (hspared : Spared entries (life.map Prod.fst)) : ∀ d ∈ life, d.2 = .forward := by
  induction life using List.reverseRecOn with
  | nil => simp
  | append_singleton past d ih =>
    have hbefore : EnforcedBy entries rm past := by
      rintro before job action rest rfl
      exact h before job action (rest ++ [d]) (by simp)
    rw [List.map_append, List.map_singleton] at hspared
    have hpast := ih hbefore (hspared.part_of (List.prefix_append _ _).isInfix)
    intro d' hmem
    rcases List.mem_append.1 hmem with hmem | hmem
    · exact hpast d' hmem
    · obtain rfl := List.mem_singleton.1 hmem
      obtain ⟨haction, f, g, hserves, hg, hdrop⟩ := h past d'.1 d'.2 [] rfl
      -- the packets before are forwarded, so the flow is that of an engine without rules
      have hsame : past = allForwarded (past.map Prod.fst) := by
        rw [allForwarded, List.map_map]
        refine (List.map_id past).symm.trans (List.map_congr_left fun d hd => ?_)
        exact Prod.ext rfl (hpast d hd)
      have hnone := Flow.serves_none_of_forward hserves hpast
      rw [hsame] at hnone
      refine haction.resolve_left fun hdropped => ?_
      rcases hdrop.1 hdropped with ⟨r, hr, hhits⟩ | ⟨⟨before, job, hlast⟩, -⟩
      · exact hspared _ _ List.infix_rfl f g hnone hg r hr hhits
      · have hlastForward := hpast (job, .drop) (hlast ▸ List.mem_append_right _ List.mem_cons_self)
        cases hlastForward

namespace Engine

variable {cfg : Config} {input : List PacketJob} {e : Engine}

/-- The packets of a connection are written in the order of the input. -/
theorem Sound.ofConnection_written (h : Sound cfg input e) (t : FiveTuple) :
    (ofConnection t e.written).Sublist (ofConnection t input) := by
  have hworker := h.ordered.written_in_order cfg.shape
    (worker cfg.numLoadBalancers cfg.fpsPerLb t)
  have hall : (ofConnection t e.written).Sublist (ofConnection t e.accepted) := by
    rw [← ofConnection_of cfg t e.written, ← ofConnection_of cfg t e.accepted]
    exact hworker.filter _
  have haccepted : e.accepted.Sublist input := by
    rw [← h.accepted]
    exact List.sublist_append_left _ _
  exact hall.trans (haccepted.filter _)

theorem ofConnection_append (t : FiveTuple) (jobs jobs' : List PacketJob) :
    ofConnection t (jobs ++ jobs') = ofConnection t jobs ++ ofConnection t jobs' :=
  List.filter_append ..

theorem ofConnection_perm (t : FiveTuple) {jobs jobs' : List PacketJob} (h : jobs.Perm jobs') :
    (ofConnection t jobs).Perm (ofConnection t jobs') :=
  h.filter _

/-- Where all packets of a connection that were handled were forwarded, none of them was dropped. -/
theorem ofConnection_droppedBy {t : FiveTuple} (h : ∀ d ∈ e.handledOf t, d.2 = .forward) :
    ofConnection t (droppedBy e.handled) = [] := by
  refine List.filter_eq_nil_iff.2 fun job hjob hsame => ?_
  obtain ⟨d, hd, rfl⟩ := List.mem_map.1 hjob
  obtain ⟨hmem, hdrop⟩ := List.mem_filter.1 hd
  have hforward := h d (List.mem_filter.2 ⟨hmem, hsame⟩)
  rw [hforward] at hdrop
  cases hdrop

end Engine

/-- In every run, whatever other packets there are and whatever entries are removed on the way, the
packets of a connection that no line hits are all forwarded.  When `processFile` returns each of
them is written or left in a queue, and where none is left the output file holds all of them in
their order. -/
theorem spared_of_run {files : Str → Option Str} {args : List Str} {o : Options}
    {managers : Managers} {rm : RuleManager} (hmain : startMain files args = .ok (o, managers, rm))
    (hl : 0 < o.numLoadBalancers) (hf : 0 < o.fpsPerLb) {input : List PacketJob}
    {ts : List (Taken Engine Label)} {e : Engine}
    (hrun : Run (Step o.config rm) (start input) ts e) {t : FiveTuple}
    (hspared : Spared (o.entries files) (ofConnection t input)) :
    (∀ d ∈ e.handledOf t, d.2 = .forward) ∧
    (e.main = .returned →
      (ofConnection t input).Perm (ofConnection t (e.written ++ e.outputQueue.queue ++
        fpLeft o.config e ++ lbLeft o.config e)) ∧
      (ofConnection t (e.outputQueue.queue ++ fpLeft o.config e ++ lbLeft o.config e) = [] →
        ofConnection t e.written = ofConnection t input)) := by
  obtain ⟨-, -, hrules⟩ := startMain_ok hmain
  have hlbs : 0 < o.config.numLoadBalancers := Int.lt_toNat.2 hl
  have hfps : 0 < o.config.fpsPerLb := Int.lt_toNat.2 hf
  have hforward : ∀ d ∈ e.handledOf t, d.2 = .forward := by
    obtain ⟨horder, lives, heq, -, hlives⟩ := linesEnforced hrules hfps hrun t
    intro d hd
    rw [heq] at hd horder
    obtain ⟨life, hlife, hmem⟩ := List.mem_flatten.1 hd
    obtain ⟨before, after, rfl⟩ := List.append_of_mem hlife
    refine (hlives life hlife).forward_of_spared (hspared.part_of ?_) d hmem
    refine List.IsInfix.trans ⟨before.flatten.map Prod.fst, after.flatten.map Prod.fst, ?_⟩
      horder.isInfix
    simp
  refine ⟨hforward, fun hret => ?_⟩
  have h := reported_of_run hfps hrun
  have hj := h.sound.control.allJoined hret
  have hperm : (ofConnection t input).Perm (ofConnection t (e.written ++ e.outputQueue.queue ++
      fpLeft o.config e ++ lbLeft o.config e)) := by
    have hpackets := ofConnection_perm t (h.packets_perm hj hlbs hfps)
    rwa [ofConnection_append, ofConnection_droppedBy hforward, List.nil_append] at hpackets
  refine ⟨hperm, fun hnone => (h.sound.ofConnection_written t).eq_of_length ?_⟩
  have hlength := hperm.length_eq
  rw [List.append_assoc, List.append_assoc, ← List.append_assoc e.outputQueue.queue,
    ofConnection_append, hnone, List.append_nil] at hlength
  exact hlength.symm

/-- Neither the lines of the file nor the option hit the request and its answer. -/
theorem spared_answer :
    Spared (filteredOptions.entries filteredFiles) [request "ok.com", answer] := by
  obtain ⟨-, -, hrules⟩ := startMain_ok startMain_filteredArgs
  let asked : Flow := { state := .classified, appType := .https, sni := text "ok.com" }
  have hrequest : ({} : Flow).step (some filteredRules) (request "ok.com") =
      .ok (.forward, asked) := by decide +kernel
  have hanswer : asked.step (some filteredRules) answer = .ok (.forward, asked) := by
    decide +kernel
  have halone : ({} : Flow).step (some filteredRules) answer = .ok (.forward, {}) := by
    decide +kernel
  refine (spared_iff hrules).2 fun rest hrest => ?_
  rcases List.suffix_cons_iff.1 hrest with rfl | hrest
  · exact ⟨asked, .cons hrequest (.cons hanswer (.nil _))⟩
  rcases List.suffix_cons_iff.1 hrest with rfl | hrest
  · exact ⟨{}, .cons halone (.nil _)⟩
  · obtain rfl := List.suffix_nil.1 hrest
    exact ⟨_, .nil _⟩

/-- The request and its answer pass, the client that asks for the blocked host is cut off. -/
theorem spared_of_run_visits :
    ∃ ts e, Run (Step filteredOptions.config filteredRules) (start visits) ts e ∧
      e.main = .returned ∧
      droppedBy e.handled = [otherRequest "bad.com", otherRequest "ok.com"] ∧
      ofConnection answer.tuple e.written = [request "ok.com", answer] := by
  have h : ((exec filteredOptions.config filteredRules (start visits)
      (distribute ++ serve ++ List.replicate 6 .output ++ stopAll filteredOptions.config)).map
      fun r => decide (r.2.main = .returned ∧
        droppedBy r.2.handled = [otherRequest "bad.com", otherRequest "ok.com"] ∧
        ofConnection answer.tuple (r.2.outputQueue.queue ++ fpLeft filteredOptions.config r.2 ++
          lbLeft filteredOptions.config r.2) = [])) = some true := by decide +kernel
  obtain ⟨⟨ts, e⟩, hexec, h⟩ := Option.map_eq_some_iff.1 h
  obtain ⟨hret, hdropped, hnone⟩ := of_decide_eq_true h
  have hinput : ofConnection answer.tuple visits = [request "ok.com", answer] := by
    decide +kernel
  have hall := spared_of_run startMain_filteredArgs (by decide) (by decide) (run_of_exec hexec)
    (hinput.symm ▸ spared_answer)
  exact ⟨ts, e, run_of_exec hexec, hret, hdropped, ((hall.2 hret).2 hnone).trans hinput⟩

end DPI
