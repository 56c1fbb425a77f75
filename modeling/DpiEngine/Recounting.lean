import DpiEngine.Accounting
import DpiEngine.Classification
import DpiEngine.Lib.Lifetime

/-!
# What the counters of a tracker count

The tracker counts the connections it creates, classifies and blocks.  Flags and explicit closes
overwrite the state that tells whether a connection was classified or blocked before, so an entry
that is closed can be counted again.
-/

namespace DPI

open Bytes ConnectionTracker FastPathProcessor Lifetime

/-! ## One packet -/

/-- A counter moves by one if `P` holds, and stays where it is otherwise. -/
def Tallies (P : Prop) (n n' : UInt64) : Prop := P ∧ n' = n + 1 ∨ ¬ P ∧ n' = n

theorem Tallies.ne_iff {P : Prop} {n n' : UInt64} (h : Tallies P n n') : n' ≠ n ↔ P := by
  rcases h with ⟨hP, rfl⟩ | ⟨hP, rfl⟩
  · refine iff_of_true ?_ hP
    rw [ne_eq, UInt64.add_eq_left]
    decide
  · exact iff_of_false (fun h => h rfl) hP

/-- At most one of two moves is made. -/
theorem Tallies.trans {P Q : Prop} {n n' n'' : UInt64} (h : Tallies P n n') (h' : Tallies Q n' n'')
    (hPQ : ¬ (P ∧ Q)) : Tallies (P ∨ Q) n n'' := by
  rcases h with ⟨hP, rfl⟩ | ⟨hP, rfl⟩
  · rcases h' with ⟨hQ, -⟩ | ⟨-, rfl⟩
    · exact absurd ⟨hP, hQ⟩ hPQ
    · exact Or.inl ⟨Or.inl hP, rfl⟩
  · rcases h' with ⟨hQ, rfl⟩ | ⟨hQ, rfl⟩
    · exact Or.inl ⟨Or.inr hQ, rfl⟩
    · exact Or.inr ⟨not_or.2 ⟨hP, hQ⟩, rfl⟩

/-- What the counters of a tracker say: that a connection is created, classified, blocked. -/
structure Counts (created classified blocked : Prop) (tr tr' : ConnectionTracker) : Prop where
  totalSeen : Tallies created tr.totalSeen tr'.totalSeen
  classifiedCount : Tallies classified tr.classifiedCount tr'.classifiedCount
  blockedCount : Tallies blocked tr.blockedCount tr'.blockedCount

theorem Counts.refl (tr : ConnectionTracker) : Counts False False False tr tr :=
  ⟨Or.inr ⟨id, rfl⟩, Or.inr ⟨id, rfl⟩, Or.inr ⟨id, rfl⟩⟩

/-- The counters are moved in turn, by what comes first and by what comes after it. -/
theorem Counts.trans {A A' B B' C C' : Prop} {tr tr' tr'' : ConnectionTracker}
    (h : Counts A B C tr tr') (h' : Counts A' B' C' tr' tr'') (hA : ¬ (A ∧ A')) (hB : ¬ (B ∧ B'))
    (hC : ¬ (C ∧ C')) : Counts (A ∨ A') (B ∨ B') (C ∨ C') tr tr'' :=
  ⟨h.totalSeen.trans h'.totalSeen hA, h.classifiedCount.trans h'.classifiedCount hB,
    h.blockedCount.trans h'.blockedCount hC⟩

namespace Flow

/-- The packet has its connection classified. -/
def ClassifiedBy (f : Flow) (job : PacketJob) : Prop :=
  (f.receive job).state ≠ .blocked ∧ ∃ app name, (f.receive job).Classifies job app name

/-- The packet has its connection blocked: a rule matches it when it is inspected. -/
def BlockedBy (rm : Option RuleManager) (f : Flow) (job : PacketJob) : Prop :=
  (f.receive job).state ≠ .blocked ∧ f.Rematched rm job

end Flow

section Packet

variable {fp fp' : FastPathProcessor} {rm : Option RuleManager} {job : PacketJob}
  {conn conn' : Connection} {action : PacketAction}

theorem inspect_of_inspectPayload (hlength : job.payloadLength > 0)
    (h : fp.inspectPayload job conn = .ok (fp', conn')) :
    conn.flow.inspect job = .ok conn'.flow := by
  have hmoves := moves_inspectPayload fp conn hlength
  rw [h] at hmoves
  rcases hf : conn.flow.inspect job with e | f
  · rw [hf] at hmoves
    exact hmoves.elim
  · rw [hf] at hmoves
    rw [hmoves.2]

/-- Inspection counts the connections that it classifies. -/
theorem counts_inspectPayload (hinspect : conn.state ≠ .classified ∧ job.payloadLength > 0)
    (h : fp.inspectPayload job conn = .ok (fp', conn')) :
    Counts False (∃ app name, conn.flow.Classifies job app name) False fp.connTracker
      fp'.connTracker := by
  have hflow : conn.flow.inspected job = .ok conn'.flow :=
    (if_pos hinspect).trans (inspect_of_inspectPayload hinspect.2 h)
  rcases inspectPayload_cases h with ⟨rfl, rfl⟩ | ⟨app, sni, hclass⟩
  · refine ⟨Or.inr ⟨id, rfl⟩, Or.inr ⟨?_, rfl⟩, Or.inr ⟨id, rfl⟩⟩
    rintro ⟨app, name, hc⟩
    exact hc.1 (Flow.state_of_classifies hc hflow).1
  · rw [classifyConnection, if_pos hinspect.1] at hclass
    obtain ⟨htracker, rfl⟩ := Prod.mk.inj hclass
    rw [htracker]
    refine ⟨Or.inr ⟨id, rfl⟩, Or.inl ⟨?_, rfl⟩, Or.inr ⟨id, rfl⟩⟩
    rcases Flow.inspected_cases hflow with ⟨app', name, hc, -⟩ | ⟨-, hsame⟩
    · exact ⟨app', name, hc⟩
    · exact absurd (congrArg Flow.state hsame).symm hinspect.1

/-- The rules count the connections that they block. -/
theorem counts_checkRules (rm : Option RuleManager) (fp : FastPathProcessor) (job : PacketJob)
    (conn : Connection) :
    Counts False False (conn.flow.matched rm job = true) fp.connTracker
      (checkRules rm fp job conn).2.1.connTracker := by
  unfold checkRules Flow.matched
  rcases rm with _ | rm
  · exact ⟨Or.inr ⟨id, rfl⟩, Or.inr ⟨id, rfl⟩, Or.inr ⟨Bool.false_ne_true, rfl⟩⟩
  · dsimp only
    cases hblock : rm.shouldBlock job.tuple.srcIp job.tuple.dstPort conn.appType conn.sni with
    | none =>
      exact ⟨Or.inr ⟨id, rfl⟩, Or.inr ⟨id, rfl⟩, Or.inr ⟨by simp [Connection.flow, hblock], rfl⟩⟩
    | some reason =>
      exact ⟨Or.inr ⟨id, rfl⟩, Or.inr ⟨id, rfl⟩, Or.inl ⟨by simp [Connection.flow, hblock], rfl⟩⟩

theorem counts_processConnection {seen : Time}
    (h : processConnection rm fp seen job conn = .ok (action, fp', conn')) :
    Counts False (conn.flow.ClassifiedBy job) (conn.flow.BlockedBy rm job) fp.connTracker
      fp'.connTracker := by
  unfold processConnection at h
  unfold Flow.ClassifiedBy Flow.BlockedBy Flow.Rematched
  rw [← flow_recordPacket conn seen job]
  generalize recordPacket conn seen job = c at h ⊢
  by_cases hblocked : c.flow.state = .blocked
  · rw [if_pos (show c.state = .blocked from hblocked)] at h
    cases h
    simpa [hblocked] using Counts.refl fp.connTracker
  rw [if_neg (show c.state ≠ .blocked from hblocked)] at h
  -- the rules come last, on what the inspection has left
  have hrules {fp₁ : FastPathProcessor} {c₁ : Connection}
      (hflow : c.flow.inspected job = .ok c₁.flow)
      (hcounts : Counts False (∃ app name, c.flow.Classifies job app name) False fp.connTracker
        fp₁.connTracker)
      (h : (.ok (checkRules rm fp₁ job c₁) : Checked _) = .ok (action, fp', conn')) :
      Counts False (c.flow.state ≠ .blocked ∧ ∃ app name, c.flow.Classifies job app name)
        (c.flow.state ≠ .blocked ∧ ∃ g, c.flow.inspected job = .ok g ∧ g.matched rm job = true)
        fp.connTracker fp'.connTracker := by
    have hrest := counts_checkRules rm fp₁ job c₁
    rw [Except.ok.inj h] at hrest
    simpa [hblocked, hflow] using hcounts.trans hrest (fun h => h.2) (fun h => h.2) (fun h => h.1)
  by_cases hinspect : c.state ≠ .classified ∧ job.payloadLength > 0
  · rw [if_pos hinspect] at h
    obtain ⟨⟨fp₁, c₁⟩, hinspected, h⟩ := bind_eq_ok_iff.1 h
    exact hrules ((if_pos hinspect).trans (inspect_of_inspectPayload hinspect.2 hinspected))
      (counts_inspectPayload hinspect hinspected) h
  · rw [if_neg hinspect] at h
    refine hrules (if_neg hinspect) ?_ h
    refine ⟨Or.inr ⟨id, rfl⟩, Or.inr ⟨?_, rfl⟩, Or.inr ⟨id, rfl⟩⟩
    rintro ⟨app, name, hc⟩
    exact hinspect ⟨hc.1, hc.2.1⟩

/-- A connection is created where there is no entry for it. -/
theorem counts_getOrCreateConnection (tr : ConnectionTracker) (now : Time) (order : List FiveTuple)
    (t : FiveTuple) :
    Counts (canonicalTuple t ∉ tr.connections) False False tr
      (tr.getOrCreateConnection now order t).1 := by
  have hevict (tr : ConnectionTracker) : Counts False False False tr (tr.evictOldest order) := by
    unfold evictOldest
    rcases order.argmin tr.lastSeenOf with _ | oldest
    · exact Counts.refl tr
    · exact ⟨Or.inr ⟨id, rfl⟩, Or.inr ⟨id, rfl⟩, Or.inr ⟨id, rfl⟩⟩
  have hemplace (hnew : canonicalTuple t ∉ tr.connections) :
      Counts (canonicalTuple t ∉ tr.connections) False False tr (tr.emplace t now) :=
    ⟨Or.inl ⟨hnew, rfl⟩, Or.inr ⟨id, rfl⟩, Or.inr ⟨id, rfl⟩⟩
  rcases getOrCreateConnection_cases tr now order t with ⟨hmem, h⟩ | ⟨hnew, -, h⟩ | ⟨hnew, -, h⟩
  · rw [h]
    exact ⟨Or.inr ⟨fun hnew => hnew hmem, rfl⟩, Or.inr ⟨id, rfl⟩, Or.inr ⟨id, rfl⟩⟩
  · rw [h]
    exact hemplace hnew
  · rw [h]
    simpa using (hemplace hnew).trans (hevict _) (fun h => h.2) (fun h => h.2) (fun h => h.2)

theorem counts_processPacket {env : Env} (h : fp.processPacket rm env job = .ok (action, fp')) :
    Counts (canonicalTuple job.tuple ∉ fp.connTracker.connections)
      ((fp.flowOf (canonicalTuple job.tuple)).ClassifiedBy job)
      ((fp.flowOf (canonicalTuple job.tuple)).BlockedBy rm job) fp.connTracker fp'.connTracker := by
  have hcreate := counts_getOrCreateConnection fp.connTracker env.created env.order job.tuple
  have hown := lookup_getOrCreateConnection fp env job.tuple (canonicalTuple job.tuple) rfl
  obtain ⟨conn, fp₁, conn', hconn, hproc, rfl⟩ := processPacket_inv rfl h
  rw [hconn, if_pos rfl] at hown
  have hflow : conn.flow = fp.flowOf (canonicalTuple job.tuple) := by simpa using hown
  have hcounts := counts_processConnection hproc
  rw [hflow] at hcounts
  have hall := hcreate.trans hcounts (fun h => h.2) (fun h => h.1) (fun h => h.1)
  simp only [or_false, false_or] at hall
  exact ⟨hall.totalSeen, hall.classifiedCount, hall.blockedCount⟩

end Packet

/-! ## Closing -/

namespace Flow

/-- The event closes the connection. -/
def closedOn (f : Flow) : Event → Bool
  | .packet _ job _ => f.closes job
  | .close => true

/-- What packets in `P` bring about and only a closing event ends, and what keeps packets out of
`P`. -/
structure Latch (P : Flow → Option RuleManager → PacketJob → Prop) (I : Flow → Prop) : Prop where
  set : ∀ {f f' rm job action}, f.step rm job = .ok (action, f') → P f rm job → I f'
  keep : ∀ {f f' rm job action}, f.step rm job = .ok (action, f') → I f → f.closes job = false →
    I f'
  bar : ∀ {f rm job}, I f → f.closes job = false → ¬ P f rm job

theorem Latch.step {P : Flow → Option RuleManager → PacketJob → Prop} {I : Flow → Prop}
    (h : Latch P I) {f f' : Flow} {e : Event} (hstep : Step f e f') (hI : I f)
    (hopen : f.closedOn e = false) :
    I f' ∧ ∀ rm job action, e = .packet rm job action → ¬ P f rm job := by
  cases hstep with
  | packet hstep =>
    refine ⟨h.keep hstep hI hopen, ?_⟩
    rintro rm job action ⟨⟩
    exact h.bar hI hopen
  | close => cases hopen

variable {f f' g : Flow} {rm : Option RuleManager} {job : PacketJob} {action : PacketAction}

theorem state_receive_of_open (hopen : f.closes job = false) (hf : f.state ≠ .new) :
    (f.receive job).state = f.state := by
  rcases state_receive_cases f job with ⟨hc, -⟩ | ⟨-, h | ⟨hnew, -⟩⟩
  · rw [hopen] at hc
    cases hc
  · exact h
  · exact absurd hnew hf

theorem state_of_decide (h : g.decide rm job = (action, f')) :
    f'.state = if g.matched rm job then .blocked else g.state := by
  unfold decide at h
  split_ifs at h with hm <;> cases h
  · rw [if_pos hm]
  · rw [if_neg hm]

/-- A connection that a rule blocked stays blocked until it is closed. -/
theorem latch_blocked : Latch (fun f rm job => f.BlockedBy rm job) fun f => f.state = .blocked where
  set := by
    rintro f f' rm job action hstep ⟨hopen, g, hg, hm⟩
    rcases step_ok_cases hstep with ⟨hb, -, -⟩ | ⟨-, g', hg', hd⟩
    · exact absurd hb hopen
    · rw [hg] at hg'
      rw [state_of_decide hd, ← Except.ok.inj hg', if_pos hm]
  keep := by
    intro f f' rm job action hstep hf hopen
    have hreceive := (state_receive_of_open hopen (by rw [hf]; decide)).trans hf
    rcases step_ok_cases hstep with ⟨-, -, rfl⟩ | ⟨hb, -⟩
    · exact hreceive
    · exact absurd hreceive hb
  bar := by
    rintro f rm job hf hopen ⟨hb, -⟩
    exact hb ((state_receive_of_open hopen (by rw [hf]; decide)).trans hf)

/-- A connection that inspection classified stays classified, or blocked, until it is closed. -/
theorem latch_classified : Latch (fun f _ job => f.ClassifiedBy job)
    fun f => f.state = .classified ∨ f.state = .blocked where
  set := by
    rintro f f' rm job action hstep ⟨hopen, app, name, hc⟩
    rcases step_ok_cases hstep with ⟨hb, -, -⟩ | ⟨-, g, hg, hd⟩
    · exact absurd hb hopen
    · rw [state_of_decide hd, (state_of_classifies hc hg).1]
      split_ifs
      · exact Or.inr rfl
      · exact Or.inl rfl
  keep := by
    intro f f' rm job action hstep hf hopen
    have hreceive := state_receive_of_open hopen (by rcases hf with hf | hf <;> rw [hf] <;> decide)
    rcases step_ok_cases hstep with ⟨hb, -, rfl⟩ | ⟨hb, g, hg, hd⟩
    · exact Or.inr hb
    · rw [hreceive] at hb
      have hclassified := hreceive.trans (hf.resolve_right hb)
      rw [inspected, if_neg (fun h => h.1 hclassified)] at hg
      cases hg
      rw [state_of_decide hd, hclassified]
      split_ifs
      · exact Or.inr rfl
      · exact Or.inl rfl
  bar := by
    rintro f rm job hf hopen ⟨hb, app, name, hc⟩
    have hreceive := state_receive_of_open hopen (by rcases hf with hf | hf <;> rw [hf] <;> decide)
    rw [hreceive] at hb
    exact hc.1 (hreceive.trans (hf.resolve_right hb))

end Flow

/-! ## Runs -/

namespace FastPathProcessor

/-- The connections that have an entry. -/
def keys (fp : FastPathProcessor) : Finset FiveTuple := fp.connTracker.connections.keys

/-- The connection that a counter of the tracker has counted in a step. -/
def countedBy (counter : ConnectionTracker → UInt64) (s : Taken FastPathProcessor WorkerEvent) :
    Option FiveTuple :=
  match s.label with
  | .packet _ _ job _ =>
    if counter s.post.connTracker = counter s.pre.connTracker then none
    else some (canonicalTuple job.tuple)
  | .cleanup _ _ => none
  | .close _ => none

/-- The step is a packet of the connection that satisfies `P`. -/
def OnPacket (P : Flow → Option RuleManager → PacketJob → Prop) (key : FiveTuple)
    (s : Taken FastPathProcessor WorkerEvent) : Prop :=
  ∃ rm job action, flowEvent key s = some (.packet rm job action) ∧ P (s.pre.flowOf key) rm job

/-- The connection is closed in the step, by flags or explicitly. -/
def Closing (key : FiveTuple) (s : Taken FastPathProcessor WorkerEvent) : Prop :=
  ∃ e, flowEvent key s = some e ∧ (s.pre.flowOf key).closedOn e = true

/-- Two packets of an entry satisfy `P`, and the entry is closed after the first of them, by the
second at the latest. -/
def CountsAgain (P : Flow → Option RuleManager → PacketJob → Prop)
    (ts : List (Taken FastPathProcessor WorkerEvent)) : Prop :=
  ∃ key t mid u, t :: mid ++ [u] <:+: ts ∧ Lives keys key (t :: mid ++ [u]) ∧ OnPacket P key t ∧
    OnPacket P key u ∧ ∃ v ∈ mid ++ [u], Closing key v

variable {fp fp' : FastPathProcessor} {key : FiveTuple}
  {ts : List (Taken FastPathProcessor WorkerEvent)} {s : Taken FastPathProcessor WorkerEvent}

theorem mem_keys : key ∈ fp.keys ↔ key ∈ fp.connTracker.connections := Finmap.mem_keys

theorem own_mem_keys {rm : Option RuleManager} {env : Env} {job : PacketJob}
    {action : PacketAction} (h : fp.processPacket rm env job = .ok (action, fp')) :
    canonicalTuple job.tuple ∈ fp'.keys := by
  obtain ⟨f, -, hf⟩ := (processPacket_ok h).own
  rw [mem_keys, ← isSome_flowAt, hf]
  rfl

/-- A packet creates at most its own connection. -/
theorem keys_processPacket_sdiff {rm : Option RuleManager} {env : Env} {job : PacketJob}
    {action : PacketAction} (h : fp.processPacket rm env job = .ok (action, fp')) :
    fp'.keys \ fp.keys = if canonicalTuple job.tuple ∈ fp.keys then ∅
      else {canonicalTuple job.tuple} := by
  have hother (key : FiveTuple) (hkey : key ∈ fp'.keys) (hne : key ≠ canonicalTuple job.tuple) :
      key ∈ fp.keys := by
    rw [mem_keys, ← isSome_flowAt] at hkey ⊢
    rcases (processPacket_ok h).other key hne with hsame | hnone
    · rwa [← hsame]
    · rw [hnone] at hkey
      cases hkey
  ext key
  rw [Finset.mem_sdiff]
  split_ifs with hmem
  · refine iff_of_false ?_ (Finset.notMem_empty key)
    rintro ⟨hpost, hpre⟩
    exact hpre (hother key hpost fun heq => hpre (heq ▸ hmem))
  · rw [Finset.mem_singleton]
    constructor
    · rintro ⟨hpost, hpre⟩
      by_contra hne
      exact hpre (hother key hpost hne)
    · rintro rfl
      exact ⟨own_mem_keys h, hmem⟩

theorem keys_cleanupStale_subset (fp : FastPathProcessor) (now timeout : Time) :
    keys { fp with connTracker := (fp.connTracker.cleanupStale now timeout).1 } ⊆ fp.keys := by
  intro key hkey
  rw [mem_keys, ← isSome_flowAt] at hkey ⊢
  rcases flowAt_cleanupStale fp now timeout key with hsame | hnone
  · rwa [← hsame]
  · rw [hnone] at hkey
    cases hkey

theorem keys_closeConnection (fp : FastPathProcessor) (tuple : FiveTuple) :
    keys { fp with connTracker := fp.connTracker.closeConnection tuple } = fp.keys := by
  ext key
  rw [mem_keys, mem_keys, ← isSome_flowAt, ← isSome_flowAt, flowAt_closeConnection]
  split_ifs <;> simp

/-- The counter is moved by the packets in `P`, and by nothing else. -/
structure CounterOf (P : Flow → Option RuleManager → PacketJob → Prop)
    (counter : ConnectionTracker → UInt64) : Prop where
  packet : ∀ {fp fp' rm env job action}, processPacket rm fp env job = .ok (action, fp') →
    Tallies (P (fp.flowOf (canonicalTuple job.tuple)) rm job) (counter fp.connTracker)
      (counter fp'.connTracker)
  cleanup : ∀ tr now timeout, counter (cleanupStale tr now timeout).1 = counter tr
  close : ∀ tr tuple, counter (closeConnection tr tuple) = counter tr

theorem counter_closeConnection {counter : ConnectionTracker → UInt64}
    (hstore : ∀ tr key c, counter (store tr key c) = counter tr) (tr : ConnectionTracker)
    (tuple : FiveTuple) : counter (tr.closeConnection tuple) = counter tr := by
  unfold closeConnection
  dsimp only
  split
  · exact hstore _ _ _
  · rfl

theorem counterOf_classifiedCount :
    CounterOf (fun f _ job => f.ClassifiedBy job) ConnectionTracker.classifiedCount where
  packet h := (counts_processPacket h).classifiedCount
  cleanup _ _ _ := rfl
  close := counter_closeConnection fun _ _ _ => rfl

theorem counterOf_blockedCount :
    CounterOf (fun f rm job => f.BlockedBy rm job) ConnectionTracker.blockedCount where
  packet h := (counts_processPacket h).blockedCount
  cleanup _ _ _ := rfl
  close := counter_closeConnection fun _ _ _ => rfl

section Counters

variable {P : Flow → Option RuleManager → PacketJob → Prop} {counter : ConnectionTracker → UInt64}

/-- A counter that packets in `P` move counts their connections. -/
theorem WorkerStep.countedBy_iff (hcounter : CounterOf P counter)
    (h : WorkerStep s.pre s.label s.post) :
    countedBy counter s = some key ↔ OnPacket P key s := by
  obtain ⟨pre, label, post⟩ := s
  change WorkerStep pre label post at h
  unfold countedBy OnPacket flowEvent
  cases h with
  | packet h =>
    rename_i rm env job action
    have hmoved := (hcounter.packet h).ne_iff
    dsimp only
    split_ifs with hsame hkey hkey
    · refine iff_of_false (by simp) ?_
      rintro ⟨_, _, _, ⟨⟩, hP⟩
      rw [← hkey] at hP
      exact hmoved.2 hP hsame
    · exact iff_of_false (by simp) (by simp)
    · refine iff_of_true (congrArg some hkey) ⟨rm, job, action, rfl, ?_⟩
      rw [← hkey]
      exact hmoved.1 hsame
    · exact iff_of_false (fun h => hkey (Option.some.inj h)) (by simp)
  | cleanup now timeout => exact iff_of_false (by simp) (by simp)
  | close tuple =>
    refine iff_of_false (by simp) ?_
    rintro ⟨rm, job, action, he, -⟩
    dsimp only at he
    split_ifs at he
    cases he

theorem WorkerStep.mem_of_onPacket (h : WorkerStep s.pre s.label s.post) (hP : OnPacket P key s) :
    key ∈ s.post.keys := by
  obtain ⟨rm, job, action, he, -⟩ := hP
  obtain ⟨env, hlabel, rfl⟩ := label_of_flowEvent he
  rw [hlabel] at h
  cases h with
  | packet h => exact own_mem_keys h

theorem WorkerStep.latch_set {I : Flow → Prop} (hlatch : Flow.Latch P I)
    (h : WorkerStep s.pre s.label s.post) (hP : OnPacket P key s) :
    I (s.post.flowOf key) := by
  have hkeep : Keeps key s := fun _ => mem_keys.1 (h.mem_of_onPacket hP)
  obtain ⟨rm, job, action, he, hP⟩ := hP
  rcases h.flowOf_cases hkeep with ⟨e, he', hstep⟩ | ⟨hnone, -⟩
  · obtain rfl := Option.some.inj (he.symm.trans he')
    cases hstep with
    | packet hstep => exact hlatch.set hstep hP
  · rw [show flowEvent key s = none from hnone] at he
    cases he

/-- While its entry is kept and not closed, what a latch holds stays. -/
theorem WorkerStep.latch_keep {I : Flow → Prop} (hlatch : Flow.Latch P I)
    (h : WorkerStep s.pre s.label s.post) (hI : I (s.pre.flowOf key))
    (hopen : ¬ (Closing key s ∨ key ∉ s.post.keys)) :
    I (s.post.flowOf key) ∧ ¬ OnPacket P key s := by
  obtain ⟨hopen, hmem⟩ := not_or.1 hopen
  have hkeep : Keeps key s := fun _ => mem_keys.1 (not_not.1 hmem)
  rcases h.flowOf_cases hkeep with ⟨e, he, hstep⟩ | ⟨hnone, hsame⟩
  · have hclosed : (s.pre.flowOf key).closedOn e = false := by
      rw [← Bool.not_eq_true]
      exact fun hc => hopen ⟨e, he, hc⟩
    obtain ⟨hI', hbar⟩ := hlatch.step hstep hI hclosed
    refine ⟨hI', ?_⟩
    rintro ⟨rm, job, action, he', hP⟩
    exact hbar rm job action (Option.some.inj (he.symm.trans he')) hP
  · rw [hsame]
    refine ⟨hI, ?_⟩
    rintro ⟨rm, job, action, he, -⟩
    rw [show flowEvent key s = none from hnone] at he
    cases he

/-- A counter counts every connection at most once in its lifetime iff no connection that it has
counted is closed and then counts again. -/
theorem oncePerLife_countedBy_iff {I : Flow → Prop} (hlatch : Flow.Latch P I)
    (hcounter : CounterOf P counter) (hrun : Run WorkerStep fp ts fp') :
    OncePerLife keys (countedBy counter) ts ↔ ¬ CountsAgain P ts := by
  have hcounted {key : FiveTuple} {s : Taken FastPathProcessor WorkerEvent} (hs : s ∈ ts) :
      countedBy counter s = some key ↔ OnPacket P key s :=
    (hrun.step_of_mem hs).countedBy_iff hcounter
  rw [oncePerLife_iff]
  constructor
  · rintro honce ⟨key, t, mid, u, hin, hlives, ht, hu, -⟩
    exact honce key t mid u hin hlives ((hcounted (hin.subset (by simp))).2 ht)
      ((hcounted (hin.subset (by simp))).2 hu)
  · intro hagain key t mid u hin hlives ht hu
    have ht' := (hcounted (hin.subset (by simp))).1 ht
    have hu' := (hcounted (hin.subset (by simp))).1 hu
    refine hagain ⟨key, t, mid, u, hin, hlives, ht', hu', ?_⟩
    obtain ⟨before, after, rfl⟩ := hin
    obtain ⟨m, hfirst, -⟩ := Run.append_iff.1 hrun
    obtain ⟨m', -, hpart⟩ := Run.append_iff.1 hfirst
    obtain ⟨v, hv, hclosing | hgone⟩ := hpart.exists_reset (P := fun fp => I (fp.flowOf key))
      (R := fun v => Closing key v ∨ key ∉ v.post.keys) (fun _ h => h.latch_set hlatch)
      (fun _ h => h.latch_keep hlatch) ht' hu'
    · exact ⟨v, hv, hclosing⟩
    · exact absurd (hlives v (List.mem_cons_of_mem _ hv)) hgone

/-- A counter moves by what it counts. -/
theorem WorkerStep.counter_eq (hcounter : CounterOf P counter)
    (h : WorkerStep s.pre s.label s.post) :
    counter s.post.connTracker =
      counter s.pre.connTracker + UInt64.ofNat (countedBy counter s).toList.length := by
  obtain ⟨pre, label, post⟩ := s
  change WorkerStep pre label post at h
  unfold countedBy
  cases h with
  | packet h =>
    have htally := hcounter.packet h
    dsimp only
    split_ifs with hsame
    · rw [hsame]
      exact (UInt64.add_zero _).symm
    · exact (htally.resolve_right fun hnot => hsame hnot.2).2
  | cleanup now timeout => exact (hcounter.cleanup _ _ _).trans (UInt64.add_zero _).symm
  | close tuple => exact (hcounter.close _ _).trans (UInt64.add_zero _).symm

theorem WorkerStep.totalSeen_eq (h : WorkerStep s.pre s.label s.post) :
    s.post.connTracker.totalSeen =
      s.pre.connTracker.totalSeen + UInt64.ofNat (s.post.keys \ s.pre.keys).card := by
  obtain ⟨pre, label, post⟩ := s
  change WorkerStep pre label post at h
  cases h with
  | packet h =>
    rw [keys_processPacket_sdiff h]
    rcases (counts_processPacket h).totalSeen with ⟨hnew, htotal⟩ | ⟨hold, htotal⟩
    · rw [if_neg (mt mem_keys.1 hnew), htotal]
      rfl
    · rw [if_pos (mem_keys.2 (not_not.1 hold)), htotal]
      exact (UInt64.add_zero _).symm
  | cleanup now timeout =>
    rw [Finset.sdiff_eq_empty_iff_subset.2 (keys_cleanupStale_subset pre now timeout)]
    exact (UInt64.add_zero _).symm
  | close tuple =>
    rw [keys_closeConnection, Finset.sdiff_self]
    exact (counter_closeConnection (fun _ _ _ => rfl) _ _).trans (UInt64.add_zero _).symm

/-- What is counted once in each lifetime does not exceed the connections seen. -/
theorem counter_le_totalSeen (hcounter : CounterOf P counter) (hrun : Run WorkerStep fp ts fp')
    (hempty : fp.keys = ∅) (hzero : counter fp.connTracker = 0)
    (htotal : fp.connTracker.totalSeen = 0) (honce : OncePerLife keys (countedBy counter) ts)
    (hfew : created keys ts < 2 ^ 64) :
    counter fp'.connTracker ≤ fp'.connTracker.totalSeen := by
  have hmem : ∀ s ∈ ts, ∀ key, countedBy counter s = some key → key ∈ s.post.keys :=
    fun s hs key hkey => (hrun.step_of_mem hs).mem_of_onPacket
      (((hrun.step_of_mem hs).countedBy_iff hcounter).1 hkey)
  have hle := countings_le_created hrun hempty hmem honce
  have hcount := hrun.counter (c := fun fp => counter fp.connTracker) fun s hs =>
    (hrun.step_of_mem hs).counter_eq hcounter
  have hseen := hrun.counter (c := fun fp => fp.connTracker.totalSeen) fun s hs =>
    (hrun.step_of_mem hs).totalSeen_eq
  rw [hzero, ← countings_eq_sum, UInt64.zero_add] at hcount
  rw [htotal, UInt64.zero_add] at hseen
  change _ = UInt64.ofNat (created keys ts) at hseen
  rw [hcount, hseen, UInt64.le_iff_toNat_le, UInt64.toNat_ofNat_of_lt' (hle.trans_lt hfew),
    UInt64.toNat_ofNat_of_lt' hfew]
  exact hle

end Counters

/-! ## Counting connections -/

/-- The counters of the tracker count connections, in all steps of a run. -/
structure CountConnections (ts : List (Taken FastPathProcessor WorkerEvent)) : Prop where
  classified_le : ∀ s ∈ ts, s.post.connTracker.getStats.classifiedConnections ≤
    s.post.connTracker.getStats.totalConnectionsSeen
  blocked_le : ∀ s ∈ ts, s.post.connTracker.getStats.blockedConnections ≤
    s.post.connTracker.getStats.totalConnectionsSeen
  classified_once : OncePerLife keys (countedBy ConnectionTracker.classifiedCount) ts
  blocked_once : OncePerLife keys (countedBy ConnectionTracker.blockedCount) ts

/-- An entry that was classified, or blocked, is closed and then classified, or blocked, again. -/
def Recounts (ts : List (Taken FastPathProcessor WorkerEvent)) : Prop :=
  CountsAgain (fun f _ job => f.ClassifiedBy job) ts ∨
    CountsAgain (fun f rm job => f.BlockedBy rm job) ts

theorem getStats_le {P : Flow → Option RuleManager → PacketJob → Prop}
    {counter : ConnectionTracker → UInt64} (hcounter : CounterOf P counter)
    (hrun : Run WorkerStep fp ts fp') (hempty : fp.keys = ∅) (hzero : counter fp.connTracker = 0)
    (htotal : fp.connTracker.totalSeen = 0) (honce : OncePerLife keys (countedBy counter) ts)
    (hfew : created keys ts < 2 ^ 64) :
    ∀ s ∈ ts, counter s.post.connTracker ≤ s.post.connTracker.totalSeen := by
  intro s hs
  obtain ⟨before, after, rfl, hfirst⟩ := hrun.upto hs
  refine counter_le_totalSeen hcounter hfirst hempty hzero htotal honce.of_append ?_
  have hsplit : created keys (before ++ [s] ++ after) =
      created keys (before ++ [s]) + created keys after := by
    rw [created, List.map_append, List.sum_append]
    rfl
  omega

/-- In every run of a new tracker, its counters count connections only if no entry is classified
again, or blocked again, after it was closed, and they do in every such run that creates fewer than
`2 ^ 64` connections. -/
theorem counters_count_connections {m : ℕ} (hnew : fp.connTracker = { maxConnections := m })
    (hrun : Run WorkerStep fp ts fp') :
    (CountConnections ts → ¬ Recounts ts) ∧
      (¬ Recounts ts → created keys ts < 2 ^ 64 → CountConnections ts) := by
  have hempty : fp.keys = ∅ := by
    rw [keys, hnew]
    rfl
  have htotal : fp.connTracker.totalSeen = 0 := by rw [hnew]
  have hclassified :=
    oncePerLife_countedBy_iff Flow.latch_classified counterOf_classifiedCount hrun
  have hblocked := oncePerLife_countedBy_iff Flow.latch_blocked counterOf_blockedCount hrun
  constructor
  · intro h
    exact not_or.2 ⟨hclassified.1 h.classified_once, hblocked.1 h.blocked_once⟩
  · intro h hfew
    obtain ⟨hc, hb⟩ := not_or.1 h
    have hconce := hclassified.2 hc
    have hbonce := hblocked.2 hb
    exact ⟨getStats_le counterOf_classifiedCount hrun hempty (by rw [hnew]) htotal hconce hfew,
      getStats_le counterOf_blockedCount hrun hempty (by rw [hnew]) htotal hbonce hfew, hconce,
      hbonce⟩

/-- A request for a blocked host with its answer, the request of another client, and a cleanup that
removes both connections. -/
def countedOnce : List WorkerEvent :=
  [.packet (some badHostBlocked) ⟨0, 0, []⟩ (request "bad.com") .drop,
    .packet (some badHostBlocked) ⟨1, 1, []⟩ (otherRequest "ok.com") .forward,
    .packet (some badHostBlocked) ⟨2, 2, []⟩ answer .drop,
    .cleanup 310000000000 300]

/-- Two connections are seen and classified, and one of them is blocked. -/
theorem counters_count_connections_countedOnce :
    ∃ ts fp, Run.trace after {} countedOnce = some (ts, fp) ∧
      fp.connTracker.getStats = ⟨0, 2, 2, 1⟩ ∧ CountConnections ts := by
  let unclosed (s : Taken FastPathProcessor WorkerEvent) : Bool :=
    match s.label with
    | .packet _ _ job _ => !(s.pre.flowOf (canonicalTuple job.tuple)).closes job
    | .cleanup _ _ => true
    | .close _ => false
  have h : ((Run.trace after {} countedOnce).map fun r =>
      decide (r.2.connTracker.getStats = ⟨0, 2, 2, 1⟩ ∧ created keys r.1 = 2 ∧
        ∀ s ∈ r.1, unclosed s = true)) = some true := by decide +kernel
  obtain ⟨⟨ts, fp⟩, htrace, h⟩ := Option.map_eq_some_iff.1 h
  obtain ⟨hstats, hcreated, hopen⟩ := of_decide_eq_true h
  have hnot (P : Flow → Option RuleManager → PacketJob → Prop) : ¬ CountsAgain P ts := by
    rintro ⟨key, t, mid, u, hin, -, -, -, v, hv, e, he, hclosed⟩
    have hv' := hopen v (hin.subset (List.mem_cons_of_mem _ hv))
    unfold flowEvent at he
    simp only [unclosed] at hv'
    split at he
    · rename_i hlabel
      split_ifs at he with hkey
      cases he
      subst hkey
      rw [Flow.closedOn] at hclosed
      simp [hlabel, hclosed] at hv'
    · cases he
    · rename_i hlabel
      rw [hlabel] at hv'
      cases hv'
  refine ⟨ts, fp, htrace, hstats, (counters_count_connections rfl (run_of_trace htrace)).2
    (not_or.2 ⟨hnot _, hnot _⟩) ?_⟩
  rw [hcreated]
  decide

/-- The request again, with the end of the stream. -/
def lastRequest : PacketJob := { request "bad.com" with tcpFlags := 0x19 }

/-- One connection is counted as classified twice, and as blocked twice. -/
theorem connection_counted_twice :
    ∃ fp₁ fp₂,
      processPacket (some badHostBlocked) {} ⟨0, 0, []⟩ (request "bad.com") = .ok (.drop, fp₁) ∧
      processPacket (some badHostBlocked) fp₁ ⟨1, 1, []⟩ lastRequest = .ok (.drop, fp₂) ∧
      fp₂.connTracker.getStats = ⟨1, 1, 2, 2⟩ ∧
      ¬ CountConnections
        [⟨{}, .packet (some badHostBlocked) ⟨0, 0, []⟩ (request "bad.com") .drop, fp₁⟩,
          ⟨fp₁, .packet (some badHostBlocked) ⟨1, 1, []⟩ lastRequest .drop, fp₂⟩] := by
  have h : (do
      let r₁ ← processPacket (some badHostBlocked) {} ⟨0, 0, []⟩ (request "bad.com")
      let r₂ ← processPacket (some badHostBlocked) r₁.2 ⟨1, 1, []⟩ lastRequest
      return (r₁.1, r₂.1, r₂.2.connTracker.getStats)) =
      Except.ok (PacketAction.drop, PacketAction.drop, (⟨1, 1, 2, 2⟩ : TrackerStats)) := by
    decide +kernel
  obtain ⟨⟨a₁, fp₁⟩, h₁, h⟩ := bind_eq_ok_iff.1 h
  obtain ⟨⟨a₂, fp₂⟩, h₂, h⟩ := bind_eq_ok_iff.1 h
  simp only [pure, Except.pure, Except.ok.injEq, Prod.mk.injEq] at h
  obtain ⟨rfl, rfl, hstats⟩ := h
  refine ⟨fp₁, fp₂, h₁, h₂, hstats, fun hcount => ?_⟩
  have hle := hcount.classified_le _ (List.mem_cons_of_mem _ List.mem_cons_self)
  rw [hstats] at hle
  exact absurd hle (by decide)

end FastPathProcessor

end DPI
