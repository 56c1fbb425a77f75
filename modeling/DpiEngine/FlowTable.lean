import DpiEngine.ExtractorSafety
import DpiEngine.Flow
import DpiEngine.Lib.Run

/-!
# Flows in the table

What `processPacket` does to the table of a processor, told by the flows under its keys, and runs
of the per-packet work: packets interleaved with the cleanups of an idle worker.
-/

namespace DPI

open Bytes ConnectionTracker

/-! ## Decisions are defined -/

theorem defined_visibleName (job : PacketJob) : Defined (visibleName job) := by
  have htls : Defined (tlsName job) :=
    .ite (fun _ => (SNIExtractor.defined_extract _).map _) fun _ => defined_ok _
  have hhttp : Defined (httpName job) :=
    .ite (fun _ => (HTTPHostExtractor.defined_extract _).map _) fun _ => defined_ok _
  have hdns : Defined (dnsName job) :=
    .ite (fun _ => (DNSExtractor.defined_extractQuery _).map _) fun _ => defined_ok _
  apply htls.bind
  intro name _
  cases name with
  | some name => exact defined_ok _
  | none =>
    apply hhttp.bind
    intro name _
    cases name with
    | some name => exact defined_ok _
    | none => exact hdns

theorem Flow.defined_inspect (f : Flow) (job : PacketJob) : Defined (f.inspect job) := by
  refine (defined_visibleName job).bind fun name _ => ?_
  cases name with
  | some name => exact defined_ok _
  | none =>
    dsimp only
    cases portApp job.tuple <;> exact defined_ok _

theorem Flow.defined_step (rm : Option RuleManager) (f : Flow) (job : PacketJob) :
    Defined (f.step rm job) := by
  refine .ite (fun _ => defined_ok _) fun _ => Defined.bind ?_ fun _ _ => defined_ok _
  exact .ite (fun _ => (f.receive job).defined_inspect job) fun _ => defined_ok _

namespace FastPathProcessor

/-- The flow the table of a processor holds under a key. -/
def flowAt (fp : FastPathProcessor) (key : FiveTuple) : Option Flow :=
  (fp.connTracker.connections.lookup key).map Connection.flow

theorem isSome_flowAt (fp : FastPathProcessor) (key : FiveTuple) :
    (fp.flowAt key).isSome ↔ key ∈ fp.connTracker.connections := by
  rw [flowAt, Option.isSome_map, Finmap.lookup_isSome]

/-- The flow of a key: a fresh one while there is no entry. -/
def flowOf (fp : FastPathProcessor) (key : FiveTuple) : Flow := (fp.flowAt key).getD {}

/-- What one packet does to a processor: it moves the flow of its own connection, and keeps or
evicts each of the others. -/
structure Effect (rm : Option RuleManager) (fp : FastPathProcessor) (job : PacketJob)
    (action : PacketAction) (fp' : FastPathProcessor) : Prop where
  own : ∃ f, (fp.flowOf (canonicalTuple job.tuple)).step rm job = .ok (action, f) ∧
    fp'.flowAt (canonicalTuple job.tuple) = some f
  other : ∀ key ≠ canonicalTuple job.tuple, fp'.flowAt key = fp.flowAt key ∨ fp'.flowAt key = none
  maxConnections : fp'.connTracker.maxConnections = fp.connTracker.maxConnections
  packetsProcessed : fp'.packetsProcessed = fp.packetsProcessed
  packetsForwarded : fp'.packetsForwarded = fp.packetsForwarded
  packetsDropped : fp'.packetsDropped = fp.packetsDropped

/-- The entry under a key once the connection of a packet is found or created. -/
theorem lookup_getOrCreateConnection (fp : FastPathProcessor) (env : Env) (t key : FiveTuple)
    {tr : ConnectionTracker}
    (htr : tr = (fp.connTracker.getOrCreateConnection env.created env.order t).1) :
    tr.connections.lookup key = none ∨
    (tr.connections.lookup key).map Connection.flow =
      if key = canonicalTuple t then some (fp.flowOf key) else fp.flowAt key := by
  rw [htr]
  refine (lookup_getOrCreateConnection_cases fp.connTracker env.created env.order t key).imp_right
    fun h => ?_
  rw [h]
  split_ifs with hkey
  · rw [flowOf, flowAt]
    cases fp.connTracker.connections.lookup key <;> rfl
  · rfl

/-- What a packet that is decided went through. -/
theorem processPacket_inv {rm : Option RuleManager} {fp fp' : FastPathProcessor} {env : Env}
    {job : PacketJob} {action : PacketAction} {tr : ConnectionTracker}
    (htr : tr = (fp.connTracker.getOrCreateConnection env.created env.order job.tuple).1)
    (h : fp.processPacket rm env job = .ok (action, fp')) :
    ∃ conn fp₁ conn', tr.connections.lookup (canonicalTuple job.tuple) = some conn ∧
      processConnection rm { fp with connTracker := tr } env.seen job conn =
        .ok (action, fp₁, conn') ∧
      fp' = { fp₁ with connTracker := fp₁.connTracker.store (canonicalTuple job.tuple) conn' } := by
  have hr : fp.connTracker.getOrCreateConnection env.created env.order job.tuple =
      (tr, canonicalTuple job.tuple) := Prod.ext htr.symm (getOrCreateConnection_ptr _ _ _ _)
  unfold processPacket at h
  rw [hr] at h
  obtain ⟨conn, hload, h⟩ := bind_eq_ok_iff.1 h
  obtain ⟨⟨action', fp₁, conn'⟩, hproc, h⟩ := bind_eq_ok_iff.1 h
  cases h
  exact ⟨conn, fp₁, conn', load_eq_ok_iff.1 hload, hproc, rfl⟩

theorem sameTable_of_processConnection {rm : Option RuleManager} {fp fp' : FastPathProcessor}
    {seen : Time} {job : PacketJob} {conn conn' : Connection} {action : PacketAction}
    (h : processConnection rm fp seen job conn = .ok (action, fp', conn')) : SameTable fp fp' := by
  have hdec := decides_processConnection rm fp seen job conn
  rw [h] at hdec
  cases hstep : conn.flow.step rm job with
  | error e =>
    rw [hstep] at hdec
    exact hdec.elim
  | ok r =>
    rw [hstep] at hdec
    exact hdec.1

theorem processPacket_ok {rm : Option RuleManager} {fp fp' : FastPathProcessor} {env : Env}
    {job : PacketJob} {action : PacketAction}
    (h : fp.processPacket rm env job = .ok (action, fp')) : Effect rm fp job action fp' := by
  have hlook (key : FiveTuple) := lookup_getOrCreateConnection fp env job.tuple key rfl
  have hmax := maxConnections_getOrCreateConnection fp.connTracker env.created env.order job.tuple
  obtain ⟨conn, fp₁, conn', hconn, hproc, rfl⟩ := processPacket_inv rfl h
  generalize (fp.connTracker.getOrCreateConnection env.created env.order job.tuple).1 = tr at *
  have hown : fp.flowOf (canonicalTuple job.tuple) = conn.flow := by
    have := hlook (canonicalTuple job.tuple)
    rw [hconn] at this
    exact Eq.symm (by simpa using this)
  have hdec := decides_processConnection rm { fp with connTracker := tr } env.seen job conn
  rw [hproc] at hdec
  rcases hstep : conn.flow.step rm job with e | ⟨action', f⟩
  · rw [hstep] at hdec
    exact hdec.elim
  · rw [hstep] at hdec
    obtain ⟨hsame, rfl, rfl⟩ := hdec
    refine ⟨⟨conn'.flow, by rw [hown, hstep], ?_⟩, fun key hkey => ?_, ?_,
      hsame.packetsProcessed, hsame.packetsForwarded, hsame.packetsDropped⟩
    · simp [flowAt, store]
    · have hkept := hlook key
      rw [if_neg hkey] at hkept
      simp only [flowAt, store, hsame.connections, Finmap.lookup_insert_of_ne _ hkey]
      exact hkept.elim (fun h => Or.inr (by rw [h]; rfl)) Or.inl
    · exact hsame.maxConnections.trans hmax

/-- A flow that is kept or removed is kept if its entry is still there. -/
theorem flowAt_of_kept {fp fp' : FastPathProcessor} {key : FiveTuple}
    (h : fp'.flowAt key = fp.flowAt key ∨ fp'.flowAt key = none)
    (hkept : key ∈ fp.connTracker.connections → key ∈ fp'.connTracker.connections) :
    fp'.flowAt key = fp.flowAt key := by
  apply h.elim id
  intro hnone
  rw [hnone, eq_comm, ← Option.not_isSome_iff_eq_none, isSome_flowAt]
  intro hmem
  have := (isSome_flowAt fp' key).2 (hkept hmem)
  rw [hnone] at this
  cases this

/-- While no other entry is lost, a packet updates the flow of its own key only. -/
theorem Effect.flowOf_eq {rm : Option RuleManager} {fp fp' : FastPathProcessor} {job : PacketJob}
    {action : PacketAction} (h : Effect rm fp job action fp')
    (hkept : ∀ key, key ∈ fp.connTracker.connections → key ∈ fp'.connTracker.connections) :
    ∃ f, (fp.flowOf (canonicalTuple job.tuple)).step rm job = .ok (action, f) ∧
      fp'.flowOf = Function.update fp.flowOf (canonicalTuple job.tuple) f := by
  obtain ⟨f, hstep, hf⟩ := h.own
  refine ⟨f, hstep, funext fun key => ?_⟩
  by_cases hkey : key = canonicalTuple job.tuple
  · rw [hkey, Function.update_self, flowOf, hf]
    rfl
  · rw [Function.update_of_ne hkey, flowOf, flowOf,
      flowAt_of_kept (h.other key hkey) (hkept key)]

/-- A packet whose entry is in the table once it is found or created is decided. -/
theorem processPacket_of_mem (rm : Option RuleManager) (fp : FastPathProcessor) (env : Env)
    (job : PacketJob) {tr : ConnectionTracker}
    (htr : tr = (fp.connTracker.getOrCreateConnection env.created env.order job.tuple).1)
    (hmem : canonicalTuple job.tuple ∈ tr.connections) :
    ∃ action fp', fp.processPacket rm env job = .ok (action, fp') ∧
      fp'.connTracker.connections.keys = tr.connections.keys := by
  obtain ⟨conn, hconn⟩ := Finmap.mem_iff.1 hmem
  have hdec := decides_processConnection rm { fp with connTracker := tr } env.seen job conn
  obtain ⟨⟨action, f⟩, hstep⟩ := conn.flow.defined_step rm job
  rw [hstep] at hdec
  rcases hproc : processConnection rm { fp with connTracker := tr } env.seen job conn with
    e | ⟨action', fp₁, conn'⟩
  · rw [hproc] at hdec
    exact hdec.elim
  · rw [hproc] at hdec
    refine ⟨action', { fp₁ with
      connTracker := fp₁.connTracker.store (canonicalTuple job.tuple) conn' }, ?_, ?_⟩
    · have hr : fp.connTracker.getOrCreateConnection env.created env.order job.tuple =
          (tr, canonicalTuple job.tuple) := Prod.ext htr.symm (getOrCreateConnection_ptr _ _ _ _)
      unfold processPacket
      rw [hr]
      refine bind_eq_ok_iff.2 ⟨conn, load_eq_ok_iff.2 hconn, ?_⟩
      exact bind_eq_ok_iff.2 ⟨_, hproc, rfl⟩
    · rw [store, Table.keys_insert, hdec.1.connections,
        Finset.insert_eq_of_mem (Finmap.mem_keys.2 hmem)]

/-- With room in the table a packet is always decided, and no entry is lost. -/
theorem processPacket_of_room (rm : Option RuleManager) (fp : FastPathProcessor) (env : Env)
    (job : PacketJob)
    (hroom : canonicalTuple job.tuple ∈ fp.connTracker.connections ∨
      Table.size fp.connTracker.connections < fp.connTracker.maxConnections) :
    ∃ action fp', fp.processPacket rm env job = .ok (action, fp') ∧
      fp'.connTracker.connections.keys =
        insert (canonicalTuple job.tuple) fp.connTracker.connections.keys := by
  obtain ⟨tr, htr⟩ : ∃ tr, tr =
      (fp.connTracker.getOrCreateConnection env.created env.order job.tuple).1 := ⟨_, rfl⟩
  have hkeys : tr.connections.keys =
      insert (canonicalTuple job.tuple) fp.connTracker.connections.keys := by
    rcases getOrCreateConnection_cases fp.connTracker env.created env.order job.tuple with
      ⟨hk, h⟩ | ⟨-, -, h⟩ | ⟨hk, hfull, -⟩
    · rw [htr, h, Finset.insert_eq_of_mem (Finmap.mem_keys.2 hk)]
    · rw [htr, h]
      exact Table.keys_insert _ _ _
    · exact absurd (hroom.resolve_left hk) (by omega)
  have hmem : canonicalTuple job.tuple ∈ tr.connections := by
    rw [← Finmap.mem_keys, hkeys]
    exact Finset.mem_insert_self _ _
  obtain ⟨action, fp', hproc, heq⟩ := processPacket_of_mem rm fp env job htr hmem
  exact ⟨action, fp', hproc, heq.trans hkeys⟩

/-! ## Sequences of packets -/

/-- One processor on a sequence of packets. -/
def processAll (rm : Option RuleManager) (fp : FastPathProcessor) :
    List (Env × PacketJob) → Checked (List PacketAction × FastPathProcessor)
  | [] => .ok ([], fp)
  | (env, job) :: rest => do
    let (action, fp) ← processPacket rm fp env job
    let (actions, fp) ← processAll rm fp rest
    return (action :: actions, fp)

/-! ## Runs -/

/-- What happens to a processor, with the action of each packet. -/
inductive Event where
  | packet (env : Env) (job : PacketJob) (action : PacketAction)
  | idle (now : Time)

/-- One turn of the thread loop: a packet, or a cleanup after the queue stayed empty. -/
inductive Step (rm : Option RuleManager) : FastPathProcessor → Event → FastPathProcessor → Prop
  | packet {fp fp' : FastPathProcessor} {env : Env} {job : PacketJob} {action : PacketAction}
      (h : fp.processPacket rm env job = .ok (action, fp')) :
      Step rm fp (.packet env job action) fp'
  | idle (fp : FastPathProcessor) (now : Time) :
      Step rm fp (.idle now) { fp with connTracker := (fp.connTracker.cleanupStale now).1 }

/-- A cleanup keeps a flow or removes it. -/
theorem flowAt_cleanupStale (fp : FastPathProcessor) (now timeout : Time) (key : FiveTuple) :
    let fp' := { fp with connTracker := (fp.connTracker.cleanupStale now timeout).1 }
    fp'.flowAt key = fp.flowAt key ∨ fp'.flowAt key = none :=
  (lookup_cleanupStale fp.connTracker now timeout key).imp
    (congrArg (Option.map Connection.flow)) (congrArg (Option.map Connection.flow))

/-- A connection whose entry is in the table after a step was moved by a packet of its own, or
not at all. -/
theorem Step.flowAt_cases {rm : Option RuleManager} {fp fp' : FastPathProcessor} {e : Event}
    {key : FiveTuple} (h : Step rm fp e fp') (hlive : key ∈ fp'.connTracker.connections) :
    (∃ env job action f, e = .packet env job action ∧ canonicalTuple job.tuple = key ∧
      (fp.flowOf key).step rm job = .ok (action, f) ∧ fp'.flowAt key = some f) ∨
    (fp'.flowAt key = fp.flowAt key ∧
      ∀ env job action, e = .packet env job action → canonicalTuple job.tuple ≠ key) := by
  have hsome := (isSome_flowAt fp' key).2 hlive
  cases h with
  | packet h =>
    rename_i env job action
    have heff := processPacket_ok h
    by_cases hkey : canonicalTuple job.tuple = key
    · obtain ⟨f, hstep, hf⟩ := heff.own
      exact Or.inl ⟨env, job, action, f, rfl, hkey, hkey ▸ hstep, hkey ▸ hf⟩
    · refine Or.inr ⟨?_, ?_⟩
      · apply (heff.other key (Ne.symm hkey)).resolve_right
        intro hnone
        rw [hnone] at hsome
        cases hsome
      · rintro _ _ _ ⟨⟩
        exact hkey
  | idle now =>
    refine Or.inr ⟨(flowAt_cleanupStale fp now 300 key).resolve_right fun hnone => ?_, ?_⟩
    · rw [hnone] at hsome
      cases hsome
    · rintro _ _ _ ⟨⟩

end FastPathProcessor

end DPI
