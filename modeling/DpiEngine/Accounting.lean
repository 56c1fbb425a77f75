import DpiEngine.Worker

/-!
# Directional accounting

The counters of a connection against the packets that a worker has processed.  The direction of a
packet is found by comparing its addresses and ports with those of the packet that created the
entry; the entry is found under the canonical tuple, so the two tuples are equal or reverses of each
other, and a packet that is not outbound is inbound.
-/

namespace DPI

open Bytes ConnectionTracker FastPathProcessor

/-! ## Accounts -/

/-- What is counted for a connection, with its initiating tuple. -/
structure Account where
  tuple : FiveTuple
  packetsIn : UInt64 := 0
  packetsOut : UInt64 := 0
  bytesIn : UInt64 := 0
  bytesOut : UInt64 := 0
  deriving DecidableEq, Repr

def Connection.account (c : Connection) : Account where
  tuple := c.tuple
  packetsIn := c.packetsIn
  packetsOut := c.packetsOut
  bytesIn := c.bytesIn
  bytesOut := c.bytesOut

namespace Account

/-- One packet of the connection. -/
def count (a : Account) (job : PacketJob) : Account :=
  if job.tuple = a.tuple then
    { a with
      packetsOut := a.packetsOut + 1
      bytesOut := a.bytesOut + UInt64.ofNat job.data.length }
  else
    { a with
      packetsIn := a.packetsIn + 1
      bytesIn := a.bytesIn + UInt64.ofNat job.data.length }

/-- The packets whose five-tuple is the initiating one. -/
def outbound (t : FiveTuple) (jobs : List PacketJob) : List PacketJob :=
  jobs.filter fun job => job.tuple = t

/-- The packets whose five-tuple is the reverse of the initiating one and differs from it. -/
def inbound (t : FiveTuple) (jobs : List PacketJob) : List PacketJob :=
  jobs.filter fun job => job.tuple = t.reverse ∧ job.tuple ≠ t

/-- The total data size of some packets. -/
def dataSize (jobs : List PacketJob) : ℕ := (jobs.map fun job => job.data.length).sum

/-- The counters of `a` are those of the packets `jobs`, modulo `2 ^ 64`. -/
structure Exact (a : Account) (jobs : List PacketJob) : Prop where
  packetsOut : a.packetsOut = UInt64.ofNat (outbound a.tuple jobs).length
  bytesOut : a.bytesOut = UInt64.ofNat (dataSize (outbound a.tuple jobs))
  packetsIn : a.packetsIn = UInt64.ofNat (inbound a.tuple jobs).length
  bytesIn : a.bytesIn = UInt64.ofNat (dataSize (inbound a.tuple jobs))

theorem exact_nil (t : FiveTuple) : Exact { tuple := t } [] := ⟨rfl, rfl, rfl, rfl⟩

@[simp] theorem tuple_count (a : Account) (job : PacketJob) : (a.count job).tuple = a.tuple := by
  unfold count
  split_ifs <;> rfl

section

variable {t : FiveTuple} {jobs : List PacketJob} {job : PacketJob}

theorem outbound_concat (h : job.tuple = t) :
    outbound t (jobs ++ [job]) = outbound t jobs ++ [job] := by
  simp [outbound, h]

theorem outbound_concat_of_ne (h : job.tuple ≠ t) :
    outbound t (jobs ++ [job]) = outbound t jobs := by
  simp [outbound, h]

theorem inbound_concat (h : job.tuple = t.reverse) (hne : job.tuple ≠ t) :
    inbound t (jobs ++ [job]) = inbound t jobs ++ [job] := by
  rw [h] at hne
  simp [inbound, h, hne]

theorem inbound_concat_of_eq (h : job.tuple = t) :
    inbound t (jobs ++ [job]) = inbound t jobs := by
  simp [inbound, h]

theorem dataSize_concat (jobs : List PacketJob) (job : PacketJob) :
    dataSize (jobs ++ [job]) = dataSize jobs + job.data.length := by
  simp [dataSize]

end

/-- A packet of the connection is counted in one direction. -/
theorem Exact.count {a : Account} {jobs : List PacketJob} (h : a.Exact jobs) {job : PacketJob}
    (hjob : job.tuple = a.tuple ∨ job.tuple = a.tuple.reverse) :
    (a.count job).Exact (jobs ++ [job]) := by
  obtain ⟨hpo, hbo, hpi, hbi⟩ := h
  by_cases hout : job.tuple = a.tuple
  · have hcount : a.count job = { a with
        packetsOut := a.packetsOut + 1
        bytesOut := a.bytesOut + UInt64.ofNat job.data.length } := if_pos hout
    rw [hcount]
    constructor
    · simp only [outbound_concat hout, hpo, List.length_append, UInt64.ofNat_add]
      rfl
    · simp only [outbound_concat hout, hbo, dataSize_concat, UInt64.ofNat_add]
    · simp only [inbound_concat_of_eq hout, hpi]
    · simp only [inbound_concat_of_eq hout, hbi]
  · have hin := hjob.resolve_left hout
    have hcount : a.count job = { a with
        packetsIn := a.packetsIn + 1
        bytesIn := a.bytesIn + UInt64.ofNat job.data.length } := if_neg hout
    rw [hcount]
    constructor
    · simp only [outbound_concat_of_ne hout, hpo]
    · simp only [outbound_concat_of_ne hout, hbo]
    · simp only [inbound_concat hin hout, hpi, List.length_append, UInt64.ofNat_add]
      rfl
    · simp only [inbound_concat hin hout, hbi, dataSize_concat, UInt64.ofNat_add]

/-- The packets in both directions are the packets of the connection, each of them once. -/
theorem outbound_append_inbound (t : FiveTuple) (jobs : List PacketJob) :
    (outbound t jobs ++ inbound t jobs).Perm
      (jobs.filter fun job => canonicalTuple job.tuple = canonicalTuple t) := by
  have hsplit := List.filter_append_perm (fun job : PacketJob => decide (job.tuple = t))
    (jobs.filter fun job => canonicalTuple job.tuple = canonicalTuple t)
  rw [List.filter_filter, List.filter_filter] at hsplit
  have hout : (jobs.filter fun job => decide (job.tuple = t) &&
      decide (canonicalTuple job.tuple = canonicalTuple t)) = outbound t jobs := by
    refine List.filter_congr fun job _ => ?_
    by_cases h : job.tuple = t <;> simp [h]
  have hin : (jobs.filter fun job => !decide (job.tuple = t) &&
      decide (canonicalTuple job.tuple = canonicalTuple t)) = inbound t jobs := by
    refine List.filter_congr fun job _ => ?_
    have hsame : canonicalTuple job.tuple = canonicalTuple t ↔
        job.tuple = t ∨ job.tuple = t.reverse := by
      rw [eq_comm, canonicalTuple_eq_iff]
    by_cases h : job.tuple = t <;> simp [h, hsame]
  rwa [hout, hin] at hsplit

/-- A packet of another connection is counted in neither direction. -/
theorem Exact.other {a : Account} {jobs : List PacketJob} (h : a.Exact jobs) {job : PacketJob}
    (hjob : ¬ (job.tuple = a.tuple ∨ job.tuple = a.tuple.reverse)) : a.Exact (jobs ++ [job]) := by
  obtain ⟨hne, hrev⟩ := not_or.1 hjob
  have hout : outbound a.tuple (jobs ++ [job]) = outbound a.tuple jobs := outbound_concat_of_ne hne
  have hin : inbound a.tuple (jobs ++ [job]) = inbound a.tuple jobs := by simp [inbound, hrev]
  exact ⟨by rw [hout, h.packetsOut], by rw [hout, h.bytesOut], by rw [hin, h.packetsIn],
    by rw [hin, h.bytesIn]⟩

end Account

/-! ## One packet -/

theorem account_updateTCPState (c : Connection) (flags : UInt8) :
    (updateTCPState c flags).account = c.account := by
  rw [updateTCPState_eq]
  rfl

/-- The test of the direction leaves out the protocol, which is part of the key. -/
theorem isOutbound_iff {job : PacketJob} {c : Connection}
    (h : canonicalTuple job.tuple = canonicalTuple c.tuple) :
    isOutbound job c = true ↔ job.tuple = c.tuple := by
  have hprotocol : job.tuple.protocol = c.tuple.protocol := by
    rcases (canonicalTuple_eq_iff _ _).1 h with h | h <;> rw [h]
    rfl
  simp only [isOutbound, Bool.and_eq_true, beq_iff_eq]
  constructor
  · rintro ⟨⟨⟨hsrc, hdst⟩, hsport⟩, hdport⟩
    cases hj : job.tuple
    cases hc : c.tuple
    simp_all
  · intro heq
    rw [heq]
    exact ⟨⟨⟨rfl, rfl⟩, rfl⟩, rfl⟩

theorem account_recordPacket {c : Connection} {job : PacketJob} (seen : Time)
    (h : canonicalTuple job.tuple = canonicalTuple c.tuple) :
    (recordPacket c seen job).account = c.account.count job := by
  have hupdate : (updateConnection c seen job.data.length (isOutbound job c)).account =
      c.account.count job := by
    by_cases hout : job.tuple = c.tuple
    · rw [(isOutbound_iff h).2 hout, Account.count, if_pos (show _ = c.account.tuple from hout)]
      rfl
    · have hin : isOutbound job c = false := by
        rw [← Bool.not_eq_true, isOutbound_iff h]
        exact hout
      rw [hin, Account.count, if_neg (show ¬ _ = c.account.tuple from hout)]
      rfl
  unfold recordPacket
  dsimp only
  split_ifs
  · rw [account_updateTCPState, hupdate]
  · exact hupdate

section Keeps

variable {fp fp' : FastPathProcessor} {job : PacketJob} {conn conn' : Connection}

/-- The connection is classified through the tracker of the processor. -/
def ClassifiedTo (fp : FastPathProcessor) (conn : Connection) (fp' : FastPathProcessor)
    (conn' : Connection) : Prop :=
  ∃ app sni, (fp'.connTracker, conn') = fp.connTracker.classifyConnection conn app sni

theorem classifiedTo_tryExtractSNI (h : fp.tryExtractSNI job conn = .ok (some (fp', conn'))) :
    ClassifiedTo fp conn fp' conn' := by
  simp only [tryExtractSNI, bind_eq_ok_iff, ite_none_eq_ok_some] at h
  obtain ⟨-, -, _ | sni, -, h⟩ := h
  · cases h
  · cases h
    exact ⟨_, _, rfl⟩

theorem classifiedTo_tryExtractHTTPHost
    (h : fp.tryExtractHTTPHost job conn = .ok (some (fp', conn'))) :
    ClassifiedTo fp conn fp' conn' := by
  simp only [tryExtractHTTPHost, bind_eq_ok_iff, ite_none_eq_ok_some] at h
  obtain ⟨-, -, _ | host, -, h⟩ := h
  · cases h
  · cases h
    exact ⟨_, _, rfl⟩

/-- The fallback by port. -/
theorem byPort_cases
    (h : (do
      if job.tuple.dstPort = 80 then return fp.classify conn .http []
      if job.tuple.dstPort = 443 then return fp.classify conn .https []
      return (fp, conn) : Checked (FastPathProcessor × Connection)) = .ok (fp', conn')) :
    (fp' = fp ∧ conn' = conn) ∨ ClassifiedTo fp conn fp' conn' := by
  split_ifs at h with h80 h443
  · cases h
    exact Or.inr ⟨_, _, rfl⟩
  · cases h
    exact Or.inr ⟨_, _, rfl⟩
  · cases h
    exact Or.inl ⟨rfl, rfl⟩

/-- Inspection leaves the connection alone or classifies it. -/
theorem inspectPayload_cases (h : fp.inspectPayload job conn = .ok (fp', conn')) :
    (fp' = fp ∧ conn' = conn) ∨ ClassifiedTo fp conn fp' conn' := by
  unfold inspectPayload at h
  by_cases hempty : job.payloadLength = 0 ∨ job.payloadOffset ≥ job.data.length
  · rw [if_pos hempty] at h
    cases h
    exact Or.inl ⟨rfl, rfl⟩
  rw [if_neg hempty] at h
  obtain ⟨_ | r, hsni, h⟩ := bind_eq_ok_iff.1 h
  · obtain ⟨_ | r, hhost, h⟩ := bind_eq_ok_iff.1 h
    · by_cases hdns : job.tuple.dstPort = 53 ∨ job.tuple.srcPort = 53
      · simp only [if_pos hdns] at h
        obtain ⟨_ | domain, -, h⟩ := bind_eq_ok_iff.1 h
        · exact byPort_cases h
        · cases h
          exact Or.inr ⟨_, _, rfl⟩
      · simp only [if_neg hdns] at h
        exact byPort_cases h
    · cases h
      exact Or.inr (classifiedTo_tryExtractHTTPHost hhost)
  · cases h
    exact Or.inr (classifiedTo_tryExtractSNI hsni)

theorem account_inspectPayload (h : fp.inspectPayload job conn = .ok (fp', conn')) :
    conn'.account = conn.account := by
  rcases inspectPayload_cases h with ⟨-, rfl⟩ | ⟨app, sni, hclass⟩
  · rfl
  · have hconn : conn' = (fp.connTracker.classifyConnection conn app sni).2 :=
      congrArg Prod.snd hclass
    rw [hconn, classifyConnection]
    split_ifs <;> rfl

theorem account_checkRules (rm : Option RuleManager) (fp : FastPathProcessor) (job : PacketJob)
    (conn : Connection) : (checkRules rm fp job conn).2.2.account = conn.account := by
  unfold checkRules
  cases rm with
  | none => rfl
  | some rm =>
    dsimp only
    split <;> rfl

/-- Once a packet is recorded, its processing leaves the counters alone. -/
theorem account_processConnection {rm : Option RuleManager} {seen : Time} {action : PacketAction}
    (h : processConnection rm fp seen job conn = .ok (action, fp', conn')) :
    conn'.account = (recordPacket conn seen job).account := by
  unfold processConnection at h
  generalize recordPacket conn seen job = c at h ⊢
  by_cases hblocked : c.state = .blocked
  · rw [if_pos hblocked] at h
    cases h
    rfl
  rw [if_neg hblocked] at h
  -- the rules come last, on what the inspection has left
  have hrules {fp₁ : FastPathProcessor} {c₁ : Connection}
      (h : (.ok (checkRules rm fp₁ job c₁) : Checked _) = .ok (action, fp', conn')) :
      conn'.account = c₁.account := by
    rw [← account_checkRules rm fp₁ job c₁, Except.ok.inj h]
  by_cases hinspect : c.state ≠ .classified ∧ job.payloadLength > 0
  · rw [if_pos hinspect] at h
    obtain ⟨⟨fp₁, c₁⟩, hinspected, h⟩ := bind_eq_ok_iff.1 h
    exact (hrules h).trans (account_inspectPayload hinspected)
  · rw [if_neg hinspect] at h
    exact hrules h

end Keeps

namespace FastPathProcessor

/-- The account of the entry under a key. -/
def accountAt (fp : FastPathProcessor) (key : FiveTuple) : Option Account :=
  (fp.connTracker.connections.lookup key).map Connection.account

theorem accountAt_of_notMem {fp : FastPathProcessor} {key : FiveTuple}
    (h : key ∉ fp.connTracker.connections) : fp.accountAt key = none := by
  rw [accountAt, Finmap.lookup_eq_none.2 h]
  rfl

/-- Every entry stands under the canonical tuple of its initiating tuple. -/
def Keyed (fp : FastPathProcessor) : Prop :=
  ∀ key a, fp.accountAt key = some a → key = canonicalTuple a.tuple

variable {fp fp' : FastPathProcessor} {key : FiveTuple}

/-- A packet is counted in the account of its connection, which is a new one where there was no
entry; every other account is kept or removed. -/
theorem accountAt_processPacket {rm : Option RuleManager} {env : Env} {job : PacketJob}
    {action : PacketAction} (hkeyed : fp.Keyed)
    (h : fp.processPacket rm env job = .ok (action, fp')) :
    fp'.accountAt (canonicalTuple job.tuple) =
        some (((fp.accountAt (canonicalTuple job.tuple)).getD { tuple := job.tuple }).count job) ∧
      ∀ key ≠ canonicalTuple job.tuple,
        fp'.accountAt key = fp.accountAt key ∨ fp'.accountAt key = none := by
  have hlook := lookup_getOrCreateConnection_cases fp.connTracker env.created env.order job.tuple
  obtain ⟨conn, fp₁, conn', hconn, hproc, rfl⟩ := processPacket_inv rfl h
  have hsame := sameTable_of_processConnection hproc
  constructor
  · have hfound := (hlook (canonicalTuple job.tuple)).resolve_left (by rw [hconn]; simp)
    rw [hconn, if_pos rfl] at hfound
    have hold : conn.account =
        (fp.accountAt (canonicalTuple job.tuple)).getD { tuple := job.tuple } := by
      rw [Option.some.inj hfound, accountAt]
      cases fp.connTracker.connections.lookup (canonicalTuple job.tuple) <;> rfl
    have hkey : canonicalTuple job.tuple = canonicalTuple conn.tuple := by
      change _ = canonicalTuple conn.account.tuple
      rw [hold]
      cases ha : fp.accountAt (canonicalTuple job.tuple) with
      | none => rfl
      | some a => exact hkeyed _ a ha
    have haccount := (account_processConnection hproc).trans (account_recordPacket env.seen hkey)
    rw [← hold, ← haccount]
    simp [accountAt, store]
  · intro key hkey
    have hother := hlook key
    rw [if_neg hkey] at hother
    simp only [accountAt, store, hsame.connections, Finmap.lookup_insert_of_ne _ hkey]
    exact hother.elim (fun hnone => Or.inr (by rw [hnone]; rfl)) fun hkept => Or.inl (by rw [hkept])

/-! ## Runs -/

/-- The packet of a turn of the worker. -/
def packetOf : WorkerEvent → Option PacketJob
  | .packet _ _ job _ => some job
  | .cleanup _ _ => none
  | .close _ => none

/-- The packets that are processed in some steps. -/
def packets (ts : List (Taken FastPathProcessor WorkerEvent)) : List PacketJob :=
  ts.filterMap fun s => packetOf s.label

theorem packets_cons (s : Taken FastPathProcessor WorkerEvent)
    (ts : List (Taken FastPathProcessor WorkerEvent)) :
    packets (s :: ts) = (packetOf s.label).toList ++ packets ts := by
  rw [packets, List.filterMap_cons]
  cases packetOf s.label <;> rfl

theorem accountAt_cleanupStale (fp : FastPathProcessor) (now timeout : Time) (key : FiveTuple) :
    let fp' := { fp with connTracker := (fp.connTracker.cleanupStale now timeout).1 }
    fp'.accountAt key = fp.accountAt key ∨ fp'.accountAt key = none :=
  (lookup_cleanupStale fp.connTracker now timeout key).imp
    (congrArg (Option.map Connection.account)) (congrArg (Option.map Connection.account))

theorem accountAt_closeConnection (fp : FastPathProcessor) (tuple key : FiveTuple) :
    accountAt { fp with connTracker := fp.connTracker.closeConnection tuple } key =
      fp.accountAt key := by
  unfold accountAt closeConnection
  cases h : fp.connTracker.connections.lookup (canonicalTuple tuple) with
  | none => simp [h]
  | some c =>
    by_cases hkey : key = canonicalTuple tuple
    · rw [hkey]
      simp [h, store, Connection.account]
    · simp [h, store, Finmap.lookup_insert_of_ne _ hkey]

/-- What a turn of the worker does to the account of an entry that is there after it. -/
theorem WorkerStep.accountAt_cases {e : WorkerEvent} (h : WorkerStep fp e fp') (hkeyed : fp.Keyed)
    {a' : Account} (ha' : fp'.accountAt key = some a') :
    (∃ job, packetOf e = some job ∧ canonicalTuple job.tuple = key ∧
      a' = ((fp.accountAt key).getD { tuple := job.tuple }).count job) ∨
    ((∀ job, packetOf e = some job → canonicalTuple job.tuple ≠ key) ∧
      fp.accountAt key = some a') := by
  cases h with
  | packet h =>
    rename_i rm env job action
    obtain ⟨hown, hother⟩ := accountAt_processPacket hkeyed h
    by_cases hkey : canonicalTuple job.tuple = key
    · rw [hkey, ha'] at hown
      exact Or.inl ⟨job, rfl, hkey, Option.some.inj hown⟩
    · refine Or.inr ⟨?_, ?_⟩
      · rintro _ ⟨⟩
        exact hkey
      · rw [← ha', (hother key (Ne.symm hkey)).resolve_right (by rw [ha']; simp)]
  | cleanup now timeout =>
    refine Or.inr ⟨nofun, ?_⟩
    rw [← (accountAt_cleanupStale fp now timeout key).resolve_right (by rw [ha']; simp), ha']
  | close tuple => exact Or.inr ⟨nofun, accountAt_closeConnection fp tuple key ▸ ha'⟩

theorem WorkerStep.keyed {e : WorkerEvent} (h : WorkerStep fp e fp') (hkeyed : fp.Keyed) :
    fp'.Keyed := by
  intro key a' ha'
  rcases h.accountAt_cases hkeyed ha' with ⟨job, -, hkey, rfl⟩ | ⟨-, ha⟩
  · rw [Account.tuple_count]
    cases hold : fp.accountAt key with
    | none => exact hkey.symm
    | some a => exact hkeyed key a hold
  · exact hkeyed key a' ha

/-- What was counted stays counted while the entry is kept. -/
theorem exact_of_kept {ts : List (Taken FastPathProcessor WorkerEvent)}
    (hrun : Run WorkerStep fp ts fp') (hkeyed : fp.Keyed)
    (hkept : ∀ u ∈ ts, key ∈ u.post.connTracker.connections) {a : Account}
    (ha : fp.accountAt key = some a) {jobs : List PacketJob} (hexact : a.Exact jobs) :
    ∃ a', fp'.accountAt key = some a' ∧ a'.tuple = a.tuple ∧ a'.Exact (jobs ++ packets ts) := by
  induction hrun generalizing a jobs with
  | nil fp => exact ⟨a, ha, rfl, by rwa [packets, List.filterMap_nil, List.append_nil]⟩
  | @cons fp fp₁ fp' e ts hstep _ ih =>
    obtain ⟨c, hc⟩ := Finmap.mem_iff.1 (hkept _ List.mem_cons_self)
    have ha₁ : fp₁.accountAt key = some c.account := by rw [accountAt, hc]; rfl
    have hrest := fun u hu => hkept u (List.mem_cons_of_mem _ hu)
    have hstep_exact :
        c.account.tuple = a.tuple ∧ c.account.Exact (jobs ++ (packetOf e).toList) := by
      rcases hstep.accountAt_cases hkeyed ha₁ with ⟨job, he, hkey, hcount⟩ | ⟨hother, hold⟩
      · rw [ha, Option.getD_some] at hcount
        rw [hcount, he]
        refine ⟨Account.tuple_count a job, hexact.count ?_⟩
        rw [hkeyed key a ha, eq_comm, canonicalTuple_eq_iff] at hkey
        exact hkey
      · rw [ha] at hold
        rw [← Option.some.inj hold]
        refine ⟨rfl, ?_⟩
        cases he : packetOf e with
        | none => rwa [Option.toList_none, List.append_nil]
        | some job =>
          refine hexact.other fun hjob => hother job he ?_
          rw [hkeyed key a ha, eq_comm, canonicalTuple_eq_iff]
          exact hjob
    obtain ⟨a', ha', htuple, hexact'⟩ :=
      ih (hstep.keyed hkeyed) hrest ha₁ hstep_exact.2
    rw [packets_cons, ← List.append_assoc]
    exact ⟨a', ha', htuple.trans hstep_exact.1, hexact'⟩

/-- In every run of a new worker, the entry of a connection was created by a packet with its
initiating tuple and kept since; its counters are exactly those of the packets since then, the ones
with the initiating tuple and the others of the connection, which have the reverse of it. -/
theorem accounting_exact {ts : List (Taken FastPathProcessor WorkerEvent)}
    (hempty : fp.connTracker.connections = ∅) (hrun : Run WorkerStep fp ts fp') {c : Connection}
    (hc : fp'.connTracker.connections.lookup key = some c) :
    ∃ before t rest job, ts = before ++ t :: rest ∧
      key ∉ t.pre.connTracker.connections ∧
      (∀ u ∈ t :: rest, key ∈ u.post.connTracker.connections) ∧
      packetOf t.label = some job ∧ job.tuple = c.tuple ∧ canonicalTuple c.tuple = key ∧
      c.account.Exact (packets (t :: rest)) ∧
      (Account.outbound c.tuple (packets (t :: rest)) ++
          Account.inbound c.tuple (packets (t :: rest))).Perm
        ((packets (t :: rest)).filter fun job => canonicalTuple job.tuple = key) := by
  have hkeyed₀ : fp.Keyed := by
    intro key a ha
    simp [accountAt, hempty] at ha
  have hkeyed := hrun.invariant Keyed (fun _ => True) (fun _ _ _ h _ => h.keyed) (by simp) hkeyed₀
  have hnone : key ∉ fp.connTracker.connections := by rw [hempty]; exact Finmap.notMem_empty
  rcases hrun.always_or_since (P := fun fp => key ∈ fp.connTracker.connections)
    (Finmap.mem_iff.2 ⟨c, hc⟩) with ⟨hmem, -⟩ | ⟨before, t, rest, rfl, hpre, hpost, hrest⟩
  · exact absurd hmem hnone
  obtain ⟨hkeyed', -⟩ := hkeyed.2 t (by simp)
  obtain ⟨m, -, hrun'⟩ := Run.append_iff.1 hrun
  cases hrun' with
  | @cons _ fp₁ _ e _ hstep hafter =>
    obtain ⟨c₁, hc₁⟩ := Finmap.mem_iff.1 hpost
    have ha₁ : fp₁.accountAt key = some c₁.account := by rw [accountAt, hc₁]; rfl
    have hold := accountAt_of_notMem hpre
    rcases hstep.accountAt_cases hkeyed' ha₁ with ⟨job, he, hkey, hcount⟩ | ⟨-, hsame⟩
    · rw [hold, Option.getD_none] at hcount
      have hfirst : c₁.account.Exact [job] := by
        rw [hcount]
        exact (Account.exact_nil job.tuple).count (.inl rfl)
      obtain ⟨a, ha, htuple, hexact⟩ := exact_of_kept hafter (hstep.keyed hkeyed') hrest ha₁ hfirst
      have hc' : fp'.accountAt key = some c.account := by rw [accountAt, hc]; rfl
      obtain rfl : c.account = a := Option.some.inj (hc'.symm.trans ha)
      have hjob : job.tuple = c.tuple := by
        rw [show c.tuple = c₁.account.tuple from htuple, hcount, Account.tuple_count]
      have hpackets : packets (⟨m, e, fp₁⟩ :: rest) = [job] ++ packets rest := by
        rw [packets_cons]
        exact congrArg (fun o => Option.toList o ++ packets rest) he
      refine ⟨before, _, rest, job, rfl, hpre, List.forall_mem_cons.2 ⟨hpost, hrest⟩, he, hjob,
        hjob ▸ hkey, hpackets ▸ hexact, ?_⟩
      rw [← hkey, hjob]
      exact Account.outbound_append_inbound c.tuple _
    · rw [hold] at hsame
      cases hsame

/-- A request and its answer, after the request of another client, stand in the two directions of
the entry. -/
theorem accounting_exact_answer :
    ∃ fp₁ fp₂ fp₃ c,
      processPacket none {} ⟨0, 0, []⟩ (otherRequest "ok.com") = .ok (.forward, fp₁) ∧
      processPacket none fp₁ ⟨1, 1, []⟩ (request "ok.com") = .ok (.forward, fp₂) ∧
      processPacket none fp₂ ⟨2, 2, []⟩ answer = .ok (.forward, fp₃) ∧
      fp₃.connTracker.connections.lookup (canonicalTuple answer.tuple) = some c ∧
      c.tuple = (request "ok.com").tuple ∧ c.account.Exact [request "ok.com", answer] ∧
      c.packetsOut = 1 ∧ c.packetsIn = 1 := by
  have h : (do
      let r₁ ← processPacket none {} ⟨0, 0, []⟩ (otherRequest "ok.com")
      let r₂ ← processPacket none r₁.2 ⟨1, 1, []⟩ (request "ok.com")
      let r₃ ← processPacket none r₂.2 ⟨2, 2, []⟩ answer
      return (r₁.1, r₂.1, r₃.1,
        decide (canonicalTuple answer.tuple ∉ r₁.2.connTracker.connections),
        decide (canonicalTuple answer.tuple ∈ r₂.2.connTracker.connections),
        decide (canonicalTuple answer.tuple ∈ r₃.2.connTracker.connections))) =
      Except.ok (PacketAction.forward, PacketAction.forward, PacketAction.forward, true, true,
        true) := by decide +kernel
  obtain ⟨⟨a₁, fp₁⟩, h₁, h⟩ := bind_eq_ok_iff.1 h
  obtain ⟨⟨a₂, fp₂⟩, h₂, h⟩ := bind_eq_ok_iff.1 h
  obtain ⟨⟨a₃, fp₃⟩, h₃, h⟩ := bind_eq_ok_iff.1 h
  simp only [pure, Except.pure, Except.ok.injEq, Prod.mk.injEq, decide_eq_true_eq] at h
  obtain ⟨rfl, rfl, rfl, hnew, hold, hmem⟩ := h
  obtain ⟨c, hc⟩ := Finmap.mem_iff.1 hmem
  have hrun : Run WorkerStep {} _ fp₃ :=
    .cons (.packet h₁) (.cons (.packet h₂) (.cons (.packet h₃) (.nil _)))
  obtain ⟨before, t, rest, job, hts, hpre, hpost, hjob, htuple, -, hexact, -⟩ :=
    accounting_exact rfl hrun hc
  -- the entry is not there before the second packet, and is there before the third
  match before with
  | [] =>
    obtain ⟨rfl, rfl⟩ := List.cons.inj hts
    exact absurd (hpost _ List.mem_cons_self) hnew
  | [_] =>
    obtain ⟨-, hts⟩ := List.cons.inj hts
    obtain ⟨rfl, rfl⟩ := List.cons.inj hts
    cases hjob
    have hout := hexact.packetsOut
    have hin := hexact.packetsIn
    rw [show c.account.tuple = (request "ok.com").tuple from htuple.symm] at hout hin
    exact ⟨fp₁, fp₂, fp₃, c, h₁, h₂, h₃, hc, htuple.symm, hexact, hout, hin⟩
  | [_, _] =>
    obtain ⟨-, hts⟩ := List.cons.inj hts
    obtain ⟨-, hts⟩ := List.cons.inj hts
    obtain ⟨rfl, rfl⟩ := List.cons.inj hts
    exact absurd hold hpre
  | _ :: _ :: _ :: before => simp at hts

end FastPathProcessor

end DPI
