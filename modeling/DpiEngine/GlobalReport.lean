import DpiEngine.Accounting
import DpiEngine.Lib.Tally
import Mathlib.Data.UInt

/-!
# The global report

`GlobalConnectionTable` of `connection_tracker.cpp`: the trackers of all fast paths, and the figures
that are collected over their entries.  The counters are those of the trackers, in 64 bits.
-/

namespace DPI

open Bytes ConnectionTracker FastPathProcessor

/-! ## The table of trackers -/

/-- A tracker that a pointer leads to, with the order in which its table is iterated. -/
structure Registered where
  tracker : ConnectionTracker
  iteration : Table.Iteration FiveTuple Connection

/-- `trackers_`; a slot is null until a tracker is registered. -/
abbrev GlobalConnectionTable := List (Option Registered)

namespace GlobalConnectionTable

def create (numFps : ℕ) : GlobalConnectionTable := List.replicate numFps none

def registerTracker (table : GlobalConnectionTable) (fpId : ℕ) (tracker : Registered) :
    GlobalConnectionTable :=
  if fpId < table.length then table.set fpId (some tracker) else table

/-- The registrations of `DPIEngine::initialize`, one for each fast path. -/
def registerAll (trackers : List Registered) : GlobalConnectionTable :=
  trackers.zipIdx.foldl (fun table r => table.registerTracker r.2 r.1) (create trackers.length)

theorem registerAll_eq (trackers : List Registered) :
    registerAll trackers = trackers.map some := by
  have hfold (filled : GlobalConnectionTable) :
      (trackers.zipIdx filled.length).foldl (fun table r => table.registerTracker r.2 r.1)
        (filled ++ create trackers.length) = filled ++ trackers.map some := by
    induction trackers generalizing filled with
    | nil => rfl
    | cons tracker trackers ih =>
      have hset : registerTracker (filled ++ create (trackers.length + 1)) filled.length tracker =
          filled ++ [some tracker] ++ create trackers.length := by
        simp [registerTracker, create, List.replicate_succ]
      have hrest := ih (filled ++ [some tracker])
      rw [List.length_append, List.length_singleton] at hrest
      rw [List.zipIdx_cons, List.foldl_cons, List.length_cons]
      dsimp only
      rw [hset, hrest, List.append_assoc]
      rfl
  exact hfold []

end GlobalConnectionTable

/-! ## Figures -/

structure AppFlowStats where
  flows : UInt64 := 0
  packets : UInt64 := 0
  bytes : UInt64 := 0
  deriving DecidableEq, Repr

/-- One connection of the application. -/
def AppFlowStats.add (conn : Connection) (app : AppFlowStats) : AppFlowStats where
  flows := app.flows + 1
  packets := app.packets + (conn.packetsIn + conn.packetsOut)
  bytes := app.bytes + (conn.bytesIn + conn.bytesOut)

structure GlobalStats where
  totalActiveConnections : UInt64 := 0
  totalConnectionsSeen : UInt64 := 0
  appDistribution : Table AppType UInt64 := ∅
  topDomains : List (Str × UInt64) := []
  appStats : Table AppType AppFlowStats := ∅

/-- `forEach`: the connections in the order in which the callback meets them. -/
def ConnectionTracker.forEach (tr : ConnectionTracker) (order : List FiveTuple) :
    List Connection := (Table.visited tr.connections order).map Prod.snd

namespace GlobalConnectionTable

/-- The callback on one connection; it moves the statistics and `domain_counts`. -/
def addConnection (s : GlobalStats × Table Str UInt64) (conn : Connection) :
    GlobalStats × Table Str UInt64 :=
  ({ s.1 with
      appDistribution :=
        Table.addItem Connection.appType (fun _ n => n + 1) 0 s.1.appDistribution conn
      appStats := Table.addItem Connection.appType AppFlowStats.add {} s.1.appStats conn },
    if conn.sni.isEmpty then s.2
    else Table.addItem Connection.sni (fun c n => n + (c.packetsIn + c.packetsOut)) 0 s.2 conn)

def addTracker (s : GlobalStats × Table Str UInt64) (slot : Option Registered) :
    GlobalStats × Table Str UInt64 :=
  match slot with
  | none => s
  | some r =>
    let trackerStats := r.tracker.getStats
    let stats := { s.1 with
      totalActiveConnections := s.1.totalActiveConnections + trackerStats.activeConnections
      totalConnectionsSeen := s.1.totalConnectionsSeen + trackerStats.totalConnectionsSeen }
    (r.tracker.forEach (r.iteration.order r.tracker.connections)).foldl addConnection
      (stats, s.2)

/-- The comparison that the domains are sorted by. -/
def moreTraffic (a b : Str × UInt64) : Bool := a.2 > b.2

theorem moreTraffic_eq_false {a b : Str × UInt64} : moreTraffic b a = false ↔ b.2 ≤ a.2 := by
  rw [moreTraffic, decide_eq_false_iff_not]
  exact UInt64.not_lt

/-- Merge sort is such a sort. -/
example : Nonempty (StdSort (Str × UInt64) moreTraffic) := by
  refine ⟨fun l => l.mergeSort fun a b => b.2 ≤ a.2, fun l => List.mergeSort_perm l _, fun l => ?_⟩
  refine (List.pairwise_mergeSort ?_ ?_ l).imp fun h => ?_
  · intro a b c hab hbc
    exact decide_eq_true (UInt64.le_trans (of_decide_eq_true hbc) (of_decide_eq_true hab))
  · intro a b
    rcases UInt64.le_total a.2 b.2 with h | h <;> simp [h]
  · exact moreTraffic_eq_false.2 (of_decide_eq_true h)

def getGlobalStats (table : GlobalConnectionTable) (sort : StdSort (Str × UInt64) moreTraffic)
    (domains : Table.Iteration Str UInt64) : GlobalStats :=
  let (stats, domainCounts) := table.foldl addTracker ({}, ∅)
  let domainVec := sort.sort (Table.visited domainCounts (domains.order domainCounts))
  { stats with topDomains := domainVec.take 20 }

/-! ## What is collected -/

/-- The connections of all registered trackers. -/
def allConnections (table : GlobalConnectionTable) : List Connection :=
  table.flatMap fun slot => slot.elim [] fun r =>
    r.tracker.forEach (r.iteration.order r.tracker.connections)

/-- The callback tallies the connections by application and those with a name by name. -/
theorem foldl_addConnection (conns : List Connection) (s : GlobalStats × Table Str UInt64) :
    conns.foldl addConnection s =
      ({ s.1 with
          appDistribution := conns.foldl
            (Table.addItem Connection.appType (fun _ n => n + 1) 0) s.1.appDistribution
          appStats := conns.foldl
            (Table.addItem Connection.appType AppFlowStats.add {}) s.1.appStats },
        (conns.filter fun c => !c.sni.isEmpty).foldl
          (Table.addItem Connection.sni (fun c n => n + (c.packetsIn + c.packetsOut)) 0) s.2) := by
  induction conns generalizing s with
  | nil => rfl
  | cons c conns ih =>
    rw [List.foldl_cons, ih, addConnection]
    cases hname : c.sni.isEmpty <;> simp [hname]

/-- The entries of all registered trackers. -/
def activeConnections (table : GlobalConnectionTable) : UInt64 :=
  (table.map fun slot => slot.elim 0 fun r => r.tracker.getStats.activeConnections).sum

def connectionsSeen (table : GlobalConnectionTable) : UInt64 :=
  (table.map fun slot => slot.elim 0 fun r => r.tracker.getStats.totalConnectionsSeen).sum

theorem foldl_addTracker (table : GlobalConnectionTable) (s : GlobalStats × Table Str UInt64) :
    table.foldl addTracker s =
      ({ totalActiveConnections := s.1.totalActiveConnections + activeConnections table
         totalConnectionsSeen := s.1.totalConnectionsSeen + connectionsSeen table
         appDistribution := (allConnections table).foldl
          (Table.addItem Connection.appType (fun _ n => n + 1) 0) s.1.appDistribution
         topDomains := s.1.topDomains
         appStats := (allConnections table).foldl
          (Table.addItem Connection.appType AppFlowStats.add {}) s.1.appStats },
        ((allConnections table).filter fun c => !c.sni.isEmpty).foldl
          (Table.addItem Connection.sni (fun c n => n + (c.packetsIn + c.packetsOut)) 0) s.2) := by
  induction table generalizing s with
  | nil => simp [activeConnections, connectionsSeen, allConnections]
  | cons slot table ih =>
    rw [List.foldl_cons, ih]
    cases slot with
    | none => simp [addTracker, activeConnections, connectionsSeen, allConnections]
    | some r =>
      simp only [addTracker, foldl_addConnection, activeConnections, connectionsSeen,
        allConnections, List.map_cons, List.sum_cons, List.flatMap_cons, Option.elim_some,
        List.foldl_append, List.filter_append, UInt64.add_assoc]

/-- The packets of the connections by name. -/
def domainCounts (table : GlobalConnectionTable) : Table Str UInt64 :=
  Table.tally Connection.sni (fun c n => n + (c.packetsIn + c.packetsOut)) 0
    ((allConnections table).filter fun c => !c.sni.isEmpty)

/-- The statistics are tallies of all connections. -/
theorem getGlobalStats_eq (table : GlobalConnectionTable)
    (sort : StdSort (Str × UInt64) moreTraffic) (domains : Table.Iteration Str UInt64) :
    table.getGlobalStats sort domains =
      { totalActiveConnections := activeConnections table
        totalConnectionsSeen := connectionsSeen table
        appDistribution :=
          Table.tally Connection.appType (fun _ n => n + 1) 0 (allConnections table)
        topDomains := (sort.sort (Table.visited (domainCounts table)
          (domains.order (domainCounts table)))).take 20
        appStats :=
          Table.tally Connection.appType AppFlowStats.add {} (allConnections table) } := by
  unfold getGlobalStats
  rw [foldl_addTracker]
  simp only [UInt64.zero_add]
  rfl

end GlobalConnectionTable

/-! ## Traffic of a worker -/

namespace Account

/-- The packets in both directions. -/
def packets (a : Account) : UInt64 := a.packetsIn + a.packetsOut

def bytes (a : Account) : UInt64 := a.bytesIn + a.bytesOut

theorem packets_count (a : Account) (job : PacketJob) : (a.count job).packets = a.packets + 1 := by
  unfold packets count
  split_ifs
  · exact (UInt64.add_assoc _ _ _).symm
  · exact add_right_comm _ _ _

theorem bytes_count (a : Account) (job : PacketJob) :
    (a.count job).bytes = a.bytes + UInt64.ofNat job.data.length := by
  unfold bytes count
  split_ifs
  · exact (UInt64.add_assoc _ _ _).symm
  · exact add_right_comm _ _ _

end Account

namespace FastPathProcessor

variable {fp fp' : FastPathProcessor}

/-- What the accounts of all entries come to. -/
def total (fp : FastPathProcessor) (g : Account → UInt64) : UInt64 :=
  Table.sum fp.connTracker.connections fun c => g c.account

theorem measure_connections (fp : FastPathProcessor) (g : Account → UInt64) (key : FiveTuple) :
    Table.measure fp.connTracker.connections (fun c => g c.account) key =
      (fp.accountAt key).elim 0 g := by
  rw [Table.measure, accountAt]
  cases fp.connTracker.connections.lookup key <;> rfl

theorem isSome_accountAt (fp : FastPathProcessor) (key : FiveTuple) :
    (fp.accountAt key).isSome ↔ key ∈ fp.connTracker.connections := by
  rw [accountAt, Option.isSome_map, Finmap.lookup_isSome]

/-- An account that is kept or removed is kept when its entry is. -/
theorem accountAt_of_kept {key : FiveTuple}
    (h : fp'.accountAt key = fp.accountAt key ∨ fp'.accountAt key = none)
    (hkept : key ∈ fp.connTracker.connections → key ∈ fp'.connTracker.connections) :
    fp'.accountAt key = fp.accountAt key := by
  refine h.elim id fun hnone => ?_
  have hnot : key ∉ fp'.connTracker.connections := by
    rw [← isSome_accountAt, hnone]
    exact Bool.false_ne_true
  rw [hnone, accountAt_of_notMem fun hmem => hnot (hkept hmem)]

theorem total_of_accountAt_eq (h : ∀ key, fp'.accountAt key = fp.accountAt key)
    (g : Account → UInt64) : fp'.total g = fp.total g := by
  refine Table.sum_congr ?_ fun key => ?_
  · ext key
    rw [Finmap.mem_keys, Finmap.mem_keys, ← isSome_accountAt, ← isSome_accountAt, h]
  · rw [measure_connections, measure_connections, h]

section Total

variable {g : Account → UInt64} {w : PacketJob → UInt64}
  (hzero : ∀ tuple, g { tuple := tuple } = 0) (hcount : ∀ a job, g (a.count job) = g a + w job)

include hzero hcount

/-- A packet adds its weight to the total, under one key. -/
theorem total_processPacket {rm : Option RuleManager} {env : Env} {job : PacketJob}
    {action : PacketAction} (hkeyed : fp.Keyed)
    (h : fp.processPacket rm env job = .ok (action, fp'))
    (hkept : ∀ key, key ∈ fp.connTracker.connections → key ∈ fp'.connTracker.connections) :
    fp'.total g = fp.total g + w job := by
  obtain ⟨hown, hother⟩ := accountAt_processPacket hkeyed h
  have hsame (key : FiveTuple) (hkey : key ≠ canonicalTuple job.tuple) :
      fp'.accountAt key = fp.accountAt key := accountAt_of_kept (hother key hkey) (hkept key)
  refine Table.sum_of_changed (k := canonicalTuple job.tuple) ?_ ?_ fun key hkey => ?_
  · ext key
    rw [Finset.mem_insert, Finmap.mem_keys, Finmap.mem_keys, ← isSome_accountAt, ← isSome_accountAt]
    by_cases hkey : key = canonicalTuple job.tuple
    · simp [hkey, hown]
    · simp [hkey, hsame key hkey]
  · rw [measure_connections, measure_connections, hown, Option.elim_some, hcount]
    cases fp.accountAt (canonicalTuple job.tuple) with
    | none => rw [Option.getD_none, hzero]; rfl
    | some a => rfl
  · rw [measure_connections, measure_connections, hsame key hkey]

theorem WorkerStep.total {e : WorkerEvent} (h : WorkerStep fp e fp') (hkeyed : fp.Keyed)
    (hkept : ∀ key, Keeps key ⟨fp, e, fp'⟩) :
    fp'.total g = fp.total g + ((packetOf e).toList.map w).sum := by
  cases h with
  | packet h =>
    rw [total_processPacket hzero hcount hkeyed h hkept]
    exact congrArg (fp.total g + ·) (UInt64.add_zero _).symm
  | cleanup now timeout =>
    rw [total_of_accountAt_eq fun key =>
      accountAt_of_kept (accountAt_cleanupStale fp now timeout key) (hkept key)]
    exact (UInt64.add_zero _).symm
  | close tuple =>
    rw [total_of_accountAt_eq (accountAt_closeConnection fp tuple)]
    exact (UInt64.add_zero _).symm

/-- While no entry is removed, the total grows by the weights of the packets. -/
theorem total_of_kept {ts : List (Taken FastPathProcessor WorkerEvent)}
    (hrun : Run WorkerStep fp ts fp') (hkeyed : fp.Keyed)
    (hkept : ∀ s ∈ ts, ∀ key, Keeps key s) :
    fp'.total g = fp.total g + ((packets ts).map w).sum := by
  induction hrun with
  | nil fp => exact (UInt64.add_zero _).symm
  | @cons fp fp₁ fp' e ts hstep _ ih =>
    rw [ih (hstep.keyed hkeyed) fun s hs => hkept s (List.mem_cons_of_mem _ hs),
      hstep.total hzero hcount hkeyed (hkept _ List.mem_cons_self), packets_cons, List.map_append,
      List.sum_append, UInt64.add_assoc]

end Total

end FastPathProcessor

/-! ## Sums of the report -/

theorem sum_map_one {α : Type*} (l : List α) :
    (l.map fun _ => (1 : UInt64)).sum = UInt64.ofNat l.length := by
  induction l with
  | nil => rfl
  | cons a l ih =>
    rw [List.map_cons, List.sum_cons, ih, List.length_cons, UInt64.ofNat_add, UInt64.add_comm]
    rfl

theorem sum_map_length (jobs : List PacketJob) :
    (jobs.map fun job => UInt64.ofNat job.data.length).sum =
      UInt64.ofNat (Account.dataSize jobs) := by
  induction jobs with
  | nil => rfl
  | cons job jobs ih =>
    rw [List.map_cons, List.sum_cons, ih, ← UInt64.ofNat_add]
    rfl

namespace GlobalConnectionTable

variable (table : GlobalConnectionTable)

/-- A sum over all connections, tracker by tracker. -/
theorem sum_allConnections (f : Connection → UInt64) :
    ((allConnections table).map f).sum =
      (table.map fun slot => slot.elim 0 fun r => Table.sum r.tracker.connections f).sum := by
  induction table with
  | nil => rfl
  | cons slot table ih =>
    rw [allConnections, List.flatMap_cons, List.map_append, List.sum_append, List.map_cons,
      List.sum_cons, ← ih]
    rcases slot with _ | r
    · rfl
    · have hr := Table.sum_visited (r.iteration.isOrder r.tracker.connections) f
      rw [Option.elim_some, Option.elim_some, ConnectionTracker.forEach, List.map_map, ← hr]
      rfl

theorem activeConnections_eq :
    activeConnections table = UInt64.ofNat (allConnections table).length := by
  rw [← sum_map_one, sum_allConnections, activeConnections]
  congr 1
  refine List.map_congr_left fun slot _ => ?_
  rcases slot with _ | r
  · rfl
  · have horder := r.iteration.isOrder r.tracker.connections
    have hsize : (r.iteration.order r.tracker.connections).length =
        Table.size r.tracker.connections := by
      rw [← Multiset.coe_card, horder]
      rfl
    rw [Option.elim_some, Option.elim_some, ← Table.sum_visited horder, sum_map_one,
      ← List.length_map (f := Prod.fst), Table.map_fst_visited horder, hsize]
    rfl

/-- The packets of all connections with a name. -/
def carried (name : Str) : UInt64 :=
  (table.map fun slot => slot.elim 0 fun r => Table.sum r.tracker.connections fun conn =>
    if conn.sni = name then conn.packetsIn + conn.packetsOut else 0).sum

theorem measure_domainCounts {name : Str} (hname : name ≠ []) :
    (domainCounts table).measure id name = table.carried name := by
  rw [carried, ← sum_allConnections]
  refine (Table.measure_tally (f := id) (w := fun c : Connection => c.packetsIn + c.packetsOut)
    rfl (fun _ _ => rfl) _ name).trans ?_
  -- what is left out has no name
  induction allConnections table with
  | nil => rfl
  | cons c conns ih =>
    rw [List.map_cons, List.sum_cons, ← ih, List.filter_cons]
    by_cases hc : c.sni = []
    · rw [if_neg (by simp [hc]), if_neg (by rw [hc]; exact hname.symm), UInt64.zero_add]
    · rw [if_pos (by simp [hc]), List.map_cons, List.sum_cons]

theorem mem_domainCounts {name : Str} :
    name ∈ domainCounts table ↔ name ≠ [] ∧ ∃ conn ∈ allConnections table, conn.sni = name := by
  rw [domainCounts, Table.mem_tally]
  constructor
  · rintro ⟨conn, hconn, rfl⟩
    obtain ⟨hconn, hname⟩ := List.mem_filter.1 hconn
    exact ⟨by simpa using hname, conn, hconn, rfl⟩
  · rintro ⟨hname, conn, hconn, rfl⟩
    exact ⟨conn, List.mem_filter.2 ⟨hconn, by simpa using hname⟩, rfl⟩

/-! ## Conservation -/

section Report

variable (sort : StdSort (Str × UInt64) moreTraffic) (domains : Table.Iteration Str UInt64)

/-- A figure of the applications adds up to that of all connections. -/
theorem sum_appStats {f : AppFlowStats → UInt64} {w : Connection → UInt64} (hzero : f {} = 0)
    (hadd : ∀ conn app, f (AppFlowStats.add conn app) = f app + w conn) :
    Table.sum (table.getGlobalStats sort domains).appStats f =
      ((allConnections table).map w).sum := by
  rw [getGlobalStats_eq]
  exact Table.sum_tally hzero hadd _

theorem mem_sorted {name : Str} {total : UInt64} :
    (name, total) ∈ sort.sort (Table.visited (domainCounts table)
      (domains.order (domainCounts table))) ↔
      name ∈ domainCounts table ∧ total = table.carried name := by
  rw [(sort.perm _).mem_iff, Table.mem_visited (domains.isOrder _)]
  constructor
  · intro hlook
    have hmem : name ∈ domainCounts table := Finmap.mem_iff.2 ⟨total, hlook⟩
    have hmeasure := measure_domainCounts table ((mem_domainCounts table).1 hmem).1
    rw [Table.measure, hlook] at hmeasure
    exact ⟨hmem, hmeasure⟩
  · rintro ⟨hmem, rfl⟩
    obtain ⟨total, hlook⟩ := Finmap.mem_iff.1 hmem
    have hmeasure := measure_domainCounts table ((mem_domainCounts table).1 hmem).1
    rw [Table.measure, hlook] at hmeasure
    rw [hlook, ← hmeasure]
    rfl

/-- What the list of the top domains says of a table. -/
structure TopDomains (top : List (Str × UInt64)) : Prop where
  length_le : top.length ≤ 20
  nodup : (top.map Prod.fst).Nodup
  total : ∀ d ∈ top, d.1 ≠ [] ∧ d.2 = table.carried d.1
  listed : ∀ d ∈ top, ∃ conn ∈ allConnections table, conn.sni = d.1
  sorted : top.Pairwise fun a b => b.2 ≤ a.2
  unlisted : ∀ name ≠ [], name ∉ top.map Prod.fst → ∀ d ∈ top, table.carried name ≤ d.2
  full : ∀ conn ∈ allConnections table, conn.sni ≠ [] → conn.sni ∉ top.map Prod.fst →
    top.length = 20

theorem topDomains_getGlobalStats :
    TopDomains table (table.getGlobalStats sort domains).topDomains := by
  rw [getGlobalStats_eq]
  have hmem {name : Str} {total : UInt64} :
      (name, total) ∈ sort.sort (Table.visited (domainCounts table)
        (domains.order (domainCounts table))) ↔
        name ∈ domainCounts table ∧ total = table.carried name := mem_sorted table sort domains
  have hsorted := sort.sorted (Table.visited (domainCounts table)
    (domains.order (domainCounts table)))
  have hnodup := ((sort.perm (Table.visited (domainCounts table)
    (domains.order (domainCounts table)))).map Prod.fst).nodup_iff.2
    (by rw [Table.map_fst_visited (domains.isOrder _)]; exact (domains.isOrder _).nodup)
  dsimp only
  generalize sort.sort (Table.visited (domainCounts table) (domains.order (domainCounts table))) =
    l at hmem hsorted hnodup
  -- a name that is not listed but carried is among those cut off
  have hcut {name : Str} (hcarried : name ∈ domainCounts table)
      (hname : name ∉ (l.take 20).map Prod.fst) :
      (name, table.carried name) ∈ l ∧ (name, table.carried name) ∉ l.take 20 :=
    ⟨hmem.2 ⟨hcarried, rfl⟩, fun h => hname (List.mem_map.2 ⟨_, h, rfl⟩)⟩
  constructor
  · exact List.length_take_le 20 l
  · exact hnodup.sublist ((List.take_sublist 20 l).map Prod.fst)
  · rintro ⟨name, total⟩ hd
    obtain ⟨hcarried, htotal⟩ := hmem.1 (List.mem_of_mem_take hd)
    exact ⟨((mem_domainCounts table).1 hcarried).1, htotal⟩
  · rintro ⟨name, total⟩ hd
    exact ((mem_domainCounts table).1 (hmem.1 (List.mem_of_mem_take hd)).1).2
  · exact (hsorted.sublist (List.take_sublist 20 l)).imp moreTraffic_eq_false.1
  · intro name hne hname d hd
    by_cases hcarried : name ∈ domainCounts table
    · obtain ⟨hin, hout⟩ := hcut hcarried hname
      exact moreTraffic_eq_false.1 (not_before_of_mem_take hsorted hd hin hout)
    · rw [← measure_domainCounts table hne, Table.measure_of_notMem hcarried]
      exact UInt64.zero_le
  · intro conn hconn hne hname
    obtain ⟨hin, hout⟩ := hcut ((mem_domainCounts table).2 ⟨hne, conn, hconn, rfl⟩) hname
    by_contra hlength
    have hshort : l.length ≤ 20 := by
      rw [List.length_take] at hlength
      omega
    exact hout (by rwa [List.take_of_length_le hshort])

end Report

end GlobalConnectionTable

/-- A fast path from its start to a report, without the removal of an entry in between. -/
structure ReportedWorker where
  start : FastPathProcessor
  taken : List (Taken FastPathProcessor WorkerEvent)
  last : FastPathProcessor
  iteration : Table.Iteration FiveTuple Connection
  empty : start.connTracker.connections = ∅
  run : Run WorkerStep start taken last
  kept : ∀ s ∈ taken, ∀ key, Keeps key s

namespace ReportedWorker

def registered (worker : ReportedWorker) : Registered :=
  ⟨worker.last.connTracker, worker.iteration⟩

/-- The table in which all trackers are registered. -/
def reported (workers : List ReportedWorker) : GlobalConnectionTable :=
  GlobalConnectionTable.registerAll (workers.map registered)

/-- The packets that the fast paths have processed. -/
def processed (workers : List ReportedWorker) : List PacketJob :=
  workers.flatMap fun worker => packets worker.taken

theorem total_last (worker : ReportedWorker) {g : Account → UInt64} {w : PacketJob → UInt64}
    (hzero : ∀ tuple, g { tuple := tuple } = 0)
    (hcount : ∀ a job, g (a.count job) = g a + w job) :
    worker.last.total g = ((packets worker.taken).map w).sum := by
  have hkeyed : worker.start.Keyed := by
    intro key a ha
    rw [accountAt, worker.empty] at ha
    cases ha
  have hstart : worker.start.total g = 0 := by
    rw [total, worker.empty]
    rfl
  rw [total_of_kept hzero hcount worker.run hkeyed worker.kept, hstart, UInt64.zero_add]

/-- What the packets of all fast paths add up to is in the connections of all trackers. -/
theorem sum_allConnections (workers : List ReportedWorker) {g : Account → UInt64}
    {w : PacketJob → UInt64} (hzero : ∀ tuple, g { tuple := tuple } = 0)
    (hcount : ∀ a job, g (a.count job) = g a + w job) :
    ((reported workers).allConnections.map fun c => g c.account).sum =
      ((processed workers).map w).sum := by
  rw [reported, GlobalConnectionTable.sum_allConnections, GlobalConnectionTable.registerAll_eq]
  induction workers with
  | nil => rfl
  | cons worker workers ih =>
    have hprocessed : processed (worker :: workers) =
        packets worker.taken ++ processed workers := rfl
    rw [List.map_cons, List.map_cons, List.map_cons, List.sum_cons, ih, hprocessed,
      List.map_append, List.sum_append, ← worker.total_last hzero hcount]
    rfl

end ReportedWorker

namespace GlobalConnectionTable

open ReportedWorker

/-- The report over any number of fast paths, after any runs of theirs in which no entry is
removed. -/
theorem report_conserves (workers : List ReportedWorker)
    (sort : StdSort (Str × UInt64) moreTraffic) (domains : Table.Iteration Str UInt64) :
    let stats := (reported workers).getGlobalStats sort domains
    Table.sum stats.appStats AppFlowStats.flows = stats.totalActiveConnections ∧
      Table.sum stats.appStats AppFlowStats.packets = UInt64.ofNat (processed workers).length ∧
      Table.sum stats.appStats AppFlowStats.bytes =
        UInt64.ofNat (Account.dataSize (processed workers)) ∧
      TopDomains (reported workers) stats.topDomains := by
  have hactive := congrArg GlobalStats.totalActiveConnections
    (getGlobalStats_eq (reported workers) sort domains)
  refine ⟨?_, ?_, ?_, topDomains_getGlobalStats (reported workers) sort domains⟩
  · rw [sum_appStats _ sort domains (w := fun _ => 1) rfl (fun _ _ => rfl), hactive, sum_map_one,
      activeConnections_eq]
  · rw [sum_appStats _ sort domains (w := fun c => c.account.packets) rfl (fun _ _ => rfl),
      ReportedWorker.sum_allConnections workers (w := fun _ => 1) (fun _ => rfl)
        Account.packets_count, sum_map_one]
  · rw [sum_appStats _ sort domains (w := fun c => c.account.bytes) rfl (fun _ _ => rfl),
      ReportedWorker.sum_allConnections workers (fun _ => rfl) Account.bytes_count, sum_map_length]

/-- Two workers: one sees both directions of a connection, the other a connection with the same name
and one with another name. -/
theorem report_conserves_sharedName :
    ∃ workers : List ReportedWorker,
      workers.map (fun worker => packets worker.taken) =
        [[request "ok.com", answer], [otherRequest "ok.com", request "bad.com"]] ∧
      (reported workers).carried (text "ok.com") = 3 ∧
      ∀ sort domains,
        let stats := (reported workers).getGlobalStats sort domains
        Table.sum stats.appStats AppFlowStats.flows = stats.totalActiveConnections ∧
          Table.sum stats.appStats AppFlowStats.packets = 4 ∧
          TopDomains (reported workers) stats.topDomains := by
  let carries (fp : FastPathProcessor) (name : Str) : UInt64 :=
    Table.sum fp.connTracker.connections fun conn =>
      if conn.sni = name then conn.packetsIn + conn.packetsOut else 0
  have h : ((Run.trace after {} [.packet none ⟨0, 0, []⟩ (request "ok.com") .forward,
        .packet none ⟨1, 1, []⟩ answer .forward]).bind fun r =>
      (Run.trace after {} [.packet none ⟨0, 0, []⟩ (otherRequest "ok.com") .forward,
        .packet none ⟨1, 1, []⟩ (request "bad.com") .forward]).map fun r' =>
      decide (packets r.1 = [request "ok.com", answer] ∧
        packets r'.1 = [otherRequest "ok.com", request "bad.com"] ∧
        (∀ s ∈ r.1 ++ r'.1,
          s.pre.connTracker.connections.keys ⊆ s.post.connTracker.connections.keys) ∧
        carries r.2 (text "ok.com") + (carries r'.2 (text "ok.com") + 0) = 3)) = some true := by
    decide +kernel
  obtain ⟨⟨ts, fp⟩, htrace, h⟩ := Option.bind_eq_some_iff.1 h
  obtain ⟨⟨ts', fp'⟩, htrace', h⟩ := Option.map_eq_some_iff.1 h
  obtain ⟨hpackets, hpackets', hkept, hcarried⟩ := of_decide_eq_true h
  have hkeeps (s) (hs : s ∈ ts ++ ts') (key : FiveTuple) : Keeps key s := by
    intro hmem
    rw [← Finmap.mem_keys] at hmem ⊢
    exact hkept s hs hmem
  let iteration : Table.Iteration FiveTuple Connection :=
    ⟨fun t => t.keys.toList, fun t => Finset.coe_toList t.keys⟩
  let first : ReportedWorker := ⟨{}, ts, fp, iteration, rfl, run_of_trace htrace,
    fun s hs => hkeeps s (List.mem_append_left _ hs)⟩
  let second : ReportedWorker := ⟨{}, ts', fp', iteration, rfl, run_of_trace htrace',
    fun s hs => hkeeps s (List.mem_append_right _ hs)⟩
  refine ⟨[first, second], ?_, hcarried, fun sort domains => ?_⟩
  · exact congrArg₂ (fun a b => [a, b]) hpackets hpackets'
  · obtain ⟨hflows, hcount, -, htop⟩ := report_conserves [first, second] sort domains
    have hlength : (processed [first, second]).length = 4 := by
      have hprocessed : processed [first, second] = packets ts ++ (packets ts' ++ []) := rfl
      rw [hprocessed, hpackets, hpackets']
      rfl
    rw [hlength] at hcount
    exact ⟨hflows, hcount, htop⟩

end GlobalConnectionTable

end DPI
