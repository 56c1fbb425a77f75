import DpiEngine.Eviction

/-!
# The invariant of the flow table

What holds of a tracker after any calls in any order: its keys, its entries and their times, its
size, and the number of connections it has seen.  The entries that were removed are counted along
with the calls.
-/

namespace DPI

open Bytes

/-- A tracker, its clock, and the number of entries that were evicted, cleaned up or cleared. -/
structure CountedTracker extends ClockedTracker where
  removed : ℕ

namespace ConnectionTracker

/-- The scan of an eviction meets every entry of the table once. -/
def Scans (tr : ConnectionTracker) (now : Time) : TrackerOp → Prop
  | .getOrCreate order t =>
    canonicalTuple t ∉ tr.connections → Table.IsOrder (tr.emplace t now).connections order
  | _ => True

/-- The keys of the entries that a call removes; an eviction may meet the entry just created. -/
def removedKeys (tr : ConnectionTracker) (now : Time) : TrackerOp → Finset FiveTuple
  | .getOrCreate order t =>
    if canonicalTuple t ∈ tr.connections then ∅
    else (tr.emplace t now).connections.keys \
      (tr.getOrCreateConnection now order t).1.connections.keys
  | .cleanup timeout => tr.connections.keys \ (tr.cleanupStale now timeout).1.connections.keys
  | .clear => tr.connections.keys
  | _ => ∅

def CountedStep (s : CountedTracker) (l : Time × TrackerOp) (s' : CountedTracker) : Prop :=
  Step s.toClockedTracker l s'.toClockedTracker ∧ s.tracker.Scans l.1 l.2 ∧
    s'.removed = s.removed + (s.tracker.removedKeys l.1 l.2).card

/-- A tracker that was just constructed, of any capacity. -/
def CountedInitial (s : CountedTracker) : Prop :=
  Initial s.toClockedTracker ∧ s.removed = 0

/-- The invariant of the table at time `now`, after `removed` entries were removed. -/
structure Intact (tr : ConnectionTracker) (now : Time) (removed : ℕ) : Prop where
  keys : ∀ key c, tr.connections.lookup key = some c → key = canonicalTuple c.tuple
  distinct : ∀ key key' c c', tr.connections.lookup key = some c →
    tr.connections.lookup key' = some c' → c'.tuple = c.tuple ∨ c'.tuple = c.tuple.reverse →
    key = key'
  capacity : Table.size tr.connections ≤ tr.maxConnections
  times : ∀ key c, tr.connections.lookup key = some c →
    c.firstSeen ≤ c.lastSeen ∧ c.lastSeen ≤ now
  seen : tr.totalSeen.toNat = (Table.size tr.connections + removed) % 2 ^ 64

/-! ## Entries -/

/-- The key and the times of one entry. -/
structure EntryIntact (now : Time) (key : FiveTuple) (c : Connection) : Prop where
  key_eq : key = canonicalTuple c.tuple
  first_le : c.firstSeen ≤ c.lastSeen
  last_le : c.lastSeen ≤ now

def EntriesIntact (tr : ConnectionTracker) (now : Time) : Prop :=
  ∀ key c, tr.connections.lookup key = some c → EntryIntact now key c

theorem EntriesIntact.apply {tr tr' : ConnectionTracker} {clock now : Time} {op : TrackerOp}
    (h : tr.EntriesIntact clock) (hclock : clock ≤ now) (hop : tr.apply now op = some tr') :
    tr'.EntriesIntact now := by
  intro key c' hc'
  have hhandled := handled_apply hop hc'
  generalize hold : tr.connections.lookup key = old at hhandled
  cases hhandled with
  | kept htuple hfirst hlast =>
    obtain ⟨hkey, hle, hnow⟩ := h key _ hold
    have hfirst_le := (hle.trans hnow).trans hclock
    rcases hlast with hlast | hlast
    · exact ⟨by rw [htuple, ← hkey], by rw [hfirst, hlast]; exact hle,
        by rw [hlast]; exact hnow.trans hclock⟩
    · exact ⟨by rw [htuple, ← hkey], by rw [hfirst, hlast]; exact hfirst_le, hlast.le⟩
  | created hkey hfirst hlast => exact ⟨hkey, (hfirst.trans hlast.symm).le, hlast.le⟩

/-! ## Sizes and counters -/

variable {tr tr' : ConnectionTracker} {now : Time} {op : TrackerOp}

theorem keys_store {conn : FiveTuple} {c : Connection} (hc : tr.connections.lookup conn = some c)
    (c' : Connection) : (tr.store conn c').connections.keys = tr.connections.keys := by
  have hmem : conn ∈ tr.connections.keys := Finmap.mem_keys.2 (Finmap.mem_iff.2 ⟨c, hc⟩)
  rw [store, Table.keys_insert, Finset.insert_eq_of_mem hmem]

theorem keys_evictOldest_subset (tr : ConnectionTracker) (order : List FiveTuple) :
    (tr.evictOldest order).connections.keys ⊆ tr.connections.keys := by
  intro key hkey
  rw [Finmap.mem_keys, Finmap.mem_iff] at hkey ⊢
  obtain ⟨c, hc⟩ := hkey
  rcases lookup_evictOldest tr order key with h | h
  · exact ⟨c, h ▸ hc⟩
  · rw [h] at hc
    cases hc

theorem keys_cleanupStale_subset (tr : ConnectionTracker) (now timeout : Time) :
    (tr.cleanupStale now timeout).1.connections.keys ⊆ tr.connections.keys := by
  intro key hkey
  rw [Finmap.mem_keys, Finmap.mem_iff] at hkey ⊢
  obtain ⟨c, hc⟩ := hkey
  rcases lookup_cleanupStale tr now timeout key with hkept | hgone
  · exact ⟨c, hkept ▸ hc⟩
  · rw [hgone] at hc
    cases hc

/-- A scan of the whole table finds an entry, so an eviction makes it smaller by one. -/
theorem size_evictOldest {order : List FiveTuple} (horder : Table.IsOrder tr.connections order)
    (hpos : 0 < Table.size tr.connections) :
    Table.size (tr.evictOldest order).connections + 1 = Table.size tr.connections := by
  obtain ⟨key, hkey⟩ := Finset.card_pos.1 hpos
  rw [Finmap.mem_keys, ← horder.mem_iff] at hkey
  rcases harg : order.argmin tr.lastSeenOf with _ | oldest
  · rw [List.argmin_eq_none] at harg
    rw [harg] at hkey
    cases hkey
  · have hmem : oldest ∈ tr.connections.keys := by
      rw [Finmap.mem_keys, ← horder.mem_iff]
      exact List.argmin_mem harg
    rw [evictOldest, harg]
    simp only [Table.size, Finmap.keys_erase]
    exact Finset.card_erase_add_one hmem

/-- The new entries that a call puts into the table. -/
def createdBy (tr : ConnectionTracker) : TrackerOp → ℕ
  | .getOrCreate _ t => if canonicalTuple t ∈ tr.connections then 0 else 1
  | _ => 0

/-- What a call does to the size of the table and to the counter: the entries after it and those
that it removed were there before it or are new. -/
structure Counts (tr : ConnectionTracker) (now : Time) (op : TrackerOp) (tr' : ConnectionTracker) :
    Prop where
  size : Table.size tr'.connections + (tr.removedKeys now op).card =
    Table.size tr.connections + tr.createdBy op
  seen : tr'.totalSeen = tr.totalSeen + UInt64.ofNat (tr.createdBy op)
  maxConnections : tr'.maxConnections = tr.maxConnections

theorem card_add_card_sdiff {before after : Finset FiveTuple} (h : after ⊆ before) :
    after.card + (before \ after).card = before.card := by
  rw [Nat.add_comm]
  exact Finset.card_sdiff_add_card_eq_card h

theorem add_ofNat_zero (n : UInt64) : n = n + UInt64.ofNat 0 := by simp

/-- A write through a pointer. -/
theorem counts_store {conn : FiveTuple} {c c' : Connection}
    (hc : tr.connections.lookup conn = some c) (hremoved : tr.removedKeys now op = ∅)
    (hcreated : tr.createdBy op = 0) : Counts tr now op (tr.store conn c') := by
  refine ⟨?_, ?_, rfl⟩
  · rw [hremoved, hcreated, Finset.card_empty, Table.size, keys_store hc]
    rfl
  · rw [hcreated]
    exact add_ofNat_zero _

theorem counts_getOrCreate (order : List FiveTuple) (t : FiveTuple) :
    Counts tr now (.getOrCreate order t) (tr.getOrCreateConnection now order t).1 := by
  have hmax := maxConnections_getOrCreateConnection tr now order t
  have hold (h : canonicalTuple t ∈ tr.connections) : tr.createdBy (.getOrCreate order t) = 0 :=
    if_pos h
  have hnew (h : canonicalTuple t ∉ tr.connections) : tr.createdBy (.getOrCreate order t) = 1 :=
    if_neg h
  have hsize (h : canonicalTuple t ∉ tr.connections) :
      Table.size (tr.emplace t now).connections = Table.size tr.connections + 1 :=
    Table.size_insert_of_notMem h _
  have hremoved (h : canonicalTuple t ∉ tr.connections) :
      tr.removedKeys now (.getOrCreate order t) = (tr.emplace t now).connections.keys \
        (tr.getOrCreateConnection now order t).1.connections.keys := if_neg h
  rcases getOrCreateConnection_cases tr now order t with ⟨hk, he⟩ | ⟨hk, -, he⟩ | ⟨hk, -, he⟩
  · refine ⟨?_, ?_, hmax⟩
    · rw [hold hk, removedKeys, if_pos hk, he]
      rfl
    · rw [hold hk, he]
      exact add_ofNat_zero _
  · refine ⟨?_, ?_, hmax⟩
    · rw [hnew hk, hremoved hk, he, ← hsize hk]
      exact card_add_card_sdiff subset_rfl
    · rw [hnew hk, he]
      rfl
  · refine ⟨?_, ?_, hmax⟩
    · rw [hnew hk, hremoved hk, he, ← hsize hk]
      exact card_add_card_sdiff (keys_evictOldest_subset _ order)
    · rw [hnew hk, he, evictOldest]
      cases order.argmin (tr.emplace t now).lastSeenOf <;> rfl

theorem counts_apply (hop : tr.apply now op = some tr') : Counts tr now op tr' := by
  cases op with
  | getOrCreate order tuple =>
    cases hop
    exact counts_getOrCreate order tuple
  | update conn packetSize isOutbound =>
    obtain ⟨c, hc, hop⟩ := Option.bind_eq_some_iff.1 hop
    cases hop
    exact counts_store hc rfl rfl
  | tcp conn flags =>
    obtain ⟨c, hc, hop⟩ := Option.bind_eq_some_iff.1 hop
    cases hop
    exact counts_store hc rfl rfl
  | classify conn app sni =>
    obtain ⟨c, hc, hop⟩ := Option.bind_eq_some_iff.1 hop
    obtain rfl := Option.some.inj hop
    have h (c' : Connection) : Counts tr now (.classify conn app sni) (tr.store conn c') :=
      counts_store hc rfl rfl
    unfold classifyConnection
    split_ifs
    · exact ⟨(h _).size, (h c).seen, rfl⟩
    · exact h c
  | block conn =>
    obtain ⟨c, hc, hop⟩ := Option.bind_eq_some_iff.1 hop
    cases hop
    have h : Counts tr now (.block conn) (tr.store conn (tr.blockConnection c).2) :=
      counts_store hc rfl rfl
    exact ⟨h.size, h.seen, h.maxConnections⟩
  | close tuple =>
    cases hop
    unfold closeConnection
    dsimp only
    split
    · rename_i c hc
      exact counts_store hc rfl rfl
    · exact ⟨rfl, add_ofNat_zero _, rfl⟩
  | cleanup timeout =>
    cases hop
    exact ⟨card_add_card_sdiff (keys_cleanupStale_subset tr now timeout), add_ofNat_zero _, rfl⟩
  | clear =>
    cases hop
    refine ⟨?_, add_ofNat_zero _, rfl⟩
    exact Nat.zero_add _

/-- An insertion into a full table evicts an entry. -/
theorem size_apply_le (hop : tr.apply now op = some tr') (hscan : tr.Scans now op)
    (hcapacity : Table.size tr.connections ≤ tr.maxConnections) :
    Table.size tr'.connections ≤ tr'.maxConnections := by
  have hcounts := counts_apply hop
  have hsize := hcounts.size
  rw [hcounts.maxConnections]
  cases op with
  | getOrCreate order t =>
    cases hop
    have hnew (h : canonicalTuple t ∉ tr.connections) :
        Table.size (tr.emplace t now).connections = Table.size tr.connections + 1 :=
      Table.size_insert_of_notMem h _
    rcases getOrCreateConnection_cases tr now order t with ⟨-, he⟩ | ⟨hk, hroom, he⟩ | ⟨hk, -, he⟩
    · rw [he]
      exact hcapacity
    · rw [he, hnew hk]
      exact hroom
    · have hevict := size_evictOldest (hscan hk) (by rw [hnew hk]; exact Nat.succ_pos _)
      rw [he]
      rw [hnew hk] at hevict
      omega
  | _ =>
    simp only [createdBy] at hsize
    omega

/-! ## Runs -/

theorem Intact.of_entries {removed : ℕ} (h : tr.EntriesIntact now)
    (hcapacity : Table.size tr.connections ≤ tr.maxConnections)
    (hseen : tr.totalSeen.toNat = (Table.size tr.connections + removed) % 2 ^ 64) :
    tr.Intact now removed where
  keys key c hc := (h key c hc).key_eq
  distinct key key' c c' hc hc' hsame := by
    rw [(h key c hc).key_eq, (h key' c' hc').key_eq, canonicalTuple_eq_iff]
    exact hsame
  capacity := hcapacity
  times key c hc := ⟨(h key c hc).first_le, (h key c hc).last_le⟩
  seen := hseen

theorem Intact.entries {removed : ℕ} (h : tr.Intact now removed) : tr.EntriesIntact now :=
  fun key c hc => ⟨h.keys key c hc, (h.times key c hc).1, (h.times key c hc).2⟩

theorem intact_initial {s : CountedTracker} (h : CountedInitial s) :
    s.tracker.Intact s.clock s.removed := by
  obtain ⟨⟨n, hn⟩, hremoved⟩ := h
  rw [hn, hremoved]
  refine .of_entries ?_ (Nat.zero_le _) rfl
  intro key c hc
  simp at hc

theorem CountedStep.intact {s s' : CountedTracker} {l : Time × TrackerOp}
    (h : CountedStep s l s') (hs : s.tracker.Intact s.clock s.removed) :
    s'.tracker.Intact s'.clock s'.removed := by
  obtain ⟨⟨hclock, hop, hnow⟩, hscan, hremoved⟩ := h
  have hcounts := counts_apply hop
  have hsize := hcounts.size
  rw [hnow, hremoved]
  refine .of_entries (hs.entries.apply hclock hop) (size_apply_le hop hscan hs.capacity) ?_
  rw [hcounts.seen, UInt64.toNat_add, UInt64.toNat_ofNat', hs.seen]
  omega

/-- The invariant of the table holds after any sequence of calls under a clock that does not go
back, for every capacity and whatever order the table is iterated in; the connections seen are
counted in 64 bits. -/
theorem intact_of_reachable {s : CountedTracker} (h : Reachable CountedInitial CountedStep s) :
    s.tracker.Intact s.clock s.removed :=
  h.invariant (fun s => s.tracker.Intact s.clock s.removed) (fun _ => intact_initial)
    fun _ _ _ hstep hs => hstep.intact hs

/-- A tracker of capacity one after its second connection took the place of the first. -/
def replacedTracker : CountedTracker where
  tracker := (fullTracker.tracker.getOrCreateConnection 1
    [⟨1, 2, 1, 2, 6⟩, ⟨3, 4, 1, 2, 6⟩] ⟨3, 4, 1, 2, 6⟩).1
  clock := 1
  removed := 1

theorem intact_of_reachable_replaced : replacedTracker.tracker.Intact 1 1 := by
  have hstart : Reachable CountedInitial CountedStep ⟨⟨{ maxConnections := 1 }, 0⟩, 0⟩ :=
    .start ⟨⟨1, rfl⟩, rfl⟩
  have hfirst : CountedStep ⟨⟨{ maxConnections := 1 }, 0⟩, 0⟩
      (0, .getOrCreate [⟨1, 2, 1, 2, 6⟩] ⟨1, 2, 1, 2, 6⟩) ⟨fullTracker, 0⟩ := by
    refine ⟨⟨le_rfl, by decide +kernel, rfl⟩, fun _ => by decide +kernel, by decide +kernel⟩
  have hsecond : CountedStep ⟨fullTracker, 0⟩
      (1, .getOrCreate [⟨1, 2, 1, 2, 6⟩, ⟨3, 4, 1, 2, 6⟩] ⟨3, 4, 1, 2, 6⟩) replacedTracker := by
    refine ⟨⟨by decide, rfl, rfl⟩, fun _ => by decide +kernel, by decide +kernel⟩
  exact intact_of_reachable ((hstart.step hfirst).step hsecond)

end ConnectionTracker

end DPI
