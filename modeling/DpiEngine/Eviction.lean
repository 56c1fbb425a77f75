import DpiEngine.Flow

/-!
# Eviction

The tracker under a clock that never goes back, and when the entry that `getOrCreateConnection`
returns is still in the table: the eviction scan runs over the new entry as well.
-/

namespace DPI

open Bytes

/-- The calls on a tracker, and the writes of its owner through a `Connection*`. -/
inductive TrackerOp where
  | getOrCreate (order : List FiveTuple) (tuple : FiveTuple)
  | update (conn : FiveTuple) (packetSize : ℕ) (isOutbound : Bool)
  | tcp (conn : FiveTuple) (flags : UInt8)
  | classify (conn : FiveTuple) (app : AppType) (sni : Str)
  | block (conn : FiveTuple)
  | close (tuple : FiveTuple)
  | cleanup (timeout : Time)
  | clear

structure ClockedTracker where
  tracker : ConnectionTracker
  clock : Time

namespace ConnectionTracker

/-- The tracker after a call at time `now`; `none` for a call through a dangling pointer. -/
def apply (tr : ConnectionTracker) (now : Time) : TrackerOp → Option ConnectionTracker
  | .getOrCreate order tuple => some (tr.getOrCreateConnection now order tuple).1
  | .update conn packetSize isOutbound => do
    let c ← tr.connections.lookup conn
    return tr.store conn (updateConnection c now packetSize isOutbound)
  | .tcp conn flags => do
    let c ← tr.connections.lookup conn
    return tr.store conn (updateTCPState c flags)
  | .classify conn app sni => do
    let c ← tr.connections.lookup conn
    let r := tr.classifyConnection c app sni
    return r.1.store conn r.2
  | .block conn => do
    let c ← tr.connections.lookup conn
    let r := tr.blockConnection c
    return r.1.store conn r.2
  | .close tuple => some (tr.closeConnection tuple)
  | .cleanup timeout => some (tr.cleanupStale now timeout).1
  | .clear => some tr.clear

/-- One call; the clock may stand still. -/
def Step (s : ClockedTracker) (l : Time × TrackerOp) (s' : ClockedTracker) : Prop :=
  s.clock ≤ l.1 ∧ s.tracker.apply l.1 l.2 = some s'.tracker ∧ s'.clock = l.1

/-- A tracker that was just constructed, of any capacity. -/
def Initial (s : ClockedTracker) : Prop := ∃ n, s.tracker = { maxConnections := n }

/-- No entry was last seen in the future. -/
def Timely (tr : ConnectionTracker) (now : Time) : Prop :=
  ∀ key c, tr.connections.lookup key = some c → c.lastSeen ≤ now

theorem Timely.mono {tr : ConnectionTracker} {clock now : Time} (h : tr.Timely clock)
    (hle : clock ≤ now) : tr.Timely now := fun key c hc => (h key c hc).trans hle

theorem lookup_store (tr : ConnectionTracker) (conn : FiveTuple) (c : Connection)
    (key : FiveTuple) : (tr.store conn c).connections.lookup key =
      if key = conn then some c else tr.connections.lookup key := by
  unfold store
  split_ifs with h
  · rw [h, Finmap.lookup_insert]
  · rw [Finmap.lookup_insert_of_ne _ h]

/-- What a call at time `now` may make of the entry under a key: it keeps the initiating tuple and
the time of creation, or it is a new entry under the key of its tuple. -/
inductive Handled (now : Time) (key : FiveTuple) : Option Connection → Connection → Prop
  | kept {c c' : Connection} (tuple : c'.tuple = c.tuple) (firstSeen : c'.firstSeen = c.firstSeen)
      (lastSeen : c'.lastSeen = c.lastSeen ∨ c'.lastSeen = now) : Handled now key (some c) c'
  | created {old : Option Connection} {c' : Connection} (key_eq : key = canonicalTuple c'.tuple)
      (firstSeen : c'.firstSeen = now) (lastSeen : c'.lastSeen = now) : Handled now key old c'

section Handled

variable {tr tr' : ConnectionTracker} {now : Time} {key : FiveTuple} {c c' : Connection}

theorem Handled.unchanged (c : Connection) : Handled now key (some c) c := .kept rfl rfl (.inl rfl)

/-- A write through a pointer. -/
theorem handled_store {conn : FiveTuple} {written : Connection}
    (hc : tr.connections.lookup conn = some c)
    (hwritten : Handled now conn (some c) written)
    (h : (tr.store conn written).connections.lookup key = some c') :
    Handled now key (tr.connections.lookup key) c' := by
  rw [lookup_store] at h
  split_ifs at h with hkey
  · cases h
    rw [hkey, hc]
    exact hwritten
  · rw [h]
    exact .unchanged c'

theorem handled_getOrCreate {order : List FiveTuple} {t : FiveTuple}
    (h : (tr.getOrCreateConnection now order t).1.connections.lookup key = some c') :
    Handled now key (tr.connections.lookup key) c' := by
  rcases lookup_getOrCreateConnection_cases tr now order t key with he | he
  · rw [he] at h
    cases h
  rw [he] at h
  split_ifs at h with hkey
  · generalize tr.connections.lookup key = old at h ⊢
    cases old with
    | none =>
      cases h
      exact .created hkey rfl rfl
    | some c =>
      cases h
      exact .unchanged c
  · rw [h]
    exact .unchanged c'

theorem updateTCPState_frame (c : Connection) (flags : UInt8) :
    (updateTCPState c flags).tuple = c.tuple ∧ (updateTCPState c flags).firstSeen = c.firstSeen ∧
      (updateTCPState c flags).lastSeen = c.lastSeen := by
  rw [updateTCPState_eq]
  exact ⟨rfl, rfl, rfl⟩

theorem classifyConnection_frame (tr : ConnectionTracker) (c : Connection) (app : AppType)
    (sni : Str) :
    (tr.classifyConnection c app sni).1.connections = tr.connections ∧
      (tr.classifyConnection c app sni).2.tuple = c.tuple ∧
      (tr.classifyConnection c app sni).2.firstSeen = c.firstSeen ∧
      (tr.classifyConnection c app sni).2.lastSeen = c.lastSeen := by
  unfold classifyConnection
  split_ifs <;> exact ⟨rfl, rfl, rfl, rfl⟩

/-- Whatever entry a call leaves in the table was handled in one of these ways. -/
theorem handled_apply {op : TrackerOp} (hop : tr.apply now op = some tr')
    (h : tr'.connections.lookup key = some c') :
    Handled now key (tr.connections.lookup key) c' := by
  cases op with
  | getOrCreate order tuple =>
    cases hop
    exact handled_getOrCreate h
  | update conn packetSize isOutbound =>
    obtain ⟨c, hc, hop⟩ := Option.bind_eq_some_iff.1 hop
    cases hop
    refine handled_store hc ?_ h
    cases isOutbound <;> exact .kept rfl rfl (.inr rfl)
  | tcp conn flags =>
    obtain ⟨c, hc, hop⟩ := Option.bind_eq_some_iff.1 hop
    cases hop
    obtain ⟨htuple, hfirst, hlast⟩ := updateTCPState_frame c flags
    exact handled_store hc (.kept htuple hfirst (.inl hlast)) h
  | classify conn app sni =>
    obtain ⟨c, hc, hop⟩ := Option.bind_eq_some_iff.1 hop
    obtain rfl := Option.some.inj hop
    obtain ⟨hconn, htuple, hfirst, hlast⟩ := classifyConnection_frame tr c app sni
    rw [← hconn] at hc ⊢
    exact handled_store hc (.kept htuple hfirst (.inl hlast)) h
  | block conn =>
    obtain ⟨c, hc, hop⟩ := Option.bind_eq_some_iff.1 hop
    cases hop
    have hc' : (tr.blockConnection c).1.connections.lookup conn = some c := hc
    refine handled_store hc' ?_ h
    exact .kept rfl rfl (.inl rfl)
  | close tuple =>
    cases hop
    unfold closeConnection at h
    dsimp only at h
    split at h
    · rename_i c hc
      refine handled_store hc ?_ h
      exact .kept rfl rfl (.inl rfl)
    · rw [h]
      exact .unchanged c'
  | cleanup timeout =>
    cases hop
    rcases lookup_cleanupStale tr now timeout key with hkept | hgone
    · rw [← hkept, h]
      exact .unchanged c'
    · rw [hgone] at h
      cases h
  | clear =>
    cases hop
    simp [clear] at h

end Handled

theorem Timely.apply {tr tr' : ConnectionTracker} {now : Time} {op : TrackerOp}
    (h : tr.Timely now) (hop : tr.apply now op = some tr') : tr'.Timely now := by
  intro key c' hc'
  have hhandled := handled_apply hop hc'
  generalize hold : tr.connections.lookup key = old at hhandled
  cases hhandled with
  | kept _ _ hlast =>
    rcases hlast with hlast | hlast
    · exact hlast ▸ h key _ hold
    · exact hlast.le
  | created _ _ hlast => exact hlast.le

/-- In every reachable state no entry was last seen in the future. -/
theorem timely_of_reachable {s : ClockedTracker} (h : Reachable Initial Step s) :
    s.tracker.Timely s.clock := by
  refine h.invariant (fun s => s.tracker.Timely s.clock) ?_ ?_
  · rintro s ⟨n, hn⟩ key c hc
    rw [hn] at hc
    simp at hc
  · rintro s l s' ⟨hle, hop, hclock⟩ hs
    rw [hclock]
    exact (hs.mono hle).apply hop

/-! ## The entry that was just created -/

theorem lastSeenOf_emplace_self (tr : ConnectionTracker) (t : FiveTuple) (now : Time) :
    (tr.emplace t now).lastSeenOf (canonicalTuple t) = now := by
  simp [lastSeenOf, emplace]

theorem lastSeenOf_emplace_ne (tr : ConnectionTracker) {t key : FiveTuple} (now : Time)
    (h : key ≠ canonicalTuple t) : (tr.emplace t now).lastSeenOf key = tr.lastSeenOf key := by
  simp [lastSeenOf, emplace, Finmap.lookup_insert_of_ne _ h]

/-- An entry in the scanned table other than the new one was there before. -/
theorem lookup_of_mem_order {tr : ConnectionTracker} {now : Time} {order : List FiveTuple}
    {t key : FiveTuple} (horder : Table.IsOrder (tr.emplace t now).connections order)
    (hmem : key ∈ order) (hkey : key ≠ canonicalTuple t) :
    ∃ c, tr.connections.lookup key = some c ∧
      (tr.emplace t now).lastSeenOf key = c.lastSeen := by
  obtain ⟨c, hc⟩ := Finmap.mem_iff.1 ((horder.mem_iff key).1 hmem)
  have hold : tr.connections.lookup key = some c := by
    rwa [emplace, Finmap.lookup_insert_of_ne _ hkey] at hc
  refine ⟨c, hold, ?_⟩
  rw [lastSeenOf_emplace_ne tr now hkey, lastSeenOf, hold]
  rfl

/-- The scan picks the new entry iff no entry is older and the new one comes first. -/
theorem argmin_emplace_eq_iff {tr : ConnectionTracker} {now : Time} {order : List FiveTuple}
    {t : FiveTuple} (htimely : tr.Timely now)
    (horder : Table.IsOrder (tr.emplace t now).connections order) :
    order.argmin (tr.emplace t now).lastSeenOf = some (canonicalTuple t) ↔
      (∀ key c, key ≠ canonicalTuple t → tr.connections.lookup key = some c → now ≤ c.lastSeen) ∧
        order.head? = some (canonicalTuple t) := by
  rw [List.argmin_eq_some_iff, lastSeenOf_emplace_self]
  constructor
  · rintro ⟨hmem, hmin, hfirst⟩
    refine ⟨fun key c hkey hc => ?_, ?_⟩
    · have hkmem : key ∈ order := by
        rw [horder.mem_iff, emplace, Finmap.mem_insert, Finmap.mem_iff]
        exact Or.inr ⟨c, hc⟩
      obtain ⟨c', hc', hseen⟩ := lookup_of_mem_order horder hkmem hkey
      rw [hc] at hc'
      cases hc'
      exact hseen ▸ hmin key hkmem
    · cases order with
      | nil => cases hmem
      | cons a rest =>
        by_cases ha : a = canonicalTuple t
        · rw [ha]
          rfl
        · obtain ⟨c, hc, hseen⟩ := lookup_of_mem_order horder List.mem_cons_self ha
          have := hfirst a List.mem_cons_self (hseen ▸ htimely a c hc)
          rw [List.idxOf_cons_self, List.idxOf_cons_ne _ ha] at this
          omega
  · rintro ⟨hall, hhead⟩
    cases order with
    | nil => cases hhead
    | cons a rest =>
      obtain rfl : a = canonicalTuple t := Option.some.inj hhead
      refine ⟨List.mem_cons_self, fun key hkmem => ?_, fun key _ _ => ?_⟩
      · by_cases hkey : key = canonicalTuple t
        · rw [hkey, lastSeenOf_emplace_self]
        · obtain ⟨c, hc, hseen⟩ := lookup_of_mem_order horder hkmem hkey
          exact hseen ▸ hall key c hkey hc
      · rw [List.idxOf_cons_self]
        exact Nat.zero_le _

/-- The table holds an entry for the tuple, and the returned pointer denotes it. -/
def ReturnsLive (r : ConnectionTracker × FiveTuple) (t : FiveTuple) : Prop :=
  ∃ c, r.1.connections.lookup (canonicalTuple t) = some c ∧ r.1.load r.2 = .ok c

theorem returnsLive_iff (tr : ConnectionTracker) (now : Time) (order : List FiveTuple)
    (t : FiveTuple) : ReturnsLive (tr.getOrCreateConnection now order t) t ↔
      canonicalTuple t ∈ (tr.getOrCreateConnection now order t).1.connections := by
  rw [ReturnsLive, getOrCreateConnection_ptr, Finmap.mem_iff]
  exact exists_congr fun c => by rw [load_eq_ok_iff, and_self]

/-- The new entry is evicted when the scan picks it. -/
theorem mem_evictOldest_emplace_iff (tr : ConnectionTracker) (now : Time) (order : List FiveTuple)
    (t : FiveTuple) :
    canonicalTuple t ∈ ((tr.emplace t now).evictOldest order).connections ↔
      order.argmin (tr.emplace t now).lastSeenOf ≠ some (canonicalTuple t) := by
  have hnew : canonicalTuple t ∈ (tr.emplace t now).connections := Table.mem_insert_self _ _ _
  unfold evictOldest
  cases order.argmin (tr.emplace t now).lastSeenOf with
  | none => exact iff_of_true hnew nofun
  | some oldest =>
    rw [Finmap.mem_erase, and_iff_left hnew]
    simp [eq_comm]

/-- In every reachable state, under a clock that does not go back and for every order in which the
table may be iterated, the returned entry is live unless it is new, the table is over its capacity,
no entry is older and the new one is met first. -/
theorem getOrCreateConnection_live_iff {s : ClockedTracker} (hreach : Reachable Initial Step s)
    {now : Time} (hclock : s.clock ≤ now) (t : FiveTuple) (order : List FiveTuple)
    (horder : canonicalTuple t ∉ s.tracker.connections →
      Table.IsOrder (s.tracker.emplace t now).connections order) :
    ReturnsLive (s.tracker.getOrCreateConnection now order t) t ↔
      canonicalTuple t ∈ s.tracker.connections ∨
      Table.size s.tracker.connections < s.tracker.maxConnections ∨
      (∃ key c, key ≠ canonicalTuple t ∧ s.tracker.connections.lookup key = some c ∧
        c.lastSeen < now) ∨
      order.head? ≠ some (canonicalTuple t) := by
  have htimely := (timely_of_reachable hreach).mono hclock
  have hnew : canonicalTuple t ∈ (s.tracker.emplace t now).connections :=
    Table.mem_insert_self _ _ _
  rw [returnsLive_iff]
  rcases getOrCreateConnection_cases s.tracker now order t with
    ⟨hk, h⟩ | ⟨hk, hroom, h⟩ | ⟨hk, hfull, h⟩
  · rw [h]
    exact iff_of_true hk (Or.inl hk)
  · rw [h]
    exact iff_of_true hnew (Or.inr (Or.inl hroom))
  · have hiff := argmin_emplace_eq_iff htimely (horder hk)
    rw [h, mem_evictOldest_emplace_iff, ne_eq, hiff, not_and_or]
    simp only [hk, Nat.not_lt.2 hfull, false_or, not_forall, not_le, exists_prop]

/-- A tracker of capacity one that holds one connection. -/
def fullTracker : ClockedTracker where
  tracker := emplace { maxConnections := 1 } ⟨1, 2, 1, 2, 6⟩ 0
  clock := 0

theorem reachable_fullTracker : Reachable Initial Step fullTracker := by
  have hstart : Reachable Initial Step ⟨{ maxConnections := 1 }, 0⟩ := .start ⟨1, rfl⟩
  have hcall : Step ⟨{ maxConnections := 1 }, 0⟩ (0, .getOrCreate [] ⟨1, 2, 1, 2, 6⟩)
      fullTracker := ⟨le_rfl, by decide +kernel, rfl⟩
  exact hstart.step hcall

/-- A second connection within the same tick of the clock: the table is iterated from the new
entry on, and the new entry is the one that is evicted. -/
theorem new_entry_evicted :
    Reachable Initial Step fullTracker ∧
      Table.IsOrder (fullTracker.tracker.emplace ⟨3, 4, 1, 2, 6⟩ 0).connections
        [⟨3, 4, 1, 2, 6⟩, ⟨1, 2, 1, 2, 6⟩] ∧
      ¬ ReturnsLive (fullTracker.tracker.getOrCreateConnection 0
        [⟨3, 4, 1, 2, 6⟩, ⟨1, 2, 1, 2, 6⟩] ⟨3, 4, 1, 2, 6⟩) ⟨3, 4, 1, 2, 6⟩ := by
  refine ⟨reachable_fullTracker, by decide +kernel, ?_⟩
  rw [returnsLive_iff]
  decide +kernel

/-- One tick later the older entry is the one that is evicted. -/
theorem getOrCreateConnection_live_iff_later :
    ReturnsLive (fullTracker.tracker.getOrCreateConnection 1
      [⟨3, 4, 1, 2, 6⟩, ⟨1, 2, 1, 2, 6⟩] ⟨3, 4, 1, 2, 6⟩) ⟨3, 4, 1, 2, 6⟩ := by
  refine (getOrCreateConnection_live_iff reachable_fullTracker (Nat.zero_le 1) ⟨3, 4, 1, 2, 6⟩ _
    (fun _ => by decide +kernel)).2 (Or.inr (Or.inr (Or.inl ?_)))
  exact ⟨⟨1, 2, 1, 2, 6⟩, { tuple := ⟨1, 2, 1, 2, 6⟩, firstSeen := 0, lastSeen := 0 },
    by decide, by decide +kernel, by decide⟩

end ConnectionTracker

end DPI
