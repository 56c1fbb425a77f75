import DpiEngine.TableInvariant

/-!
# Least recently seen

What an eviction removes: one entry, last seen no later than any other.  The times of the packets
of an entry are read off the run that led to the table.
-/

namespace DPI

namespace ConnectionTracker

/-! ## One eviction -/

section Eviction

variable {tr : ConnectionTracker} {now : Time} {order : List FiveTuple} {t : FiveTuple}

theorem lastSeenOf_of_lookup {key : FiveTuple} {c : Connection}
    (h : tr.connections.lookup key = some c) : tr.lastSeenOf key = c.lastSeen := by
  rw [lastSeenOf, h]
  rfl

/-- A scan of a table with entries removes one that is last seen no later than any other. -/
theorem evictOldest_eq (horder : Table.IsOrder tr.connections order)
    (hpos : ∃ key, key ∈ tr.connections) :
    ∃ oldest c, tr.connections.lookup oldest = some c ∧
      (tr.evictOldest order).connections = tr.connections.erase oldest ∧
      ∀ key c', tr.connections.lookup key = some c' → c.lastSeen ≤ c'.lastSeen := by
  rcases harg : order.argmin tr.lastSeenOf with _ | oldest
  · obtain ⟨key, hkey⟩ := hpos
    rw [List.argmin_eq_none] at harg
    rw [← horder.mem_iff, harg] at hkey
    cases hkey
  · have hmem := (horder.mem_iff oldest).1 (List.argmin_mem harg)
    obtain ⟨c, hc⟩ := Finmap.mem_iff.1 hmem
    refine ⟨oldest, c, hc, by rw [evictOldest, harg], fun key c' hc' => ?_⟩
    have hkey : key ∈ order := (horder.mem_iff key).2 (Finmap.mem_iff.2 ⟨c', hc'⟩)
    have hle := List.le_of_mem_argmin hkey harg
    rwa [lastSeenOf_of_lookup hc, lastSeenOf_of_lookup hc'] at hle

/-- At capacity, a new connection takes the place of one entry of the table with it in. -/
theorem getOrCreateConnection_full (hfull : tr.maxConnections ≤ Table.size tr.connections)
    (hnew : canonicalTuple t ∉ tr.connections) :
    (tr.getOrCreateConnection now order t).1 = (tr.emplace t now).evictOldest order := by
  rcases getOrCreateConnection_cases tr now order t with ⟨hmem, -⟩ | ⟨-, hroom, -⟩ | ⟨-, -, h⟩
  · exact absurd hmem hnew
  · omega
  · exact h

end Eviction

/-! ## Packets of an entry -/

/-- The time of a call at which a packet of the entry under `key` is recorded: the packet creates
the entry, or `updateConnection` counts it. -/
def packetTime (key : FiveTuple) (s : Taken ClockedTracker (Time × TrackerOp)) : List Time :=
  match s.label.2 with
  | .getOrCreate _ _ => if key ∈ s.pre.tracker.connections then [] else [s.label.1]
  | .update conn _ _ => if conn = key then [s.label.1] else []
  | _ => []

/-- The times of the packets of the entry, after one more call; an entry that is removed leaves
none behind. -/
def addPacketTime (key : FiveTuple) (times : List Time)
    (s : Taken ClockedTracker (Time × TrackerOp)) : List Time :=
  if key ∈ s.post.tracker.connections then times ++ packetTime key s else []

/-- The times of the packets of the entry under `key` since it was created. -/
def packetTimes (key : FiveTuple) (ts : List (Taken ClockedTracker (Time × TrackerOp))) :
    List Time := ts.foldl (addPacketTime key) []

section LastSeen

variable {tr tr' : ConnectionTracker} {key : FiveTuple} {c' : Connection}

/-- The entry was there, with the same time. -/
def SeenBefore (tr : ConnectionTracker) (key : FiveTuple) (c' : Connection) : Prop :=
  ∃ c, tr.connections.lookup key = some c ∧ c'.lastSeen = c.lastSeen

/-- A write through a pointer that leaves the time alone. -/
theorem seenBefore_store {conn : FiveTuple} {c written : Connection}
    (hc : tr.connections.lookup conn = some c)
    (h : (tr.store conn written).connections.lookup key = some c')
    (hwritten : written.lastSeen = c.lastSeen) : SeenBefore tr key c' := by
  rw [lookup_store] at h
  split_ifs at h with hkey
  · cases h
    exact ⟨c, by rw [hkey, hc], hwritten⟩
  · exact ⟨c', h, rfl⟩

theorem lastSeen_getOrCreate {now : Time} {order : List FiveTuple} {t : FiveTuple}
    (h : (tr.getOrCreateConnection now order t).1.connections.lookup key = some c') :
    if key ∈ tr.connections then SeenBefore tr key c' else c'.lastSeen = now := by
  have hfound := (lookup_getOrCreateConnection_cases tr now order t key).resolve_left
    (by rw [h]; exact nofun)
  rw [h] at hfound
  split_ifs with hmem
  · obtain ⟨c, hc⟩ := Finmap.mem_iff.1 hmem
    refine ⟨c, hc, ?_⟩
    rw [hc] at hfound
    split_ifs at hfound <;> cases hfound <;> rfl
  · rw [Finmap.lookup_eq_none.2 hmem] at hfound
    split_ifs at hfound
    cases hfound
    rfl

/-- A call that records a packet of an entry sets the time at which it was last seen, and no other
call that keeps the entry changes it. -/
theorem lastSeen_apply {s s' : ClockedTracker} {now : Time} {op : TrackerOp}
    (hop : s.tracker.apply now op = some s'.tracker)
    (h : s'.tracker.connections.lookup key = some c') :
    (packetTime key ⟨s, (now, op), s'⟩ = [now] ∧ c'.lastSeen = now) ∨
      (packetTime key ⟨s, (now, op), s'⟩ = [] ∧ SeenBefore s.tracker key c') := by
  generalize s'.tracker = tr' at hop h
  cases op with
  | getOrCreate order tuple =>
    cases hop
    have hseen := lastSeen_getOrCreate h
    split_ifs at hseen with hmem
    · exact Or.inr ⟨if_pos hmem, hseen⟩
    · exact Or.inl ⟨if_neg hmem, hseen⟩
  | update conn packetSize isOutbound =>
    obtain ⟨c, hc, hop⟩ := Option.bind_eq_some_iff.1 hop
    cases hop
    rw [lookup_store] at h
    split_ifs at h with hkey
    · cases h
      refine Or.inl ⟨if_pos hkey.symm, ?_⟩
      cases isOutbound <;> rfl
    · exact Or.inr ⟨if_neg (Ne.symm hkey), c', h, rfl⟩
  | tcp conn flags =>
    obtain ⟨c, hc, hop⟩ := Option.bind_eq_some_iff.1 hop
    cases hop
    exact Or.inr ⟨rfl, seenBefore_store hc h (updateTCPState_frame c flags).2.2⟩
  | classify conn app sni =>
    obtain ⟨c, hc, hop⟩ := Option.bind_eq_some_iff.1 hop
    obtain rfl := Option.some.inj hop
    obtain ⟨hconn, -, -, hlast⟩ := classifyConnection_frame s.tracker c app sni
    have hseen := seenBefore_store (by rwa [hconn]) h hlast
    rw [SeenBefore, hconn] at hseen
    exact Or.inr ⟨rfl, hseen⟩
  | block conn =>
    obtain ⟨c, hc, hop⟩ := Option.bind_eq_some_iff.1 hop
    cases hop
    exact Or.inr ⟨rfl, seenBefore_store hc h rfl⟩
  | close tuple =>
    cases hop
    unfold closeConnection at h
    dsimp only at h
    split at h
    · rename_i c hc
      exact Or.inr ⟨rfl, seenBefore_store hc h rfl⟩
    · exact Or.inr ⟨rfl, c', h, rfl⟩
  | cleanup timeout =>
    cases hop
    have hkept := (lookup_cleanupStale s.tracker now timeout key).resolve_right
      (by rw [h]; exact nofun)
    exact Or.inr ⟨rfl, c', by rw [← hkept, h], rfl⟩
  | clear =>
    cases hop
    simp [clear] at h

end LastSeen

/-! ## Runs -/

/-- The last packet of an entry is the latest one, and the entry holds its time. -/
structure Recorded (key : FiveTuple) (times : List Time) (s : ClockedTracker) : Prop where
  past : ∀ time ∈ times, time ≤ s.clock
  latest : ∀ c, s.tracker.connections.lookup key = some c →
    IsGreatest {time | time ∈ times} c.lastSeen

theorem Recorded.step {key : FiveTuple} {times : List Time} {s s' : ClockedTracker}
    {l : Time × TrackerOp} (h : Recorded key times s) (hstep : Step s l s') :
    Recorded key (addPacketTime key times ⟨s, l, s'⟩) s' := by
  obtain ⟨hclock, hop, hnow⟩ := hstep
  have hpast (time : Time) (ht : time ∈ times) : time ≤ l.1 := (h.past time ht).trans hclock
  unfold addPacketTime
  split_ifs with hmem
  · obtain ⟨c', hc'⟩ := Finmap.mem_iff.1 hmem
    rcases lastSeen_apply hop hc' with ⟨htime, hseen⟩ | ⟨htime, c, hc, hseen⟩
    · rw [htime]
      have hle : ∀ time ∈ times ++ [l.1], time ≤ l.1 := by
        simpa [or_imp, forall_and] using hpast
      refine ⟨hnow ▸ hle, fun c hc => ?_⟩
      obtain rfl := Option.some.inj (hc'.symm.trans hc)
      rw [hseen]
      exact ⟨by simp, hle⟩
    · rw [htime, List.append_nil]
      refine ⟨hnow ▸ hpast, fun c₁ hc₁ => ?_⟩
      obtain rfl := Option.some.inj (hc'.symm.trans hc₁)
      exact hseen ▸ h.latest c hc
  · refine ⟨nofun, fun c hc => ?_⟩
    exact absurd (Finmap.mem_iff.2 ⟨c, hc⟩) hmem

theorem Recorded.run {key : FiveTuple} {times : List Time} {s s' : ClockedTracker}
    {ts : List (Taken ClockedTracker (Time × TrackerOp))} (hrun : Run Step s ts s')
    (h : Recorded key times s) : Recorded key (ts.foldl (addPacketTime key) times) s' := by
  induction hrun generalizing times with
  | nil s => exact h
  | cons hstep _ ih => exact ih (h.step hstep)

/-- In every run the time at which an entry was last seen is that of its latest packet. -/
theorem recorded_packetTimes {s₀ s : ClockedTracker}
    {ts : List (Taken ClockedTracker (Time × TrackerOp))} (h₀ : Initial s₀)
    (hrun : Run Step s₀ ts s) (key : FiveTuple) : Recorded key (packetTimes key ts) s := by
  obtain ⟨n, hn⟩ := h₀
  refine Recorded.run hrun ⟨nofun, fun c hc => ?_⟩
  rw [hn] at hc
  simp at hc

/-- The times of the packets of each entry of the table that the eviction scans: the new entry has
one packet. -/
def scannedTimes (ts : List (Taken ClockedTracker (Time × TrackerOp))) (now : Time) (t : FiveTuple)
    (key : FiveTuple) : List Time :=
  if key = canonicalTuple t then [now] else packetTimes key ts

theorem isGreatest_scannedTimes {s₀ s : ClockedTracker}
    {ts : List (Taken ClockedTracker (Time × TrackerOp))} (h₀ : Initial s₀)
    (hrun : Run Step s₀ ts s) {now : Time} {t key : FiveTuple} {c : Connection}
    (hc : (s.tracker.emplace t now).connections.lookup key = some c) :
    IsGreatest {time | time ∈ scannedTimes ts now t key} c.lastSeen := by
  rw [lookup_emplace] at hc
  unfold scannedTimes
  split_ifs at hc ⊢ with hkey
  · cases hc
    simp [newConnection]
  · exact (recorded_packetTimes h₀ hrun key).latest c hc

/-- At capacity a new connection leaves the old table with the new entry and without exactly one
entry, whatever order the table is iterated in: one that is last seen no later than any other.  If
calls under a clock that does not go back led to the table, the latest packet of the entry that is
gone is no newer than the latest packet of any entry that stays. -/
theorem evicts_least_recent {tr : ConnectionTracker} {now : Time} {order : List FiveTuple}
    {t : FiveTuple} (hfull : tr.maxConnections ≤ Table.size tr.connections)
    (hnew : canonicalTuple t ∉ tr.connections)
    (horder : Table.IsOrder (tr.emplace t now).connections order) :
    ∃ oldest c,
      let before := tr.connections.insert (canonicalTuple t) (newConnection t now)
      let after := (tr.getOrCreateConnection now order t).1.connections
      before.lookup oldest = some c ∧ after = before.erase oldest ∧
        Table.size after = Table.size tr.connections ∧
        (∀ key c', before.lookup key = some c' → c.lastSeen ≤ c'.lastSeen) ∧
        (∀ key ≠ oldest, after.lookup key = before.lookup key) ∧
        ∀ s₀ s ts, Initial s₀ → Run Step s₀ ts s → s.tracker = tr →
          ∀ key ∈ after, ∃ gone stays,
            IsGreatest {time | time ∈ scannedTimes ts now t oldest} gone ∧
              IsGreatest {time | time ∈ scannedTimes ts now t key} stays ∧ gone ≤ stays := by
  have hpos : ∃ key, key ∈ (tr.emplace t now).connections :=
    ⟨canonicalTuple t, Table.mem_insert_self _ _ _⟩
  obtain ⟨oldest, c, hc, hafter, hmin⟩ := evictOldest_eq horder hpos
  have hsize : Table.size (tr.emplace t now).connections = Table.size tr.connections + 1 :=
    Table.size_insert_of_notMem hnew _
  have hevict := size_evictOldest horder (by rw [hsize]; exact Nat.succ_pos _)
  rw [getOrCreateConnection_full hfull hnew]
  refine ⟨oldest, c, hc, hafter, by omega, hmin, fun key hkey => ?_, ?_⟩
  · rw [hafter]
    exact Finmap.lookup_erase_ne hkey
  · rintro s₀ s ts h₀ hrun rfl key hkey
    rw [hafter] at hkey
    obtain ⟨c', hc'⟩ := Finmap.mem_iff.1 (Finmap.mem_erase.1 hkey).2
    exact ⟨c.lastSeen, c'.lastSeen, isGreatest_scannedTimes h₀ hrun hc,
      isGreatest_scannedTimes h₀ hrun hc', hmin key c' hc'⟩

/-- A tracker of capacity one: the older of two connections is removed. -/
theorem evicts_least_recent_full :
    ∃ oldest c,
      (fullTracker.tracker.connections.insert ⟨3, 4, 1, 2, 6⟩
        (newConnection ⟨3, 4, 1, 2, 6⟩ 1)).lookup oldest = some c ∧
      (fullTracker.tracker.getOrCreateConnection 1 [⟨3, 4, 1, 2, 6⟩, ⟨1, 2, 1, 2, 6⟩]
        ⟨3, 4, 1, 2, 6⟩).1.connections =
        (fullTracker.tracker.connections.insert ⟨3, 4, 1, 2, 6⟩
          (newConnection ⟨3, 4, 1, 2, 6⟩ 1)).erase oldest := by
  have hfull : fullTracker.tracker.maxConnections ≤ Table.size fullTracker.tracker.connections := by
    decide +kernel
  have hnew : canonicalTuple ⟨3, 4, 1, 2, 6⟩ ∉ fullTracker.tracker.connections := by
    decide +kernel
  have horder : Table.IsOrder (fullTracker.tracker.emplace ⟨3, 4, 1, 2, 6⟩ 1).connections
      [⟨3, 4, 1, 2, 6⟩, ⟨1, 2, 1, 2, 6⟩] := by decide +kernel
  obtain ⟨oldest, c, hc, hafter, -⟩ := evicts_least_recent hfull hnew horder
  exact ⟨oldest, c, hc, hafter⟩

end ConnectionTracker

end DPI
