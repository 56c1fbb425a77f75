import DpiEngine.LoadBalancer
import DpiEngine.TableInvariant

/-!
# Identity of connections

Two packets belong to one connection iff their tuples are equal or reverses of each other.  The
keys of the table, the hash and the two stages of routing all agree on this.
-/

namespace DPI

theorem fiveTupleHash_eq {t u : FiveTuple} (h : canonicalTuple t = canonicalTuple u) :
    fiveTupleHash t = fiveTupleHash u := by
  rw [← fiveTupleHash_canonicalTuple t, h, fiveTupleHash_canonicalTuple]

@[simp] theorem fiveTupleHash_reverse (t : FiveTuple) :
    fiveTupleHash t.reverse = fiveTupleHash t := fiveTupleHash_eq (canonicalTuple_reverse t)

namespace ConnectionTracker

/-! ## Entries found -/

theorem getConnection_eq_some_iff {tr : ConnectionTracker} {t p : FiveTuple} :
    tr.getConnection t = some p ↔ p ∈ tr.connections ∧ canonicalTuple t = p := by
  unfold getConnection
  dsimp only
  split_ifs with hmem
  · rw [Option.some.injEq]
    exact ⟨fun h => ⟨h ▸ hmem, h⟩, And.right⟩
  · exact iff_of_false nofun fun h => hmem (h.2 ▸ h.1)

theorem getConnection_reverse (tr : ConnectionTracker) (t : FiveTuple) :
    tr.getConnection t.reverse = tr.getConnection t := by
  unfold getConnection
  rw [canonicalTuple_reverse]

/-- In every reachable state an entry is under the key of its tuple. -/
theorem entriesIntact_of_reachable {s : ClockedTracker} (h : Reachable Initial Step s) :
    s.tracker.EntriesIntact s.clock := by
  refine h.invariant (fun s => s.tracker.EntriesIntact s.clock) ?_ ?_
  · rintro s ⟨n, hn⟩ key c hc
    rw [hn] at hc
    simp at hc
  · rintro s l s' ⟨hclock, hop, hnow⟩ hs
    rw [hnow]
    exact hs.apply hclock hop

/-- An entry under the key of a tuple is found by the tuple, and by its reverse. -/
theorem getConnection_of_stored {tr : ConnectionTracker} {t : FiveTuple} {c : Connection}
    (h : tr.connections.lookup (canonicalTuple t) = some c) :
    tr.getConnection t = some (canonicalTuple t) ∧
      tr.getConnection t.reverse = some (canonicalTuple t) := by
  have hfound := getConnection_eq_some_iff.2 ⟨Finmap.mem_iff.2 ⟨c, h⟩, rfl⟩
  exact ⟨hfound, (getConnection_reverse tr t).trans hfound⟩

/-- A tuple finds exactly the entry of its own connection. -/
theorem EntriesIntact.getConnection_iff {tr : ConnectionTracker} {now : Time}
    (h : tr.EntriesIntact now) {t p : FiveTuple} :
    tr.getConnection t = some p ↔
      ∃ c, tr.connections.lookup p = some c ∧ (t = c.tuple ∨ t = c.tuple.reverse) := by
  rw [getConnection_eq_some_iff]
  constructor
  · rintro ⟨hmem, hkey⟩
    obtain ⟨c, hc⟩ := Finmap.mem_iff.1 hmem
    have htuple : canonicalTuple c.tuple = canonicalTuple t := by
      rw [hkey]
      exact (h p c hc).key_eq.symm
    exact ⟨c, hc, (canonicalTuple_eq_iff c.tuple t).1 htuple⟩
  · rintro ⟨c, hc, htuple⟩
    refine ⟨Finmap.mem_iff.2 ⟨c, hc⟩, ?_⟩
    rw [(h p c hc).key_eq]
    exact ((canonicalTuple_eq_iff c.tuple t).2 htuple).symm

/-- Two tuples that find the same entry are of one connection. -/
theorem eq_or_reverse_of_getConnection {tr : ConnectionTracker} {t u p : FiveTuple}
    (ht : tr.getConnection t = some p) (hu : tr.getConnection u = some p) :
    u = t ∨ u = t.reverse := by
  have htp := (getConnection_eq_some_iff.1 ht).2
  have hup := (getConnection_eq_some_iff.1 hu).2
  exact (canonicalTuple_eq_iff t u).1 (htp.trans hup.symm)

/-- Two tuples have the same key iff they are equal or reverses of each other, and then the same
hash.  In every reachable state of the tracker an entry that is stored is found by the two
directions of its connection and by no other tuple, and any number of load balancers and fast paths
routes the two directions alike. -/
theorem connection_identity (t : FiveTuple) :
    (∀ u, canonicalTuple t = canonicalTuple u ↔ u = t ∨ u = t.reverse) ∧
      (∀ u, canonicalTuple t = canonicalTuple u → fiveTupleHash t = fiveTupleHash u) ∧
      (∀ s, Reachable Initial Step s →
        s.tracker.getConnection t.reverse = s.tracker.getConnection t ∧
          (∀ c, s.tracker.connections.lookup (canonicalTuple t) = some c →
            s.tracker.getConnection t = some (canonicalTuple t) ∧
              s.tracker.getConnection t.reverse = some (canonicalTuple t)) ∧
          ∀ p,
            (s.tracker.getConnection t = some p ↔
              ∃ c, s.tracker.connections.lookup p = some c ∧
                (t = c.tuple ∨ t = c.tuple.reverse)) ∧
            (s.tracker.getConnection t = some p →
              ∀ u, s.tracker.getConnection u = some p → u = t ∨ u = t.reverse)) ∧
      ∀ numLbs fpsPerLb : ℕ, 1 ≤ numLbs → 1 ≤ fpsPerLb →
        getLBForPacket numLbs t < numLbs ∧ selectFP fpsPerLb t < fpsPerLb ∧
          getLBForPacket numLbs t.reverse = getLBForPacket numLbs t ∧
          selectFP fpsPerLb t.reverse = selectFP fpsPerLb t ∧
          worker numLbs fpsPerLb t.reverse = worker numLbs fpsPerLb t := by
  refine ⟨canonicalTuple_eq_iff t, fun u => fiveTupleHash_eq, fun s hs => ?_, ?_⟩
  · refine ⟨getConnection_reverse s.tracker t, fun c => getConnection_of_stored, fun p => ?_⟩
    exact ⟨(entriesIntact_of_reachable hs).getConnection_iff,
      fun hp u hu => eq_or_reverse_of_getConnection hp hu⟩
  · intro numLbs fpsPerLb hl hf
    have hworker : worker numLbs fpsPerLb t.reverse = worker numLbs fpsPerLb t := by
      rw [← worker_canonicalTuple, canonicalTuple_reverse, worker_canonicalTuple]
    exact ⟨Nat.mod_lt _ hl, Nat.mod_lt _ hf, by simp [getLBForPacket], by simp [selectFP], hworker⟩

/-- A tracker that holds two connections of one client. -/
def twoConnections : ConnectionTracker :=
  emplace (emplace { maxConnections := 5 } ⟨2, 9, 40000, 80, 6⟩ 0) ⟨2, 9, 40001, 80, 6⟩ 1

/-- Each direction of the first connection finds it. -/
theorem connection_identity_answers :
    ∃ s, Reachable Initial Step s ∧ Table.size s.tracker.connections = 2 ∧
      s.tracker.getConnection ⟨9, 2, 80, 40000, 6⟩ = some ⟨2, 9, 40000, 80, 6⟩ ∧
      s.tracker.getConnection (⟨9, 2, 80, 40000, 6⟩ : FiveTuple).reverse =
        some ⟨2, 9, 40000, 80, 6⟩ := by
  have hstart : Reachable Initial Step ⟨{ maxConnections := 5 }, 0⟩ := .start ⟨5, rfl⟩
  have hfirst : Step ⟨{ maxConnections := 5 }, 0⟩ (0, .getOrCreate [] ⟨2, 9, 40000, 80, 6⟩)
      ⟨emplace { maxConnections := 5 } ⟨2, 9, 40000, 80, 6⟩ 0, 0⟩ :=
    ⟨le_rfl, by decide +kernel, rfl⟩
  have hsecond : Step ⟨emplace { maxConnections := 5 } ⟨2, 9, 40000, 80, 6⟩ 0, 0⟩
      (1, .getOrCreate [] ⟨2, 9, 40001, 80, 6⟩) ⟨twoConnections, 1⟩ :=
    ⟨by decide, by decide +kernel, rfl⟩
  have hreach := (hstart.step hfirst).step hsecond
  have hstored : twoConnections.connections.lookup (canonicalTuple ⟨9, 2, 80, 40000, 6⟩) =
      some (newConnection ⟨2, 9, 40000, 80, 6⟩ 0) := by decide +kernel
  obtain ⟨-, hfound, -⟩ := (connection_identity ⟨9, 2, 80, 40000, 6⟩).2.2.1 _ hreach
  exact ⟨_, hreach, by decide +kernel, (hfound _ hstored).1, (hfound _ hstored).2⟩

end ConnectionTracker

end DPI
