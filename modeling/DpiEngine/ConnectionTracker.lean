import DpiEngine.Lib.Table
import DpiEngine.Lib.Run
import DpiEngine.Types

/-!
# Connection tracker

`ConnectionTracker` of `connection_tracker.cpp`.  A `Connection*` is the key of the entry it points
into; it dangles once the table has no entry under that key.  The methods that take a
`Connection*` are given the entry itself, which their caller loads and stores.  Clock readings and
the order in which the table is iterated are arguments.
-/

namespace DPI

open Bytes

/-! ## Canonical tuples -/

/-- The key of a flow: its tuple or the reverse of it, whichever has its endpoints in order. -/
def canonicalTuple (t : FiveTuple) : FiveTuple := if t.Descending then t.reverse else t

theorem descending_iff (t : FiveTuple) :
    t.Descending ↔ t.dstIp.toNat < t.srcIp.toNat ∨
      t.srcIp.toNat = t.dstIp.toNat ∧ t.dstPort.toNat < t.srcPort.toNat := by
  unfold FiveTuple.Descending
  rw [UInt32.lt_iff_toNat_lt, UInt16.lt_iff_toNat_lt, UInt32.toNat_inj]

theorem not_descending_reverse {t : FiveTuple} (h : t.Descending) : ¬ t.reverse.Descending := by
  rw [descending_iff] at *
  simp only [FiveTuple.reverse]
  omega

/-- A tuple neither direction of which is descending joins an endpoint to itself. -/
theorem reverse_eq_self {t : FiveTuple} (h : ¬ t.Descending) (h' : ¬ t.reverse.Descending) :
    t.reverse = t := by
  rw [descending_iff] at h h'
  rcases t with ⟨a, b, p, q, proto⟩
  simp only [FiveTuple.reverse] at h h' ⊢
  have hab : a = b := UInt32.toNat_inj.1 (by omega)
  have hpq : p = q := UInt16.toNat_inj.1 (by omega)
  rw [hab, hpq]

@[simp] theorem canonicalTuple_reverse (t : FiveTuple) :
    canonicalTuple t.reverse = canonicalTuple t := by
  unfold canonicalTuple
  by_cases h : t.Descending
  · rw [if_pos h, if_neg (not_descending_reverse h)]
  · by_cases h' : t.reverse.Descending
    · rw [if_neg h, if_pos h', FiveTuple.reverse_reverse]
    · rw [if_neg h, if_neg h', reverse_eq_self h h']

theorem canonicalTuple_eq_or (t : FiveTuple) :
    canonicalTuple t = t ∨ canonicalTuple t = t.reverse := by
  unfold canonicalTuple
  split_ifs <;> simp

/-- Two packets belong to one connection iff their tuples are equal or reverses of each other. -/
theorem canonicalTuple_eq_iff (t u : FiveTuple) :
    canonicalTuple t = canonicalTuple u ↔ u = t ∨ u = t.reverse := by
  constructor
  · intro h
    rcases canonicalTuple_eq_or t with ht | ht <;> rcases canonicalTuple_eq_or u with hu | hu <;>
      rw [ht, hu] at h
    · exact Or.inl h.symm
    · exact Or.inr (by rw [h, FiveTuple.reverse_reverse])
    · exact Or.inr h.symm
    · exact Or.inl (by simpa using congrArg FiveTuple.reverse h.symm)
  · rintro (rfl | rfl) <;> simp

/-! ## The tracker -/

structure ConnectionTracker where
  maxConnections : ℕ := 100000
  connections : Table FiveTuple Connection := ∅
  totalSeen : UInt64 := 0
  classifiedCount : UInt64 := 0
  blockedCount : UInt64 := 0
  deriving DecidableEq

namespace ConnectionTracker

/-- The time an entry of the table was last seen. -/
def lastSeenOf (tr : ConnectionTracker) (key : FiveTuple) : Time :=
  ((tr.connections.lookup key).map Connection.lastSeen).getD 0

/-- `evictOldest`: the scan keeps the first entry, in iteration order, that no other entry
precedes in time. -/
def evictOldest (tr : ConnectionTracker) (order : List FiveTuple) : ConnectionTracker :=
  match order.argmin tr.lastSeenOf with
  | none => tr
  | some oldest => { tr with connections := tr.connections.erase oldest }

/-- The table after `try_emplace` of a new entry. -/
def emplace (tr : ConnectionTracker) (tuple : FiveTuple) (now : Time) : ConnectionTracker :=
  { tr with
    connections := tr.connections.insert (canonicalTuple tuple)
      { tuple := tuple, state := .new, firstSeen := now, lastSeen := now }
    totalSeen := tr.totalSeen + 1 }

/-- Returns the tracker and the pointer to the entry. -/
def getOrCreateConnection (tr : ConnectionTracker) (now : Time) (order : List FiveTuple)
    (tuple : FiveTuple) : ConnectionTracker × FiveTuple :=
  let key := canonicalTuple tuple
  if key ∈ tr.connections then (tr, key)
  else
    let tr := tr.emplace tuple now
    if Table.size tr.connections > tr.maxConnections then (tr.evictOldest order, key)
    else (tr, key)

section

variable (tr : ConnectionTracker) (now : Time) (order : List FiveTuple) (t : FiveTuple)

@[simp] theorem getOrCreateConnection_ptr :
    (tr.getOrCreateConnection now order t).2 = canonicalTuple t := by
  unfold getOrCreateConnection
  dsimp only
  split_ifs <;> rfl

/-- An entry is found, created, or created and followed by an eviction. -/
theorem getOrCreateConnection_cases :
    (canonicalTuple t ∈ tr.connections ∧ (tr.getOrCreateConnection now order t).1 = tr) ∨
    (canonicalTuple t ∉ tr.connections ∧ Table.size tr.connections < tr.maxConnections ∧
      (tr.getOrCreateConnection now order t).1 = tr.emplace t now) ∨
    (canonicalTuple t ∉ tr.connections ∧ tr.maxConnections ≤ Table.size tr.connections ∧
      (tr.getOrCreateConnection now order t).1 = (tr.emplace t now).evictOldest order) := by
  unfold getOrCreateConnection
  by_cases hk : canonicalTuple t ∈ tr.connections
  · rw [if_pos hk]
    exact Or.inl ⟨hk, rfl⟩
  · rw [if_neg hk]
    have hsize : Table.size (tr.emplace t now).connections = Table.size tr.connections + 1 :=
      Table.size_insert_of_notMem hk _
    by_cases hfull : Table.size (tr.emplace t now).connections > (tr.emplace t now).maxConnections
    · refine Or.inr (Or.inr ⟨hk, ?_, by rw [if_pos hfull]⟩)
      have : (tr.emplace t now).maxConnections = tr.maxConnections := rfl
      omega
    · refine Or.inr (Or.inl ⟨hk, ?_, by rw [if_neg hfull]⟩)
      have : (tr.emplace t now).maxConnections = tr.maxConnections := rfl
      omega

theorem lookup_evictOldest (k : FiveTuple) :
    (tr.evictOldest order).connections.lookup k = tr.connections.lookup k ∨
      (tr.evictOldest order).connections.lookup k = none := by
  unfold evictOldest
  cases order.argmin tr.lastSeenOf with
  | none => exact Or.inl rfl
  | some oldest =>
    by_cases h : k = oldest
    · subst h
      exact Or.inr (Finmap.lookup_erase k _)
    · exact Or.inl (Finmap.lookup_erase_ne h)

theorem maxConnections_evictOldest : (tr.evictOldest order).maxConnections = tr.maxConnections := by
  unfold evictOldest
  cases order.argmin tr.lastSeenOf <;> rfl

/-- The entry of a connection that was just created. -/
def newConnection (t : FiveTuple) (now : Time) : Connection :=
  { tuple := t, state := .new, firstSeen := now, lastSeen := now }

theorem lookup_emplace (k : FiveTuple) : (tr.emplace t now).connections.lookup k =
    if k = canonicalTuple t then some (newConnection t now) else tr.connections.lookup k := by
  unfold emplace
  split_ifs with hk
  · rw [hk, Finmap.lookup_insert]
    rfl
  · exact Finmap.lookup_insert_of_ne _ hk

/-- An entry was there before, is the new one, or is evicted. -/
theorem lookup_getOrCreateConnection_cases (k : FiveTuple) :
    (tr.getOrCreateConnection now order t).1.connections.lookup k = none ∨
    (tr.getOrCreateConnection now order t).1.connections.lookup k =
      if k = canonicalTuple t then some ((tr.connections.lookup k).getD (newConnection t now))
      else tr.connections.lookup k := by
  have hnew (hmem : canonicalTuple t ∉ tr.connections) :
      (tr.emplace t now).connections.lookup k =
        if k = canonicalTuple t then some ((tr.connections.lookup k).getD (newConnection t now))
        else tr.connections.lookup k := by
    rw [lookup_emplace]
    split_ifs with hk
    · rw [hk, Finmap.lookup_eq_none.2 hmem]
      rfl
    · rfl
  rcases getOrCreateConnection_cases tr now order t with ⟨hmem, h⟩ | ⟨hmem, -, h⟩ | ⟨hmem, -, h⟩
  · right
    rw [h]
    split_ifs with hk
    · obtain ⟨c, hc⟩ := Finmap.mem_iff.1 hmem
      rw [hk, hc]
      rfl
    · rfl
  · rw [h]
    exact Or.inr (hnew hmem)
  · rw [h]
    rcases lookup_evictOldest (tr.emplace t now) order k with he | he
    · rw [he]
      exact Or.inr (hnew hmem)
    · exact Or.inl he

@[simp] theorem maxConnections_getOrCreateConnection :
    (tr.getOrCreateConnection now order t).1.maxConnections = tr.maxConnections := by
  rcases getOrCreateConnection_cases tr now order t with ⟨-, h⟩ | ⟨-, -, h⟩ | ⟨-, -, h⟩ <;> rw [h]
  · rfl
  · exact maxConnections_evictOldest _ _

end

def getConnection (tr : ConnectionTracker) (tuple : FiveTuple) : Option FiveTuple :=
  let key := canonicalTuple tuple
  if key ∈ tr.connections then some key else none

/-- Reads the entry behind a pointer. -/
def load (tr : ConnectionTracker) (conn : FiveTuple) : Checked Connection :=
  match tr.connections.lookup conn with
  | some c => .ok c
  | none => .error .useAfterFree

theorem load_eq_ok_iff {tr : ConnectionTracker} {k : FiveTuple} {c : Connection} :
    tr.load k = .ok c ↔ tr.connections.lookup k = some c := by
  unfold load
  cases tr.connections.lookup k <;> simp

/-- Writes the entry behind a pointer. -/
def store (tr : ConnectionTracker) (conn : FiveTuple) (c : Connection) : ConnectionTracker :=
  { tr with connections := tr.connections.insert conn c }

def updateConnection (c : Connection) (now : Time) (packetSize : ℕ) (isOutbound : Bool) :
    Connection :=
  let c := { c with lastSeen := now }
  if isOutbound then
    { c with packetsOut := c.packetsOut + 1, bytesOut := c.bytesOut + UInt64.ofNat packetSize }
  else { c with packetsIn := c.packetsIn + 1, bytesIn := c.bytesIn + UInt64.ofNat packetSize }

def classifyConnection (tr : ConnectionTracker) (c : Connection) (app : AppType) (sni : Str) :
    ConnectionTracker × Connection :=
  if c.state ≠ .classified then
    ({ tr with classifiedCount := tr.classifiedCount + 1 },
      { c with appType := app, sni := sni, state := .classified })
  else (tr, c)

def blockConnection (tr : ConnectionTracker) (c : Connection) : ConnectionTracker × Connection :=
  ({ tr with blockedCount := tr.blockedCount + 1 }, { c with state := .blocked, action := .drop })

def closeConnection (tr : ConnectionTracker) (tuple : FiveTuple) : ConnectionTracker :=
  let key := canonicalTuple tuple
  match tr.connections.lookup key with
  | some c => tr.store key { c with state := .closed }
  | none => tr

/-- An entry that `cleanupStale` erases; `duration_cast` truncates the age to seconds. -/
def isStale (now timeout : Time) (c : Connection) : Bool :=
  decide ((now - c.lastSeen) / 1000000000 > timeout) || c.state == .closed

/-- Returns the tracker and the number of connections removed. -/
def cleanupStale (tr : ConnectionTracker) (now : Time) (timeout : Time := 300) :
    ConnectionTracker × ℕ :=
  let kept := Table.filter tr.connections fun _ c => !isStale now timeout c
  ({ tr with connections := kept }, Table.size tr.connections - Table.size kept)

/-- A cleanup keeps an entry or removes it. -/
theorem lookup_cleanupStale (tr : ConnectionTracker) (now timeout : Time) (key : FiveTuple) :
    (tr.cleanupStale now timeout).1.connections.lookup key = tr.connections.lookup key ∨
      (tr.cleanupStale now timeout).1.connections.lookup key = none := by
  simp only [cleanupStale, Table.lookup_filter]
  rcases tr.connections.lookup key with _ | c
  · exact Or.inl rfl
  · rcases hstale : isStale now timeout c
    · exact Or.inl (by simp [hstale])
    · exact Or.inr (by simp [hstale])

def clear (tr : ConnectionTracker) : ConnectionTracker := { tr with connections := ∅ }

structure TrackerStats where
  activeConnections : UInt64
  totalConnectionsSeen : UInt64
  classifiedConnections : UInt64
  blockedConnections : UInt64
  deriving DecidableEq, Repr

def getStats (tr : ConnectionTracker) : TrackerStats where
  activeConnections := UInt64.ofNat (Table.size tr.connections)
  totalConnectionsSeen := tr.totalSeen
  classifiedConnections := tr.classifiedCount
  blockedConnections := tr.blockedCount

end ConnectionTracker

end DPI
