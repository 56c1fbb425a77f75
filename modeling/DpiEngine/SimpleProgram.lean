import DpiEngine.Conversion
import DpiEngine.CutOff
import DpiEngine.Lib.Tally
import DpiEngine.PcapRoundTrip
import Mathlib.Data.UInt

/-!
# The single-threaded program on a file

`main_working.cpp` from the content of its input file to that of its output file and to the figures
of its report.  The loop is a keyed machine over the flows, and its books are kept along it.
-/

namespace DPI.Simple

open Bytes PacketAnalyzer PacketAnalyzer.PcapReader

variable {rules : BlockingRules} {t : FiveTuple}

/-- A record as the loop writes it. -/
def writePacket (raw : RawPacket) : Str :=
  let header : PcapPacketHeader :=
    { tsSec := raw.header.tsSec
      tsUsec := raw.header.tsUsec
      inclLen := UInt32.ofNat raw.data.length
      origLen := UInt32.ofNat raw.data.length }
  header.bytes .little ++ raw.data

/-- `main` once it has its rules, on an input file of the given content: the content of the output
file and the variables for the report, or `none` where the input cannot be opened. -/
def program (rules : BlockingRules) (content : Str) : Checked (Option (Str × State)) := do
  match openFile content with
  | none => return none
  | some reader =>
    let st ← loop rules {} reader.readAll
    return some (reader.globalHeader.bytes .little ++ st.output.flatMap writePacket, st)

/-- What is printed at the end; `order` is that in which the flows are met. -/
structure Report where
  totalPackets : UInt64
  forwarded : UInt64
  dropped : UInt64
  activeFlows : ℕ
  appStats : Table AppType UInt64
  uniqueSnis : Table Str AppType

/-- The application of each name, as it is taken from the flows in turn. -/
def uniqueSnis (flows : List (FiveTuple × Flow)) : Table Str AppType :=
  Table.tally (fun entry : FiveTuple × Flow => entry.2.sni) (fun entry _ => entry.2.appType)
    AppType.unknown (flows.filter fun entry => !entry.2.sni.isEmpty)

def State.report (st : State) (order : List FiveTuple) : Report where
  totalPackets := st.totalPackets
  forwarded := st.forwarded
  dropped := st.dropped
  activeFlows := st.flows.size
  appStats := st.appStats
  uniqueSnis := uniqueSnis (Table.visited st.flows order)

/-! ## The loop -/

/-- The records that the loop does not skip, with their packets. -/
def accepted (records : List RawPacket) : List (RawPacket × Packet) :=
  records.filterMap fun raw => ((accept raw).toOption.join).map fun pkt => (raw, pkt)

/-- The records of one five-tuple among them. -/
def ofTuple (t : FiveTuple) (records : List RawPacket) : List (RawPacket × Packet) :=
  (accepted records).filter fun j => j.2.tuple == t

theorem accepted_cons {raw : RawPacket} {found : Option Packet} (h : accept raw = .ok found)
    (records : List RawPacket) :
    accepted (raw :: records) =
      (found.map fun pkt => (raw, pkt)).toList ++ accepted records := by
  rw [accepted, List.filterMap_cons, h]
  cases found <;> rfl

/-- The loop has read the records and decided as `log` says. -/
structure Ran (rules : BlockingRules) (records : List RawPacket) (st st' : State)
    (log : List ((RawPacket × Packet) × PacketAction)) : Prop where
  jobs : log.map Prod.fst = accepted records
  outcome : Keyed.Outcome (fun j : RawPacket × Packet => j.2.tuple)
    (fun flow j => Flow.step rules flow j.2) st.flows.at log st'.flows.at
  same : ∀ e ∈ log, ∃ mp, SamePacket e.1.2 mp
  totalPackets : st'.totalPackets = st.totalPackets + UInt64.ofNat records.length
  output : st'.output =
    st.output ++ ((log.filter fun e => e.2 != .drop).map fun e => e.1.1)
  forwarded : st'.forwarded = st.forwarded + UInt64.ofNat (log.countP fun e => e.2 != .drop)
  dropped : st'.dropped = st.dropped + UInt64.ofNat (log.countP fun e => e.2 == .drop)
  apps : st'.appStats.sum id = st.appStats.sum id + UInt64.ofNat log.length
  keys : st'.flows.keys = st.flows.keys ∪ (log.map fun e => e.1.2.tuple).toFinset

theorem ran_nil (rules : BlockingRules) (st : State) : Ran rules [] st st [] where
  jobs := rfl
  outcome := .nil _
  same := by simp
  totalPackets := (add_zero _).symm
  output := (List.append_nil _).symm
  forwarded := (add_zero _).symm
  dropped := (add_zero _).symm
  apps := (add_zero _).symm
  keys := (Finset.union_empty _).symm

section Cons

variable {records : List RawPacket} {raw : RawPacket} {st st' : State}
  {log : List ((RawPacket × Packet) × PacketAction)}

/-- A record that the loop skips is counted all the same. -/
theorem Ran.skip (hskip : accept raw = .ok none)
    (h : Ran rules records { st with totalPackets := st.totalPackets + 1 } st' log) :
    Ran rules (raw :: records) st st' log :=
  { h with
    jobs := by
      rw [accepted_cons hskip]
      exact h.jobs
    totalPackets := by
      rw [h.totalPackets, List.length_cons, Nat.add_comm, UInt64.ofNat_add, ← add_assoc]
      rfl }

theorem sum_decide (st : State) (raw : RawPacket) (pkt : Packet) (flow : Flow) :
    (st.decide raw pkt flow).appStats.sum id = st.appStats.sum id + 1 := by
  have happs : (st.decide raw pkt flow).appStats =
      Table.addItem id (fun _ n => n + 1) 0 st.appStats flow.appType := by
    unfold State.decide
    dsimp only
    split_ifs <;> rfl
  rw [happs]
  exact Table.sum_addItem (f := id) (w := fun _ => 1) rfl (fun _ _ => rfl) st.appStats flow.appType

theorem Ran.decide {pkt : Packet} {flow : Flow} {mp : Mt.Packet} (hsame : SamePacket pkt mp)
    (haccept : accept raw = .ok (some pkt))
    (hflow : (st.flows.at pkt.tuple).receive rules pkt = .ok flow)
    (h : Ran rules records
      (State.decide { st with totalPackets := st.totalPackets + 1 } raw pkt flow) st' log) :
    Ran rules (raw :: records) st st' (((raw, pkt), verdict flow.blocked) :: log) := by
  let counted : State := { st with totalPackets := st.totalPackets + 1 }
  have hflows := (decide_eq counted raw pkt flow).2
  have htotal : (counted.decide raw pkt flow).totalPackets = st.totalPackets + 1 := by
    unfold State.decide
    dsimp only
    split_ifs <;> rfl
  refine
    { jobs := ?_
      outcome := .cons (s := flow) ?_ ?_
      same := ?_
      totalPackets := ?_
      output := ?_
      forwarded := ?_
      dropped := ?_
      apps := ?_
      keys := ?_ }
  · rw [accepted_cons haccept, List.map_cons, h.jobs]
    rfl
  · rw [Flow.step, hflow]
    rfl
  · rw [← Flows.at_insert, ← show counted.flows = st.flows from rfl, ← hflows]
    exact h.outcome
  · exact List.forall_mem_cons.2 ⟨⟨mp, hsame⟩, h.same⟩
  · rw [h.totalPackets, htotal, List.length_cons, Nat.add_comm, UInt64.ofNat_add, ← add_assoc]
    rfl
  · rw [h.output]
    cases hblocked : flow.blocked <;> simp [State.decide, hblocked, verdict]
  · rw [h.forwarded]
    cases hblocked : flow.blocked <;>
      simp [State.decide, hblocked, verdict, UInt64.ofNat_add, add_assoc, add_comm]
  · rw [h.dropped]
    cases hblocked : flow.blocked <;>
      simp [State.decide, hblocked, verdict, UInt64.ofNat_add, add_assoc, add_comm]
  · rw [h.apps, sum_decide, List.length_cons, Nat.add_comm, UInt64.ofNat_add, ← add_assoc]
    rfl
  · rw [h.keys, hflows, Table.keys_insert, List.map_cons, List.toFinset_cons, Finset.insert_union,
      Finset.union_insert]

end Cons

/-- The loop gets through every file. -/
theorem loop_ran (rules : BlockingRules) (st : State) (records : List RawPacket) :
    ∃ st' log, loop rules st records = .ok st' ∧ Ran rules records st st' log := by
  induction records generalizing st with
  | nil => exact ⟨st, [], rfl, ran_nil rules st⟩
  | cons raw records ih =>
    rcases accept_cases raw 0 with ⟨hskip, -⟩ | ⟨pkt, mp, haccept, -, hsame⟩
    · obtain ⟨st', log, hloop, hran⟩ := ih { st with totalPackets := st.totalPackets + 1 }
      refine ⟨st', log, ?_, hran.skip hskip⟩
      rw [loop, State.read, hskip]
      exact hloop
    · obtain ⟨flow, hflow⟩ : Defined ((st.flows.at pkt.tuple).receive rules pkt) :=
        ⟨_, Flow.receive_eq hsame (Mt.extractName_eq mp) rules _⟩
      obtain ⟨st', log, hloop, hran⟩ :=
        ih (State.decide { st with totalPackets := st.totalPackets + 1 } raw pkt flow)
      refine ⟨st', _, ?_, hran.decide hsame haccept hflow⟩
      rw [loop, State.read, haccept, ok_bind]
      dsimp only
      rw [hflow]
      exact hloop

/-! ## What passes -/

theorem mem_accepted {records : List RawPacket} {j : RawPacket × Packet}
    (h : j ∈ accepted records) : accept j.1 = .ok (some j.2) := by
  obtain ⟨raw, -, hj⟩ := List.mem_filterMap.1 h
  obtain ⟨pkt, hpkt, rfl⟩ := Option.map_eq_some_iff.1 hj
  rcases accept_cases raw 0 with ⟨hskip, -⟩ | ⟨pkt', mp, haccept, -, -⟩
  · rw [hskip] at hpkt
    cases hpkt
  · rw [haccept] at hpkt
    rw [haccept]
    exact congrArg Except.ok hpkt

theorem length_of_accept {raw : RawPacket} {pkt : Packet} (h : accept raw = .ok (some pkt)) :
    14 ≤ raw.data.length := by
  obtain ⟨_ | parsed, hparse, h⟩ := bind_eq_ok_iff.1 h
  · cases h
  · exact PacketParser.length_of_parse hparse

theorem accepted_map_fst {jobs : List (RawPacket × Packet)}
    (h : ∀ j ∈ jobs, accept j.1 = .ok (some j.2)) : accepted (jobs.map Prod.fst) = jobs := by
  induction jobs with
  | nil => rfl
  | cons j jobs ih =>
    rw [List.map_cons, accepted_cons (h j List.mem_cons_self),
      ih fun j' hj' => h j' (List.mem_cons_of_mem _ hj')]
    rfl

theorem map_fst_accepted (records : List RawPacket) :
    ((accepted records).map Prod.fst).Sublist records := by
  induction records with
  | nil => exact .slnil
  | cons raw records ih =>
    rcases accept_cases raw 0 with ⟨hskip, -⟩ | ⟨pkt, mp, haccept, -, -⟩
    · rw [accepted_cons hskip]
      exact ih.cons raw
    · rw [accepted_cons haccept]
      exact ih.cons_cons raw

/-- The records of a five-tuple that the rules let pass, by the names in them. -/
def passed (rules : BlockingRules) (t : FiveTuple) (records : List RawPacket) :
    List (RawPacket × Packet) :=
  (ofTuple t records).take (passing rules t ((ofTuple t records).map fun j => j.2.name))

section Ran

variable {records : List RawPacket} {st st' : State}
  {log : List ((RawPacket × Packet) × PacketAction)}

theorem Ran.ofTuple_eq (h : Ran rules records st st' log) (t : FiveTuple) :
    (log.filter fun e => e.1.2.tuple == t).map Prod.fst = ofTuple t records := by
  rw [ofTuple, ← h.jobs, List.filter_map]
  rfl

theorem Ran.passed_eq (h : Ran rules records {} st' log) (t : FiveTuple) :
    (log.filter fun e => e.1.2.tuple == t && e.2 != .drop).map Prod.fst =
      passed rules t records := by
  have hpassed := Keyed.Outcome.passed_take h.outcome t (fun action => action != .drop)
    (fun j => j.2.name) (fun flow stage => flow.At rules t stage) (Stage.shut_next rules t) ?_
    (b := .waiting) ⟨rfl, rfl, Or.inl rfl⟩
  · rw [h.ofTuple_eq] at hpassed
    exact hpassed
  · intro e he ht flow stage action flow' hflow hs
    obtain ⟨mp, hsame⟩ := h.same e he
    obtain ⟨hnext, rfl⟩ := hflow.step hsame (hsame.tuple.symm.trans ht) hs
    exact ⟨hnext, passes_verdict _⟩

theorem Ran.output_eq (h : Ran rules records {} st' log) :
    st'.output = ((log.filter fun e => e.2 != .drop).map Prod.fst).map Prod.fst := by
  rw [h.output, List.map_map]
  rfl

/-- The records in the output, with their packets. -/
theorem Ran.accepted_output (h : Ran rules records {} st' log) :
    accepted st'.output = (log.filter fun e => e.2 != .drop).map Prod.fst := by
  rw [h.output_eq]
  refine accepted_map_fst fun j hj => ?_
  have hmem : j ∈ accepted records := h.jobs ▸ (List.filter_sublist.map _).subset hj
  exact mem_accepted hmem

theorem Ran.ofTuple_output (h : Ran rules records {} st' log) (t : FiveTuple) :
    ofTuple t st'.output = passed rules t records := by
  rw [ofTuple, h.accepted_output, ← h.passed_eq t, List.filter_map, List.filter_filter]
  rfl

theorem Ran.output_sublist (h : Ran rules records {} st' log) : st'.output.Sublist records := by
  have hkept : ((log.filter fun e => e.2 != .drop).map Prod.fst).Sublist (accepted records) :=
    h.jobs ▸ List.filter_sublist.map _
  rw [h.output_eq]
  exact (hkept.map _).trans (map_fst_accepted records)

theorem Ran.length_output (h : Ran rules records {} st' log) :
    st'.forwarded = UInt64.ofNat st'.output.length := by
  rw [h.forwarded, h.output, List.nil_append, List.length_map, ← List.countP_eq_length_filter]
  exact zero_add _

/-- What is written is an Ethernet frame at least. -/
theorem Ran.length_of_output (h : Ran rules records {} st' log) {raw : RawPacket}
    (hraw : raw ∈ st'.output) : 14 ≤ raw.data.length := by
  have hkept : raw ∈ (accepted st'.output).map Prod.fst := by
    rwa [h.accepted_output, ← h.output_eq]
  obtain ⟨j, hj, rfl⟩ := List.mem_map.1 hkept
  exact length_of_accept (mem_accepted hj)

end Ran

/-! ## The output file -/

theorem fits_readAll (reader : PcapReader) :
    ∀ raw ∈ reader.readAll, raw.Fits reader.globalHeader.snaplen := by
  induction reader using readAll.induct with
  | case1 reader h =>
    rw [readAll_of_none h]
    simp
  | case2 reader packet next h ih =>
    obtain ⟨-, -, -, -, hsnap, hmax, hlen, hnext⟩ := readNextPacket_eq_some_iff.1 h
    rw [readAll_of_some h]
    refine List.forall_mem_cons.2 ⟨⟨hlen, hsnap, hmax⟩, ?_⟩
    rw [hnext] at ih ⊢
    exact ih

theorem magicNumber_of_openFile {content : Str} {reader : PcapReader}
    (h : openFile content = some reader) :
    reader.globalHeader.magicNumber =
      if reader.needsByteSwap then pcapMagicSwapped else pcapMagicNative := by
  obtain ⟨⟨bytes, file⟩, -, h⟩ := Option.bind_eq_some_iff.1 h
  dsimp only at h
  split_ifs at h with hnative hswapped
  · cases h
    exact hnative
  · cases h
    exact hswapped

theorem writePacket_eq {raw : RawPacket} {snaplen : UInt32} (h : raw.Fits snaplen) :
    writePacket raw = (asWritten raw).bytes .little := by
  have hlen : UInt32.ofNat raw.data.length = raw.header.inclLen := by
    rw [h.length, UInt32.ofNat_toNat]
  rw [writePacket, hlen]
  rfl

/-- Under a native magic number the records are read back as they are written. -/
theorem readAll_native {header : PcapGlobalHeader} {sent : List RawPacket}
    (hmagic : header.magicNumber = pcapMagicNative)
    (hfits : ∀ raw ∈ sent, raw.Fits header.snaplen) :
    (openFile (header.bytes .little ++ sent.flatMap writePacket)).map readAll =
      some (sent.map asWritten) := by
  have hwritten : sent.flatMap writePacket =
      (sent.map asWritten).flatMap (RawPacket.bytes .little) := by
    rw [List.flatMap_map]
    exact List.flatMap_congr fun raw hraw => writePacket_eq (hfits raw hraw)
  let copy : Capture :=
    { order := .little
      header := header
      records := sent.map asWritten
      magic := hmagic
      fits := by
        intro p hp
        obtain ⟨raw, hraw, rfl⟩ := List.mem_map.1 hp
        exact ⟨(hfits raw hraw).length, (hfits raw hraw).snaplen, (hfits raw hraw).max⟩ }
  rw [hwritten]
  exact copy.readAll_bytes

/-- Under a swapped one nothing is. -/
theorem readAll_swapped {header : PcapGlobalHeader} {sent : List RawPacket}
    (hmagic : header.magicNumber = pcapMagicSwapped) (hfits : ∀ raw ∈ sent, raw.Fits header.snaplen)
    (hdata : ∀ raw ∈ sent, raw.data ≠ []) :
    (openFile (header.bytes .little ++ sent.flatMap writePacket)).map readAll = some [] := by
  obtain ⟨header', hopen⟩ := openFile_swapped hmagic (sent.flatMap writePacket)
  rw [hopen, Option.map_some]
  apply congrArg some
  cases sent with
  | nil => exact readAll_of_none (readNextPacket_nil header' true)
  | cons raw sent =>
    have hraw := hfits raw List.mem_cons_self
    rw [List.flatMap_cons, writePacket_eq hraw]
    exact readAll_native_record hraw (hdata raw List.mem_cons_self)

/-- The program gets to its end on every file that it opens. -/
theorem program_ran {content : Str} {reader : PcapReader} (h : openFile content = some reader)
    (rules : BlockingRules) :
    ∃ st log, program rules content =
        .ok (some (reader.globalHeader.bytes .little ++ st.output.flatMap writePacket, st)) ∧
      Ran rules reader.readAll {} st log := by
  obtain ⟨st, log, hloop, hran⟩ := loop_ran rules {} reader.readAll
  refine ⟨st, log, ?_, hran⟩
  rw [program, h]
  dsimp only
  rw [hloop]
  rfl

/-- What the output file holds of the records of the input file. -/
structure Output (rules : BlockingRules) (records : List RawPacket) (needsByteSwap : Bool)
    (out : Str) (st : State) : Prop where
  sublist : st.output.Sublist records
  passed : ∀ t, ofTuple t st.output = passed rules t records
  readBack : (openFile out).map readAll =
    some (if needsByteSwap then [] else st.output.map asWritten)

/-- On every file that it opens the program gets to its end.  The records it writes are some of
those it reads, in their order, and of each five-tuple the first ones, as many as the rules let pass
by the names in them.  They are read back from the output, each with its stored length as the
original one, where the input was in the order of the machine, and else none is. -/
theorem program_output {content : Str} {reader : PcapReader} (h : openFile content = some reader)
    (rules : BlockingRules) :
    ∃ out st, program rules content = .ok (some (out, st)) ∧
      Output rules reader.readAll reader.needsByteSwap out st := by
  obtain ⟨st, log, hprogram, hran⟩ := program_ran h rules
  refine ⟨_, st, hprogram, hran.output_sublist, hran.ofTuple_output, ?_⟩
  have hfits : ∀ raw ∈ st.output, raw.Fits reader.globalHeader.snaplen :=
    fun raw hraw => fits_readAll reader raw (hran.output_sublist.subset hraw)
  have hmagic := magicNumber_of_openFile h
  cases hswap : reader.needsByteSwap with
  | false =>
    rw [hswap, if_neg Bool.false_ne_true] at hmagic
    exact readAll_native hmagic hfits
  | true =>
    rw [hswap, if_pos rfl] at hmagic
    refine readAll_swapped hmagic hfits fun raw hraw hnil => ?_
    have hlen := hran.length_of_output hraw
    rw [hnil] at hlen
    cases hlen

theorem fits_webRecord (srcPort : UInt16) {payload : Str} (h : payload.length ≤ 65535 - 54) :
    (webRecord srcPort payload).Fits 65535 := by
  have hlen : (webSegment srcPort payload).bytes.length = 54 + payload.length := by
    rw [Frame.length_bytes, Frame.length_headers]
    rfl
  have hincl : (webRecord srcPort payload).header.inclLen.toNat =
      (webSegment srcPort payload).bytes.length :=
    UInt32.toNat_ofNat_of_lt' (by rw [UInt32.size]; omega)
  have hle : (webRecord srcPort payload).header.inclLen ≤ 65535 := by
    rw [UInt32.le_iff_toNat_le, hincl]
    change _ ≤ 65535
    omega
  exact ⟨hincl.symm, hle, hle⟩

theorem fits_visitRecords : ∀ raw ∈ visitRecords, raw.Fits 65535 := by
  simp only [visitRecords, List.forall_mem_cons]
  exact ⟨fits_webRecord _ (by decide), fits_webRecord _ (by decide), fits_webRecord _ (by decide),
    fits_webRecord _ (by decide), nofun⟩

/-- The records of the two clients in a file that can be opened. -/
def visitCapture : Capture :=
  { datagramCapture .little 43 with records := visitRecords, fits := fits_visitRecords }

theorem readAll_visitCapture {reader : PcapReader} (h : openFile visitCapture.bytes = some reader) :
    reader.readAll = visitRecords := by
  have hall := visitCapture.readAll_bytes
  rw [h, Option.map_some] at hall
  exact Option.some.inj hall

/-- Of the three records of the client that asks for a blocked name only the first is written. -/
theorem program_output_visits :
    ∃ reader out st, openFile visitCapture.bytes = some reader ∧
      program { blockedDomains := [text "bad"] } visitCapture.bytes = .ok (some (out, st)) ∧
      Output { blockedDomains := [text "bad"] } visitRecords false out st ∧
      (ofTuple firstClient visitRecords).length = 3 ∧
      (ofTuple firstClient st.output).length = 1 := by
  have hopen := visitCapture.openFile_bytes
  obtain ⟨out, st, hprogram, hout⟩ := program_output hopen { blockedDomains := [text "bad"] }
  rw [readAll_visitCapture hopen] at hout
  refine ⟨_, out, st, hopen, hprogram, hout, by decide +kernel, ?_⟩
  rw [hout.passed firstClient]
  decide +kernel

/-! ## The report -/

/-- The name that a connection gets from its packets: the first one in them, and in a DNS
connection only that of its first packet. -/
def labelOf (t : FiveTuple) (names : List (Option Str)) : Option Str :=
  (counted t names).reduceOption.head?

theorem labelOf_snoc (t : FiveTuple) (names : List (Option Str)) (name : Option Str) :
    labelOf t (names ++ [name]) =
      if names ≠ [] ∧ IsDns t then labelOf t names else (labelOf t names).or name := by
  unfold labelOf counted
  by_cases hdns : IsDns t
  · rw [if_pos hdns, if_pos hdns]
    cases names with
    | nil => cases name <;> rfl
    | cons first names => exact (if_pos ⟨List.cons_ne_nil _ _, hdns⟩).symm
  · rw [if_neg hdns, if_neg hdns, if_neg fun h => hdns h.2, List.reduceOption_append,
      List.head?_append]
    cases name <;> rfl

/-- What a flow of `t` knows after packets with these names. -/
def Flow.Knows (flow : Flow) (t : FiveTuple) (names : List (Option Str)) : Prop :=
  match labelOf t names with
  | some name => flow.sni = name ∧ name ≠ [] ∧ flow.appType = sniToAppType name
  | none => flow.sni = [] ∧ flow.appType = if names = [] then .unknown else unnamedApp t

namespace Flow

variable {flow : Flow} {names : List (Option Str)}

theorem knows_nil (t : FiveTuple) : ({} : Flow).Knows t [] := by
  have hnone : labelOf t [] = none := by
    unfold labelOf counted
    split_ifs <;> rfl
  rw [Knows, hnone]
  exact ⟨rfl, rfl⟩

theorem Knows.next (h : flow.Knows t names) {found : Option Str}
    (hport : ∀ name, found = some name → t.dstPort = 443 ∨ t.dstPort = 80) :
    (flow.next t found).Knows t
      (names ++ [if t.protocol = 6 then found.filter (· ≠ []) else none]) := by
  obtain ⟨name, hname⟩ : ∃ name, name = if t.protocol = 6 then found.filter (· ≠ []) else none :=
    ⟨_, rfl⟩
  have hidle : name = none ∨ ¬ flow.Looks t →
      ∀ n, found = some n → n = [] ∨ ¬ flow.Looks t := by
    intro hor n hfound
    by_contra hnot
    obtain ⟨hne, hlooks⟩ := not_or.1 hnot
    have hnone := hor.resolve_right hlooks
    rw [hname, if_pos (not_not.1 hlooks).1, hfound, Option.filter_some,
      if_pos (by simpa using hne)] at hnone
    cases hnone
  have hsnoc : names ++ [name] ≠ [] := by simp
  rw [← hname]
  unfold Knows at h ⊢
  rw [labelOf_snoc]
  cases hlabel : labelOf t names with
  | some label =>
    rw [hlabel] at h
    obtain ⟨hsni, hne, happ⟩ := h
    have hlooks : ¬ flow.Looks t := fun hx => hne (hsni.symm.trans hx.2.1)
    have hkeep : flow.next t found = flow :=
      next_of_not_looks hlooks (happ ▸ sniToAppType_ne_unknown hne) found
    rw [Option.some_or, ite_self, hkeep]
    exact ⟨hsni, hne, happ⟩
  | none =>
    rw [hlabel] at h
    obtain ⟨hsni, happ⟩ := h
    have happ' : flow.appType = .unknown ∨ flow.appType = unnamedApp t := by
      split_ifs at happ
      · exact Or.inl happ
      · exact Or.inr happ
    -- nothing is taken from the packet
    have hstay (hor : name = none ∨ ¬ flow.Looks t) :
        (flow.next t found).sni = [] ∧ (flow.next t found).appType =
          if names ++ [name] = [] then .unknown else unnamedApp t := by
      rw [next_idle hsni happ' (hidle hor), if_neg hsnoc]
      exact ⟨hsni, rfl⟩
    by_cases hdns : names ≠ [] ∧ IsDns t
    · rw [if_pos hdns]
      refine hstay (Or.inr (not_looks_of_dns ?_))
      rw [happ, if_neg hdns.1, unnamedApp, if_pos hdns.2]
    · rw [if_neg hdns, Option.none_or]
      cases name with
      | none => exact hstay (Or.inl rfl)
      | some name =>
        have hproto : t.protocol = 6 := by
          by_contra hproto
          rw [if_neg hproto] at hname
          cases hname
        rw [if_pos hproto] at hname
        obtain ⟨hfound, hne⟩ := Option.filter_eq_some_iff.1 hname.symm
        have hne : name ≠ [] := by simpa using hne
        have hlooks : flow.Looks t := by
          by_cases hnil : names = []
          · rw [if_pos hnil] at happ
            refine ⟨hproto, hsni, ?_⟩
            exact (hport name hfound).imp (fun hp => ⟨hp, Or.inl happ⟩)
              fun hp => ⟨hp, Or.inl happ⟩
          · rw [if_neg hnil] at happ
            exact (looks_unnamed_iff (hport name hfound) happ hsni).2
              ⟨hproto, fun hx => hdns ⟨hnil, hx⟩⟩
        rw [hfound, next_name hlooks hne]
        exact ⟨rfl, hne, rfl⟩

theorem Knows.step (h : flow.Knows t names) {sp : Packet} {mp : Mt.Packet}
    (hsame : SamePacket sp mp) (ht : sp.tuple = t) {action : PacketAction} {flow' : Flow}
    (hs : flow.step rules sp = .ok (action, flow')) : flow'.Knows t (names ++ [sp.name]) := by
  have ht' : mp.tuple = t := hsame.tuple.symm.trans ht
  rw [Flow.step, receive_eq hsame (Mt.extractName_eq mp), ht'] at hs
  cases hs
  have hcount : (flow.count sp).Knows t names := by
    rw [count_eq]
    exact h
  have hnext := hcount.next fun name hname => by
    rw [← ht']
    exact Mt.port_of_extractName ((Mt.extractName_eq mp).trans (congrArg Except.ok hname))
  rw [Packet.name_eq hsame, ht', judge_eq]
  exact hnext

end Flow

/-- The flows know the names in the records. -/
theorem Ran.knows {records : List RawPacket} {st' : State}
    {log : List ((RawPacket × Packet) × PacketAction)} (h : Ran rules records {} st' log)
    (t : FiveTuple) :
    (st'.flows.at t).Knows t ((ofTuple t records).map fun j => j.2.name) := by
  have hknows := h.outcome.observed t (fun j => j.2.name) (fun flow names => flow.Knows t names) ?_
    (Flow.knows_nil t)
  · rw [h.ofTuple_eq] at hknows
    exact hknows
  · intro e he ht flow names action flow' hflow hs
    obtain ⟨mp, hsame⟩ := h.same e he
    exact hflow.step hsame ht hs

/-- The figures of a report on a file with the given records. -/
structure Report.Of (report : Report) (records : List RawPacket) : Prop where
  totalPackets : report.totalPackets = UInt64.ofNat records.length
  decided : report.forwarded + report.dropped = UInt64.ofNat (accepted records).length
  apps : report.appStats.sum id = report.forwarded + report.dropped
  activeFlows : report.activeFlows = ((accepted records).map fun j => j.2.tuple).toFinset.card
  snis : ∀ name app, report.uniqueSnis.lookup name = some app ↔ app = sniToAppType name ∧
    ∃ t, labelOf t ((ofTuple t records).map fun j => j.2.name) = some name

section Report

variable {records : List RawPacket} {st' : State}
  {log : List ((RawPacket × Packet) × PacketAction)}

theorem Ran.decided (h : Ran rules records {} st' log) :
    st'.forwarded + st'.dropped = UInt64.ofNat (accepted records).length := by
  have hlength : (accepted records).length =
      (log.countP fun e => e.2 != .drop) + log.countP fun e => e.2 == .drop := by
    rw [← h.jobs, List.length_map, List.length_eq_countP_add_countP fun e => e.2 != .drop]
    refine congrArg _ (List.countP_congr fun e _ => ?_)
    cases e.2 <;> decide
  rw [hlength, UInt64.ofNat_add, h.forwarded, h.dropped]
  exact congrArg₂ _ (zero_add _) (zero_add _)

/-- The names listed, whatever the order in which the flows are met. -/
theorem Ran.lookup_uniqueSnis (h : Ran rules records {} st' log) {order : List FiveTuple}
    (horder : Table.IsOrder st'.flows order) (name : Str) (app : AppType) :
    (uniqueSnis (Table.visited st'.flows order)).lookup name = some app ↔
      app = sniToAppType name ∧
        ∃ t, labelOf t ((ofTuple t records).map fun j => j.2.name) = some name := by
  have hat {t : FiveTuple} {flow : Flow} (hmem : (t, flow) ∈ Table.visited st'.flows order) :
      st'.flows.at t = flow := by
    rw [Flows.at, (Table.mem_visited horder).1 hmem]
    rfl
  have hlabel (t : FiveTuple) (hne : (st'.flows.at t).sni ≠ []) :
      labelOf t ((ofTuple t records).map fun j => j.2.name) = some (st'.flows.at t).sni ∧
        (st'.flows.at t).appType = sniToAppType (st'.flows.at t).sni := by
    have hknows := h.knows t
    unfold Flow.Knows at hknows
    cases hl : labelOf t ((ofTuple t records).map fun j => j.2.name) with
    | none =>
      rw [hl] at hknows
      exact absurd hknows.1 hne
    | some name =>
      rw [hl] at hknows
      rw [hknows.1]
      exact ⟨rfl, hknows.2.2⟩
  unfold uniqueSnis
  rw [Table.lookup_tally_iff (c := sniToAppType)]
  · refine and_congr_right fun _ => ⟨?_, ?_⟩
    · rintro ⟨⟨t, flow⟩, hentry, rfl⟩
      obtain ⟨hmem, hne⟩ := List.mem_filter.1 hentry
      have hflow := hat hmem
      subst hflow
      exact ⟨t, (hlabel t (by simpa using hne)).1⟩
    · rintro ⟨t, hl⟩
      have hknows := h.knows t
      unfold Flow.Knows at hknows
      rw [hl] at hknows
      obtain ⟨hsni, hne, -⟩ := hknows
      obtain ⟨flow, hflow⟩ : ∃ flow, st'.flows.lookup t = some flow := by
        cases hlookup : st'.flows.lookup t with
        | some flow => exact ⟨flow, rfl⟩
        | none =>
          rw [Flows.at, hlookup] at hsni
          exact absurd hsni.symm hne
      have hmem := (Table.mem_visited horder).2 hflow
      refine ⟨(t, flow), List.mem_filter.2 ⟨hmem, ?_⟩, hat hmem ▸ hsni⟩
      have hne' : flow.sni ≠ [] := by
        rw [← hat hmem, hsni]
        exact hne
      simpa using hne'
  · rintro ⟨t, flow⟩ hentry -
    obtain ⟨hmem, hne⟩ := List.mem_filter.1 hentry
    have hflow := hat hmem
    subst hflow
    exact (hlabel t (by simpa using hne)).2

/-- The figures that the program prints are those of the file, whatever the order in which it meets
its flows: every record is counted, every packet is forwarded or dropped and counted under one
application, every five-tuple is a flow, and the names listed are the first ones that connections
show, each with its application. -/
theorem program_report {content : Str} {reader : PcapReader} (h : openFile content = some reader)
    (rules : BlockingRules) :
    ∃ out st, program rules content = .ok (some (out, st)) ∧
      st.forwarded = UInt64.ofNat st.output.length ∧
      ∀ order, Table.IsOrder st.flows order → (st.report order).Of reader.readAll := by
  obtain ⟨st, log, hprogram, hran⟩ := program_ran h rules
  refine ⟨_, st, hprogram, hran.length_output, fun order horder => ⟨?_, hran.decided, ?_, ?_, ?_⟩⟩
  · exact hran.totalPackets.trans (zero_add _)
  · refine hran.apps.trans (Eq.trans ?_ hran.decided.symm)
    rw [← hran.jobs, List.length_map]
    exact zero_add _
  · change st.flows.keys.card = _
    rw [hran.keys, ← hran.jobs, List.map_map]
    exact congrArg Finset.card (Finset.empty_union _)
  · exact hran.lookup_uniqueSnis horder

theorem program_report_visits :
    ∃ reader out st, openFile visitCapture.bytes = some reader ∧
      program { blockedDomains := [text "bad"] } visitCapture.bytes = .ok (some (out, st)) ∧
      ∀ order, Table.IsOrder st.flows order →
        (st.report order).Of visitRecords ∧ (st.report order).totalPackets = 4 ∧
          (st.report order).activeFlows = 2 := by
  have hopen := visitCapture.openFile_bytes
  obtain ⟨out, st, hprogram, -, hreport⟩ :=
    program_report hopen { blockedDomains := [text "bad"] }
  rw [readAll_visitCapture hopen] at hreport
  refine ⟨_, out, st, hopen, hprogram, fun order horder => ⟨hreport order horder,
    (hreport order horder).totalPackets, ?_⟩⟩
  rw [(hreport order horder).activeFlows]
  decide +kernel

end Report

end DPI.Simple
