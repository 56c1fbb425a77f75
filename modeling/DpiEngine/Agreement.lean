import DpiEngine.FlowPairs
import DpiEngine.Lib.Keyed

/-!
# Agreement of the stand-alone programs

Both programs are keyed machines over their flows.  So they decide the packets of a five-tuple alike
exactly when the names in these packets make no difference under the rules.
-/

namespace DPI

open Bytes PacketAnalyzer

variable {rules : Mt.Rules} {t : FiveTuple}

/-! ## Verdicts -/

/-- What becomes of a packet whose flow is or is not blocked. -/
def verdict (blocked : Bool) : PacketAction := if blocked then .drop else .forward

theorem verdict_inj {b c : Bool} : verdict b = verdict c ↔ b = c := by
  cases b <;> cases c <;> decide

namespace Mt.FlowEntry

def step (rules : Rules) (flow : FlowEntry) (pkt : Packet) : Checked (PacketAction × FlowEntry) :=
  (fun f => (verdict f.blocked, f)) <$> flow.receive rules pkt

end Mt.FlowEntry

namespace Simple.Flow

def step (rules : BlockingRules) (flow : Flow) (pkt : Packet) : Checked (PacketAction × Flow) :=
  (fun f => (verdict f.blocked, f)) <$> flow.receive rules pkt

end Simple.Flow

theorem step_eq (pkt : PacketPair) (hsame : SamePacket pkt.simple pkt.mt)
    (hfound : Mt.extractName pkt.mt = .ok pkt.name) (rules : Mt.Rules) (m : Mt.FlowEntry)
    (s : Simple.Flow) :
    m.step rules pkt.mt = .ok (verdict (m.after rules pkt.mt.tuple pkt).blocked,
        m.after rules pkt.mt.tuple pkt) ∧
      s.step rules pkt.simple = .ok (verdict (s.after rules pkt.mt.tuple pkt).blocked,
        s.after rules pkt.mt.tuple pkt) := by
  constructor
  · rw [Mt.FlowEntry.step, Mt.FlowEntry.receive_eq hfound]
    rfl
  · rw [Simple.Flow.step, Simple.Flow.receive_eq hsame hfound]
    rfl

/-! ## Runs -/

abbrev Mt.Outcome (rules : Mt.Rules) :
    (FiveTuple → Mt.FlowEntry) → List (Mt.Packet × PacketAction) →
      (FiveTuple → Mt.FlowEntry) → Prop :=
  Keyed.Outcome (fun pkt : Mt.Packet => pkt.tuple) (Mt.FlowEntry.step rules)

abbrev Simple.Outcome (rules : Mt.Rules) :
    (FiveTuple → Simple.Flow) → List (Simple.Packet × PacketAction) →
      (FiveTuple → Simple.Flow) → Prop :=
  Keyed.Outcome (fun pkt : Simple.Packet => pkt.tuple) (Simple.Flow.step rules)

theorem Mt.defined_names (pkts : List Mt.Packet) : Defined (pkts.mapM Mt.extractName) := by
  induction pkts with
  | nil => exact defined_ok _
  | cons pkt rest ih =>
    rw [List.mapM_cons]
    exact (defined_extractName pkt).bind fun _ _ => ih.bind fun _ _ => defined_ok _

/-- The verdicts that two runs give the packets of one five-tuple are those of a pair of flows. -/
theorem verdicts_eq_iff {σ σ' : FiveTuple → Mt.FlowEntry} {τ τ' : FiveTuple → Simple.Flow}
    {mlog : List (Mt.Packet × PacketAction)} {slog : List (Simple.Packet × PacketAction)}
    (hm : Mt.Outcome rules σ mlog σ') (hs : Simple.Outcome rules τ slog τ')
    (hsame : List.Forall₂ SamePacket (slog.map Prod.fst) (mlog.map Prod.fst))
    (ht : ∀ e ∈ mlog, e.1.tuple = t) :
    ∃ rest : List PacketPair,
      (mlog.map Prod.fst).mapM Mt.extractName = .ok (rest.map PacketPair.name) ∧
      (∀ pkt ∈ rest, ∀ name, pkt.name = some name → t.dstPort = 443 ∨ t.dstPort = 80) ∧
      (slog.map Prod.snd = mlog.map Prod.snd ↔ Alike rules t (σ t) (τ t) rest) := by
  induction hm generalizing τ slog with
  | nil σ =>
    rw [List.map_nil, List.forall₂_nil_right_iff, List.map_eq_nil_iff] at hsame
    refine ⟨[], rfl, nofun, iff_of_true ?_ trivial⟩
    rw [hsame]
    rfl
  | @cons σ σ' mp action f mlog hstep hrest ih =>
    cases hs with
    | nil => cases hsame
    | @cons _ _ sp action' g slog hstep' hrest' =>
      rw [List.map_cons, List.map_cons, List.forall₂_cons] at hsame
      obtain ⟨hpair, hsame⟩ := hsame
      change SamePacket sp mp at hpair
      have hkey : mp.tuple = t := ht _ List.mem_cons_self
      subst hkey
      obtain ⟨found, hfound⟩ := Mt.defined_extractName mp
      let pkt : PacketPair := ⟨mp, sp, found⟩
      have hsteps := step_eq pkt hpair hfound rules (σ mp.tuple) (τ mp.tuple)
      rw [hpair.tuple] at hstep' hrest'
      cases hsteps.1.symm.trans hstep
      cases hsteps.2.symm.trans hstep'
      obtain ⟨rest, hnames, hports, halike⟩ :=
        ih hrest' hsame fun e he => ht e (List.mem_cons_of_mem _ he)
      rw [Function.update_self, Function.update_self] at halike
      refine ⟨pkt :: rest, ?_, ?_, ?_⟩
      · rw [List.map_cons, List.mapM_cons, hfound, ok_bind, hnames]
        rfl
      · intro p hp name hname
        rcases List.mem_cons.1 hp with rfl | hp
        · exact Mt.port_of_extractName (hfound.trans (congrArg Except.ok hname))
        · exact hports p hp name hname
      · rw [List.map_cons, List.map_cons, List.cons.injEq, verdict_inj, halike]
        exact and_congr_left fun _ => eq_comm

/-! ## The programs -/

/-- A fast path decides every packet it is given. -/
theorem Mt.processAll_outcome (rules : Rules) (flows : Flows) (pkts : List Packet) :
    ∃ log σ, flows.processAll rules pkts = .ok log ∧ log.map Prod.fst = pkts ∧
      Mt.Outcome rules flows.at log σ := by
  induction pkts generalizing flows with
  | nil => exact ⟨[], flows.at, rfl, rfl, .nil _⟩
  | cons pkt rest ih =>
    obtain ⟨found, hfound⟩ := defined_extractName pkt
    have hflow := FlowEntry.receive_eq hfound rules (flows.at pkt.tuple)
    obtain ⟨f, hf⟩ : Defined ((flows.at pkt.tuple).receive rules pkt) := ⟨_, hflow⟩
    have hreceive : flows.receive rules pkt = .ok (f, flows.insert pkt.tuple f) := by
      rw [Flows.receive, hf]
      rfl
    obtain ⟨log, σ, hlog, hpkts, hout⟩ := ih (flows.insert pkt.tuple f)
    refine ⟨(pkt, verdict f.blocked) :: log, σ, ?_, by rw [List.map_cons, hpkts], ?_⟩
    · rw [Flows.processAll, hreceive, ok_bind]
      dsimp only
      rw [hlog]
      rfl
    · refine .cons (s := f) ?_ ?_
      · rw [FlowEntry.step, hf]
        rfl
      · rw [← Flows.at_insert]
        exact hout

theorem Simple.decide_eq (st : State) (raw : RawPacket) (pkt : Packet) (flow : Flow) :
    (st.decide raw pkt flow).decided = st.decided ++ [(pkt, verdict flow.blocked)] ∧
      (st.decide raw pkt flow).flows = st.flows.insert pkt.tuple flow := by
  rw [State.decide, verdict]
  dsimp only
  split_ifs <;> exact ⟨rfl, rfl⟩

/-- The loop gets through every file, and decides the packets that `dpi_mt.cpp` reads. -/
theorem Simple.loop_outcome (rules : Mt.Rules) (st : State) (id : UInt32)
    (records : List RawPacket) :
    ∃ pkts st' log τ, Mt.readPackets id records = .ok pkts ∧ loop rules st records = .ok st' ∧
      st'.decided = st.decided ++ log ∧ List.Forall₂ SamePacket (log.map Prod.fst) pkts ∧
      Simple.Outcome rules st.flows.at log τ := by
  induction records generalizing st id with
  | nil => exact ⟨[], st, [], st.flows.at, rfl, rfl, (List.append_nil _).symm, .nil, .nil _⟩
  | cons raw records ih =>
    rcases accept_cases raw id with ⟨hsimple, hmt⟩ | ⟨sp, mp, hsimple, hmt, hsame⟩
    · obtain ⟨pkts, st', log, τ, hread, hloop, hdecided, hlog, hout⟩ :=
        ih { st with totalPackets := st.totalPackets + 1 } id
      refine ⟨pkts, st', log, τ, ?_, ?_, hdecided, hlog, hout⟩
      · rw [Mt.readPackets, hmt]
        exact hread
      · rw [loop, State.read, hsimple]
        exact hloop
    · obtain ⟨found, hfound⟩ := Mt.defined_extractName mp
      obtain ⟨f, hf⟩ : Defined ((st.flows.at sp.tuple).receive rules sp) :=
        ⟨_, Flow.receive_eq hsame hfound rules _⟩
      let counted : State := { st with totalPackets := st.totalPackets + 1 }
      obtain ⟨pkts, st', log, τ, hread, hloop, hdecided, hlog, hout⟩ :=
        ih (counted.decide raw sp f) (id + 1)
      obtain ⟨hdec, hflows⟩ := decide_eq counted raw sp f
      refine ⟨mp :: pkts, st', (sp, verdict f.blocked) :: log, τ, ?_, ?_, ?_, .cons hsame hlog,
        .cons (s := f) ?_ ?_⟩
      · rw [Mt.readPackets, hmt, ok_bind]
        dsimp only
        rw [hread]
        rfl
      · rw [loop, State.read, hsimple, ok_bind]
        dsimp only
        rw [hf]
        exact hloop
      · rw [hdecided, hdec, List.append_assoc]
        rfl
      · rw [Flow.step, hf]
        rfl
      · rw [← Flows.at_insert, ← show counted.flows = st.flows from rfl, ← hflows]
        exact hout

/-! ## When the programs agree -/

/-- Both programs get through the file, and a fast path that is given the packets of a five-tuple in
the order of the file, with any others in between, decides them as the loop does. -/
def AgreeOn (rules : Mt.Rules) (records : List RawPacket) (t : FiveTuple) : Prop :=
  ∃ pkts st, Mt.readPackets 0 records = .ok pkts ∧ Simple.loop rules {} records = .ok st ∧
    ∀ seen : List Mt.Packet,
      (seen.filter fun pkt => pkt.tuple == t) = (pkts.filter fun pkt => pkt.tuple == t) →
      ∃ log, Mt.Flows.processAll rules ∅ seen = .ok log ∧
        (log.filter fun e => e.1.tuple == t).map Prod.snd =
          (st.decided.filter fun e => e.1.tuple == t).map Prod.snd

def Agree (rules : Mt.Rules) (records : List RawPacket) : Prop := ∀ t, AgreeOn rules records t

/-- The names by which a flow of `t` may be classified. -/
def namesOf (records : List RawPacket) (t : FiveTuple) : Checked (List (Option Str)) := do
  let pkts ← Mt.readPackets 0 records
  let names ← (pkts.filter fun pkt => pkt.tuple == t).mapM Mt.extractName
  return counted t names

/-- If only `dpi_mt.cpp` takes the first of the names, it makes no difference under the rules. -/
def Indifferent (rules : Mt.Rules) (t : FiveTuple) (names : List (Option Str)) : Prop :=
  ∀ name others, names.reduceOption = name :: others → name = [] ∨ t.protocol ≠ 6 →
    Harmless rules t (names.head? = some none) name others

theorem map_fst_filter {J : Type} (key : J → FiveTuple) (log : List (J × PacketAction)) :
    (log.filter fun e => key e.1 == t).map Prod.fst =
      (log.map Prod.fst).filter fun j => key j == t := by
  rw [List.filter_map]
  rfl

theorem forall_mem_filter {J : Type} (key : J → FiveTuple) (log : List (J × PacketAction)) :
    ∀ e ∈ log.filter fun e => key e.1 == t, key e.1 = t := by
  intro e he
  exact eq_of_beq (List.mem_filter.1 he).2

/-- What the two logs hold of one five-tuple are the same packets. -/
theorem same_of_filter {slog : List (Simple.Packet × PacketAction)}
    {mlog : List (Mt.Packet × PacketAction)} {pkts : List Mt.Packet}
    (hsame : List.Forall₂ SamePacket (slog.map Prod.fst) pkts)
    (hseen : ((mlog.map Prod.fst).filter fun pkt => pkt.tuple == t) =
      pkts.filter fun pkt => pkt.tuple == t) :
    List.Forall₂ SamePacket ((slog.filter fun e => e.1.tuple == t).map Prod.fst)
      ((mlog.filter fun e => e.1.tuple == t).map Prod.fst) := by
  rw [map_fst_filter (fun pkt : Simple.Packet => pkt.tuple),
    map_fst_filter (fun pkt : Mt.Packet => pkt.tuple), hseen]
  refine List.rel_filter (fun sp mp h => ?_) hsame
  dsimp only
  rw [h.tuple]

/-- A fast path that gets the packets of `t` decides them as the loop does exactly when their names
make no difference. -/
theorem same_decisions_iff {pkts seen : List Mt.Packet}
    {slog : List (Simple.Packet × PacketAction)} {mlog : List (Mt.Packet × PacketAction)}
    {σ : FiveTuple → Mt.FlowEntry} {τ : FiveTuple → Simple.Flow}
    (hs : Simple.Outcome rules (Simple.Flows.at ∅) slog τ)
    (hm : Mt.Outcome rules (Mt.Flows.at ∅) mlog σ)
    (hsame : List.Forall₂ SamePacket (slog.map Prod.fst) pkts) (hjobs : mlog.map Prod.fst = seen)
    (hseen : (seen.filter fun pkt => pkt.tuple == t) = pkts.filter fun pkt => pkt.tuple == t)
    {names : List (Option Str)}
    (hnames : (pkts.filter fun pkt => pkt.tuple == t).mapM Mt.extractName = .ok names) :
    (mlog.filter fun e => e.1.tuple == t).map Prod.snd =
        (slog.filter fun e => e.1.tuple == t).map Prod.snd ↔
      Indifferent rules t (counted t names) := by
  obtain ⟨σ', hm', -⟩ := hm.restrict (fun k => k == t) fun _ _ => rfl
  obtain ⟨τ', hs', -⟩ := hs.restrict (fun k => k == t) fun _ _ => rfl
  have hpair := same_of_filter (t := t) hsame (by rw [hjobs, hseen])
  obtain ⟨rest, hrest, hports, halike⟩ := verdicts_eq_iff hm' hs' hpair
    (forall_mem_filter (fun pkt : Mt.Packet => pkt.tuple) mlog)
  rw [map_fst_filter (fun pkt : Mt.Packet => pkt.tuple), hjobs, hseen, hnames] at hrest
  obtain rfl : names = rest.map PacketPair.name := Except.ok.inj hrest
  rw [eq_comm, halike]
  refine ((waiting_initial rules t).alike_iff rest hports).trans ?_
  rw [Indifferent, head?_counted]
  simp only [Bool.false_eq_true, false_or]

/-- The programs agree on a five-tuple exactly when its names make no difference. -/
theorem agreeOn_iff (rules : Mt.Rules) (records : List RawPacket) (t : FiveTuple) :
    AgreeOn rules records t ↔
      ∀ names, namesOf records t = .ok names → Indifferent rules t names := by
  obtain ⟨pkts, st, slog, τ, hread, hloop, hdecided, hsame, hs⟩ :=
    Simple.loop_outcome rules {} 0 records
  obtain ⟨names, hnames⟩ := Mt.defined_names (pkts.filter fun pkt => pkt.tuple == t)
  have hnamesOf : namesOf records t = .ok (counted t names) := by
    rw [namesOf, hread, ok_bind, hnames]
    rfl
  constructor
  · rintro ⟨pkts', st', hread', hloop', hall⟩ names' hnames'
    obtain rfl : pkts = pkts' := Except.ok.inj (hread.symm.trans hread')
    obtain rfl : st = st' := Except.ok.inj (hloop.symm.trans hloop')
    obtain rfl : counted t names = names' := Except.ok.inj (hnamesOf.symm.trans hnames')
    obtain ⟨mlog, σ, hmlog, hjobs, hm⟩ := Mt.processAll_outcome rules ∅ pkts
    obtain ⟨mlog', hmlog', heq⟩ := hall pkts rfl
    obtain rfl : mlog = mlog' := Except.ok.inj (hmlog.symm.trans hmlog')
    rw [hdecided] at heq
    exact (same_decisions_iff hs hm hsame hjobs rfl hnames).1 heq
  · intro hall
    refine ⟨pkts, st, hread, hloop, fun seen hseen => ?_⟩
    obtain ⟨mlog, σ, hmlog, hjobs, hm⟩ := Mt.processAll_outcome rules ∅ seen
    refine ⟨mlog, hmlog, ?_⟩
    rw [hdecided]
    exact (same_decisions_iff hs hm hsame hjobs hseen hnames).2 (hall _ hnamesOf)

/-- The programs agree on a file exactly when, for every five-tuple, a first name that is empty or
comes over UDP makes no difference under the rules. -/
theorem agree_iff (rules : Mt.Rules) (records : List RawPacket) :
    Agree rules records ↔
      ∀ t names, namesOf records t = .ok names → Indifferent rules t names :=
  forall_congr' fun t => agreeOn_iff rules records t

/-! ## Rules that tell the programs apart -/

/-- Rules that match a flow with this name, and no flow without a name that has been classified. -/
def distinguishing (name : Str) : Mt.Rules :=
  if name = [] then { blockedApps := {.unknown} } else { blockedDomains := [name] }

theorem not_harmless_distinguishing (hport : t.dstPort = 443 ∨ t.dstPort = 80) (late : Prop)
    (name : Str) (others : List Str) : ¬ Harmless (distinguishing name) t late name others := by
  have hnamed : namedBlocked (distinguishing name) t name = true := by
    by_cases hname : name = []
    · subst hname
      simp [namedBlocked, distinguishing, Mt.Rules.isBlocked, sniToAppType]
    · simp [namedBlocked, distinguishing, hname, Mt.Rules.isBlocked, contains]
  have hunnamed : unnamedBlocked (distinguishing name) t = false := by
    by_cases hname : name = []
    · simp [unnamedBlocked, distinguishing, hname, Mt.Rules.isBlocked,
        unnamedApp_ne_unknown hport]
    · simp [unnamedBlocked, distinguishing, hname, Mt.Rules.isBlocked, contains]
  rintro (⟨-, hdrop⟩ | ⟨hsame, -⟩)
  · rw [hunnamed] at hdrop
    cases hdrop
  · rw [hnamed, hunnamed] at hsame
    cases hsame

theorem Mt.exists_of_name {pkts : List Mt.Packet} {names : List (Option Str)}
    (h : pkts.mapM Mt.extractName = .ok names) {name : Str} (hname : some name ∈ names) :
    ∃ pkt ∈ pkts, Mt.extractName pkt = .ok (some name) := by
  induction pkts generalizing names with
  | nil =>
    obtain rfl : [] = names := Except.ok.inj h
    cases hname
  | cons pkt rest ih =>
    rw [List.mapM_cons, bind_eq_ok_iff] at h
    obtain ⟨found, hfound, h⟩ := h
    rw [bind_eq_ok_iff] at h
    obtain ⟨later, hlater, h⟩ := h
    obtain rfl : found :: later = names := Except.ok.inj h
    rcases List.mem_cons.1 hname with rfl | hname
    · exact ⟨pkt, List.mem_cons_self, hfound⟩
    · obtain ⟨p, hp, hpname⟩ := ih hlater hname
      exact ⟨p, List.mem_cons_of_mem _ hp, hpname⟩

theorem port_of_namesOf {records : List RawPacket} {names : List (Option Str)}
    (h : namesOf records t = .ok names) {name : Str} (hname : some name ∈ names) :
    t.dstPort = 443 ∨ t.dstPort = 80 := by
  rw [namesOf, bind_eq_ok_iff] at h
  obtain ⟨pkts, -, h⟩ := h
  rw [bind_eq_ok_iff] at h
  obtain ⟨all, hall, h⟩ := h
  obtain rfl : counted t all = names := Except.ok.inj h
  have hmem : some name ∈ all := by
    unfold counted at hname
    split_ifs at hname
    · exact List.mem_of_mem_take hname
    · exact hname
  obtain ⟨pkt, hpkt, hfound⟩ := Mt.exists_of_name hall hmem
  rw [← eq_of_beq (List.mem_filter.1 hpkt).2]
  exact Mt.port_of_extractName hfound

/-- A first name that is empty or comes over UDP makes a difference under these rules. -/
theorem not_agreeOn_distinguishing {records : List RawPacket} {names : List (Option Str)}
    (hnames : namesOf records t = .ok names) {name : Str} {others : List Str}
    (hfirst : names.reduceOption = name :: others) (hbad : name = [] ∨ t.protocol ≠ 6) :
    ¬ AgreeOn (distinguishing name) records t := by
  intro hagree
  have hmem : some name ∈ names := by
    rw [← List.reduceOption_mem_iff, hfirst]
    exact List.mem_cons_self
  have hharmless := (agreeOn_iff _ _ _).1 hagree names hnames name others hfirst hbad
  exact not_harmless_distinguishing (port_of_namesOf hnames hmem) _ name others hharmless

/-- A record whose UDP datagram from 10.0.0.1 to port 80 of 10.0.0.2 holds an HTTP request. -/
def udpRequest : RawPacket where
  header := { tsSec := 1, tsUsec := 2, inclLen := 74, origLen := 74 }
  data :=
    [0, 1, 2, 3, 4, 5, 6, 7, 8, 9, 10, 11, 0x08, 0x00,
      0x45, 0, 0, 60, 0, 0, 0, 0, 64, 17, 0, 0, 10, 0, 0, 1, 10, 0, 0, 2,
      0x30, 0x39, 0, 80, 0, 40, 0, 0] ++ text "GET / HTTP/1.1\r\nHost: ok.com\r\n\r\n"

def udpRequestTuple : FiveTuple :=
  { srcIp := 0x0100000a, dstIp := 0x0200000a, srcPort := 12345, dstPort := 80, protocol := 17 }

/-- Where the name in the datagram is blocked, `dpi_mt.cpp` drops it, and the loop of
`main_working.cpp` forwards it. -/
theorem name_over_udp_parts_programs :
    ((Mt.readPackets 0 [udpRequest] >>=
        Mt.Flows.processAll { blockedDomains := [text "ok.com"] } ∅).map fun log =>
          (log.filter fun e => e.1.tuple == udpRequestTuple).map Prod.snd) = .ok [.drop] ∧
      ((Simple.loop { blockedDomains := [text "ok.com"] } {} [udpRequest]).map fun st =>
        (st.decided.filter fun e => e.1.tuple == udpRequestTuple).map Prod.snd) = .ok [.forward] ∧
      ¬ Agree { blockedDomains := [text "ok.com"] } [udpRequest] := by
  have hmt : ((Mt.readPackets 0 [udpRequest] >>=
      Mt.Flows.processAll { blockedDomains := [text "ok.com"] } ∅).map fun log =>
        (log.filter fun e => e.1.tuple == udpRequestTuple).map Prod.snd) = .ok [.drop] := by
    decide +kernel
  have hsimple : ((Simple.loop { blockedDomains := [text "ok.com"] } {} [udpRequest]).map fun st =>
      (st.decided.filter fun e => e.1.tuple == udpRequestTuple).map Prod.snd) =
        .ok [.forward] := by
    decide +kernel
  have hnames : namesOf [udpRequest] udpRequestTuple = .ok [some (text "ok.com")] := by
    decide +kernel
  exact ⟨hmt, hsimple, fun hagree => not_agreeOn_distinguishing hnames rfl (Or.inr (by decide))
    (hagree udpRequestTuple)⟩

end DPI
