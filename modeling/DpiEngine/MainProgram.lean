import DpiEngine.Conversion
import DpiEngine.FlowLives
import DpiEngine.RuleLoad
import DpiEngine.Setup

/-!
# The program

`main_dpi.cpp` from its command line to its output file.  The rules file and the three blocking
options are read as one list of lines, the file first, and what these lines denote is exactly what
the engine enforces.
-/

namespace DPI

open Bytes Lines PacketAnalyzer FastPathProcessor

/-! ## Start -/

/-- How `main` ends before a packet is read: the usage is printed, an exception is not caught, or
something is undefined. -/
inductive StartError where
  | usage
  | thrown (error : StoiError)
  | setup (error : SetupError)
  | rules (error : LoadError)
  deriving DecidableEq, Repr

/-- `DPIEngine::blockApp` of a name; a name of no application is only reported. -/
def DPIEngine.blockApp (rm : RuleManager) (appName : Str) : RuleManager :=
  match AppType.all.find? fun app => appTypeToString app == appName with
  | some app => rm.blockApp app
  | none => rm

/-- The rules that `main` sets up, where `files` gives the contents of the files that can be opened.
The result of `loadRules` is ignored. -/
def Options.rules (files : Str → Option Str) (o : Options) :
    Except LoadError RuleManager := do
  let rm ←
    if o.rulesFile.isEmpty then pure {}
    else
      let (rm, loaded) := RuleManager.loadFile {} (files o.rulesFile)
      let _ ← loaded
      pure rm
  let rm ← (o.blockIps.foldlM RuleManager.blockIPText rm).mapError .undefined
  let rm := o.blockApps.foldl DPIEngine.blockApp rm
  return o.blockDomains.foldl RuleManager.blockDomain rm

/-- `main` up to its call of `processFile`. -/
def startMain (files : Str → Option Str) (args : List Str) :
    Except StartError (Options × Managers × RuleManager) :=
  match mainOptions args with
  | .error error => .error (.thrown error)
  | .ok none => .error .usage
  | .ok (some o) => do
    let managers ← (initializeEngine o).mapError .setup
    let rm ← (o.rules files).mapError .rules
    return (o, managers, rm)

/-- The numbers of threads. -/
def Options.config (o : Options) : Config where
  numLoadBalancers := o.numLoadBalancers.toNat
  fpsPerLb := o.fpsPerLb.toNat

/-! ## Lines -/

/-- The options as lines of a rules file. -/
def Options.listed (o : Options) : List (Str × Str) :=
  o.blockIps.map (Prod.mk ipSection) ++
    o.blockApps.map (Prod.mk appSection) ++
    o.blockDomains.map (Prod.mk domainSection)

/-- The lines of the rules file; a file that cannot be opened has none. -/
def Options.filed (files : Str → Option Str) (o : Options) : List (Str × Str) :=
  if o.rulesFile.isEmpty then []
  else (files o.rulesFile).elim [] fun contents => RuleManager.filed [] (lines 0x0a contents)

/-- All that `main` is told to block, each line with its section. -/
def Options.entries (files : Str → Option Str) (o : Options) : List (Str × Str) :=
  o.filed files ++ o.listed

namespace RuleManager

variable {rm rm' : RuleManager}

theorem addAll_append (rm : RuleManager) (es es' : List (Str × Str)) :
    addAll rm (es ++ es') = addAll rm es >>= fun rm => addAll rm es' := List.foldlM_append ..

/-- The loop of `loadRules`, without the rules it leaves behind when it throws. -/
theorem addAll_eq_applyAll (rm : RuleManager) (es : List (Str × Str)) :
    addAll rm es = (fun _ => (applyAll rm es).1) <$> (applyAll rm es).2 := by
  induction es generalizing rm with
  | nil => rfl
  | cons e es ih =>
    have hcons : addAll rm (e :: es) = ((fun r => r.elim rm rm.block) <$> denotes e) >>=
        fun rm => addAll rm es := List.foldlM_cons ..
    rw [hcons, applyAll]
    cases denotes e with
    | error error => rfl
    | ok r => exact ih (r.elim rm rm.block)

theorem addAll_ips (rm : RuleManager) (ips : List Str) :
    addAll rm (ips.map (Prod.mk ipSection)) =
      (ips.foldlM blockIPText rm).mapError .undefined := by
  induction ips generalizing rm with
  | nil => rfl
  | cons ip ips ih =>
    have hcons : addAll rm ((ip :: ips).map (Prod.mk ipSection)) =
        ((fun r => r.elim rm rm.block) <$> denotes (ipSection, ip)) >>= fun rm =>
          addAll rm (ips.map (Prod.mk ipSection)) := List.foldlM_cons ..
    rw [hcons, List.foldlM_cons, blockIPText, denotes, if_pos rfl]
    cases parseIP ip with
    | error fault => rfl
    | ok value => exact ih (rm.blockIP value)

theorem addAll_apps (rm : RuleManager) (apps : List Str) :
    addAll rm (apps.map (Prod.mk appSection)) = .ok (apps.foldl DPIEngine.blockApp rm) := by
  induction apps generalizing rm with
  | nil => rfl
  | cons app apps ih =>
    rw [List.map_cons, addAll_cons_eq_ok_iff]
    refine ⟨_, by rw [denotes, if_neg ipSection_ne_appSection.symm, if_pos rfl], ?_⟩
    rw [ih, List.foldl_cons, DPIEngine.blockApp]
    cases AppType.all.find? fun a => appTypeToString a == app <;> rfl

theorem addAll_domains (rm : RuleManager) (domains : List Str) :
    addAll rm (domains.map (Prod.mk domainSection)) = .ok (domains.foldl blockDomain rm) := by
  induction domains generalizing rm with
  | nil => rfl
  | cons domain domains ih =>
    rw [List.map_cons, addAll_cons_eq_ok_iff]
    exact ⟨_, (denotes_domain_iff _ _ domain).2 ⟨rfl, rfl⟩, ih _⟩

end RuleManager

open RuleManager

/-- What `main` sets up is what the lines of the file and those of the options add. -/
theorem Options.rules_eq (files : Str → Option Str) (o : Options) :
    o.rules files = addAll {} (o.entries files) := by
  have hlisted (rm : RuleManager) : addAll rm o.listed = do
      let rm ← (o.blockIps.foldlM blockIPText rm).mapError .undefined
      return o.blockDomains.foldl blockDomain (o.blockApps.foldl DPIEngine.blockApp rm) := by
    rw [listed, addAll_append, addAll_append, addAll_ips]
    cases (o.blockIps.foldlM blockIPText rm).mapError LoadError.undefined with
    | error error => rfl
    | ok rm =>
      simp only [addAll_apps, addAll_domains]
      rfl
  rw [entries, addAll_append, filed, rules]
  simp only [hlisted]
  split_ifs with hempty
  · rfl
  · cases files o.rulesFile with
    | none => rfl
    | some contents =>
      rw [loadFile_some, Option.elim_some, addAll_eq_applyAll]
      cases (applyAll {} (RuleManager.filed [] (lines 0x0a contents))).2 <;> rfl

theorem startMain_ok {files : Str → Option Str} {args : List Str} {o : Options}
    {managers : Managers} {rm : RuleManager} (h : startMain files args = .ok (o, managers, rm)) :
    mainOptions args = .ok (some o) ∧ initializeEngine o = .ok managers ∧
      addAll {} (o.entries files) = .ok rm := by
  unfold startMain at h
  cases hargs : mainOptions args with
  | error error =>
    rw [hargs] at h
    cases h
  | ok o' =>
    rw [hargs] at h
    cases o' with
    | none => cases h
    | some o' =>
      rw [← Options.rules_eq]
      dsimp only at h
      cases hinit : initializeEngine o' with
      | error error =>
        rw [hinit] at h
        cases h
      | ok managers' =>
        rw [hinit] at h
        cases hrules : o'.rules files with
        | error error =>
          rw [hrules] at h
          cases h
        | ok rm' =>
          rw [hrules] at h
          cases h
          exact ⟨rfl, hinit, hrules⟩

/-! ## What is enforced -/

/-- The rule hits a packet whose connection is at a flow. -/
def Rule.Hits (job : PacketJob) (f : Flow) : Rule → Prop
  | .ip a => job.tuple.srcIp = a
  | .app a => f.appType = a
  | .domain d => f.sni ≠ [] ∧ domainRuleMatches d f.sni = true
  | .port p => job.tuple.dstPort = p

theorem Flow.matched_iff {rm : RuleManager} (h : rm.Sorted) (f : Flow) (job : PacketJob) :
    f.matched (some rm) job = true ↔ ∃ r, rm.InForce r ∧ r.Hits job f := by
  rw [matched, isSome_shouldBlock, isIPBlocked_iff, isPortBlocked_iff, isAppBlocked_iff,
    isDomainBlocked_iff h]
  constructor
  · rintro (hip | hport | happ | ⟨hne, d, hd, hmatch⟩)
    · exact ⟨_, hip, rfl⟩
    · exact ⟨_, hport, rfl⟩
    · exact ⟨_, happ, rfl⟩
    · exact ⟨.domain d, hd, hne, hmatch⟩
  · rintro ⟨r, hforce, hhits⟩
    cases r with
    | ip ip => exact Or.inl (hhits ▸ hforce)
    | app app => exact Or.inr (Or.inr (Or.inl (hhits ▸ hforce)))
    | domain d => exact Or.inr (Or.inr (Or.inr ⟨hhits.1, d, hforce, hhits.2⟩))
    | port port => exact Or.inr (Or.inl (hhits ▸ hforce))

/-- A line denotes a rule. -/
def Denoted (entries : List (Str × Str)) (r : Rule) : Prop :=
  ∃ e ∈ entries, denotes e = .ok (some r)

/-- The packets of a life got their actions by the lines: a packet is dropped iff a rule that a line
denotes hits it once it is inspected, or the packet before it was dropped and it does not close the
connection. -/
def EnforcedBy (entries : List (Str × Str)) (rm : RuleManager)
    (life : List (PacketJob × PacketAction)) : Prop :=
  ∀ past job action rest, life = past ++ (job, action) :: rest →
    (action = .drop ∨ action = .forward) ∧
    ∃ f g, Flow.Serves (some rm) {} past f ∧ (f.receive job).inspected job = .ok g ∧
      (action = .drop ↔ (∃ r, Denoted entries r ∧ r.Hits job g) ∨
        Flow.LastDropped past ∧ f.closes job = false)

/-- The rules of the lines hit a packet iff the rules that they add match it. -/
theorem hits_iff_matched {entries : List (Str × Str)} {rm : RuleManager}
    (h : addAll {} entries = .ok rm) (job : PacketJob) (f : Flow) :
    (∃ r, Denoted entries r ∧ r.Hits job f) ↔ f.matched (some rm) job = true := by
  obtain ⟨hsorted, hforce⟩ := addAll_ok h
  have hempty : ({} : RuleManager).Sorted := ⟨by simp, by simp⟩
  have hdenoted (r : Rule) : rm.InForce r ↔ Denoted entries r := by
    rw [hforce, or_iff_right (by cases r <;> simp [InForce])]
    rfl
  simp only [Flow.matched_iff (hsorted hempty), hdenoted]

theorem enforced_of_explained {entries : List (Str × Str)} {rm : RuleManager}
    (h : addAll {} entries = .ok rm) {life : List (PacketJob × PacketAction)}
    (hlife : Flow.Explained (some rm) life) : EnforcedBy entries rm life := by
  intro past job action rest heq
  obtain ⟨haction, f, hpast, hdrop⟩ := hlife past job action rest heq
  obtain ⟨g, hg⟩ : Defined ((f.receive job).inspected job) :=
    .ite (fun _ => (f.receive job).defined_inspect job) fun _ => defined_ok _
  have hrematched : f.Rematched (some rm) job ↔ g.matched (some rm) job = true := by
    rw [Flow.Rematched, hg]
    simp
  refine ⟨haction, f, g, hpast, hg, ?_⟩
  rw [hdrop, hrematched, hits_iff_matched h]

theorem frame_of_acceptPacket {raw : RawPacket} {id : UInt32} {job : PacketJob}
    (h : acceptPacket raw id = .ok (some job)) :
    ∃ f : Frame, raw.data = f.bytes ∧ job.data = f.bytes ∧ job.tuple = tupleOf f := by
  rcases record_cases raw with hparse | ⟨parsed, hparse, hskip⟩ | ⟨f, hraw, hparse⟩
  · rw [acceptPacket, hparse] at h
    cases h
  · rw [acceptPacket, hparse, ok_bind] at h
    simp only [if_pos hskip] at h
    cases h
  · obtain ⟨job', hjob, htuple, hdata, -⟩ := createPacketJob_frame f hraw id
    rw [acceptPacket, hparse, ok_bind] at h
    simp only [kept_frame, hjob] at h
    cases h
    exact ⟨f, hraw, hdata, htuple⟩

open Engine

/-- The lines decide on a connection: its packets are handled in their order, in lives, at most one
more than its entry is removed. -/
structure LinesEnforced (entries : List (Str × Str)) (cfg : Config) (rm : RuleManager)
    (input : List PacketJob) (ts : List (Taken Engine Label)) (e : Engine) (t : FiveTuple) :
    Prop where
  order : (e.handledOf t).map Prod.fst <+: ofConnection t input
  lives : ∃ lives : List (List (PacketJob × PacketAction)), e.handledOf t = lives.flatten ∧
    lives.length ≤ removals (worker cfg.numLoadBalancers cfg.fpsPerLb t) ts
      (canonicalTuple t) + 1 ∧
    ∀ life ∈ lives, EnforcedBy entries rm life

theorem linesEnforced {entries : List (Str × Str)} {cfg : Config} {rm : RuleManager}
    (hrules : addAll {} entries = .ok rm) (hf : 0 < cfg.fpsPerLb) {input : List PacketJob}
    {ts : List (Taken Engine Label)} {e : Engine} (hrun : Run (Step cfg rm) (start input) ts e)
    (t : FiveTuple) : LinesEnforced entries cfg rm input ts e t := by
  obtain ⟨horder, lives, heq, hlength, hlives⟩ := inLives_of_run hf hrun t
  refine ⟨horder, lives, heq, hlength, fun life hmem => ?_⟩
  obtain ⟨f, hserves⟩ := hlives life hmem
  exact enforced_of_explained hrules (Flow.explained_of_serves hserves)

/-- What `main` writes and drops, on every capture and in every run, is what its rules file and its
options say.  The packets of a connection are handled in their order, in lives that the lines
decide, of which there is at most one more than its entry is removed; a written packet was
forwarded, and it is a frame whose source address and destination port stand in no line. -/
theorem program_enforces {files : Str → Option Str} {args : List Str} {o : Options}
    {managers : Managers} {rm : RuleManager} (hmain : startMain files args = .ok (o, managers, rm))
    (hf : 0 < o.fpsPerLb) (records : List RawPacket) :
    ∃ input, readerJobs 0 records = .ok input ∧ ∀ ts e,
      Run (Step o.config rm) (start input) ts e →
        (∀ t, LinesEnforced (o.entries files) o.config rm input ts e t) ∧
        ∀ job ∈ e.written, (job, .forward) ∈ e.handled ∧ ∃ raw ∈ records, ∃ f : Frame,
          raw.data = f.bytes ∧ job.data = f.bytes ∧
          (∀ line, (ipSection, line) ∈ o.entries files → parseIP line ≠ .ok f.ip.srcIp.value) ∧
          ∀ line n, (portSection, line) ∈ o.entries files → stoi line = .ok n →
            toPort n ≠ f.transport.destPort := by
  obtain ⟨input, hread⟩ := defined_readerJobs 0 records
  refine ⟨input, hread, fun ts e hrun => ?_⟩
  obtain ⟨-, -, hrules⟩ := startMain_ok hmain
  have hfps : 0 < o.config.fpsPerLb := Int.lt_toNat.2 hf
  have hlives (t : FiveTuple) := linesEnforced hrules hfps hrun t
  refine ⟨hlives, fun job hjob => ?_⟩
  have hsound : Sound o.config input e := (hrun.invariant (Sound o.config input) (fun _ => True)
    (fun _ _ _ hs _ h => h.step hfps hs) (fun _ _ => trivial) (sound_start o.config input)).1
  obtain ⟨⟨job', action⟩, hhandled, rfl⟩ :=
    List.mem_map.1 (hsound.ordered.mem_passed_of_written o.config.shape hjob)
  obtain ⟨hmem, hpassed⟩ := List.mem_filter.1 hhandled
  -- the packet stands in a life of its connection, and was not dropped there
  obtain ⟨lives, heq, -, henforced⟩ := (hlives job'.tuple).lives
  have hof : (job', action) ∈ e.handledOf job'.tuple :=
    List.mem_filter.2 ⟨hmem, decide_eq_true (Or.inl rfl)⟩
  rw [heq] at hof
  obtain ⟨life, hlife, hin⟩ := List.mem_flatten.1 hof
  obtain ⟨past, rest, hsplit⟩ := List.append_of_mem hin
  obtain ⟨haction, f, g, -, -, hdrop⟩ := henforced life hlife past job' action rest hsplit
  have hnot : action ≠ .drop := by simpa [Config.shape] using hpassed
  obtain rfl : action = .forward := haction.resolve_left hnot
  have hclear (r : Rule) (hr : Denoted (o.entries files) r) : ¬ r.Hits job' g :=
    fun hhits => hnot (hdrop.2 (Or.inl ⟨r, hr, hhits⟩))
  have hinput : job' ∈ input := by
    rw [← hsound.accepted]
    exact List.mem_append_left _
      (hsound.ordered.mem_accepted_of_written o.config.shape hjob)
  obtain ⟨raw, hraw, id, haccept⟩ := mem_readerJobs hread job' hinput
  obtain ⟨frame, hrawData, hdata, htuple⟩ := frame_of_acceptPacket haccept
  refine ⟨hmem, raw, hraw, frame, hrawData, hdata, fun line hline hparse => ?_,
    fun line n hline hstoi hport => ?_⟩
  · have hdenoted := (denotes_ip_iff _ line _).2 ⟨rfl, hparse⟩
    exact hclear (.ip frame.ip.srcIp.value) ⟨_, hline, hdenoted⟩
      (by rw [Rule.Hits, htuple]; rfl)
  · have hdenoted := (denotes_port_iff _ line frame.transport.destPort).2 ⟨rfl, n, hstoi, hport⟩
    exact hclear (.port frame.transport.destPort) ⟨_, hline, hdenoted⟩
      (by rw [Rule.Hits, htuple]; rfl)

/-- A rules file with an address and a port, and a domain on the command line. -/
def filteredArgs : List Str :=
  [text "in.pcap", text "out.pcap", text "--rules", text "rules.txt", text "--block-domain",
    text "*.bad.com"]

def filteredFiles (name : Str) : Option Str :=
  if name = text "rules.txt" then some (text "[BLOCKED_IPS]\n10.9.9.9\n[BLOCKED_PORTS]\n25\n")
  else none

def filteredOptions : Options where
  blockDomains := [text "*.bad.com"]
  rulesFile := text "rules.txt"

def filteredRules : RuleManager where
  blockedIps := {0x0909090a}
  domainPatterns := [text "*.bad.com"]
  blockedPorts := {25}

deriving instance DecidableEq for Managers

theorem startMain_filteredArgs : startMain filteredFiles filteredArgs =
    .ok (filteredOptions, ⟨[0, 1, 2, 3], [[0, 1], [2, 3]], 4⟩, filteredRules) := by
  decide +kernel

/-- A request for an allowed host and one for a blocked host, each with another segment. -/
def filteredRecords : List RawPacket :=
  [webRecord 40000 (requestText "ok.com"), webRecord 40001 (requestText "bad.com"),
    webRecord 40000 (text "x"), webRecord 40001 (text "y")]

def secondClient : FiveTuple := { firstClient with srcPort := 40001 }

def filteredVisits : List Label :=
  List.flatten [List.replicate 9 .reader, List.replicate 6 (.lb 0), List.replicate 6 (.lb 1),
    List.replicate 12 (.fp 3 ⟨0, 0, []⟩), List.replicate 12 (.fp 0 ⟨0, 0, []⟩),
    List.replicate 6 .output]

/-- The client that asks for the blocked host is cut off, in one life of its connection; no frame
comes from the address in the file. -/
theorem program_enforces_filtered :
    ∃ input ts e, readerJobs 0 filteredRecords = .ok input ∧
      Run (Step filteredOptions.config filteredRules) (start input) ts e ∧
      (e.handledOf secondClient).map Prod.snd = [.drop, .drop] ∧
      (∃ lives : List (List (PacketJob × PacketAction)),
        e.handledOf secondClient = lives.flatten ∧ lives.length ≤ 1 ∧
        ∀ life ∈ lives, EnforcedBy (filteredOptions.entries filteredFiles) filteredRules life) ∧
      e.written.length = 2 ∧
      ∀ job ∈ e.written, ∃ f : Frame, job.data = f.bytes ∧ f.ip.srcIp.value ≠ 0x0909090a := by
  obtain ⟨input, hread, hall⟩ :=
    program_enforces startMain_filteredArgs (by decide) filteredRecords
  have h : (do
      let input ← (readerJobs 0 filteredRecords).toOption
      let r ← exec filteredOptions.config filteredRules (start input) filteredVisits
      return decide ((r.2.handledOf secondClient).map Prod.snd = [.drop, .drop] ∧
        removals (worker 2 2 secondClient) r.1 (canonicalTuple secondClient) = 0 ∧
        r.2.written.length = 2)) = some true := by decide +kernel
  obtain ⟨_, hinput, h⟩ := Option.bind_eq_some_iff.1 h
  rw [hread] at hinput
  cases hinput
  obtain ⟨⟨ts, e⟩, hexec, h⟩ := Option.bind_eq_some_iff.1 h
  obtain ⟨hactions, hremovals, hlength⟩ := of_decide_eq_true (Option.some.inj h)
  have hrun := run_of_exec hexec
  obtain ⟨henforced, hwritten⟩ := hall ts e hrun
  obtain ⟨lives, heq, hone, hlives⟩ := (henforced secondClient).lives
  have hconfig : removals (worker filteredOptions.config.numLoadBalancers
      filteredOptions.config.fpsPerLb secondClient) ts (canonicalTuple secondClient) = 0 :=
    hremovals
  rw [hconfig] at hone
  refine ⟨input, ts, e, hread, hrun, hactions, ⟨lives, heq, hone, hlives⟩, hlength,
    fun job hjob => ?_⟩
  obtain ⟨-, -, -, f, -, hdata, hip, -⟩ := hwritten job hjob
  have hline : (ipSection, text "10.9.9.9") ∈ filteredOptions.entries filteredFiles := by
    decide +kernel
  have hparse : parseIP (text "10.9.9.9") = .ok 0x0909090a := by decide +kernel
  exact ⟨f, hdata, fun heq => hip _ hline (heq ▸ hparse)⟩

end DPI
