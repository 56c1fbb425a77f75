import DpiEngine.AddressRules
import DpiEngine.MtForwarding
import DpiEngine.RuleReload
import DpiEngine.SimpleProgram

/-!
# The command lines of the stand-alone programs

Both programs take their rules from the same options: `dpi_mt.cpp` collects them first, with the
numbers of its threads between them, and `main_working.cpp` makes each a rule at once.  What an
option promises is kept to the output file.
-/

namespace DPI

open Bytes PacketAnalyzer PacketAnalyzer.PcapReader

/-! ## Rules -/

namespace Mt.Rules

def blockIP (rules : Rules) (ip : Str) : Checked Rules := do
  let ip ← parseIP ip
  return { rules with blockedIps := insert ip rules.blockedIps }

/-- An application of another name is none of the rules. -/
def blockApp (rules : Rules) (app : Str) : Rules :=
  match AppType.all.find? fun a => appTypeToString a == app with
  | some a => { rules with blockedApps := insert a rules.blockedApps }
  | none => rules

def blockDomain (rules : Rules) (domain : Str) : Rules :=
  { rules with blockedDomains := rules.blockedDomains ++ [domain] }

end Mt.Rules

namespace Simple.BlockingRules

def blockIP (rules : BlockingRules) (ip : Str) : Checked BlockingRules := Mt.Rules.blockIP rules ip

def blockApp (rules : BlockingRules) (app : Str) : BlockingRules := Mt.Rules.blockApp rules app

def blockDomain (rules : BlockingRules) (domain : Str) : BlockingRules :=
  Mt.Rules.blockDomain rules domain

end Simple.BlockingRules

/-! ## Options -/

/-- What `main` of `dpi_mt.cpp` collects from its options. -/
structure Mt.Options where
  cfg : Config := {}
  blockIps : List Str := []
  blockApps : List Str := []
  blockDomains : List Str := []

/-- The loop over the options of `dpi_mt.cpp`.  `std::stoi` may throw; an option in the last place
is without its value and ignored, as any other argument is. -/
def Mt.parseOptions (o : Options) : List Str → Except StoiError Options
  | [] => .ok o
  | [_] => .ok o
  | arg :: value :: rest =>
    if arg = text "--block-ip" then
      parseOptions { o with blockIps := o.blockIps ++ [value] } rest
    else if arg = text "--block-app" then
      parseOptions { o with blockApps := o.blockApps ++ [value] } rest
    else if arg = text "--block-domain" then
      parseOptions { o with blockDomains := o.blockDomains ++ [value] } rest
    else if arg = text "--lbs" then do
      let n ← stoi value
      parseOptions { o with cfg := { o.cfg with numLbs := n } } rest
    else if arg = text "--fps" then do
      let n ← stoi value
      parseOptions { o with cfg := { o.cfg with fpsPerLb := n } } rest
    else parseOptions o (value :: rest)

/-- The rules of the engine once `main` has passed it what it collected. -/
def Mt.Options.rules (o : Options) : Checked Rules := do
  let rules ← o.blockIps.foldlM Rules.blockIP {}
  return o.blockDomains.foldl Rules.blockDomain (o.blockApps.foldl Rules.blockApp rules)

/-- The loop over the options of `main_working.cpp`. -/
def Simple.parseOptions (rules : BlockingRules) : List Str → Checked BlockingRules
  | [] => .ok rules
  | [_] => .ok rules
  | arg :: value :: rest =>
    if arg = text "--block-ip" then do
      let rules ← rules.blockIP value
      parseOptions rules rest
    else if arg = text "--block-app" then parseOptions (rules.blockApp value) rest
    else if arg = text "--block-domain" then parseOptions (rules.blockDomain value) rest
    else parseOptions rules (value :: rest)

/-! ## The same rules -/

namespace Mt

namespace Rules

theorem mem_blockApp {rules : Rules} {app : Str} {a : AppType} :
    a ∈ (rules.blockApp app).blockedApps ↔ a ∈ rules.blockedApps ∨ appTypeToString a = app := by
  unfold blockApp
  by_cases hname : appTypeToString a = app
  · subst hname
    rw [RuleManager.find_appTypeToString]
    simp
  · split
    · next b hb =>
      have hne : a ≠ b := by
        rintro rfl
        exact hname (by simpa using List.find?_some hb)
      simp [hne, hname]
    · simp [hname]

theorem blockApp_others (rules : Rules) (app : Str) :
    (rules.blockApp app).blockedIps = rules.blockedIps ∧
      (rules.blockApp app).blockedDomains = rules.blockedDomains := by
  unfold blockApp
  split <;> exact ⟨rfl, rfl⟩

theorem ext_iff {rules rules' : Rules} :
    rules = rules' ↔ rules.blockedIps = rules'.blockedIps ∧
      (∀ a, a ∈ rules.blockedApps ↔ a ∈ rules'.blockedApps) ∧
      rules.blockedDomains = rules'.blockedDomains := by
  rw [← Finset.ext_iff]
  cases rules
  cases rules'
  exact Rules.mk.injEq .. |>.to_iff

end Rules

/-- The rules for applications and domains that are made after any others. -/
def Options.named (o : Options) (rules : Rules) : Rules :=
  o.blockDomains.foldl Rules.blockDomain (o.blockApps.foldl Rules.blockApp rules)

theorem foldl_blockApp (apps : List Str) (rules : Rules) :
    (apps.foldl Rules.blockApp rules).blockedIps = rules.blockedIps ∧
      (∀ a, a ∈ (apps.foldl Rules.blockApp rules).blockedApps ↔
        a ∈ rules.blockedApps ∨ appTypeToString a ∈ apps) ∧
      (apps.foldl Rules.blockApp rules).blockedDomains = rules.blockedDomains := by
  induction apps generalizing rules with
  | nil => simp
  | cons app apps ih =>
    obtain ⟨hips, happs, hdomains⟩ := ih (rules.blockApp app)
    obtain ⟨hips', hdomains'⟩ := rules.blockApp_others app
    refine ⟨hips.trans hips', fun a => ?_, hdomains.trans hdomains'⟩
    rw [List.foldl_cons, happs, Rules.mem_blockApp, List.mem_cons, or_assoc]

theorem foldl_blockDomain (domains : List Str) (rules : Rules) :
    domains.foldl Rules.blockDomain rules =
      { rules with blockedDomains := rules.blockedDomains ++ domains } := by
  induction domains generalizing rules with
  | nil => simp
  | cons d domains ih => simp [ih, Rules.blockDomain]

/-- What the rules are made of. -/
theorem Options.named_spec (o : Options) (rules : Rules) :
    (o.named rules).blockedIps = rules.blockedIps ∧
      (∀ a, a ∈ (o.named rules).blockedApps ↔
        a ∈ rules.blockedApps ∨ appTypeToString a ∈ o.blockApps) ∧
      (o.named rules).blockedDomains = rules.blockedDomains ++ o.blockDomains := by
  obtain ⟨hips, happs, hdomains⟩ := foldl_blockApp o.blockApps rules
  unfold named
  rw [foldl_blockDomain]
  exact ⟨hips, happs, congrArg (· ++ o.blockDomains) hdomains⟩

theorem Options.rules_eq (o : Options) :
    o.rules = o.blockIps.foldlM Rules.blockIP {} >>= fun rules => .ok (o.named rules) := rfl

/-- Rules of different kinds may be made in any order. -/
theorem Options.named_blockIP (o : Options) (rules : Rules) (ip : Str) :
    (rules.blockIP ip >>= fun rules => .ok (o.named rules)) = (o.named rules).blockIP ip := by
  unfold Rules.blockIP
  cases parseIP ip with
  | error fault => rfl
  | ok ip =>
    refine congrArg Except.ok (Rules.ext_iff.2 ?_)
    obtain ⟨hips, happs, hdomains⟩ := o.named_spec { rules with
      blockedIps := insert ip rules.blockedIps }
    obtain ⟨hips', happs', hdomains'⟩ := o.named_spec rules
    refine ⟨?_, fun a => (happs a).trans (happs' a).symm, hdomains.trans hdomains'.symm⟩
    rw [hips, hips']

theorem Options.rules_blockIP (o : Options) (ip : Str) :
    ({ o with blockIps := o.blockIps ++ [ip] } : Options).rules =
      o.rules >>= fun rules => rules.blockIP ip := by
  rw [Options.rules_eq, Options.rules_eq, List.foldlM_append, bind_assoc, bind_assoc]
  refine congrArg _ (funext fun rules => ?_)
  rw [ok_bind, ← o.named_blockIP]
  change (rules.blockIP ip >>= fun r => pure r) >>= _ = _
  rw [bind_pure]
  rfl

theorem Options.named_blockApp (o : Options) (rules : Rules) (app : Str) :
    ({ o with blockApps := o.blockApps ++ [app] } : Options).named rules =
      (o.named rules).blockApp app := by
  obtain ⟨hips, happs, hdomains⟩ :=
    ({ o with blockApps := o.blockApps ++ [app] } : Options).named_spec rules
  obtain ⟨hips', happs', hdomains'⟩ := o.named_spec rules
  obtain ⟨hips'', hdomains''⟩ := (o.named rules).blockApp_others app
  refine Rules.ext_iff.2 ⟨?_, fun a => ?_, ?_⟩
  · rw [hips, hips'', hips']
  · rw [happs, Rules.mem_blockApp, happs', List.mem_append, List.mem_singleton, or_assoc]
  · rw [hdomains, hdomains'', hdomains']

theorem Options.named_blockDomain (o : Options) (rules : Rules) (domain : Str) :
    ({ o with blockDomains := o.blockDomains ++ [domain] } : Options).named rules =
      (o.named rules).blockDomain domain := by
  unfold named
  rw [List.foldl_append]
  rfl

theorem Options.rules_blockApp (o : Options) (app : Str) :
    ({ o with blockApps := o.blockApps ++ [app] } : Options).rules =
      o.rules >>= fun rules => .ok (rules.blockApp app) := by
  rw [Options.rules_eq, Options.rules_eq, bind_assoc]
  exact congrArg _ (funext fun rules => congrArg Except.ok (o.named_blockApp rules app))

theorem Options.rules_blockDomain (o : Options) (domain : Str) :
    ({ o with blockDomains := o.blockDomains ++ [domain] } : Options).rules =
      o.rules >>= fun rules => .ok (rules.blockDomain domain) := by
  rw [Options.rules_eq, Options.rules_eq, bind_assoc]
  exact congrArg _ (funext fun rules => congrArg Except.ok (o.named_blockDomain rules domain))

end Mt

/-- No value that `std::stoi` takes is an option of `main_working.cpp`. -/
theorem ne_of_stoi {value : Str} {n : ℤ} (h : stoi value = .ok n) :
    value ≠ text "--block-ip" ∧ value ≠ text "--block-app" ∧ value ≠ text "--block-domain" := by
  refine ⟨?_, ?_, ?_⟩ <;>
  · rintro rfl
    cases h

theorem parseOptions_skip {value : Str} (hip : value ≠ text "--block-ip")
    (happ : value ≠ text "--block-app") (hdomain : value ≠ text "--block-domain")
    (rules : Simple.BlockingRules) (rest : List Str) :
    Simple.parseOptions rules (value :: rest) = Simple.parseOptions rules rest := by
  cases rest with
  | nil => rfl
  | cons next rest => rw [Simple.parseOptions, if_neg hip, if_neg happ, if_neg hdomain]

/-- A number for `dpi_mt.cpp` is nothing to `main_working.cpp`. -/
theorem parseOptions_number {arg value : Str} {n : ℤ} (hip : arg ≠ text "--block-ip")
    (happ : arg ≠ text "--block-app") (hdomain : arg ≠ text "--block-domain")
    (hvalue : stoi value = .ok n) (rules : Simple.BlockingRules) (rest : List Str) :
    Simple.parseOptions rules (arg :: value :: rest) = Simple.parseOptions rules rest := by
  obtain ⟨hip', happ', hdomain'⟩ := ne_of_stoi hvalue
  rw [parseOptions_skip hip happ hdomain, parseOptions_skip hip' happ' hdomain']

theorem parseOptions_rules {o o' : Mt.Options} {options : List Str}
    (h : Mt.parseOptions o options = .ok o') :
    (o.rules >>= fun rules => Simple.parseOptions rules options) = o'.rules := by
  induction o, options using Mt.parseOptions.induct with
  | case1 o =>
    cases h
    exact bind_pure _
  | case2 o arg =>
    cases h
    exact bind_pure _
  | case3 o value rest ih =>
    rw [Mt.parseOptions, if_pos rfl] at h
    rw [← ih h, Mt.Options.rules_blockIP, bind_assoc]
    exact congrArg _ (funext fun rules => by rw [Simple.parseOptions, if_pos rfl]; rfl)
  | case4 o value rest hip ih =>
    rw [Mt.parseOptions, if_neg hip, if_pos rfl] at h
    rw [← ih h, Mt.Options.rules_blockApp, bind_assoc]
    refine congrArg _ (funext fun rules => ?_)
    rw [Simple.parseOptions, if_neg hip, if_pos rfl]
    rfl
  | case5 o value rest hip happ ih =>
    rw [Mt.parseOptions, if_neg hip, if_neg happ, if_pos rfl] at h
    rw [← ih h, Mt.Options.rules_blockDomain, bind_assoc]
    refine congrArg _ (funext fun rules => ?_)
    rw [Simple.parseOptions, if_neg hip, if_neg happ, if_pos rfl]
    rfl
  | case6 o value rest hip happ hdomain ih =>
    rw [Mt.parseOptions, if_neg hip, if_neg happ, if_neg hdomain, if_pos rfl] at h
    cases hn : stoi value with
    | error e =>
      rw [hn] at h
      cases h
    | ok n =>
      rw [hn] at h
      rw [← ih n h]
      exact congrArg _ (funext fun rules => parseOptions_number hip happ hdomain hn rules rest)
  | case7 o value rest hip happ hdomain hlbs ih =>
    rw [Mt.parseOptions, if_neg hip, if_neg happ, if_neg hdomain, if_neg hlbs, if_pos rfl] at h
    cases hn : stoi value with
    | error e =>
      rw [hn] at h
      cases h
    | ok n =>
      rw [hn] at h
      rw [← ih n h]
      exact congrArg _ (funext fun rules => parseOptions_number hip happ hdomain hn rules rest)
  | case8 o arg value rest hip happ hdomain hlbs hfps ih =>
    rw [Mt.parseOptions, if_neg hip, if_neg happ, if_neg hdomain, if_neg hlbs, if_neg hfps] at h
    rw [← ih h]
    exact congrArg _ (funext fun rules => parseOptions_skip hip happ hdomain rules (value :: rest))

/-- A command line that `dpi_mt.cpp` accepts gives `main_working.cpp` the same rules. -/
theorem same_rules {options : List Str} {o : Mt.Options}
    (h : Mt.parseOptions {} options = .ok o) : Simple.parseOptions {} options = o.rules :=
  parseOptions_rules h

/-! ## What the rules are -/

namespace Mt

theorem mem_blockedIps {ips : List Str} {rules rules' : Rules}
    (h : ips.foldlM Rules.blockIP rules = .ok rules') (ip : UInt32) :
    ip ∈ rules'.blockedIps ↔ ip ∈ rules.blockedIps ∨ ∃ value ∈ ips, parseIP value = .ok ip := by
  induction ips generalizing rules with
  | nil =>
    cases h
    simp
  | cons value ips ih =>
    rw [List.foldlM_cons] at h
    obtain ⟨next, hnext, h⟩ := bind_eq_ok_iff.1 h
    obtain ⟨first, hfirst, hret⟩ := bind_eq_ok_iff.1 hnext
    cases hret
    rw [ih h, Finset.mem_insert, List.exists_mem_cons_iff, hfirst, Except.ok.injEq,
      or_comm (a := ip = first), or_assoc, eq_comm (a := ip)]

theorem Options.rules_spec {o : Options} {rules : Rules} (h : o.rules = .ok rules) :
    (∀ ip, ip ∈ rules.blockedIps ↔ ∃ value ∈ o.blockIps, parseIP value = .ok ip) ∧
      (∀ a, a ∈ rules.blockedApps ↔ appTypeToString a ∈ o.blockApps) ∧
      rules.blockedDomains = o.blockDomains := by
  rw [Options.rules_eq] at h
  obtain ⟨first, hfirst, hret⟩ := bind_eq_ok_iff.1 h
  cases hret
  obtain ⟨hips, happs, hdomains⟩ := o.named_spec first
  have hall := mem_blockedIps hfirst
  have hfold : first.blockedApps = ∅ ∧ first.blockedDomains = [] := by
    have hkeep (ips : List Str) (rules rules' : Rules)
        (h : ips.foldlM Rules.blockIP rules = .ok rules') :
        rules'.blockedApps = rules.blockedApps ∧ rules'.blockedDomains = rules.blockedDomains := by
      induction ips generalizing rules with
      | nil =>
        cases h
        exact ⟨rfl, rfl⟩
      | cons value ips ih =>
        rw [List.foldlM_cons] at h
        obtain ⟨next, hnext, h⟩ := bind_eq_ok_iff.1 h
        obtain ⟨ip, -, hret⟩ := bind_eq_ok_iff.1 hnext
        cases hret
        exact ih { rules with blockedIps := insert ip rules.blockedIps } h
    exact hkeep o.blockIps {} first hfirst
  refine ⟨fun ip => ?_, fun a => ?_, ?_⟩
  · rw [hips, hall]
    simp
  · rw [happs, hfold.1]
    simp
  · rw [hdomains, hfold.2, List.nil_append]

end Mt

/-! ## What the options promise -/

/-- The first name that a connection shows is `name`, in its packet `k`; in a DNS connection only
the first packet is looked at. -/
structure FirstName (t : FiveTuple) (names : List (Option Str)) (k : ℕ) (name : Str) : Prop where
  shown : names[k]? = some (some name)
  before : ∀ i < k, names[i]? = some none
  counted : k = 0 ∨ ¬ IsDns t

/-- What the options promise of a five-tuple, `output` being what the output holds of its packets
`input`: only first ones, none from the packet on that shows the first name where that is listed,
and none at all where the address is listed or there is no name at first and the port is listed. -/
structure Enforced {α : Type*} (o : Mt.Options) (t : FiveTuple) (name : α → Option Str)
    (input output : List α) : Prop where
  initial : output <+: input
  ip : ∀ a : Address, a.text ∈ o.blockIps → t.srcIp = a.value → output = []
  named : ∀ k first, FirstName t (input.map name) k first →
    (appTypeToString (sniToAppType first) ∈ o.blockApps ∨
      ∃ domain ∈ o.blockDomains, contains first domain = true) → output <+: input.take k
  unnamed : (input.map name).head? = some none →
    appTypeToString (unnamedApp t) ∈ o.blockApps → output = []

section Passing

variable {rules : Mt.Rules} {t : FiveTuple} {names : List (Option Str)}

theorem passing_eq_zero (h : ∀ name, names.head? = some name →
    name.elim (unnamedBlocked rules t) (namedBlocked rules t) = true) :
    passing rules t names = 0 := by
  cases names with
  | nil => rfl
  | cons name names => rw [passing_cons, if_pos (h name rfl)]

theorem passing_le {k : ℕ} {name : Str} (h : FirstName t names k name)
    (hblocked : namedBlocked rules t name = true) : passing rules t names ≤ k := by
  induction names generalizing k with
  | nil => cases h.shown
  | cons first names ih =>
    cases k with
    | zero =>
      cases h.shown
      rw [passing_cons, Option.elim_some, if_pos hblocked]
    | succ k =>
      cases h.before 0 (Nat.succ_pos k)
      have hdns := h.counted.resolve_left (Nat.succ_ne_zero k)
      have hrest := ih ⟨h.shown, fun i hi => h.before (i + 1) (Nat.succ_lt_succ hi), Or.inr hdns⟩
      rw [passing_cons]
      split_ifs with hnone hwait
      · exact Nat.zero_le _
      · exact Nat.succ_le_succ hrest
      · exact absurd ⟨rfl, hdns⟩ hwait

/-- What the rules let pass keeps the promises of the options. -/
theorem enforced_of_prefix {α : Type*} {o : Mt.Options} {name : α → Option Str}
    {input output : List α} (h : o.rules = .ok rules)
    (hout : output <+: input.take (passing rules t (input.map name))) :
    Enforced o t name input output := by
  obtain ⟨hips, happs, hdomains⟩ := Mt.Options.rules_spec h
  have hnone (hzero : passing rules t (input.map name) = 0) : output = [] := by
    rw [hzero, List.take_zero] at hout
    exact List.prefix_nil.1 hout
  refine
    { initial := hout.trans (List.take_prefix _ _)
      ip := fun a ha ht => hnone (passing_eq_zero fun name _ => ?_)
      named := fun k first hfirst hmatch =>
        hout.trans (List.take_prefix_take_left (passing_le hfirst ?_))
      unnamed := fun hhead happ => hnone (passing_eq_zero fun name hname => ?_) }
  · have hsrc : t.srcIp ∈ rules.blockedIps := by
      rw [hips, ht]
      exact ⟨a.text, ha, parseIP_text a⟩
    cases name <;> simp [unnamedBlocked, namedBlocked, Mt.Rules.isBlocked, hsrc]
  · rcases hmatch with happ | ⟨domain, hdomain, hcontains⟩
    · simp [namedBlocked, Mt.Rules.isBlocked, (happs _).2 happ]
    · have hany : (rules.blockedDomains.any fun dom => contains first dom) = true := by
        rw [hdomains]
        exact List.any_eq_true.2 ⟨domain, hdomain, hcontains⟩
      rw [namedBlocked, Mt.Rules.isBlocked, hany, Bool.or_true]
  · cases Option.some.inj (hhead.symm.trans hname)
    simp [unnamedBlocked, Mt.Rules.isBlocked, (happs _).2 happ]

end Passing

/-! ## The output files -/

theorem Mt.frame_of_acceptPacket {raw : RawPacket} {id : UInt32} {pkt : Packet}
    (h : acceptPacket raw id = .ok (some pkt)) :
    ∃ f : Frame, pkt.data = f.bytes ∧ pkt.tuple = tupleOf f := by
  rcases record_cases raw with hparse | ⟨parsed, hparse, hskip⟩ | ⟨f, hraw, hparse⟩
  · rw [acceptPacket, hparse] at h
    cases h
  · rw [acceptPacket, hparse, ok_bind] at h
    simp only [if_pos hskip] at h
    cases h
  · obtain ⟨mp, hmp, htuple, hdata, -⟩ := createPacket_frame f hraw id
    rw [acceptPacket, hparse, ok_bind] at h
    simp only [kept_frame, hmp] at h
    cases h
    exact ⟨f, hdata, htuple⟩

theorem Mt.frame_of_mem {records : List RawPacket} {id : UInt32} {pkts : List Packet}
    (h : readPackets id records = .ok pkts) :
    ∀ pkt ∈ pkts, ∃ f : Frame, pkt.data = f.bytes ∧ pkt.tuple = tupleOf f := by
  induction records generalizing id pkts with
  | nil =>
    cases h
    simp
  | cons raw records ih =>
    obtain ⟨_ | pkt, haccept, h⟩ := bind_eq_ok_iff.1 h
    · exact ih h
    · obtain ⟨rest, hrest, h⟩ := bind_eq_ok_iff.1 h
      cases h
      exact List.forall_mem_cons.2 ⟨frame_of_acceptPacket haccept, ih hrest⟩

theorem Simple.frame_of_accept {raw : RawPacket} {pkt : Packet}
    (h : accept raw = .ok (some pkt)) :
    ∃ f : Frame, raw.data = f.bytes ∧ pkt.tuple = tupleOf f := by
  rcases record_cases raw with hparse | ⟨parsed, hparse, hskip⟩ | ⟨f, hraw, hparse⟩
  · rw [accept, hparse] at h
    cases h
  · rw [accept, hparse, ok_bind] at h
    simp only [if_pos hskip] at h
    cases h
  · obtain ⟨sp, hsp, htuple, -, -⟩ := accept_frame f hraw
    rw [hsp] at h
    cases h
    exact ⟨f, hraw, htuple⟩

/-- In every run of `dpi_mt.cpp` on any file, with any options that make rules, what the options
promise is kept in the output file, and no frame in it comes from an address that is listed. -/
theorem Mt.options_enforced {o : Options} {rules : Rules} (hrules : o.rules = .ok rules)
    (hf : 0 < o.cfg.fpsPerLb) (records : List RawPacket) :
    ∃ input, readPackets 0 records = .ok input ∧
      ∀ ts e, Run (Engine.Step o.cfg rules) (Engine.start input) ts e →
        (∀ t, Enforced o t Packet.name (input.filter fun pkt => pkt.tuple == t)
          (e.written.filter fun pkt => pkt.tuple == t)) ∧
        ∀ pkt ∈ e.written, ∃ f : Frame, pkt.data = f.bytes ∧ pkt.tuple = tupleOf f ∧
          f.ip.srcIp.text ∉ o.blockIps := by
  obtain ⟨input, -, -, -, hread, -⟩ := Simple.loop_outcome rules {} 0 records
  refine ⟨input, hread, fun ts e hrun => ?_⟩
  have hsound := Engine.sound_of_run (Int.pos_iff_toNat_pos.1 hf) hrun
  have henforced (t : FiveTuple) : Enforced o t Packet.name
      (input.filter fun pkt => pkt.tuple == t) (e.written.filter fun pkt => pkt.tuple == t) :=
    enforced_of_prefix hrules (hsound.written_prefix_passed t)
  refine ⟨henforced, fun pkt hpkt => ?_⟩
  have hmem : pkt ∈ e.written.filter fun p => p.tuple == pkt.tuple :=
    List.mem_filter.2 ⟨hpkt, beq_self_eq_true _⟩
  have hinput : pkt ∈ input := (List.mem_filter.1 ((henforced pkt.tuple).initial.subset hmem)).1
  obtain ⟨f, hdata, htuple⟩ := frame_of_mem hread pkt hinput
  refine ⟨f, hdata, htuple, fun hlisted => ?_⟩
  have hnone := (henforced pkt.tuple).ip f.ip.srcIp hlisted (by rw [htuple]; rfl)
  rw [hnone] at hmem
  cases hmem

/-- A domain is listed, with the numbers of the threads. -/
def domainListed : List Str :=
  [text "--lbs", text "2", text "--block-domain", text "bad", text "--fps", text "2"]

def domainListedOptions : Mt.Options := { cfg := Mt.twoByTwo, blockDomains := [text "bad"] }

theorem parseOptions_domainListed :
    Mt.parseOptions {} domainListed = .ok domainListedOptions := by rfl

theorem rules_domainListed : domainListedOptions.rules = .ok Mt.badBlocked := by rfl

/-- The request for the listed host and the packet after it are cut off. -/
theorem Mt.options_enforced_visits :
    ∃ input ts e, readPackets 0 visitRecords = .ok input ∧ input.length = 4 ∧
      Run (Engine.Step twoByTwo badBlocked) (Engine.start input) ts e ∧ e.main = .returned ∧
      e.written.length = 2 ∧
      (input.filter fun pkt => pkt.tuple == firstClient).length = 3 ∧
      (e.written.filter fun pkt => pkt.tuple == firstClient) <+:
        (input.filter fun pkt => pkt.tuple == firstClient).take 1 := by
  obtain ⟨input, hread, hruns⟩ := options_enforced rules_domainListed (by decide) visitRecords
  have h : (match readPackets 0 visitRecords with
      | .error _ => none
      | .ok input =>
        (Run.exec (fun e l => e.step twoByTwo badBlocked l) (Engine.start input) patientStop).map
          fun e => decide (input.length = 4 ∧ e.main = .returned ∧ e.written.length = 2 ∧
            (input.filter fun pkt => pkt.tuple == firstClient).map Packet.name =
              [none, some (text "bad.com"), none])) = some true := by decide +kernel
  rw [hread] at h
  obtain ⟨e, hexec, h⟩ := Option.map_eq_some_iff.1 h
  obtain ⟨hlength, hret, hwritten, hnames⟩ := of_decide_eq_true h
  obtain ⟨ts, hrun⟩ := Run.of_exec hexec
  have hfirst : FirstName firstClient [none, some (text "bad.com"), none] 1 (text "bad.com") := by
    refine ⟨rfl, fun i hi => ?_, Or.inr (by decide)⟩
    obtain rfl := Nat.lt_one_iff.1 hi
    rfl
  have hlisted : ∃ domain ∈ domainListedOptions.blockDomains,
      contains (text "bad.com") domain = true := ⟨text "bad", by decide, by decide⟩
  have hcut := ((hruns ts e hrun).1 firstClient).named 1 (text "bad.com")
    (hnames.symm ▸ hfirst) (Or.inr hlisted)
  refine ⟨input, ts, e, hread, hlength, hrun, hret, hwritten, ?_, hcut⟩
  rw [← List.length_map Packet.name, hnames]
  rfl

/-- On every file that it opens, and with any command line that `dpi_mt.cpp` accepts,
`main_working.cpp` has the rules of `dpi_mt.cpp`, and keeps what the options promise in its output
file. -/
theorem Simple.program_keeps_options {options : List Str} {o : Mt.Options} {rules : Mt.Rules}
    (ho : Mt.parseOptions {} options = .ok o) (hrules : o.rules = .ok rules) {content : Str}
    {reader : PcapReader} (hopen : openFile content = some reader) :
    parseOptions {} options = .ok rules ∧
      ∃ out st, program rules content = .ok (some (out, st)) ∧
        (∀ t, Enforced o t (fun j => j.2.name) (ofTuple t reader.readAll) (ofTuple t st.output)) ∧
        ∀ raw ∈ st.output, ∃ f : Frame, raw.data = f.bytes ∧ f.ip.srcIp.text ∉ o.blockIps := by
  refine ⟨(same_rules ho).trans hrules, ?_⟩
  obtain ⟨st, log, hprogram, hran⟩ := program_ran hopen rules
  have henforced (t : FiveTuple) :
      Enforced o t (fun j => j.2.name) (ofTuple t reader.readAll) (ofTuple t st.output) :=
    enforced_of_prefix hrules (by rw [hran.ofTuple_output]; exact List.prefix_rfl)
  refine ⟨_, st, hprogram, henforced, fun raw hraw => ?_⟩
  have hkept : raw ∈ (accepted st.output).map Prod.fst := by
    rwa [hran.accepted_output, ← hran.output_eq]
  obtain ⟨j, hj, rfl⟩ := List.mem_map.1 hkept
  obtain ⟨f, hdata, htuple⟩ := frame_of_accept (mem_accepted hj)
  refine ⟨f, hdata, fun hlisted => ?_⟩
  have hnone := (henforced j.2.tuple).ip f.ip.srcIp hlisted (by rw [htuple]; rfl)
  have hmem : j ∈ ofTuple j.2.tuple st.output := List.mem_filter.2 ⟨hj, beq_self_eq_true _⟩
  rw [hnone] at hmem
  cases hmem

theorem Simple.program_keeps_options_visits :
    parseOptions {} domainListed = .ok Mt.badBlocked ∧
      ∃ reader out st, openFile visitCapture.bytes = some reader ∧
        program Mt.badBlocked visitCapture.bytes = .ok (some (out, st)) ∧
        (ofTuple firstClient reader.readAll).length = 3 ∧
        ofTuple firstClient st.output <+: (ofTuple firstClient reader.readAll).take 1 := by
  have hopen := visitCapture.openFile_bytes
  obtain ⟨hparse, out, st, hprogram, henforced, -⟩ :=
    program_keeps_options parseOptions_domainListed rules_domainListed hopen
  have hrecords := readAll_visitCapture hopen
  have hnames : (ofTuple firstClient visitRecords).map (fun j => j.2.name) =
      [none, some (text "bad.com"), none] := by decide +kernel
  refine ⟨hparse, _, out, st, hopen, hprogram, ?_, (henforced firstClient).named 1
    (text "bad.com") ?_ (Or.inr ⟨text "bad", by decide, by decide⟩)⟩
  · rw [hrecords, ← List.length_map fun j => j.2.name]
    exact congrArg List.length hnames
  · rw [hrecords]
    refine ⟨congrArg (·[1]?) hnames, fun i hi => ?_, Or.inr (by decide)⟩
    obtain rfl := Nat.lt_one_iff.1 hi
    exact congrArg (·[0]?) hnames

end DPI
