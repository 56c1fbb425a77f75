import Mathlib.Data.List.TakeWhile
import DpiEngine.RuleFile

/-!
# Reloading rules

What a manager holds that has loaded the rules saved by another, and when it blocks what the other
blocks.  Addresses, applications and ports come back as they were; domains come back as the lines
that their text is cut into.
-/

namespace DPI

open Bytes Lines

/-! ## Numbers and addresses are plain lines -/

theorem toNat_toUInt8 {d : Char} (h : d.isDigit = true) : d.toUInt8.toNat = d.toNat := by
  have hle := (Char.isDigit_iff_toNat.1 h).2
  rw [Char.toUInt8, UInt32.toNat_toUInt8]
  exact Nat.mod_eq_of_lt (lt_of_le_of_lt hle (by decide))

theorem isDigit_of_mem_decimal {n : ℕ} {c : UInt8} (h : c ∈ decimal n) : isDigit c = true := by
  obtain ⟨d, hd, rfl⟩ := List.mem_map.1 h
  have hdigit := Nat.isDigit_of_mem_toDigits (by decide) (by decide) hd
  rw [isDigit, decide_eq_true_iff, UInt8.le_iff_toNat_le, UInt8.le_iff_toNat_le,
    toNat_toUInt8 hdigit]
  exact Char.isDigit_iff_toNat.1 hdigit

theorem decimal_ne_nil (n : ℕ) : decimal n ≠ [] := by
  simp [decimal]

theorem isSpace_of_isDigit {c : UInt8} (h : isDigit c = true) : isSpace c = false := by
  have hdigit := UInt8.le_iff_toNat_le.1 (of_decide_eq_true h).1
  rw [isSpace, Bool.or_eq_false_iff, beq_eq_false_iff_ne, decide_eq_false_iff_not]
  constructor
  · rintro rfl
    exact absurd h (by decide)
  · intro hc
    have := hdigit.trans (UInt8.le_iff_toNat_le.1 hc.2)
    simp at this

/-- A digit is none of the other bytes that mean something in a rules file. -/
theorem ne_of_isDigit {c : UInt8} (h : isDigit c = true) {b : UInt8} (hb : isDigit b = false) :
    c ≠ b := by
  rintro rfl
  rw [h] at hb
  cases hb

theorem digitsValue_decimal (n : ℕ) : digitsValue (decimal n) = n := by
  have hfold (l : List Char) (hl : ∀ d ∈ l, d.isDigit = true) (k : ℕ) :
      (l.map Char.toUInt8).foldl (fun n c => 10 * n + (c.toNat - 0x30)) k =
        Nat.ofDigitChars 10 l k := by
    induction l generalizing k with
    | nil => rfl
    | cons d l ih =>
      rw [List.map_cons, List.foldl_cons, ih fun x hx => hl x (List.mem_cons_of_mem _ hx),
        toNat_toUInt8 (hl d List.mem_cons_self)]
      rfl
  rw [digitsValue, decimal,
    hfold _ fun d hd => Nat.isDigit_of_mem_toDigits (by decide) (by decide) hd]
  exact Nat.ofDigitChars_ten_toDigits

theorem stoi_decimal {n : ℕ} (h : n ≤ intMax) : stoi (decimal n) = .ok (n : ℤ) := by
  have hdigits : (decimal n).takeWhile isDigit = decimal n :=
    List.takeWhile_eq_self_iff.2 fun c hc => isDigit_of_mem_decimal hc
  have hvalue := digitsValue_decimal n
  obtain ⟨c, rest, hc⟩ := List.exists_cons_of_ne_nil (decimal_ne_nil n)
  have hdigit : isDigit c = true := isDigit_of_mem_decimal (hc ▸ List.mem_cons_self)
  rw [hc] at hdigits hvalue ⊢
  unfold stoi
  have hspace : ¬ isSpace c = true := by simp [isSpace_of_isDigit hdigit]
  simp only [List.dropWhile_cons_of_neg hspace]
  split
  · rename_i heq
    exact absurd (List.cons.inj heq).1 (ne_of_isDigit hdigit (by decide))
  · rename_i heq
    exact absurd (List.cons.inj heq).1 (ne_of_isDigit hdigit (by decide))
  · simp only [hdigits, hvalue, List.isEmpty_cons, if_neg Bool.false_ne_true]
    exact if_pos (by omega)

namespace RuleManager

theorem plain_of_isDigit {c : UInt8} (h : isDigit c = true) (rest : Str) : Plain (c :: rest) := by
  refine ⟨List.cons_ne_nil _ _, fun hhead => ?_⟩
  exact ne_of_isDigit h (b := 0x5b) (by decide) (Option.some.inj hhead)

theorem plain_decimal_append (n : ℕ) (rest : Str) : Plain (decimal n ++ rest) := by
  obtain ⟨c, ds, hc⟩ := List.exists_cons_of_ne_nil (decimal_ne_nil n)
  rw [hc]
  exact plain_of_isDigit (isDigit_of_mem_decimal (hc ▸ List.mem_cons_self)) _

theorem newline_notMem_decimal (n : ℕ) : 0x0a ∉ decimal n :=
  fun h => absurd (isDigit_of_mem_decimal h) (by decide)

theorem plain_ipToString (ip : UInt32) : Plain (ipToString ip) := by
  simp only [ipToString, List.append_assoc]
  exact plain_decimal_append _ _

theorem newline_notMem_ipToString (ip : UInt32) : 0x0a ∉ ipToString ip := by
  have hdot : (0x0a : UInt8) ∉ text "." := by decide
  simp only [ipToString, List.mem_append, newline_notMem_decimal, hdot, or_self, not_false_iff]

theorem plain_appTypeToString (app : AppType) :
    Plain (appTypeToString app) ∧ 0x0a ∉ appTypeToString app := by
  cases app <;> exact ⟨⟨by decide, by decide⟩, by decide⟩

/-! ## The lines of a saved file -/

/-- A section of the file begins with its head and holds the pieces of its lines. -/
theorem filed_section (sec : Str) {name : Str} (hhead : IsHead name) (hname : 0x0a ∉ name)
    (ls : List Str) (rest : Str) :
    filed sec (lines 0x0a (name ++ (text "\n" ++ (unlines 0x0a ls ++ rest)))) =
      filed name (ls.flatMap (pieces 0x0a)) ++
        filed (sectionAfter name (ls.flatMap (pieces 0x0a))) (lines 0x0a rest) := by
  have hempty : name ≠ [] := by
    rintro rfl
    cases hhead
  rw [show text "\n" ++ (unlines 0x0a ls ++ rest) = 0x0a :: (unlines 0x0a ls ++ rest) from rfl,
    lines_cons_line hname, lines_unlines_append, filed, if_neg hempty, if_pos hhead, filed_append]

theorem filed_gap (sec : Str) (rest : Str) :
    filed sec (lines 0x0a (text "\n" ++ rest)) = filed sec (lines 0x0a rest) := by
  rw [show text "\n" ++ rest = 0x0a :: rest from rfl, lines_sep_cons, filed, if_pos rfl]

/-- The lines that the domains of a file are cut into, each with the section it is read in. -/
def filedDomains (domains : List Str) : List (Str × Str) :=
  filed domainSection (domains.flatMap (pieces 0x0a))

theorem filed_plain_pieces (sec : Str) {ls : List Str} (h : ∀ l ∈ ls, Plain l ∧ 0x0a ∉ l) :
    filed sec (ls.flatMap (pieces 0x0a)) = ls.map (sec, ·) := by
  rw [flatMap_pieces fun l hl => (h l hl).2]
  exact (filed_plain sec fun l hl => (h l hl).1).1

theorem filed_saveRules (rm : RuleManager) (it : Iteration rm) :
    filed [] (lines 0x0a (saveRules rm it)) =
      (it.ips.map ipToString).map (ipSection, ·) ++
        ((it.apps.map appTypeToString).map (appSection, ·) ++
          (filedDomains it.getBlockedDomains ++
            (it.ports.map fun port => decimal port.toNat).map (portSection, ·))) := by
  have hips : ∀ l ∈ it.ips.map ipToString, Plain l ∧ 0x0a ∉ l := by
    intro l hl
    obtain ⟨ip, -, rfl⟩ := List.mem_map.1 hl
    exact ⟨plain_ipToString ip, newline_notMem_ipToString ip⟩
  have happs : ∀ l ∈ it.apps.map appTypeToString, Plain l ∧ 0x0a ∉ l := by
    intro l hl
    obtain ⟨app, -, rfl⟩ := List.mem_map.1 hl
    exact plain_appTypeToString app
  have hports : ∀ l ∈ it.ports.map fun port => decimal port.toNat, Plain l ∧ 0x0a ∉ l := by
    intro l hl
    obtain ⟨port, -, rfl⟩ := List.mem_map.1 hl
    have := plain_decimal_append port.toNat []
    rw [List.append_nil] at this
    exact ⟨this, newline_notMem_decimal _⟩
  have hend : unlines 0x0a (it.ports.map fun port => decimal port.toNat) =
      unlines 0x0a (it.ports.map fun port => decimal port.toNat) ++ [] := (List.append_nil _).symm
  rw [saveRules, hend]
  simp only [List.append_assoc]
  rw [filed_section _ (by decide) (by decide), filed_gap,
    filed_section _ (by decide) (by decide), filed_gap,
    filed_section _ (by decide) (by decide), filed_gap,
    filed_section _ (by decide) (by decide), filed_plain_pieces _ hips,
    filed_plain_pieces _ happs, filed_plain_pieces _ hports]
  rw [show lines 0x0a ([] : Str) = [] from rfl, filed, List.append_nil]
  rfl

/-! ## What the lines denote -/

@[simp] theorem ipSection_ne_appSection : ipSection ≠ appSection := by decide

@[simp] theorem ipSection_ne_domainSection : ipSection ≠ domainSection := by decide

@[simp] theorem ipSection_ne_portSection : ipSection ≠ portSection := by decide

@[simp] theorem appSection_ne_domainSection : appSection ≠ domainSection := by decide

@[simp] theorem appSection_ne_portSection : appSection ≠ portSection := by decide

@[simp] theorem domainSection_ne_portSection : domainSection ≠ portSection := by decide

theorem find_appTypeToString (app : AppType) :
    (AppType.all.find? fun a => appTypeToString a == appTypeToString app) = some app := by
  cases app <;> decide

theorem map_mapError_eq_ok_iff {ε ε' α β : Type} (x : Except ε α) (f : ε → ε') (g : α → β)
    (b : β) : g <$> x.mapError f = .ok b ↔ ∃ a, x = .ok a ∧ g a = b := by
  cases x <;> simp [Except.mapError]

theorem denotes_ip_iff (sec line : Str) (ip : UInt32) :
    denotes (sec, line) = .ok (some (.ip ip)) ↔ sec = ipSection ∧ parseIP line = .ok ip := by
  simp only [denotes]
  split_ifs with hip <;> simp [hip, map_mapError_eq_ok_iff]

theorem denotes_app_iff (sec line : Str) (app : AppType) :
    denotes (sec, line) = .ok (some (.app app)) ↔
      sec = appSection ∧ appTypeToString app = line := by
  simp only [denotes]
  split_ifs with hip happ
  · simp [hip, map_mapError_eq_ok_iff]
  · have hfind : (AppType.all.find? fun a => appTypeToString a == line) = some app ↔
        appTypeToString app = line := by
      constructor
      · intro h
        simpa using List.find?_some h
      · rintro rfl
        exact find_appTypeToString app
    simp [happ, hfind]
  · simp [happ]
  · simp [happ, map_mapError_eq_ok_iff]
  · simp [happ]

theorem denotes_domain_iff (sec line d : Str) :
    denotes (sec, line) = .ok (some (.domain d)) ↔ sec = domainSection ∧ line = d := by
  simp only [denotes]
  split_ifs with hip happ hdomain
  · simp [hip, map_mapError_eq_ok_iff]
  · simp [happ]
  · simp [hdomain]
  · simp [hdomain, map_mapError_eq_ok_iff]
  · simp [hdomain]

theorem denotes_port_iff (sec line : Str) (port : UInt16) :
    denotes (sec, line) = .ok (some (.port port)) ↔
      sec = portSection ∧ ∃ n, stoi line = .ok n ∧ toPort n = port := by
  simp only [denotes]
  split_ifs with hip happ hdomain hport
  · simp [hip, map_mapError_eq_ok_iff]
  · simp [happ]
  · simp [hdomain]
  · simp [hport, map_mapError_eq_ok_iff]
  · simp [hport]

/-- Only addresses and ports can fail to be read. -/
theorem exists_denotes_iff (sec line : Str) :
    (∃ r, denotes (sec, line) = .ok r) ↔
      (sec = ipSection → ∃ ip, parseIP line = .ok ip) ∧
        (sec = portSection → ∃ n, stoi line = .ok n) := by
  simp only [denotes]
  split_ifs with hip happ hdomain hport
  · simp [hip, map_mapError_eq_ok_iff]
  · simp [happ, ipSection_ne_appSection.symm]
  · simp [hdomain, ipSection_ne_domainSection.symm]
  · simp only [map_mapError_eq_ok_iff]
    constructor
    · rintro ⟨_, n, hn, -⟩
      exact ⟨fun h => absurd h hip, fun _ => ⟨n, hn⟩⟩
    · rintro ⟨-, h⟩
      obtain ⟨n, hn⟩ := h hport
      exact ⟨_, n, hn, rfl⟩
  · exact iff_of_true ⟨_, rfl⟩ ⟨fun h => absurd h hip, fun h => absurd h hport⟩

/-! ## What a list of lines adds -/

theorem exists_addAll_iff (rm : RuleManager) (es : List (Str × Str)) :
    (∃ rm', addAll rm es = .ok rm') ↔ ∀ e ∈ es, ∃ r, denotes e = .ok r := by
  induction es generalizing rm with
  | nil => exact iff_of_true ⟨rm, rfl⟩ (by simp)
  | cons e es ih =>
    rw [List.forall_mem_cons]
    constructor
    · rintro ⟨rm', h⟩
      obtain ⟨r, he, h⟩ := addAll_cons_eq_ok_iff.1 h
      exact ⟨⟨r, he⟩, (ih _).1 ⟨rm', h⟩⟩
    · rintro ⟨⟨r, he⟩, hes⟩
      obtain ⟨rm', h⟩ := (ih (r.elim rm rm.block)).2 hes
      exact ⟨rm', addAll_cons_eq_ok_iff.2 ⟨r, he, h⟩⟩

theorem addAll_ok {rm rm' : RuleManager} {es : List (Str × Str)} (h : addAll rm es = .ok rm') :
    (rm.Sorted → rm'.Sorted) ∧
      ∀ r, rm'.InForce r ↔ rm.InForce r ∨ ∃ e ∈ es, denotes e = .ok (some r) := by
  induction es generalizing rm with
  | nil =>
    cases h
    simp
  | cons e es ih =>
    obtain ⟨x, he, h⟩ := addAll_cons_eq_ok_iff.1 h
    obtain ⟨hsorted, hforce⟩ := ih h
    refine ⟨fun hs => hsorted ?_, fun r => ?_⟩
    · rcases x with _ | x
      · exact hs
      · exact hs.edit (.add x)
    · rw [hforce]
      rcases x with _ | x
      · simp [he]
      · simp [he, inForce_block, or_assoc, or_left_comm, eq_comm]

/-! ## Equal decisions -/

/-- The managers decide every packet alike. -/
def SameDecisions (rm rm' : RuleManager) : Prop :=
  ∀ srcIp dstPort app domain,
    rm'.shouldBlock srcIp dstPort app domain = rm.shouldBlock srcIp dstPort app domain

/-- Every address is blocked, so that no other rule decides a packet. -/
def AllIps (rm : RuleManager) : Prop := ∀ ip, ip ∈ rm.blockedIps

def AllPorts (rm : RuleManager) : Prop := ∀ port, port ∈ rm.blockedPorts

def AllApps (rm : RuleManager) : Prop := ∀ app, app ∈ rm.blockedApps

theorem first_match_eq_iff {α : Type} {b b' : Bool} {x : α} {r r' : Option α} (hr : r ≠ some x)
    (hr' : r' ≠ some x) :
    ((if b' = true then some x else r') = if b = true then some x else r) ↔
      (b' = true ↔ b = true) ∧ (b = true ∨ r' = r) := by
  cases b <;> cases b' <;> simp [hr.symm, hr']

theorem shouldBlock_eq_iff (rm rm' : RuleManager) (srcIp : UInt32) (dstPort : UInt16)
    (app : AppType) (domain : Str) :
    rm'.shouldBlock srcIp dstPort app domain = rm.shouldBlock srcIp dstPort app domain ↔
      (srcIp ∈ rm'.blockedIps ↔ srcIp ∈ rm.blockedIps) ∧ (srcIp ∈ rm.blockedIps ∨
        (dstPort ∈ rm'.blockedPorts ↔ dstPort ∈ rm.blockedPorts) ∧ (dstPort ∈ rm.blockedPorts ∨
          (app ∈ rm'.blockedApps ↔ app ∈ rm.blockedApps) ∧ (app ∈ rm.blockedApps ∨
            (domain ≠ [] →
              (rm'.isDomainBlocked domain = true ↔ rm.isDomainBlocked domain = true))))) := by
  unfold shouldBlock
  rw [first_match_eq_iff (by split_ifs <;> simp) (by split_ifs <;> simp),
    first_match_eq_iff (by split_ifs <;> simp) (by split_ifs <;> simp),
    first_match_eq_iff (by split_ifs <;> simp) (by split_ifs <;> simp),
    first_match_eq_iff (by simp) (by simp)]
  simp only [isIPBlocked, isPortBlocked, isAppBlocked, decide_eq_true_iff]
  cases domain <;> simp

theorem sameDecisions_iff (rm rm' : RuleManager) :
    SameDecisions rm rm' ↔ (∀ ip, ip ∈ rm'.blockedIps ↔ ip ∈ rm.blockedIps) ∧ (rm.AllIps ∨
      (∀ port, port ∈ rm'.blockedPorts ↔ port ∈ rm.blockedPorts) ∧ (rm.AllPorts ∨
        (∀ app, app ∈ rm'.blockedApps ↔ app ∈ rm.blockedApps) ∧ (rm.AllApps ∨
          ∀ name ≠ [], rm'.isDomainBlocked name = true ↔ rm.isDomainBlocked name = true))) := by
  unfold SameDecisions
  simp only [shouldBlock_eq_iff]
  constructor
  · intro h
    refine ⟨fun ip => (h ip 0 .unknown []).1, ?_⟩
    by_cases hips : rm.AllIps
    · exact Or.inl hips
    · obtain ⟨ip, hip⟩ := not_forall.1 hips
      have h2 (port app name) := (h ip port app name).2.resolve_left hip
      refine Or.inr ⟨fun port => (h2 port .unknown []).1, ?_⟩
      by_cases hports : rm.AllPorts
      · exact Or.inl hports
      · obtain ⟨port, hport⟩ := not_forall.1 hports
        have h3 (app name) := (h2 port app name).2.resolve_left hport
        refine Or.inr ⟨fun app => (h3 app []).1, ?_⟩
        by_cases happs : rm.AllApps
        · exact Or.inl happs
        · obtain ⟨app, happ⟩ := not_forall.1 happs
          exact Or.inr fun name hname => (h3 app name).2.resolve_left happ hname
  · rintro ⟨hips, h⟩ srcIp dstPort app domain
    refine ⟨hips srcIp, h.imp (fun hall => hall srcIp) ?_⟩
    rintro ⟨hports, h⟩
    refine ⟨hports dstPort, h.imp (fun hall => hall dstPort) ?_⟩
    rintro ⟨happs, h⟩
    exact ⟨happs app, h.imp (fun hall => hall app) fun hdomains => hdomains domain⟩

/-! ## Save and reload -/

theorem mem_of_order {α : Type} {l : List α} {t : Finset α} (h : (l : Multiset α) = t.val) (a : α) :
    a ∈ l ↔ a ∈ t := by
  rw [← Multiset.mem_coe, h, Finset.mem_val]

theorem mem_map_section {α : Type} {l : List α} {f : α → Str} {s sec line : Str} :
    (sec, line) ∈ (l.map f).map (s, ·) ↔ sec = s ∧ ∃ a ∈ l, f a = line := by
  rw [List.map_map, List.mem_map]
  constructor
  · rintro ⟨a, ha, h⟩
    cases h
    exact ⟨rfl, a, ha, rfl⟩
  · rintro ⟨rfl, a, ha, rfl⟩
    exact ⟨a, ha, rfl⟩

section Filed

variable {rm : RuleManager} (it : Iteration rm) (sec line : Str)

theorem mem_filed_saveRules :
    (sec, line) ∈ filed [] (lines 0x0a (saveRules rm it)) ↔
      (sec = ipSection ∧ ∃ ip ∈ rm.blockedIps, ipToString ip = line) ∨
      (sec = appSection ∧ ∃ app ∈ rm.blockedApps, appTypeToString app = line) ∨
      (sec, line) ∈ filedDomains it.getBlockedDomains ∨
      (sec = portSection ∧ ∃ port ∈ rm.blockedPorts, decimal port.toNat = line) := by
  rw [filed_saveRules, List.mem_append, List.mem_append, List.mem_append, mem_map_section,
    mem_map_section, mem_map_section]
  simp only [mem_of_order it.ips_order, mem_of_order it.apps_order, mem_of_order it.ports_order]

theorem mem_filed_ips :
    (ipSection, line) ∈ filed [] (lines 0x0a (saveRules rm it)) ↔
      (∃ ip ∈ rm.blockedIps, ipToString ip = line) ∨
        (ipSection, line) ∈ filedDomains it.getBlockedDomains := by
  simp [mem_filed_saveRules]

theorem mem_filed_apps :
    (appSection, line) ∈ filed [] (lines 0x0a (saveRules rm it)) ↔
      (∃ app ∈ rm.blockedApps, appTypeToString app = line) ∨
        (appSection, line) ∈ filedDomains it.getBlockedDomains := by
  simp [mem_filed_saveRules, ipSection_ne_appSection.symm]

theorem mem_filed_domains :
    (domainSection, line) ∈ filed [] (lines 0x0a (saveRules rm it)) ↔
      (domainSection, line) ∈ filedDomains it.getBlockedDomains := by
  simp [mem_filed_saveRules, ipSection_ne_domainSection.symm, appSection_ne_domainSection.symm]

theorem mem_filed_ports :
    (portSection, line) ∈ filed [] (lines 0x0a (saveRules rm it)) ↔
      (∃ port ∈ rm.blockedPorts, decimal port.toNat = line) ∨
        (portSection, line) ∈ filedDomains it.getBlockedDomains := by
  simp [mem_filed_saveRules, ipSection_ne_portSection.symm, appSection_ne_portSection.symm, or_comm]

end Filed

theorem toPort_toNat (port : UInt16) : toPort (port.toNat : ℤ) = port := by
  have hlt := port.toNat_lt
  apply UInt16.toNat_inj.1
  rw [toPort, UInt16.toNat_ofNat']
  omega

theorem stoi_port (port : UInt16) : stoi (decimal port.toNat) = .ok (port.toNat : ℤ) := by
  have hlt := port.toNat_lt
  exact stoi_decimal (by rw [intMax]; omega)

/-- A saved file can be read iff the pieces of its domains can. -/
theorem exists_loadRules_iff (rm : RuleManager) (it : Iteration rm) :
    (∃ rm', loadRules {} (saveRules rm it) = .ok rm') ↔
      (∀ line, (ipSection, line) ∈ filedDomains it.getBlockedDomains →
        ∃ ip, parseIP line = .ok ip) ∧
      (∀ line, (portSection, line) ∈ filedDomains it.getBlockedDomains →
        ∃ n, stoi line = .ok n) := by
  simp only [loadRules_eq, exists_addAll_iff, Prod.forall, exists_denotes_iff, mem_filed_saveRules]
  constructor
  · intro h
    constructor
    · exact fun line hline => (h _ line (Or.inr (Or.inr (Or.inl hline)))).1 rfl
    · exact fun line hline => (h _ line (Or.inr (Or.inr (Or.inl hline)))).2 rfl
  · rintro ⟨hips, hports⟩ sec line h
    rcases h with ⟨rfl, ip, -, rfl⟩ | ⟨rfl, _⟩ | hline | ⟨rfl, port, -, rfl⟩
    · exact ⟨fun _ => ⟨ip, parseIP_ipToString ip⟩, fun h => absurd h (by decide)⟩
    · exact ⟨fun h => absurd h (by decide), fun h => absurd h (by decide)⟩
    · exact ⟨fun h => hips line (h ▸ hline), fun h => hports line (h ▸ hline)⟩
    · exact ⟨fun h => absurd h (by decide), fun _ => ⟨_, stoi_port port⟩⟩

/-- What a manager holds once it has loaded a saved file. -/
structure Reloaded (rm : RuleManager) (domains : List Str) (rm' : RuleManager) : Prop where
  sorted : rm'.Sorted
  ips : ∀ ip, ip ∈ rm'.blockedIps ↔ ip ∈ rm.blockedIps ∨
    ∃ line, (ipSection, line) ∈ filedDomains domains ∧ parseIP line = .ok ip
  apps : ∀ app, app ∈ rm'.blockedApps ↔ app ∈ rm.blockedApps ∨
    (appSection, appTypeToString app) ∈ filedDomains domains
  names : ∀ d, rm'.InForce (.domain d) ↔ (domainSection, d) ∈ filedDomains domains
  ports : ∀ port, port ∈ rm'.blockedPorts ↔ port ∈ rm.blockedPorts ∨
    ∃ line, (portSection, line) ∈ filedDomains domains ∧ ∃ n, stoi line = .ok n ∧ toPort n = port

/-- What a rule in force after the loading comes from, where `denotes` makes it of the lines with
property `P` in section `sec`. -/
theorem inForce_of_loadRules {rm' : RuleManager} {text : Str} (h : loadRules {} text = .ok rm')
    {r : Rule} {sec : Str} {P : Str → Prop}
    (hr : ∀ sec' line, denotes (sec', line) = .ok (some r) ↔ sec' = sec ∧ P line) :
    rm'.InForce r ↔ ∃ line, (sec, line) ∈ filed [] (lines 0x0a text) ∧ P line := by
  rw [loadRules_eq] at h
  have hfresh : ¬ InForce {} r := by cases r <;> simp [InForce]
  simp only [(addAll_ok h).2 r, hfresh, false_or, Prod.exists, hr]
  constructor
  · rintro ⟨_, line, hmem, rfl, hline⟩
    exact ⟨line, hmem, hline⟩
  · rintro ⟨line, hmem, hline⟩
    exact ⟨sec, line, hmem, rfl, hline⟩

theorem reloaded_of_loadRules {rm rm' : RuleManager} {it : Iteration rm}
    (h : loadRules {} (saveRules rm it) = .ok rm') :
    Reloaded rm it.getBlockedDomains rm' where
  sorted := by
    rw [loadRules_eq] at h
    exact (addAll_ok h).1 ⟨by simp, by simp⟩
  ips ip := by
    refine (inForce_of_loadRules (r := .ip ip) h fun sec line =>
      denotes_ip_iff sec line ip).trans ?_
    simp only [mem_filed_ips]
    constructor
    · rintro ⟨line, ⟨ip', hip, rfl⟩ | hline, hparse⟩
      · rw [parseIP_ipToString] at hparse
        exact Or.inl (Except.ok.inj hparse ▸ hip)
      · exact Or.inr ⟨line, hline, hparse⟩
    · rintro (hip | ⟨line, hline, hparse⟩)
      · exact ⟨_, Or.inl ⟨ip, hip, rfl⟩, parseIP_ipToString ip⟩
      · exact ⟨line, Or.inr hline, hparse⟩
  apps app := by
    refine (inForce_of_loadRules (r := .app app) h fun sec line =>
      denotes_app_iff sec line app).trans ?_
    simp only [mem_filed_apps, exists_eq_right']
    constructor
    · rintro (⟨app', happ, hname⟩ | hline)
      · have hfind := find_appTypeToString app'
        rw [hname, find_appTypeToString app] at hfind
        exact Or.inl (Option.some.inj hfind ▸ happ)
      · exact Or.inr hline
    · exact fun hmem => hmem.imp_left fun happ => ⟨app, happ, rfl⟩
  names d := by
    refine (inForce_of_loadRules (r := .domain d) h fun sec line =>
      denotes_domain_iff sec line d).trans ?_
    simp only [mem_filed_domains, exists_eq_right]
  ports port := by
    refine (inForce_of_loadRules (r := .port port) h fun sec line =>
      denotes_port_iff sec line port).trans ?_
    simp only [mem_filed_ports]
    constructor
    · rintro ⟨line, ⟨port', hport', rfl⟩ | hline, n, hn, hport⟩
      · rw [stoi_port] at hn
        rw [← Except.ok.inj hn, toPort_toNat] at hport
        exact Or.inl (hport ▸ hport')
      · exact Or.inr ⟨line, hline, n, hn, hport⟩
    · rintro (hport | ⟨line, hline, n, hn, hport⟩)
      · exact ⟨_, Or.inl ⟨port, hport, rfl⟩, _, stoi_port port, toPort_toNat port⟩
      · exact ⟨line, Or.inr hline, n, hn, hport⟩

/-- The pieces of the domains add nothing that changes a decision. -/
structure ReadsBack (rm : RuleManager) (domains : List Str) : Prop where
  ips : ∀ line, (ipSection, line) ∈ filedDomains domains →
    ∃ ip ∈ rm.blockedIps, parseIP line = .ok ip
  ports : ∀ line, (portSection, line) ∈ filedDomains domains →
    ∃ n, stoi line = .ok n ∧ (rm.AllIps ∨ toPort n ∈ rm.blockedPorts)
  apps : ∀ app, (appSection, appTypeToString app) ∈ filedDomains domains →
    rm.AllIps ∨ rm.AllPorts ∨ app ∈ rm.blockedApps
  names : rm.AllIps ∨ rm.AllPorts ∨ rm.AllApps ∨ ∀ name ≠ [],
    (∃ d, (domainSection, d) ∈ filedDomains domains ∧ domainRuleMatches d name = true) ↔
      ∃ d ∈ domains, domainRuleMatches d name = true

theorem mem_getBlockedDomains {rm : RuleManager} (h : rm.Sorted) (it : Iteration rm) (d : Str) :
    d ∈ it.getBlockedDomains ↔ rm.InForce (.domain d) := by
  rw [Iteration.getBlockedDomains, List.mem_append, mem_of_order it.domains_order, InForce]
  split_ifs with hd
  · exact or_iff_right fun hmem => h.exact d hmem hd
  · exact or_iff_left fun hmem => hd (h.wildcard d hmem)

/-- A reloaded manager decides alike iff what the pieces add is in force or never consulted. -/
theorem Reloaded.sameDecisions_iff {rm rm' : RuleManager} {it : Iteration rm} (hrm : rm.Sorted)
    (h : Reloaded rm it.getBlockedDomains rm') :
    SameDecisions rm rm' ↔
      (∀ line ip, (ipSection, line) ∈ filedDomains it.getBlockedDomains → parseIP line = .ok ip →
        ip ∈ rm.blockedIps) ∧ (rm.AllIps ∨
      (∀ line n, (portSection, line) ∈ filedDomains it.getBlockedDomains → stoi line = .ok n →
        toPort n ∈ rm.blockedPorts) ∧ (rm.AllPorts ∨
      (∀ app, (appSection, appTypeToString app) ∈ filedDomains it.getBlockedDomains →
        app ∈ rm.blockedApps) ∧ (rm.AllApps ∨ ∀ name ≠ [],
      (∃ d, (domainSection, d) ∈ filedDomains it.getBlockedDomains ∧
          domainRuleMatches d name = true) ↔
        ∃ d ∈ it.getBlockedDomains, domainRuleMatches d name = true))) := by
  rw [RuleManager.sameDecisions_iff]
  simp only [h.ips, h.apps, h.ports, or_iff_left_iff_imp, isDomainBlocked_iff h.sorted,
    isDomainBlocked_iff hrm, h.names, mem_getBlockedDomains hrm]
  refine and_congr ?_ (or_congr_right (and_congr ?_ Iff.rfl))
  · constructor
    · exact fun hall line ip hline hip => hall ip ⟨line, hline, hip⟩
    · rintro hall ip ⟨line, hline, hip⟩
      exact hall line ip hline hip
  · constructor
    · exact fun hall line n hline hn => hall _ ⟨line, hline, n, hn, rfl⟩
    · rintro hall port ⟨line, hline, n, hn, rfl⟩
      exact hall line n hline hn

theorem readsBack_of_loadRules {rm rm' : RuleManager} {it : Iteration rm} (hrm : rm.Sorted)
    (hload : loadRules {} (saveRules rm it) = .ok rm') (hsame : SameDecisions rm rm') :
    ReadsBack rm it.getBlockedDomains := by
  obtain ⟨hips, hports⟩ := (exists_loadRules_iff rm it).1 ⟨rm', hload⟩
  obtain ⟨hip, hrest⟩ := ((reloaded_of_loadRules hload).sameDecisions_iff hrm).1 hsame
  refine ⟨fun line hline => ?_, fun line hline => ?_, fun app happ => ?_, ?_⟩
  · obtain ⟨ip, hparse⟩ := hips line hline
    exact ⟨ip, hip line ip hline hparse, hparse⟩
  · obtain ⟨n, hn⟩ := hports line hline
    exact ⟨n, hn, hrest.imp_right fun h => h.1 line n hline hn⟩
  · exact hrest.imp_right fun h => h.2.imp_right fun h => h.1 app happ
  · exact hrest.imp_right fun h => h.2.imp_right fun h => h.2

theorem ReadsBack.loadRules {rm : RuleManager} {it : Iteration rm} (hrm : rm.Sorted)
    (h : ReadsBack rm it.getBlockedDomains) :
    ∃ rm', RuleManager.loadRules {} (saveRules rm it) = .ok rm' ∧ SameDecisions rm rm' := by
  obtain ⟨rm', hload⟩ := (exists_loadRules_iff rm it).2
    ⟨fun line hline => (h.ips line hline).imp fun _ h => h.2,
      fun line hline => (h.ports line hline).imp fun _ h => h.1⟩
  refine ⟨rm', hload, ((reloaded_of_loadRules hload).sameDecisions_iff hrm).2 ⟨?_, ?_⟩⟩
  · intro line ip hline hip
    obtain ⟨ip', hmem, hip'⟩ := h.ips line hline
    rw [hip] at hip'
    exact Except.ok.inj hip' ▸ hmem
  · by_cases hips : rm.AllIps
    · exact Or.inl hips
    · refine Or.inr ⟨fun line n hline hn => ?_, ?_⟩
      · obtain ⟨n', hn', hport⟩ := h.ports line hline
        rw [hn] at hn'
        exact Except.ok.inj hn' ▸ hport.resolve_left hips
      · by_cases hports : rm.AllPorts
        · exact Or.inl hports
        · refine Or.inr ⟨fun app happ => ?_, (h.names.resolve_left hips).resolve_left hports⟩
          exact ((h.apps app happ).resolve_left hips).resolve_left hports

/-- Domains without newlines that do not begin with a bracket read back as they are. -/
theorem readsBack_of_plain (rm : RuleManager) {domains : List Str}
    (h : ∀ d ∈ domains, 0x0a ∉ d ∧ ¬ IsHead d) : ReadsBack rm domains := by
  have hfiled (sec line : Str) : (sec, line) ∈ filedDomains domains ↔
      sec = domainSection ∧ line ∈ domains ∧ line ≠ [] := by
    rw [filedDomains, flatMap_pieces fun d hd => (h d hd).1]
    induction domains with
    | nil => simp [filed]
    | cons d ds ih =>
      have hrest := ih fun x hx => h x (List.mem_cons_of_mem _ hx)
      rw [filed, if_neg (h d List.mem_cons_self).2]
      by_cases hd : d = []
      · rw [if_pos hd, hrest, List.mem_cons, hd]
        refine and_congr_right fun _ => and_congr_left fun hne => ?_
        exact (or_iff_right hne).symm
      · rw [if_neg hd, List.mem_cons, hrest, List.mem_cons, Prod.mk.injEq]
        constructor
        · rintro (⟨rfl, rfl⟩ | ⟨rfl, hmem, hne⟩)
          · exact ⟨rfl, Or.inl rfl, hd⟩
          · exact ⟨rfl, Or.inr hmem, hne⟩
        · rintro ⟨rfl, rfl | hmem, hne⟩
          · exact Or.inl ⟨rfl, rfl⟩
          · exact Or.inr ⟨rfl, hmem, hne⟩
  refine ⟨fun line hline => ?_, fun line hline => ?_, fun app happ => ?_, ?_⟩
  · exact absurd ((hfiled _ _).1 hline).1 (by decide)
  · exact absurd ((hfiled _ _).1 hline).1 (by decide)
  · exact absurd ((hfiled _ _).1 happ).1 (by decide)
  · refine Or.inr (Or.inr (Or.inr fun name hname => ?_))
    simp only [hfiled, true_and]
    constructor
    · rintro ⟨d, ⟨hd, -⟩, hmatch⟩
      exact ⟨d, hd, hmatch⟩
    · rintro ⟨d, hd, hmatch⟩
      refine ⟨d, ⟨hd, ?_⟩, hmatch⟩
      rintro rfl
      exact hname (by simpa [domainRuleMatches] using hmatch)

/-- Rules whose domains hold no newline and do not begin with a bracket survive. -/
theorem reload_of_plain (es : List RuleEdit) (it : Iteration (after es))
    (h : ∀ d, (after es).InForce (.domain d) → 0x0a ∉ d ∧ ¬ IsHead d) :
    ∃ rm', loadRules {} (saveRules (after es) it) = .ok rm' ∧ SameDecisions (after es) rm' := by
  apply ReadsBack.loadRules (sorted_after es)
  apply readsBack_of_plain
  exact fun d hd => h d ((mem_getBlockedDomains (sorted_after es) it d).1 hd)

/-- Rules that were saved and loaded into a fresh manager decide every packet as before iff the
pieces that the domains are cut into denote addresses, ports and applications that are blocked
anyway and domains that match the same names. -/
theorem reload_sameDecisions_iff (es : List RuleEdit) (it : Iteration (after es)) :
    (∃ rm', loadRules {} (saveRules (after es) it) = .ok rm' ∧ SameDecisions (after es) rm') ↔
      ReadsBack (after es) it.getBlockedDomains := by
  constructor
  · rintro ⟨rm', hload, hsame⟩
    exact readsBack_of_loadRules (sorted_after es) hload hsame
  · exact ReadsBack.loadRules (sorted_after es)

/-- A rule for a host that is written as an address in brackets. -/
def addressLiteral : List RuleEdit := [.add (.domain (text "[2001:db8::1]"))]

def addressLiteralOrder : Iteration (after addressLiteral) where
  ips := []
  apps := []
  domains := [text "[2001:db8::1]"]
  ports := []
  ips_order := rfl
  apps_order := rfl
  domains_order := by decide
  ports_order := rfl

/-- The rule is read as the head of a section and lost. -/
theorem addressLiteral_lost :
    ¬ ∃ rm', loadRules {} (saveRules (after addressLiteral) addressLiteralOrder) = .ok rm' ∧
      SameDecisions (after addressLiteral) rm' := by
  have hload : loadRules {} (saveRules (after addressLiteral) addressLiteralOrder) = .ok {} := by
    decide +kernel
  rintro ⟨rm', h, hsame⟩
  rw [hload] at h
  cases h
  have := hsame 0 0 .unknown (text "[2001:db8::1]")
  revert this
  decide

end RuleManager

end DPI
