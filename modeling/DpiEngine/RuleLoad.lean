import DpiEngine.RuleReload
import Mathlib.Data.List.ReduceOption

/-!
# Loading rules

`loadRules` of `rule_manager.cpp` with the ways it ends: it returns `false` on a file that cannot be
opened, returns `true` behind the last line, or leaves with an exception of `std::stoi` on a line of
the port section, when the rules of the lines before are in force already.  Lines that are no rule
as `saveRules` writes it are passed over or read as another rule.
-/

namespace DPI

open Bytes Lines

namespace RuleManager

/-! ## The ways a load ends -/

/-- The loop over the lines, on the manager and the current section: what the manager holds when
the loop is left, and how it is left. -/
def loadLines (st : RuleManager × Str) : List Str → RuleManager × Except LoadError Bool
  | [] => (st.1, .ok true)
  | line :: rest =>
    match loadLine st line with
    | .ok st => loadLines st rest
    | .error e => (st.1, .error e)

/-- A call of `loadRules`; a file that cannot be opened has no contents. -/
def loadFile (rm : RuleManager) : Option Str → RuleManager × Except LoadError Bool
  | none => (rm, .ok false)
  | some contents => loadLines (rm, []) (lines 0x0a contents)

/-- The loop told by the rules in the file: each is in force before the next is read. -/
def applyAll (rm : RuleManager) : List (Str × Str) → RuleManager × Except LoadError Bool
  | [] => (rm, .ok true)
  | e :: es =>
    match denotes e with
    | .ok r => applyAll (r.elim rm rm.block) es
    | .error err => (rm, .error err)

theorem loadLines_eq (rm : RuleManager) (sec : Str) (ls : List Str) :
    loadLines (rm, sec) ls = applyAll rm (filed sec ls) := by
  induction ls generalizing rm sec with
  | nil => rfl
  | cons line ls ih =>
    rw [loadLines, filed]
    by_cases hempty : line = []
    · subst hempty
      exact ih rm sec
    by_cases hhead : IsHead line
    · rw [loadLine_of_head rm sec hhead, if_neg hempty, if_pos hhead]
      exact ih rm line
    · rw [loadLine_of_plain rm sec ⟨hempty, hhead⟩, if_neg hempty, if_neg hhead, applyAll]
      cases denotes (sec, line) with
      | error e => rfl
      | ok r => exact ih _ sec

theorem loadFile_some (rm : RuleManager) (contents : Str) :
    loadFile rm (some contents) = applyAll rm (filed [] (lines 0x0a contents)) :=
  loadLines_eq rm [] _

variable {rm rm' : RuleManager} {es : List (Str × Str)}

theorem applyAll_eq_true_iff : applyAll rm es = (rm', .ok true) ↔ addAll rm es = .ok rm' := by
  induction es generalizing rm with
  | nil => simp [applyAll, addAll, pure, Except.pure]
  | cons e es ih =>
    rw [applyAll, addAll_cons_eq_ok_iff]
    rcases denotes e with err | r
    · exact iff_of_false (by simp) (by simp)
    · simp only [Except.ok.injEq, exists_eq_left']
      exact ih

/-- A load that returns `true` is one that gets through the file. -/
theorem loadFile_eq_true_iff (contents : Str) :
    loadFile rm (some contents) = (rm', .ok true) ↔ loadRules rm contents = .ok rm' := by
  rw [loadFile_some, applyAll_eq_true_iff, loadRules_eq]

theorem applyAll_ne_false : applyAll rm es ≠ (rm', .ok false) := by
  induction es generalizing rm with
  | nil => simp [applyAll]
  | cons e es ih =>
    rw [applyAll]
    cases denotes e with
    | error err => simp
    | ok r => exact ih

theorem applyAll_append {before rest : List (Str × Str)} (h : addAll rm before = .ok rm') :
    applyAll rm (before ++ rest) = applyAll rm' rest := by
  induction before generalizing rm with
  | nil =>
    cases h
    rfl
  | cons e before ih =>
    obtain ⟨r, he, h⟩ := addAll_cons_eq_ok_iff.1 h
    rw [List.cons_append, applyAll, he]
    exact ih h

/-- The loop is left at a line that cannot be converted, with the rules of the lines before it. -/
theorem applyAll_eq_error_iff {err : LoadError} :
    applyAll rm es = (rm', .error err) ↔ ∃ before e after, es = before ++ e :: after ∧
      addAll rm before = .ok rm' ∧ denotes e = .error err := by
  constructor
  · intro h
    induction es generalizing rm with
    | nil => simp [applyAll] at h
    | cons e es ih =>
      rw [applyAll] at h
      rcases he : denotes e with err' | r
      · rw [he] at h
        cases h
        exact ⟨[], e, es, rfl, rfl, he⟩
      · rw [he] at h
        obtain ⟨before, e', after, rfl, hbefore, herr⟩ := ih h
        exact ⟨e :: before, e', after, rfl, addAll_cons_eq_ok_iff.2 ⟨r, he, hbefore⟩, herr⟩
  · rintro ⟨before, e, after, rfl, hbefore, herr⟩
    rw [applyAll_append hbefore, applyAll, herr]

/-- Only a number of the port section throws. -/
theorem denotes_eq_thrown_iff {sec line : Str} {err : StoiError} :
    denotes (sec, line) = .error (.thrown err) ↔ sec = portSection ∧ stoi line = .error err := by
  simp only [denotes]
  split_ifs with hip happ hdomain hport
  · cases parseIP line <;> simp [hip, Except.mapError]
  · simp [happ]
  · simp [hdomain]
  · cases stoi line <;> simp [hport, Except.mapError]
  · simp [hport]

/-- What a list of lines adds is what its lines denote, one after the other. -/
theorem addAll_eq_ok_iff : addAll rm es = .ok rm' ↔
    ∃ rs, List.Forall₂ (fun e r => denotes e = .ok r) es rs ∧
      rm' = rs.reduceOption.foldl block rm := by
  induction es generalizing rm with
  | nil => simp [addAll, pure, Except.pure, List.reduceOption_nil, eq_comm]
  | cons e es ih =>
    rw [addAll_cons_eq_ok_iff]
    constructor
    · rintro ⟨r, he, h⟩
      obtain ⟨rs, hrs, rfl⟩ := ih.1 h
      refine ⟨r :: rs, .cons he hrs, ?_⟩
      rcases r with _ | r <;> rfl
    · rintro ⟨_, h, rfl⟩
      obtain ⟨r, rs, he, hrs, rfl⟩ := List.forall₂_cons_left_iff.1 h
      refine ⟨r, he, ih.2 ⟨rs, hrs, ?_⟩⟩
      rcases r with _ | r <;> rfl

/-! ## Failed loads -/

/-- A load that returns `false` changes nothing.  One that throws has read a line of the port
section that `std::stoi` rejects, and has added the rules that the lines before it denote, and no
others. -/
theorem failed_load (rm rm' : RuleManager) (file : Option Str) :
    (loadFile rm file = (rm', .ok false) → rm' = rm) ∧
    ∀ err, loadFile rm file = (rm', .error (.thrown err)) →
      ∃ contents before line after rs, file = some contents ∧
        filed [] (lines 0x0a contents) = before ++ (portSection, line) :: after ∧
        stoi line = .error err ∧ List.Forall₂ (fun e r => denotes e = .ok r) before rs ∧
        rm' = rs.reduceOption.foldl block rm := by
  cases file with
  | none =>
    constructor
    · intro h
      cases h
      rfl
    · intro err h
      cases h
  | some contents =>
    rw [loadFile_some]
    refine ⟨fun h => absurd h applyAll_ne_false, fun err h => ?_⟩
    obtain ⟨before, ⟨sec, line⟩, after, hes, hbefore, herr⟩ := applyAll_eq_error_iff.1 h
    obtain ⟨rfl, hstoi⟩ := denotes_eq_thrown_iff.1 herr
    obtain ⟨rs, hrs, hrm⟩ := addAll_eq_ok_iff.1 hbefore
    exact ⟨contents, before, line, after, rs, rfl, hes, hstoi, hrs, hrm⟩

/-- A file with a port that is no number behind a domain. -/
def badPort : Str := text "[BLOCKED_DOMAINS]\nbad.com\n[BLOCKED_PORTS]\nhttp\n"

/-- The domain stays blocked. -/
theorem badPort_partly_loaded :
    loadFile {} (some badPort) =
        ({ blockedDomains := {text "bad.com"} }, .error (.thrown .invalidArgument)) ∧
      ¬ ∀ rm', (∃ r, loadFile {} (some badPort) = (rm', r) ∧ r ≠ .ok true) →
        rm' = ({} : RuleManager) := by
  have hload : loadFile {} (some badPort) =
      ({ blockedDomains := {text "bad.com"} }, .error (.thrown .invalidArgument)) := by
    decide +kernel
  refine ⟨hload, fun h => ?_⟩
  have := congrArg blockedDomains (h _ ⟨_, hload, nofun⟩)
  revert this
  decide

/-! ## Lines as `saveRules` writes them -/

/-- The line is the text of the rule, in the section of its kind. -/
def Spells : Str × Str → Rule → Prop
  | (sec, line), .ip ip => sec = ipSection ∧ line = ipToString ip
  | (sec, line), .app app => sec = appSection ∧ line = appTypeToString app
  | (sec, line), .domain domain => sec = domainSection ∧ line = domain
  | (sec, line), .port port => sec = portSection ∧ line = decimal port.toNat

theorem Spells.denotes {e : Str × Str} {r : Rule} (h : Spells e r) :
    RuleManager.denotes e = .ok (some r) := by
  obtain ⟨sec, line⟩ := e
  cases r with
  | ip ip =>
    obtain ⟨rfl, rfl⟩ := h
    exact (denotes_ip_iff _ _ ip).2 ⟨rfl, parseIP_ipToString ip⟩
  | app app =>
    obtain ⟨rfl, rfl⟩ := h
    exact (denotes_app_iff _ _ app).2 ⟨rfl, rfl⟩
  | domain domain => exact (denotes_domain_iff _ _ domain).2 h
  | port port =>
    obtain ⟨rfl, rfl⟩ := h
    exact (denotes_port_iff _ _ port).2 ⟨rfl, _, stoi_port port, toPort_toNat port⟩

/-- Lines that spell rules add these. -/
theorem addAll_of_spells {rs : List Rule} (h : List.Forall₂ Spells es rs) (rm : RuleManager) :
    addAll rm es = .ok (rs.foldl block rm) := by
  induction h generalizing rm with
  | nil => rfl
  | cons hr _ ih => exact addAll_cons_eq_ok_iff.2 ⟨_, hr.denotes, ih _⟩

theorem exists_spelled_iff :
    (∃ rs, List.Forall₂ Spells es rs) ↔ ∀ e ∈ es, ∃ r, Spells e r := by
  induction es with
  | nil => exact iff_of_true ⟨[], .nil⟩ (by simp)
  | cons e es ih =>
    rw [List.forall_mem_cons, ← ih]
    constructor
    · rintro ⟨_, h⟩
      obtain ⟨r, rs, hr, hrs, -⟩ := List.forall₂_cons_left_iff.1 h
      exact ⟨⟨r, hr⟩, rs, hrs⟩
    · rintro ⟨⟨r, hr⟩, rs, hrs⟩
      exact ⟨r :: rs, .cons hr hrs⟩

theorem not_exists_addAll_iff (rm : RuleManager) (es : List (Str × Str)) :
    (¬ ∃ rm', addAll rm es = .ok rm') ↔
      (∃ line, (ipSection, line) ∈ es ∧ ¬ Defined (parseIP line)) ∨
        ∃ line, (portSection, line) ∈ es ∧ ¬ ∃ n, stoi line = .ok n := by
  rw [exists_addAll_iff, not_forall]
  constructor
  · rintro ⟨⟨sec, line⟩, hload⟩
    obtain ⟨hmem, hfails⟩ := Classical.not_imp.1 hload
    rw [exists_denotes_iff, not_and_or] at hfails
    rcases hfails with hip | hport
    · obtain ⟨rfl, hnone⟩ := Classical.not_imp.1 hip
      exact Or.inl ⟨line, hmem, hnone⟩
    · obtain ⟨rfl, hnone⟩ := Classical.not_imp.1 hport
      exact Or.inr ⟨line, hmem, hnone⟩
  · rintro (⟨line, hmem, hip⟩ | ⟨line, hmem, hport⟩)
    · exact ⟨_, fun h => hip (((exists_denotes_iff _ _).1 (h hmem)).1 rfl)⟩
    · exact ⟨_, fun h => hport (((exists_denotes_iff _ _).1 (h hmem)).2 rfl)⟩

/-- A load that returns `true` adds exactly the rules that the lines spell, and every line spells
one, exactly when every line that is no head and not empty spells a rule, or else the load does not
return: some line of the address section takes `parseIP` out of its range or some line of the port
section is rejected by `std::stoi`. -/
theorem exact_load_iff (rm : RuleManager) (contents : Str) :
    (∀ rm', loadFile rm (some contents) = (rm', .ok true) →
      ∃ rs, List.Forall₂ Spells (filed [] (lines 0x0a contents)) rs ∧ rm' = rs.foldl block rm) ↔
    (∀ e ∈ filed [] (lines 0x0a contents), ∃ r, Spells e r) ∨
      (∃ line, (ipSection, line) ∈ filed [] (lines 0x0a contents) ∧ ¬ Defined (parseIP line)) ∨
      ∃ line, (portSection, line) ∈ filed [] (lines 0x0a contents) ∧
        ¬ ∃ n, stoi line = .ok n := by
  simp only [loadFile_eq_true_iff, loadRules_eq]
  generalize filed [] (lines 0x0a contents) = es
  rw [← not_exists_addAll_iff rm]
  constructor
  · intro h
    refine or_iff_not_imp_right.2 fun hload => ?_
    obtain ⟨rm', hrm'⟩ := not_not.1 hload
    obtain ⟨rs, hrs, -⟩ := h rm' hrm'
    exact exists_spelled_iff.1 ⟨rs, hrs⟩
  · rintro (hspells | hfails) rm' hrm'
    · obtain ⟨rs, hrs⟩ := exists_spelled_iff.2 hspells
      rw [addAll_of_spells hrs] at hrm'
      exact ⟨rs, hrs, (Except.ok.inj hrm').symm⟩
    · exact absurd ⟨rm', hrm'⟩ hfails

/-- A file with a port that does not fit 16 bits. -/
def widePort : Str := text "[BLOCKED_PORTS]\n70000\n"

/-- The rule is read as one for another port. -/
theorem widePort_truncated :
    loadFile {} (some widePort) = ({ blockedPorts := {4464} }, .ok true) ∧
      ¬ ∃ rs, List.Forall₂ Spells (filed [] (lines 0x0a widePort)) rs ∧
        ({ blockedPorts := {4464} } : RuleManager) = rs.foldl block {} := by
  refine ⟨by decide +kernel, ?_⟩
  rintro ⟨rs, hrs, -⟩
  have hmem : (portSection, text "70000") ∈ filed [] (lines 0x0a widePort) := by decide +kernel
  obtain ⟨r, hr⟩ := exists_spelled_iff.1 ⟨rs, hrs⟩ _ hmem
  cases r with
  | ip _ => exact absurd hr.1 (by decide)
  | app _ => exact absurd hr.1 (by decide)
  | domain _ => exact absurd hr.1 (by decide)
  | port port =>
    have hvalue := congrArg digitsValue hr.2
    rw [digitsValue_decimal, show digitsValue (text "70000") = 70000 from by decide] at hvalue
    have := port.toNat_lt
    omega

end RuleManager

end DPI
