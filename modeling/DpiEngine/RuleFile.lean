import DpiEngine.Lib.Lines
import DpiEngine.RuleSet

/-!
# Rule files

`saveRules` and `loadRules` of `rule_manager.cpp`.  The file has a section for each kind of rule and
a line for each rule, and nothing is escaped.  A domain that holds a newline is read back in pieces,
and a piece that begins with a bracket is read as the head of a section, so the lines after it are
rules of another kind or none.

A file that `saveRules` cannot open, which it answers with `false`, is not modelled.
-/

namespace DPI

open Bytes Lines

/-! ## Numbers in a text -/

inductive StoiError where
  | invalidArgument
  | outOfRange
  deriving DecidableEq, Repr

/-- How the reading of a file stops: at an undefined operation or at an exception of `std::stoi`. -/
inductive LoadError where
  | undefined (fault : Fault)
  | thrown (error : StoiError)
  deriving DecidableEq, Repr

/-- `std::isspace` in the C locale. -/
def isSpace (c : UInt8) : Bool := c == 0x20 || decide (0x09 ≤ c ∧ c ≤ 0x0d)

def isDigit (c : UInt8) : Bool := decide (0x30 ≤ c ∧ c ≤ 0x39)

/-- The number that a run of digits stands for. -/
def digitsValue (digits : Str) : ℕ := digits.foldl (fun n c => 10 * n + (c.toNat - 0x30)) 0

/-- `std::stoi`: space, a sign and digits are read, and what follows them is ignored. -/
def stoi (s : Str) : Except StoiError ℤ :=
  let s := s.dropWhile isSpace
  let (negative, s) :=
    match s with
    | 0x2d :: rest => (true, rest)
    | 0x2b :: rest => (false, rest)
    | _ => (false, s)
  let digits := s.takeWhile isDigit
  if digits.isEmpty then .error .invalidArgument
  else
    let value : ℤ := if negative then -(digitsValue digits : ℤ) else digitsValue digits
    if -(intMax + 1 : ℤ) ≤ value ∧ value ≤ intMax then .ok value else .error .outOfRange

/-- `static_cast<uint16_t>` of an `int`. -/
def toPort (n : ℤ) : UInt16 := UInt16.ofNat (n % 65536).toNat

/-! ## Writing and reading -/

/-- The enumerators of `AppType` in their order. -/
def AppType.all : List AppType :=
  [.unknown, .http, .https, .dns, .tls, .quic, .google, .facebook, .youtube, .twitter, .instagram,
    .netflix, .amazon, .microsoft, .apple, .whatsapp, .telegram, .tiktok, .spotify, .zoom,
    .discord, .github, .cloudflare]

def ipSection : Str := text "[BLOCKED_IPS]"
def appSection : Str := text "[BLOCKED_APPS]"
def domainSection : Str := text "[BLOCKED_DOMAINS]"
def portSection : Str := text "[BLOCKED_PORTS]"

namespace RuleManager

/-- The orders in which the hash sets of a manager are iterated. -/
structure Iteration (rm : RuleManager) where
  ips : List UInt32
  apps : List AppType
  domains : List Str
  ports : List UInt16
  ips_order : (ips : Multiset UInt32) = rm.blockedIps.val
  apps_order : (apps : Multiset AppType) = rm.blockedApps.val
  domains_order : (domains : Multiset Str) = rm.blockedDomains.val
  ports_order : (ports : Multiset UInt16) = rm.blockedPorts.val

/-- The domains in the order of `getBlockedDomains`. -/
def Iteration.getBlockedDomains {rm : RuleManager} (it : Iteration rm) : List Str :=
  it.domains ++ rm.domainPatterns

/-- The contents of the file. -/
def saveRules (rm : RuleManager) (it : Iteration rm) : Str :=
  ipSection ++ text "\n" ++ unlines 0x0a (it.ips.map ipToString) ++
    text "\n" ++ appSection ++ text "\n" ++ unlines 0x0a (it.apps.map appTypeToString) ++
    text "\n" ++ domainSection ++ text "\n" ++ unlines 0x0a it.getBlockedDomains ++
    text "\n" ++ portSection ++ text "\n" ++
      unlines 0x0a (it.ports.map fun port => decimal port.toNat)

/-- One turn of the loop, on the manager and the current section. -/
def loadLine (st : RuleManager × Str) (line : Str) : Except LoadError (RuleManager × Str) :=
  let (rm, currentSection) := st
  if line.isEmpty then .ok (rm, currentSection)
  else if line.head? = some 0x5b then .ok (rm, line)
  else if currentSection = ipSection then do
    let rm ← (rm.blockIPText line).mapError LoadError.undefined
    return (rm, currentSection)
  else if currentSection = appSection then
    match AppType.all.find? fun app => appTypeToString app == line with
    | some app => .ok (rm.blockApp app, currentSection)
    | none => .ok (rm, currentSection)
  else if currentSection = domainSection then .ok (rm.blockDomain line, currentSection)
  else if currentSection = portSection then do
    let n ← (stoi line).mapError LoadError.thrown
    return (rm.blockPort (toPort n), currentSection)
  else .ok (rm, currentSection)

/-- The manager after a file with the given contents is loaded into it. -/
def loadRules (rm : RuleManager) (file : Str) : Except LoadError RuleManager :=
  Prod.fst <$> (lines 0x0a file).foldlM loadLine (rm, [])

/-! ## Filed lines -/

/-- The line begins a section. -/
def IsHead (line : Str) : Prop := line.head? = some 0x5b

instance : DecidablePred IsHead := fun _ => inferInstanceAs (Decidable (_ = _))

/-- The lines that hold rules, each with the section it is read in; `sec` is the section before the
first of them. -/
def filed (sec : Str) : List Str → List (Str × Str)
  | [] => []
  | line :: rest =>
    if line = [] then filed sec rest
    else if IsHead line then filed line rest
    else (sec, line) :: filed sec rest

/-- The section after some lines. -/
def sectionAfter (sec : Str) : List Str → Str
  | [] => sec
  | line :: rest => sectionAfter (if IsHead line then line else sec) rest

theorem filed_append (sec : Str) (ls ls' : List Str) :
    filed sec (ls ++ ls') = filed sec ls ++ filed (sectionAfter sec ls) ls' := by
  induction ls generalizing sec with
  | nil => rfl
  | cons line ls ih =>
    rw [List.cons_append, filed, filed, sectionAfter]
    by_cases hempty : line = []
    · have hhead : ¬ IsHead line := by
        rw [hempty]
        decide
      rw [if_pos hempty, if_pos hempty, if_neg hhead, ih]
    · rw [if_neg hempty, if_neg hempty]
      by_cases hhead : IsHead line
      · rw [if_pos hhead, if_pos hhead, if_pos hhead, ih]
      · rw [if_neg hhead, if_neg hhead, if_neg hhead, ih, List.cons_append]

/-- A line that is read as a rule of the section it is written in. -/
def Plain (line : Str) : Prop := line ≠ [] ∧ ¬ IsHead line

theorem filed_plain (sec : Str) {ls : List Str} (h : ∀ l ∈ ls, Plain l) :
    filed sec ls = ls.map (sec, ·) ∧ sectionAfter sec ls = sec := by
  induction ls with
  | nil => exact ⟨rfl, rfl⟩
  | cons line ls ih =>
    obtain ⟨hempty, hhead⟩ := h line List.mem_cons_self
    obtain ⟨hfiled, hafter⟩ := ih fun l hl => h l (List.mem_cons_of_mem _ hl)
    rw [filed, if_neg hempty, if_neg hhead, sectionAfter, if_neg hhead, hfiled]
    exact ⟨rfl, hafter⟩

/-- The rule that a line denotes in its section. -/
def denotes : Str × Str → Except LoadError (Option Rule)
  | (sec, line) =>
    if sec = ipSection then (fun ip => some (.ip ip)) <$> (parseIP line).mapError .undefined
    else if sec = appSection then
      .ok ((AppType.all.find? fun app => appTypeToString app == line).map .app)
    else if sec = domainSection then .ok (some (.domain line))
    else if sec = portSection then
      (fun n => some (.port (toPort n))) <$> (stoi line).mapError .thrown
    else .ok none

/-- A plain line adds the rule it denotes. -/
theorem loadLine_of_plain (rm : RuleManager) (sec : Str) {line : Str} (h : Plain line) :
    loadLine (rm, sec) line =
      (fun r => (r.elim rm rm.block, sec)) <$> denotes (sec, line) := by
  obtain ⟨hempty, hhead⟩ := h
  have hne : ¬ line.isEmpty = true := by simpa using hempty
  simp only [loadLine, denotes]
  rw [if_neg hne, if_neg (show ¬ line.head? = some 0x5b from hhead)]
  split_ifs with hip happ hdomain hport
  · rw [blockIPText]
    cases parseIP line <;> rfl
  · cases AppType.all.find? fun app => appTypeToString app == line <;> rfl
  · rfl
  · cases stoi line <;> rfl
  · rfl

/-- A head only changes the section. -/
theorem loadLine_of_head (rm : RuleManager) (sec : Str) {line : Str} (h : IsHead line) :
    loadLine (rm, sec) line = .ok (rm, line) := by
  have hne : ¬ line.isEmpty = true := by
    rw [List.isEmpty_iff]
    rintro rfl
    cases h
  simp only [loadLine]
  rw [if_neg hne, if_pos (show line.head? = some 0x5b from h)]

/-- The rules that a list of filed lines adds. -/
def addAll (rm : RuleManager) (es : List (Str × Str)) : Except LoadError RuleManager :=
  es.foldlM (fun rm e => (fun r => r.elim rm rm.block) <$> denotes e) rm

theorem addAll_cons_eq_ok_iff {rm rm' : RuleManager} {e : Str × Str} {es : List (Str × Str)} :
    addAll rm (e :: es) = .ok rm' ↔
      ∃ r, denotes e = .ok r ∧ addAll (r.elim rm rm.block) es = .ok rm' := by
  rw [addAll, List.foldlM_cons]
  rcases denotes e with err | r
  · exact iff_of_false nofun (by simp)
  · simp only [Except.ok.injEq, exists_eq_left']
    rfl

theorem foldlM_loadLine (rm : RuleManager) (sec : Str) (ls : List Str) :
    ls.foldlM loadLine (rm, sec) =
      (fun rm => (rm, sectionAfter sec ls)) <$> addAll rm (filed sec ls) := by
  induction ls generalizing rm sec with
  | nil => rfl
  | cons line ls ih =>
    rw [List.foldlM_cons, filed, sectionAfter]
    by_cases hempty : line = []
    · subst hempty
      exact ih rm sec
    · by_cases hhead : IsHead line
      · rw [loadLine_of_head rm sec hhead, if_neg hempty, if_pos hhead, if_pos hhead]
        exact ih rm line
      · rw [loadLine_of_plain rm sec ⟨hempty, hhead⟩, if_neg hempty, if_neg hhead, if_neg hhead,
          addAll, List.foldlM_cons]
        cases denotes (sec, line) with
        | error e => rfl
        | ok r => exact ih _ sec

theorem loadRules_eq (rm : RuleManager) (file : Str) :
    loadRules rm file = addAll rm (filed [] (lines 0x0a file)) := by
  rw [loadRules, foldlM_loadLine]
  cases addAll rm (filed [] (lines 0x0a file)) <;> rfl

end RuleManager

end DPI
