import Mathlib.Data.Finset.Basic
import DpiEngine.AddressText

/-!
# Blocking rules

`RuleManager` of `rule_manager.cpp`: blocked source addresses, applications, domains (exact names
and `*.` patterns) and destination ports, and the combined check.  The locks only serialise the
operations and the log lines carry no state, so neither is modelled.
-/

namespace DPI

open Bytes

/-! ## The rules -/

structure RuleManager where
  blockedIps : Finset UInt32 := ∅
  blockedApps : Finset AppType := ∅
  blockedDomains : Finset Str := ∅
  domainPatterns : List Str := []
  blockedPorts : Finset UInt16 := ∅
  deriving DecidableEq

inductive BlockReasonType where
  | ip | app | domain | port
  deriving DecidableEq, Repr

structure BlockReason where
  type : BlockReasonType
  detail : Str
  deriving DecidableEq, Repr

namespace RuleManager

def blockIP (rm : RuleManager) (ip : UInt32) : RuleManager :=
  { rm with blockedIps := insert ip rm.blockedIps }

/-- `blockIP(const std::string&)`. -/
def blockIPText (rm : RuleManager) (ip : Str) : Checked RuleManager := do
  return rm.blockIP (← parseIP ip)

def unblockIP (rm : RuleManager) (ip : UInt32) : RuleManager :=
  { rm with blockedIps := rm.blockedIps.erase ip }

/-- `unblockIP(const std::string&)`. -/
def unblockIPText (rm : RuleManager) (ip : Str) : Checked RuleManager := do
  return rm.unblockIP (← parseIP ip)

def isIPBlocked (rm : RuleManager) (ip : UInt32) : Bool := decide (ip ∈ rm.blockedIps)

def blockApp (rm : RuleManager) (app : AppType) : RuleManager :=
  { rm with blockedApps := insert app rm.blockedApps }

def unblockApp (rm : RuleManager) (app : AppType) : RuleManager :=
  { rm with blockedApps := rm.blockedApps.erase app }

def isAppBlocked (rm : RuleManager) (app : AppType) : Bool := decide (app ∈ rm.blockedApps)

/-- A domain with a star anywhere is kept as a pattern. -/
def blockDomain (rm : RuleManager) (domain : Str) : RuleManager :=
  if 0x2a ∈ domain then { rm with domainPatterns := rm.domainPatterns ++ [domain] }
  else { rm with blockedDomains := insert domain rm.blockedDomains }

/-- Only the first copy of a pattern is removed. -/
def unblockDomain (rm : RuleManager) (domain : Str) : RuleManager :=
  if 0x2a ∈ domain then { rm with domainPatterns := rm.domainPatterns.erase domain }
  else { rm with blockedDomains := rm.blockedDomains.erase domain }

/-- The pattern `*.example.com` matches every name that ends in `.example.com` and the bare
`example.com`; a pattern of another form matches nothing. -/
def domainMatchesPattern (domain pattern : Str) : Bool :=
  match pattern with
  | 0x2a :: 0x2e :: rest => decide (0x2e :: rest <:+ domain) || domain == rest
  | _ => false

def isDomainBlocked (rm : RuleManager) (domain : Str) : Bool :=
  decide (domain ∈ rm.blockedDomains) ||
    rm.domainPatterns.any fun pattern => domainMatchesPattern (toLower domain) (toLower pattern)

def blockPort (rm : RuleManager) (port : UInt16) : RuleManager :=
  { rm with blockedPorts := insert port rm.blockedPorts }

def unblockPort (rm : RuleManager) (port : UInt16) : RuleManager :=
  { rm with blockedPorts := rm.blockedPorts.erase port }

def isPortBlocked (rm : RuleManager) (port : UInt16) : Bool := decide (port ∈ rm.blockedPorts)

/-- Each kind of rule is cleared under its own lock. -/
def clearAll (rm : RuleManager) : RuleManager :=
  { rm with
    blockedIps := ∅
    blockedApps := ∅
    blockedDomains := ∅
    domainPatterns := []
    blockedPorts := ∅ }

/-- The first kind of rule that matches, in the order address, port, application, domain. -/
def shouldBlock (rm : RuleManager) (srcIp : UInt32) (dstPort : UInt16) (app : AppType)
    (domain : Str) : Option BlockReason :=
  if rm.isIPBlocked srcIp then some ⟨.ip, ipToString srcIp⟩
  else if rm.isPortBlocked dstPort then some ⟨.port, decimal dstPort.toNat⟩
  else if rm.isAppBlocked app then some ⟨.app, appTypeToString app⟩
  else if !domain.isEmpty && rm.isDomainBlocked domain then some ⟨.domain, domain⟩
  else none

theorem isSome_shouldBlock (rm : RuleManager) (srcIp : UInt32) (dstPort : UInt16) (app : AppType)
    (domain : Str) :
    (rm.shouldBlock srcIp dstPort app domain).isSome = true ↔
      rm.isIPBlocked srcIp = true ∨ rm.isPortBlocked dstPort = true ∨
        rm.isAppBlocked app = true ∨ domain ≠ [] ∧ rm.isDomainBlocked domain = true := by
  unfold shouldBlock
  split_ifs with h1 h2 h3 h4
  · simp [h1]
  · simp [h2]
  · simp [h3]
  · simpa using Or.inr (Or.inr (Or.inr h4))
  · simp_all

end RuleManager

end DPI
