import DpiEngine.Lib.Edits
import DpiEngine.RuleManager

/-!
# The rules as a set

A rule manager is meant to be a set of rules: what is in force is what was blocked and not
unblocked or cleared since.  The hash sets keep this for addresses, applications, exact domains and
ports.  The vector of wildcard patterns keeps a copy for every call of `blockDomain`, and
`unblockDomain` takes out one of them.
-/

namespace DPI

open Bytes

/-- A rule; a domain with a star in it is a wildcard pattern. -/
inductive Rule where
  | ip (ip : UInt32)
  | app (app : AppType)
  | domain (domain : Str)
  | port (port : UInt16)
  deriving DecidableEq, Repr

/-- The rule is kept in the vector of patterns. -/
def Rule.Wildcard : Rule → Prop
  | .domain name => 0x2a ∈ name
  | _ => False

instance : DecidablePred Rule.Wildcard
  | .domain name => inferInstanceAs (Decidable (0x2a ∈ name))
  | .ip _ | .app _ | .port _ => inferInstanceAs (Decidable False)

/-- The calls that change the rules. -/
abbrev RuleEdit := Edit Rule

namespace RuleManager

def block (rm : RuleManager) : Rule → RuleManager
  | .ip ip => rm.blockIP ip
  | .app app => rm.blockApp app
  | .domain domain => rm.blockDomain domain
  | .port port => rm.blockPort port

def unblock (rm : RuleManager) : Rule → RuleManager
  | .ip ip => rm.unblockIP ip
  | .app app => rm.unblockApp app
  | .domain domain => rm.unblockDomain domain
  | .port port => rm.unblockPort port

def edit (rm : RuleManager) : RuleEdit → RuleManager
  | .add r => rm.block r
  | .remove r => rm.unblock r
  | .clear => rm.clearAll

/-- The rules after a sequence of calls on a fresh manager. -/
def after (es : List RuleEdit) : RuleManager := es.foldl edit {}

theorem after_snoc (es : List RuleEdit) (e : RuleEdit) : after (es ++ [e]) = (after es).edit e := by
  rw [after, List.foldl_append]
  rfl

/-- The container that the checks consult for a rule holds it. -/
def InForce (rm : RuleManager) : Rule → Prop
  | .ip ip => ip ∈ rm.blockedIps
  | .app app => app ∈ rm.blockedApps
  | .domain domain =>
    if 0x2a ∈ domain then domain ∈ rm.domainPatterns else domain ∈ rm.blockedDomains
  | .port port => port ∈ rm.blockedPorts

instance (rm : RuleManager) : DecidablePred rm.InForce
  | .ip ip => inferInstanceAs (Decidable (ip ∈ rm.blockedIps))
  | .app app => inferInstanceAs (Decidable (app ∈ rm.blockedApps))
  | .domain domain => inferInstanceAs (Decidable
      (if 0x2a ∈ domain then domain ∈ rm.domainPatterns else domain ∈ rm.blockedDomains))
  | .port port => inferInstanceAs (Decidable (port ∈ rm.blockedPorts))

/-! ## Sets and copies -/

theorem inForce_blockDomain (rm : RuleManager) (d : Str) (r : Rule) :
    (rm.blockDomain d).InForce r ↔ .domain d = r ∨ rm.InForce r := by
  unfold blockDomain
  cases r with
  | domain d' =>
    by_cases h : d = d'
    · subst h
      by_cases hd : 0x2a ∈ d <;> simp [InForce, hd]
    · by_cases hd : 0x2a ∈ d <;> simp [InForce, hd, h, Ne.symm h]
  | ip _ | app _ | port _ => by_cases hd : 0x2a ∈ d <;> simp [InForce, hd]

theorem inForce_block (rm : RuleManager) (x r : Rule) :
    (rm.block x).InForce r ↔ x = r ∨ rm.InForce r := by
  cases x with
  | ip _ | app _ | port _ =>
    cases r <;> simp [block, blockIP, blockApp, blockPort, InForce, eq_comm]
  | domain d => exact inForce_blockDomain rm d r

theorem inForce_unblockDomain (rm : RuleManager) (d : Str) {r : Rule} (hr : ¬ r.Wildcard) :
    (rm.unblockDomain d).InForce r ↔ rm.InForce r ∧ .domain d ≠ r := by
  unfold unblockDomain
  cases r with
  | domain d' =>
    have hd' : 0x2a ∉ d' := hr
    by_cases h : d = d'
    · subst h
      simp [InForce, hd']
    · by_cases hd : 0x2a ∈ d <;> simp [InForce, hd, hd', h, Ne.symm h]
  | ip _ | app _ | port _ => by_cases hd : 0x2a ∈ d <;> simp [InForce, hd]

theorem inForce_unblock (rm : RuleManager) (x : Rule) {r : Rule} (hr : ¬ r.Wildcard) :
    (rm.unblock x).InForce r ↔ rm.InForce r ∧ x ≠ r := by
  cases x with
  | ip _ | app _ | port _ =>
    cases r <;> simp [unblock, unblockIP, unblockApp, unblockPort, InForce, eq_comm, and_comm]
  | domain d => exact inForce_unblockDomain rm d hr

theorem not_inForce_clearAll (rm : RuleManager) (r : Rule) : ¬ rm.clearAll.InForce r := by
  cases r <;> simp [clearAll, InForce]

/-- Every container but the vector of patterns keeps a set. -/
theorem keepsSet_inForce {r : Rule} (hr : ¬ r.Wildcard) : Edit.KeepsSet edit InForce r := by
  intro rm e
  cases e with
  | add x => simp [edit, inForce_block, Edit.Cancels]
  | remove x => simp [edit, inForce_unblock rm x hr, Edit.Cancels]
  | clear => simp [edit, not_inForce_clearAll, Edit.Cancels]

/-- The vector of patterns keeps a copy for every call that blocks a pattern. -/
theorem count_domainPatterns_edit (rm : RuleManager) {p : Str} (hp : 0x2a ∈ p) (e : RuleEdit) :
    (rm.edit e).domainPatterns.count p =
      Edit.recount (.domain p) (rm.domainPatterns.count p) e := by
  cases e with
  | add x =>
    cases x with
    | domain d =>
      by_cases h : d = p
      · subst h
        simp [edit, block, blockDomain, hp, Edit.recount]
      · by_cases hd : 0x2a ∈ d <;>
          simp [edit, block, blockDomain, hd, Edit.recount, h]
    | ip _ | app _ | port _ => rfl
  | remove x =>
    cases x with
    | domain d =>
      by_cases h : d = p
      · subst h
        simp [edit, unblock, unblockDomain, hp, Edit.recount]
      · by_cases hd : 0x2a ∈ d <;>
          simp [edit, unblock, unblockDomain, hd, Edit.recount, h,
            List.count_erase_of_ne (Ne.symm h)]
    | ip _ | app _ | port _ => rfl
  | clear => rfl

theorem count_domainPatterns_after {p : Str} (hp : 0x2a ∈ p) (es : List RuleEdit) :
    (after es).domainPatterns.count p = Edit.copies (.domain p) es := by
  induction es using List.reverseRecOn with
  | nil => rfl
  | append_singleton es e ih =>
    rw [after_snoc, count_domainPatterns_edit _ hp, ih, Edit.copies, Edit.copies, List.foldl_append]
    rfl

/-- A pattern is in force while it was blocked more often than unblocked. -/
theorem inForce_wildcard_iff {p : Str} (hp : 0x2a ∈ p) (es : List RuleEdit) :
    (after es).InForce (.domain p) ↔ Edit.Surplus es (.domain p) 1 := by
  rw [← Edit.le_copies_iff _ _ Nat.one_pos, ← count_domainPatterns_after hp, InForce, if_pos hp]
  exact List.one_le_count_iff.symm

/-! ## The checks -/

theorem isIPBlocked_iff (rm : RuleManager) (ip : UInt32) :
    rm.isIPBlocked ip = true ↔ rm.InForce (.ip ip) := decide_eq_true_iff

theorem isAppBlocked_iff (rm : RuleManager) (app : AppType) :
    rm.isAppBlocked app = true ↔ rm.InForce (.app app) := decide_eq_true_iff

theorem isPortBlocked_iff (rm : RuleManager) (port : UInt16) :
    rm.isPortBlocked port = true ↔ rm.InForce (.port port) := decide_eq_true_iff

/-- A domain rule blocks a name. -/
def domainRuleMatches (rule name : Str) : Bool :=
  if 0x2a ∈ rule then domainMatchesPattern (toLower name) (toLower rule) else name == rule

/-- Exact domains and patterns are told apart by the star. -/
structure Sorted (rm : RuleManager) : Prop where
  exact : ∀ d ∈ rm.blockedDomains, 0x2a ∉ d
  wildcard : ∀ p ∈ rm.domainPatterns, 0x2a ∈ p

theorem Sorted.blockDomain {rm : RuleManager} (h : rm.Sorted) (d : Str) :
    (rm.blockDomain d).Sorted := by
  unfold RuleManager.blockDomain
  split_ifs with hd
  · refine ⟨h.exact, fun p hp => ?_⟩
    rcases List.mem_append.1 hp with hp | hp
    · exact h.wildcard p hp
    · exact List.mem_singleton.1 hp ▸ hd
  · refine ⟨fun x hx => ?_, h.wildcard⟩
    rcases Finset.mem_insert.1 hx with rfl | hx
    · exact hd
    · exact h.exact x hx

theorem Sorted.edit {rm : RuleManager} (h : rm.Sorted) (e : RuleEdit) : (rm.edit e).Sorted := by
  cases e with
  | add x =>
    cases x with
    | domain d => exact h.blockDomain d
    | ip _ | app _ | port _ => exact ⟨h.exact, h.wildcard⟩
  | remove x =>
    cases x with
    | domain d =>
      simp only [RuleManager.edit, unblock, unblockDomain]
      split_ifs
      · exact ⟨h.exact, fun p hp => h.wildcard p (List.mem_of_mem_erase hp)⟩
      · exact ⟨fun x hx => h.exact x (Finset.mem_of_mem_erase hx), h.wildcard⟩
    | ip _ | app _ | port _ => exact ⟨h.exact, h.wildcard⟩
  | clear => exact ⟨by simp [RuleManager.edit, clearAll], by simp [RuleManager.edit, clearAll]⟩

theorem sorted_after (es : List RuleEdit) : (after es).Sorted := by
  induction es using List.reverseRecOn with
  | nil => exact ⟨by simp [after], by simp [after]⟩
  | append_singleton es e ih =>
    rw [after_snoc]
    exact ih.edit e

/-- A name is blocked iff some domain rule in force matches it. -/
theorem isDomainBlocked_iff {rm : RuleManager} (h : rm.Sorted) (name : Str) :
    rm.isDomainBlocked name = true ↔
      ∃ d, rm.InForce (.domain d) ∧ domainRuleMatches d name = true := by
  rw [isDomainBlocked, Bool.or_eq_true, decide_eq_true_iff, List.any_eq_true]
  constructor
  · rintro (hname | ⟨p, hp, hmatch⟩)
    · have hstar := h.exact name hname
      exact ⟨name, by rwa [InForce, if_neg hstar], by rw [domainRuleMatches, if_neg hstar]; simp⟩
    · have hstar := h.wildcard p hp
      exact ⟨p, by rwa [InForce, if_pos hstar], by rwa [domainRuleMatches, if_pos hstar]⟩
  · rintro ⟨d, hd, hmatch⟩
    by_cases hstar : 0x2a ∈ d
    · rw [InForce, if_pos hstar] at hd
      rw [domainRuleMatches, if_pos hstar] at hmatch
      exact Or.inr ⟨d, hd, hmatch⟩
    · rw [InForce, if_neg hstar] at hd
      rw [domainRuleMatches, if_neg hstar, beq_iff_eq] at hmatch
      exact Or.inl (hmatch ▸ hd)

/-! ## What was blocked is in force -/

/-- The manager is the set of the rules that were blocked and not unblocked or cleared since iff no
pattern outside this set was, at the end and since the last clearing, blocked more often than
unblocked. -/
theorem inForce_iff_stands_iff (es : List RuleEdit) :
    (∀ r, (after es).InForce r ↔ Edit.Stands es r) ↔
      ∀ p, 0x2a ∈ p → ¬ Edit.Stands es (.domain p) → ¬ Edit.Surplus es (.domain p) 1 := by
  constructor
  · intro h p hp
    rw [← inForce_wildcard_iff hp, h]
    exact id
  · intro h r
    by_cases hr : r.Wildcard
    · cases r with
      | domain p =>
        rw [inForce_wildcard_iff hr]
        exact ⟨fun hs => by_contra fun hn => h p hr hn hs, Edit.surplus_of_stands⟩
      | ip _ | app _ | port _ => exact hr.elim
    · exact (keepsSet_inForce hr).holds_foldl (by cases r <;> simp [InForce]) es

/-- A pattern that is blocked twice, as by a rules file and a command line that overlap, and
unblocked once. -/
def blockedTwice : List RuleEdit :=
  [.add (.domain (text "*.x")), .add (.domain (text "*.x")), .remove (.domain (text "*.x"))]

/-- One of the two copies stays in force. -/
theorem blockedTwice_still_in_force :
    ¬ ∀ r, (after blockedTwice).InForce r ↔ Edit.Stands blockedTwice r := by
  intro h
  have hstands := (h (.domain (text "*.x"))).1 (by decide)
  rw [blockedTwice, show [Edit.add (Rule.domain (text "*.x")), .add (.domain (text "*.x")),
    .remove (.domain (text "*.x"))] = [.add (.domain (text "*.x")), .add (.domain (text "*.x"))] ++
      [.remove (.domain (text "*.x"))] from rfl, Edit.stands_snoc] at hstands
  simp [Edit.Cancels] at hstands

end RuleManager

end DPI
