import Mathlib.Data.List.Forall2
import Taurus.Python.Text

namespace taurus.script_checker

open taurus.python

/-- `str.lower`. The lower case of a character depends on its neighbours and may be longer than one
character; line breaks stay what they are. -/
structure Lowercase where
  pieces : List Char → List (List Char)
  newline : ∀ s, List.Forall₂
    (fun c piece => if c = '\n' then piece = ['\n'] else '\n' ∉ piece) s (pieces s)
  ascii : ∀ s, (∀ c ∈ s, c.toNat < 128) → pieces s = s.map fun c => [c.toLower]

def Lowercase.lower (low : Lowercase) (s : List Char) : List Char := (low.pieces s).flatten

inductive Severity where
  | error
  | warning
  | info
  | style
  deriving DecidableEq

inductive RiskLevel where
  | low
  | medium
  | high
  deriving DecidableEq

def RiskLevel.rank : RiskLevel → Nat
  | low => 0
  | medium => 1
  | high => 2

structure CheckIssue where
  tool : String
  severity : Severity
  line : Nat
  column : Option Nat := none
  end_line : Option Nat := none
  rule_id : String := ""
  message : String := ""
  fix_suggestion : String := ""
  deriving DecidableEq

structure CheckResult where
  risk_level : RiskLevel := .low
  issues : List CheckIssue := []
  tools_used : List String := []
  error_count : Nat := 0
  warning_count : Nat := 0
  info_count : Nat := 0

namespace CheckResult

variable (result : CheckResult)

def add_issue (issue : CheckIssue) : CheckResult :=
  let result := { result with issues := result.issues ++ [issue] }
  match issue.severity with
  | .error => { result with error_count := result.error_count + 1 }
  | .warning => { result with warning_count := result.warning_count + 1 }
  | .info | .style => { result with info_count := result.info_count + 1 }

def calculate_risk_level : CheckResult :=
  { result with risk_level :=
      if result.error_count ≥ 3 ∨ (result.error_count ≥ 1 ∧ result.warning_count ≥ 3) then .high
      else if result.error_count ≥ 1 ∨ result.warning_count ≥ 3 then .medium
      else .low }

end CheckResult

/-- What all checkers have. `check` answers none for a type that it does not support. -/
structure BaseChecker where
  name : String
  supported_types : List String
  is_available : Bool
  check : List Char → String → Option CheckResult

/-- `supports` of a checker with these `supported_types` -/
def supports (low : Lowercase) (supported_types : List String) (script_type : String) : Bool :=
  supported_types.isEmpty ||
    (supported_types.map fun t => low.lower t.toList).contains (low.lower script_type.toList)

def ShellCheckChecker.supported_types : List String := ["Shell", "Bash", "sh", "bash"]

inductive MatchType where
  | regex
  | keyword
  deriving DecidableEq

structure ScriptCheckRule where
  rule_key : String
  name : String
  description : String := ""
  pattern : List Char
  match_type : MatchType := .keyword
  severity : Severity := .warning
  scope : String := "all"
  fix_suggestion : String := ""

/-- The first position from `pos` on where `sub` begins in `s`, which stands at `pos`. -/
def find_from (sub : List Char) (pos : Nat) (s : List Char) : Option Nat :=
  if startswith s sub then some pos
  else match s with
  | [] => none
  | _ :: cs => find_from sub (pos + 1) cs

/-- `s.find(sub, start)` -/
def find (s sub : List Char) (start : Nat) : Option Nat :=
  if start ≤ s.length then find_from sub start (s.drop start) else none

theorem find_from_le {sub s : List Char} {start pos : Nat} (h : find_from sub start s = some pos) :
    start ≤ pos ∧ pos ≤ start + s.length := by
  induction s generalizing start with
  | nil =>
    rw [find_from] at h
    split_ifs at h
    cases h
    exact ⟨Nat.le_refl _, Nat.le_refl _⟩
  | cons c cs ih =>
    rw [find_from] at h
    split_ifs at h
    · cases h
      exact ⟨Nat.le_refl _, Nat.le_add_right _ _⟩
    · have hrest := ih h
      rw [List.length_cons]
      omega

/-- A hit lies between its start and the end of the text. -/
theorem find_le {s sub : List Char} {start pos : Nat} (h : find s sub start = some pos) :
    start ≤ pos ∧ pos ≤ s.length := by
  rw [find] at h
  split_ifs at h with hstart
  have hpos := find_from_le h
  rw [List.length_drop] at hpos
  omega

/-- The loop over `find`: all hits from `idx` on. -/
def search (s sub : List Char) (idx : Nat) : List Nat :=
  match h : find s sub idx with
  | none => []
  | some pos => pos :: search s sub (pos + 1)
termination_by s.length + 1 - idx
decreasing_by
  have hpos := find_le h
  omega

namespace CustomRuleChecker

section

-- the positions of the matches of `re.finditer(pattern, text, re.IGNORECASE)`, none for an invalid
-- pattern
variable (low : Lowercase) (finditer : List Char → List Char → Option (List Nat))

def _rule_matches_scope (rule : ScriptCheckRule) (script_type : String) : Bool :=
  rule.scope = "all" || script_type = "" || low.lower script_type.toList =
    low.lower rule.scope.toList

def matches_of (rule : ScriptCheckRule) (content_lower : List Char) : Option (List Nat) :=
  match rule.match_type with
  | .regex => finditer rule.pattern content_lower
  | .keyword => some (search content_lower (low.lower rule.pattern) 0)

/-- The issue of a match. -/
def issue_at (rule : ScriptCheckRule) (line_num : Nat) : CheckIssue where
  tool := "custom_rule"
  severity := rule.severity
  line := line_num
  rule_id := rule.rule_key
  message := if rule.description ≠ "" then rule.description else rule.name
  fix_suggestion := rule.fix_suggestion

/-- One turn of the loop over the rules. -/
def check_rule (content_lower : List Char) (script_type : String) (result : CheckResult)
    (rule : ScriptCheckRule) : CheckResult :=
  if !_rule_matches_scope low rule script_type then result
  else match matches_of low finditer rule content_lower with
  | none => result
  | some hits =>
    hits.foldl (fun result hit =>
      result.add_issue (issue_at rule ((content_lower.take hit).count '\n' + 1))) result

def check (rules : List ScriptCheckRule) (content : List Char) (script_type : String) :
    CheckResult :=
  (rules.foldl (check_rule low finditer (low.lower content) script_type)
    { tools_used := ["custom_rule"] }).calculate_risk_level

end

end CustomRuleChecker

namespace ScriptCheckService

variable (low : Lowercase)

/-- One turn of the loop over the checkers. -/
def add_result (content : List Char) (script_type : String) (final_result : CheckResult)
    (checker : BaseChecker) : CheckResult :=
  if !checker.is_available ||
    (!supports low checker.supported_types script_type && script_type ≠ "") then final_result
  else match checker.check content script_type with
  | none => final_result
  | some result =>
    result.issues.foldl CheckResult.add_issue
      { final_result with tools_used := final_result.tools_used ++ result.tools_used }

def check (checkers : List BaseChecker) (content : List Char) (script_type : String) :
    CheckResult :=
  (checkers.foldl (add_result low content script_type) {}).calculate_risk_level

end ScriptCheckService

end taurus.script_checker
