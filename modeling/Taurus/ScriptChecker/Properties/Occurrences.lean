import Mathlib
import Taurus.ScriptChecker.Service

namespace taurus.script_checker

open taurus.python

/-! What the search loop finds. -/

section search

variable {s sub : List Char}

/-- `sub` begins at this position of `s`. -/
def begins_at (s sub : List Char) (pos : Nat) : Bool := startswith (s.drop pos) sub

theorem find_from_eq {start n : Nat} (h : start + n = s.length) :
    find_from sub start (s.drop start) = (List.range' start (n + 1)).find? (begins_at s sub) := by
  induction n generalizing start with
  | zero =>
    have hdrop : s.drop start = [] := List.drop_eq_nil_of_le (by omega)
    rw [List.range'_one, List.find?_singleton, begins_at, hdrop, find_from]
  | succ n ih =>
    have hstart : start < s.length := by omega
    have hdrop : s.drop start = s[start] :: s.drop (start + 1) := List.drop_eq_getElem_cons hstart
    have hstep : find_from sub start (s.drop start) =
        if startswith (s.drop start) sub then
          some start
        else find_from sub (start + 1) (s.drop (start + 1)) := by
      rw [hdrop, find_from]
    have hrange : List.range' start (n + 1 + 1) = start :: List.range' (start + 1) (n + 1) :=
      List.range'_succ
    rw [hstep, ih (by omega), hrange, List.find?_cons, begins_at]
    cases startswith (s.drop start) sub with
    | true => rfl
    | false => rfl

/-- The search finds the first occurrence. -/
theorem find_eq (start : Nat) :
    find s sub start = (List.range' start (s.length + 1 - start)).find? (begins_at s sub) := by
  rw [find]
  split_ifs with hstart
  · rw [find_from_eq (n := s.length - start) (by omega)]
    congr 2
    omega
  · rw [Nat.sub_eq_zero_of_le (by omega), List.range'_zero, List.find?_nil]

/-- Finding the first and then all after it is finding all. -/
theorem filter_range'_eq (p : Nat → Bool) (start n : Nat) :
    (List.range' start n).filter p = match (List.range' start n).find? p with
      | none => []
      | some pos => pos :: (List.range' (pos + 1) (start + n - (pos + 1))).filter p := by
  induction n generalizing start with
  | zero => rfl
  | succ n ih =>
    rw [List.range'_succ, List.find?_cons]
    cases hp : p start with
    | true =>
      rw [List.filter_cons_of_pos hp]
      simp only
      congr 3
      omega
    | false =>
      rw [List.filter_cons_of_neg (by simp [hp]), ih]
      simp only
      cases (List.range' (start + 1) n).find? p with
      | none => rfl
      | some pos =>
        simp only
        congr 3
        omega

/-- Repeated search finds every occurrence. -/
theorem search_eq (idx : Nat) :
    search s sub idx = (List.range' idx (s.length + 1 - idx)).filter (begins_at s sub) := by
  induction idx using search.induct s sub with
  | case1 idx h =>
    rw [search, filter_range'_eq, ← find_eq]
    split
    · rw [h]
    · rename_i hsome
      cases h.symm.trans hsome
  | case2 idx pos h ih =>
    have hpos := find_le h
    rw [search, filter_range'_eq, ← find_eq]
    split
    · rename_i hnone
      cases h.symm.trans hnone
    · rename_i hsome
      obtain rfl := Option.some.inj (h.symm.trans hsome)
      rw [h, ih]
      simp only
      congr 3
      omega

end search

/-! The lines on which the occurrences start. -/

/-- The character of a text whose lower case stands at a position of the lower text. -/
def source_index : List (List Char) → Nat → Nat
  | [], _ => 0
  | piece :: pieces, pos =>
    if pos < piece.length then 0 else source_index pieces (pos - piece.length) + 1

/-- The lower text has the line breaks of the text. -/
theorem count_newline_take {s : List Char} {pieces : List (List Char)}
    (h : List.Forall₂ (fun c piece => if c = '\n' then piece = ['\n'] else '\n' ∉ piece) s pieces)
    (pos : Nat) :
    (pieces.flatten.take pos).count '\n' = (s.take (source_index pieces pos)).count '\n' := by
  induction h generalizing pos with
  | nil => simp
  | @cons c piece s pieces hpiece h ih =>
    rw [source_index, List.flatten_cons, List.take_append, List.count_append]
    split_ifs with hinside
    · have hnone : (piece.take pos).count '\n' = 0 := by
        split_ifs at hpiece with hc
        · rw [hpiece] at hinside ⊢
          obtain rfl : pos = 0 := by simpa using hinside
          rfl
        · exact List.count_eq_zero_of_not_mem fun hmem => hpiece (List.mem_of_mem_take hmem)
      have hrest : pos - piece.length = 0 := by omega
      rw [hnone, hrest, List.take_zero, List.take_zero]
      rfl
    · rw [ih, List.take_of_length_le (by omega), List.take_succ_cons, List.count_cons, Nat.add_comm]
      congr 1
      split_ifs at hpiece with hc
      · simp [hpiece, hc]
      · simp [hc, List.count_eq_zero_of_not_mem hpiece]

section rules

variable (low : Lowercase) (finditer : List Char → List Char → Option (List Nat))
  (rules : List ScriptCheckRule)
  (content : List Char) (script_type : String)

/-- Where the pattern occurs, whatever the case: at each of these positions of the lower text
its lower case begins. -/
def occurrences (pattern : List Char) : List Nat :=
  (List.range ((low.lower content).length + 1)).filter
    (begins_at (low.lower content) (low.lower pattern))

/-- The line of the script on which the occurrence at this position of the lower text starts. -/
def line_of (pos : Nat) : Nat :=
  (content.take (source_index (low.pieces content) pos)).count '\n' + 1

/-- The rule is about such scripts; what a shell script is says the checker for shell scripts. -/
def Applicable (rule : ScriptCheckRule) : Prop :=
  rule.scope = "all" ∨ script_type = "" ∨
  low.lower script_type.toList = low.lower rule.scope.toList ∨
    rule.scope = "shell" ∧ supports low ShellCheckChecker.supported_types script_type = true

instance (rule : ScriptCheckRule) : Decidable (Applicable low script_type rule) :=
  inferInstanceAs (Decidable (_ ∨ _ ∨ _ ∨ _))

/-- An issue for each occurrence of the pattern of each applicable rule. -/
def expected_issues : List CheckIssue :=
  rules.flatMap fun rule =>
    if Applicable low script_type rule then
      (occurrences low content rule.pattern).map fun pos =>
        CustomRuleChecker.issue_at rule (line_of low content pos)
    else []

variable {low finditer rules content script_type}

/-- The search in the lowered texts finds the occurrences. -/
theorem search_eq_occurrences (pattern : List Char) :
    search (low.lower content) (low.lower pattern) 0 = occurrences low content pattern := by
  rw [search_eq, occurrences, List.range_eq_range', Nat.sub_zero]

/-- The line number is that of the position. -/
theorem line_num_eq (pos : Nat) :
    ((low.lower content).take pos).count '\n' + 1 = line_of low content pos := by
  rw [Lowercase.lower, count_newline_take (low.newline content), line_of]

theorem foldl_add_issue {α : Type} (f : α → CheckIssue) (xs : List α) (result : CheckResult) :
    (xs.foldl (fun result x => result.add_issue (f x)) result).issues =
      result.issues ++ xs.map f := by
  have hadd : ∀ (result : CheckResult) (issue : CheckIssue), (result.add_issue issue).issues =
      result.issues ++ [issue] := by
    intro result issue
    rw [CheckResult.add_issue]
    cases issue.severity <;> rfl
  induction xs generalizing result with
  | nil => exact (List.append_nil _).symm
  | cons x xs ih =>
    rw [List.foldl_cons, ih, hadd, List.append_assoc, List.map_cons, List.singleton_append]

/-- What one keyword rule adds. -/
theorem check_rule_issues {rule : ScriptCheckRule} (hkeyword : rule.match_type = .keyword)
    (result : CheckResult) :
    (CustomRuleChecker.check_rule low finditer (low.lower content) script_type result rule).issues =
      result.issues ++
      if CustomRuleChecker._rule_matches_scope low rule script_type then
        (occurrences low content rule.pattern).map fun pos =>
          CustomRuleChecker.issue_at rule (line_of low content pos)
      else [] := by
  have hmatches : CustomRuleChecker.matches_of low finditer rule (low.lower content) =
      some (occurrences low content rule.pattern) := by
    rw [CustomRuleChecker.matches_of, hkeyword, search_eq_occurrences]
  rw [CustomRuleChecker.check_rule]
  cases CustomRuleChecker._rule_matches_scope low rule script_type with
  | false => exact (List.append_nil _).symm
  | true =>
    simp only [Bool.not_true, Bool.false_eq_true, if_false, if_true, hmatches]
    rw [foldl_add_issue fun pos => CustomRuleChecker.issue_at rule
      (((low.lower content).take pos).count '\n' + 1)]
    simp only [line_num_eq]

/-- What the keyword rules report. -/
theorem check_issues (hkeyword : ∀ rule ∈ rules, rule.match_type = .keyword) :
    (CustomRuleChecker.check low finditer rules content script_type).issues =
      rules.flatMap fun rule =>
      if CustomRuleChecker._rule_matches_scope low rule script_type then
        (occurrences low content rule.pattern).map fun pos =>
          CustomRuleChecker.issue_at rule (line_of low content pos)
      else [] := by
  suffices hfold : ∀ result : CheckResult,
      (rules.foldl (CustomRuleChecker.check_rule low finditer
      (low.lower content) script_type) result).issues =
        result.issues ++ rules.flatMap fun rule =>
          if CustomRuleChecker._rule_matches_scope low rule script_type then
            (occurrences low content rule.pattern).map fun pos =>
              CustomRuleChecker.issue_at rule (line_of low content pos)
          else [] from hfold _
  induction rules with
  | nil => exact fun result => (List.append_nil _).symm
  | cons rule rules ih =>
    intro result
    rw [List.forall_mem_cons] at hkeyword
    rw [List.foldl_cons, ih hkeyword.2, check_rule_issues hkeyword.1, List.flatMap_cons,
      List.append_assoc]

end rules

/-! The level. -/

section level

variable {low : Lowercase}

/-- The counters of a result are those of its issues. -/
structure Counted (result : CheckResult) : Prop where
  errors : result.error_count = result.issues.countP (·.severity = .error)
  warnings : result.warning_count = result.issues.countP (·.severity = .warning)

/-- An added issue is counted. -/
theorem Counted.add_issue {result : CheckResult} (h : Counted result) (issue : CheckIssue) :
    Counted (result.add_issue issue) := by
  obtain ⟨herrors, hwarnings⟩ := h
  cases hseverity : issue.severity with
  | error | warning | info | style =>
    constructor <;> simp [CheckResult.add_issue, hseverity, herrors, hwarnings]

theorem Counted.foldl_add_issue {result : CheckResult} (h : Counted result)
    (issues : List CheckIssue) :
    Counted (issues.foldl CheckResult.add_issue result) := by
  induction issues generalizing result with
  | nil => exact h
  | cons issue issues ih => exact ih (h.add_issue issue)

/-- The result of the service before its level is computed. -/
theorem counted_checkers (checkers : List BaseChecker) (content : List Char)
    (script_type : String) :
    Counted (checkers.foldl (ScriptCheckService.add_result low content script_type) {}) := by
  suffices hfold : ∀ result, Counted result →
      Counted (checkers.foldl (ScriptCheckService.add_result low content script_type) result)
      from hfold {} ⟨rfl, rfl⟩
  induction checkers with
  | nil => exact fun _ h => h
  | cons checker checkers ih =>
    intro result h
    refine ih _ ?_
    rw [ScriptCheckService.add_result]
    split_ifs
    · exact h
    · cases checker.check content script_type with
      | none => exact h
      | some answer =>
        have htools : Counted { result with tools_used := result.tools_used ++ answer.tools_used } := ⟨h.errors, h.warnings⟩
        exact htools.foldl_add_issue answer.issues

/-- More errors and warnings do not lower the level. -/
theorem rank_calculate_risk_level_mono {r r' : CheckResult}
    (herrors : r.error_count ≤ r'.error_count) (hwarnings : r.warning_count ≤ r'.warning_count) :
    r.calculate_risk_level.risk_level.rank ≤ r'.calculate_risk_level.risk_level.rank := by
  rw [CheckResult.calculate_risk_level, CheckResult.calculate_risk_level]
  split_ifs <;> simp only [RiskLevel.rank] <;> omega

/-- The level of the service does not fall when issues are added. -/
theorem service_level_mono {checkers checkers' : List BaseChecker} {content content' : List Char}
    {script_type script_type' : String}
    (h : List.Subperm (ScriptCheckService.check low checkers content script_type).issues
      (ScriptCheckService.check low checkers' content' script_type').issues) :
    (ScriptCheckService.check low checkers content script_type).risk_level.rank ≤
      (ScriptCheckService.check low checkers' content' script_type').risk_level.rank := by
  have hcounted : Counted (checkers.foldl
    (ScriptCheckService.add_result low content script_type) {}) := counted_checkers ..
  have hcounted' : Counted (checkers'.foldl
    (ScriptCheckService.add_result low content' script_type') {}) := counted_checkers ..
  refine rank_calculate_risk_level_mono ?_ ?_
  · rw [hcounted.errors, hcounted'.errors]
    exact h.countP_le _
  · rw [hcounted.warnings, hcounted'.warnings]
    exact h.countP_le _

end level

/-! What the rules report on a script. -/

section verdict

variable {low : Lowercase} {finditer : List Char → List Char → Option (List Nat)}
  {rules : List ScriptCheckRule}
  {content : List Char} {script_type : String}

/-- The rules miss nothing: those for shell scripts are checked on what the checker for shell
scripts takes for one, every occurrence has its issue, and more issues do not lower the level. -/
structure MissesNothing (low : Lowercase) (finditer : List Char → List Char → Option (List Nat))
    (rules : List ScriptCheckRule) (content : List Char) (script_type : String) : Prop where
  agree : ∀ rule ∈ rules, rule.scope = "shell" →
    supports low ShellCheckChecker.supported_types script_type = true →
    CustomRuleChecker._rule_matches_scope low rule script_type = true
  complete : (CustomRuleChecker.check low finditer rules content script_type).issues =
    expected_issues low rules content script_type
  level : ∀ (checkers checkers' : List BaseChecker) (content content' : List Char)
    (script_type script_type' : String),
    List.Subperm (ScriptCheckService.check low checkers content script_type).issues
      (ScriptCheckService.check low checkers' content' script_type').issues →
    (ScriptCheckService.check low checkers content script_type).risk_level.rank ≤
      (ScriptCheckService.check low checkers' content' script_type').risk_level.rank

theorem lower_ascii {s : List Char} (h : s.all (·.toNat < 128) = true) :
    low.lower s = s.map Char.toLower := by
  rw [Lowercase.lower, low.ascii s fun c hc => of_decide_eq_true (List.all_eq_true.mp h c hc)]
  exact List.map_eq_flatMap.symm

theorem lower_shell : low.lower "shell".toList = "shell".toList := by
  rw [lower_ascii (by decide +kernel)]
  decide +kernel

/-- A type that the checker for shell scripts supports is not empty. -/
theorem ne_empty_of_supports
    (h : supports low ShellCheckChecker.supported_types script_type = true) : script_type ≠ "" := by
  rintro rfl
  have hlower : ShellCheckChecker.supported_types.map (fun t => low.lower t.toList) =
      ["shell".toList, "bash".toList, "sh".toList, "bash".toList] := by
    simp only [ShellCheckChecker.supported_types, List.map_cons, List.map_nil]
    rw [lower_ascii (by decide +kernel), lower_ascii (by decide +kernel),
      lower_ascii (by decide +kernel), lower_ascii (by decide +kernel)]
    decide +kernel
  have hempty : low.lower "".toList = [] := lower_ascii (by decide +kernel)
  rw [supports, hlower, hempty] at h
  revert h
  decide +kernel

/-- Rules for shell scripts skip the types that the other checker knows and that are
not spelled shell. -/
theorem misses_nothing_iff (hkeyword : ∀ rule ∈ rules, rule.match_type = .keyword) :
    MissesNothing low finditer rules content script_type ↔
      ¬ (supports low ShellCheckChecker.supported_types script_type = true ∧
        low.lower script_type.toList ≠ "shell".toList ∧
        ∃ rule ∈ rules, rule.scope = "shell") := by
  constructor
  · rintro h ⟨hsupports, hspelling, rule, hrule, hscope⟩
    have hmatches := h.agree rule hrule hscope hsupports
    have hne := ne_empty_of_supports hsupports
    rw [CustomRuleChecker._rule_matches_scope, hscope, lower_shell] at hmatches
    simp only [Bool.or_eq_true, decide_eq_true_eq] at hmatches
    obtain (hall | hempty) | hlower := hmatches
    · exact absurd hall (by decide)
    · exact hne hempty
    · exact hspelling hlower
  · intro h
    have hagree : ∀ rule ∈ rules, rule.scope = "shell" →
      supports low ShellCheckChecker.supported_types script_type = true →
        low.lower script_type.toList = low.lower rule.scope.toList := by
      intro rule hrule hscope hsupports
      rw [hscope, lower_shell]
      by_contra hspelling
      exact h ⟨hsupports, hspelling, rule, hrule, hscope⟩
    have happlicable : ∀ rule ∈ rules,
      CustomRuleChecker._rule_matches_scope low rule script_type = true ↔
        Applicable low script_type rule := by
      intro rule hrule
      simp only [CustomRuleChecker._rule_matches_scope, Applicable, Bool.or_eq_true,
        decide_eq_true_eq, or_assoc]
      refine or_congr_right (or_congr_right ?_)
      exact (or_iff_left_of_imp fun hshell => hagree rule hrule hshell.1 hshell.2).symm
    refine ⟨fun rule hrule hscope hsupports => ?_, ?_, fun _ _ _ _ _ _ => service_level_mono⟩
    · exact (happlicable rule hrule).mpr (.inr (.inr (.inr ⟨hscope, hsupports⟩)))
    · rw [check_issues hkeyword, expected_issues]
      exact List.flatMap_congr fun rule hrule => if_congr (happlicable rule hrule) rfl rfl

end verdict

theorem toLower_eq_newline_iff {c : Char} : c.toLower = '\n' ↔ c = '\n' := by
  constructor
  · intro h
    rw [Char.toLower] at h
    split_ifs at h with hupper
    · have hval := congrArg (fun c : Char => c.val.toNat) h
      simp [UInt32.toNat_add, UInt32.le_iff_toNat_le] at hval hupper
      omega
    · exact h
  · rintro rfl
    rfl

/-- The lower case of ASCII keeps the line ends. -/
theorem toLower_newline (s : List Char) :
    List.Forall₂ (fun c piece => if c = '\n' then piece = ['\n'] else '\n' ∉ piece) s
      (s.map fun c => [c.toLower]) := by
  rw [List.forall₂_map_right_iff, List.forall₂_same]
  intro c _
  split_ifs with hc
  · rw [toLower_eq_newline_iff.mpr hc]
  · intro hbreak
    exact hc (toLower_eq_newline_iff.mp (List.mem_singleton.mp hbreak).symm)

/-- Lower case on scripts in ASCII. -/
def asciiLower : Lowercase where
  pieces := fun s => s.map fun c => [c.toLower]
  newline := toLower_newline
  ascii := fun _ _ => rfl

/-- Two of the rules that come with the program, of those that are about shell scripts
and about all scripts. -/
def shutdownRules : List ScriptCheckRule :=
  [{ rule_key := "CUSTOM_SHUTDOWN", name := "shutdown", pattern := "shutdown".toList, severity := .error, scope := "shell" },
    { rule_key := "CUSTOM_RM_RF", name := "rm -rf", pattern := "rm -rf".toList, severity := .error }]

def shutdownScript : List Char := "rm -rf /tmp/x\nShutdown now\n".toList

theorem shell_script_checked :
    MissesNothing asciiLower (fun _ _ => none) shutdownRules shutdownScript "Shell" :=
  (misses_nothing_iff (by decide +kernel)).mpr (by decide +kernel)

/-- The same script as a bash script. -/
theorem bash_script_not_checked :
    ¬ ∀ (low : Lowercase) (finditer : List Char → List Char → Option (List Nat))
      (rules : List ScriptCheckRule)
      (content : List Char) (script_type : String), (∀ rule ∈ rules, rule.match_type = .keyword) →
        MissesNothing low finditer rules content script_type := by
  intro h
  have hcomplete :=
    (h asciiLower (fun _ _ => none) shutdownRules shutdownScript "bash"
      (by decide +kernel)).complete
  have hreported :
      (CustomRuleChecker.check asciiLower
      (fun _ _ => none) shutdownRules shutdownScript "bash").issues.map (·.rule_id) =
        ["CUSTOM_RM_RF"] := by
    rw [check_issues (by decide +kernel)]
    decide +kernel
  have hexpected : (expected_issues asciiLower shutdownRules shutdownScript "bash").map (·.rule_id) =
      ["CUSTOM_SHUTDOWN", "CUSTOM_RM_RF"] := by decide +kernel
  rw [hcomplete, hexpected] at hreported
  exact absurd hreported (by decide)

end taurus.script_checker
