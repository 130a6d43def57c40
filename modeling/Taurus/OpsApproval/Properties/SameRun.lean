import Taurus.Lib.Transition
import Taurus.OpsApproval.Events

namespace taurus.ops_approval

open taurus.lib taurus.lib.transition taurus.python taurus.engine taurus.ops
open taurus.approval (User)

variable {w w' : World} {i k : Nat} {a a' : Approval} {origin : Origin}

/-- `decrypt_value`; none is an exception, also that of a value which is no text. -/
def decrypt_value (fernet : Fernet) : Json → Option Json
  | .str encrypted_text =>
    match afterPrefix FERNET_PREFIX.toList encrypted_text.toList with
    | some token => (fernet.decrypt (String.ofList token)).map .str
    | none => some (.str encrypted_text)
  | _ => none

/-- The environment that the executor is given: the password is decrypted, or dropped. -/
def executor_environment (fernet : Fernet) (environment : Dict String Json) : Dict String Json :=
  let su_password := getJson environment "SU_PASSWORD"
  if su_password.truthy then
    match decrypt_value fernet su_password with
    | some plain => Dict.set environment "SU_PASSWORD" plain
    | none => Dict.erase environment "SU_PASSWORD"
  else environment

/-- Two executions run the same thing in the same way. -/
structure SameRun (fernet : Fernet) (x y : Execution) : Prop where
  execution_type : x.execution_type = y.execution_type
  command : x.params.command = y.params.command
  script_type : x.params.script_type = y.params.script_type
  script_content : x.params.script_content = y.params.script_content
  args : x.params.args = y.params.args
  use_shell : x.params.use_shell = y.params.use_shell
  working_directory : x.params.working_directory.filter (· ≠ "") =
    y.params.working_directory.filter (· ≠ "")
  timeout_seconds : x.params.timeout_seconds = y.params.timeout_seconds
  environment : ∀ name, Dict.get? (executor_environment fernet x.params.environment) name =
    Dict.get? (executor_environment fernet y.params.environment) name
  merge_streams : x.params.merge_streams = y.params.merge_streams
  load_profile : x.params.load_profile = y.params.load_profile
  privileged : x.params.privileged = y.params.privileged
  exec_mode : x.params.exec_mode = y.params.exec_mode
  concurrent : x.params.concurrent = y.params.concurrent
  fail_strategy : x.params.fail_strategy = y.params.fail_strategy
  pilot_count : x.params.pilot_count = y.params.pilot_count
  pilot_success_rate : x.params.pilot_success_rate = y.params.pilot_success_rate

section environment

variable {fernet : Fernet} {environment : Dict String Json} {name plain : String} {iv : Nat}
  {privileged : Bool}
  {su_user su_password : Option String}

/-- An encrypted password is read back. -/
theorem decrypt_encrypt_value (hplain : plain ≠ "") :
    decrypt_value fernet (.str (encrypt_value fernet iv plain)) = some (.str plain) := by
  unfold encrypt_value decrypt_value
  rw [if_neg hplain]
  dsimp only
  rw [String.toList_append, afterPrefix_append]
  dsimp only
  rw [String.ofList_toList, fernet.decrypt_encrypt]
  rfl

/-- What becomes of the stored password. -/
def password (fernet : Fernet) (stored : Option Json) : Option Json :=
  match stored with
  | some v => if v.truthy then decrypt_value fernet v else some v
  | none => none

/-- The executor reads the environment as stored but for the password. -/
theorem get?_executor_environment : Dict.get? (executor_environment fernet environment) name =
    if name = "SU_PASSWORD" then password fernet (Dict.get? environment "SU_PASSWORD")
    else Dict.get? environment name := by
  unfold executor_environment password getJson
  cases hstored : Dict.get? environment "SU_PASSWORD" with
  | none =>
    rw [Option.getD_none, if_neg (by simp [Json.truthy])]
    split
    · rename_i hname
      rw [hname, hstored]
    · rfl
  | some v =>
    simp only [Option.getD_some]
    split
    · cases decrypt_value fernet v with
      | none =>
        dsimp only
        rw [Dict.get?_erase]
      | some w =>
        dsimp only
        rw [Dict.get?_set]
        by_cases hname : name = "SU_PASSWORD"
        · rw [if_pos hname, if_pos hname.symm]
        · rw [if_neg hname, if_neg (Ne.symm hname)]
    · split
      · rename_i hname
        rw [hname, hstored]
      · rfl

/-- The marks of a privileged execution over an environment. -/
def marked (privileged : Bool) (su_user : Option String) (stored : String → Option Json)
    (name : String) : Option Json :=
  if privileged then
    (if name = "SU_USER" then (su_user.filter (· ≠ "")).map .str else none).or
      (if name = "PRIVILEGED_EXECUTION" then some (.str "true") else stored name)
  else stored name

/-- Marking twice is marking once. -/
theorem marked_marked {stored : String → Option Json} :
    marked privileged su_user (marked privileged su_user stored) =
      marked privileged su_user stored := by
  funext name
  unfold marked
  split
  · generalize (if name = "SU_USER" then (su_user.filter (· ≠ "")).map Json.str else none) = mark
    cases mark with
    | some v => rfl
    | none =>
      simp only [Option.none_or]
      split <;> rfl
  · rfl

/-- The statements that mark an environment. -/
theorem get?_set_marks {environment : Dict String Json} :
    Dict.get? (match su_user with
      | some su_user =>
        if su_user ≠ "" then
          Dict.set (Dict.set environment "PRIVILEGED_EXECUTION" (.str "true")) "SU_USER"
            (.str su_user)
        else Dict.set environment "PRIVILEGED_EXECUTION" (.str "true")
      | none => Dict.set environment "PRIVILEGED_EXECUTION" (.str "true")) name =
      marked true su_user (Dict.get? environment) name := by
  have hfirst : Dict.get? (Dict.set environment "PRIVILEGED_EXECUTION" (.str "true")) name =
      if name = "PRIVILEGED_EXECUTION" then some (.str "true") else Dict.get? environment name := by
    rw [Dict.get?_set]
    simp only [eq_comm]
  unfold marked
  rw [if_pos rfl]
  cases su_user with
  | none =>
    simp only [Option.filter_none, Option.map_none, ite_self, Option.none_or]
    exact hfirst
  | some su_user =>
    by_cases hsu : su_user = ""
    · simp only [hsu, ne_eq, not_true_eq_false, if_false, Option.filter_some, decide_false,
        Bool.false_eq_true, Option.map_none, ite_self, Option.none_or]
      exact hfirst
    · simp only [ne_eq, hsu, not_false_eq_true, if_true, Option.filter_some, decide_true,
        Option.map_some]
      rw [Dict.get?_set, hfirst]
      by_cases hname : name = "SU_USER"
      · simp [hname]
      · simp [hname, Ne.symm hname]

/-- The environment of an approved execution is the stored one, marked. -/
theorem get?_row_environment {row : Approval} : Dict.get? (privileged_environment row) name =
    marked row.params.privileged row.params.su_user (Dict.get? row.params.environment) name := by
  unfold privileged_environment
  cases row.params.privileged with
  | false => rfl
  | true => exact get?_set_marks

/-- The password that a request gives. -/
def given_password (form : Form) : Option String :=
  if form.privileged then form.su_password.filter (· ≠ "") else none

/-- That of a direct one is the form's, marked, with the given password encrypted. -/
theorem get?_form_environment {form : Form} : Dict.get? (form.privileged_environment origin) name =
    (if name = "SU_PASSWORD" then (given_password form).map
      fun p => .str (encrypt_value origin.fernet origin.iv p) else none).or
      (marked form.privileged form.su_user (Dict.get? form.environment) name) := by
  unfold Form.privileged_environment given_password
  cases form.privileged with
  | false => simp [marked]
  | true =>
    simp only [if_true]
    cases form.su_password with
    | none =>
      simp only [Option.filter_none, Option.map_none, ite_self, Option.none_or]
      exact get?_set_marks
    | some su_password =>
      by_cases hpassword : su_password = ""
      · simp only [hpassword, ne_eq, not_true_eq_false, if_false, Option.filter_some, decide_false,
          Bool.false_eq_true, Option.map_none, ite_self, Option.none_or]
        exact get?_set_marks
      · simp only [ne_eq, hpassword, not_false_eq_true, if_true, Option.filter_some, decide_true,
          Option.map_some]
        rw [Dict.get?_set]
        by_cases hname : name = "SU_PASSWORD"
        · simp [hname]
        · rw [if_neg (Ne.symm hname), if_neg hname, Option.none_or]
          exact get?_set_marks

/-- Marking leaves the password. -/
theorem marked_password {stored : String → Option Json} :
    marked privileged su_user stored "SU_PASSWORD" = stored "SU_PASSWORD" := by
  simp [marked]

/-- A given password is not empty. -/
theorem given_password_ne {form : Form} {p : String}
    (h : given_password form = some p) : p ≠ "" := by
  unfold given_password at h
  split at h
  · exact of_decide_eq_true (Option.filter_eq_some_iff.mp h).2
  · cases h

/-- The executor gets the password that the request gives, else what its environment says. -/
theorem password_form {form : Form} :
    password origin.fernet (Dict.get? (form.privileged_environment origin) "SU_PASSWORD") =
    ((given_password form).map .str).or
      (password origin.fernet (Dict.get? form.environment "SU_PASSWORD")) := by
  rw [get?_form_environment, if_pos rfl, marked_password]
  cases hgiven : given_password form with
  | none => rfl
  | some p =>
    have hne := given_password_ne hgiven
    have htruthy : (Json.str (encrypt_value origin.fernet origin.iv p)).truthy = true := by
      unfold encrypt_value
      rw [if_neg hne]
      simp [Json.truthy, FERNET_PREFIX]
    simp only [Option.map_some, Option.some_or, password, htruthy, if_true]
    exact decrypt_encrypt_value hne

/-- Marking looks at each name alone. -/
theorem marked_congr {stored stored' : String → Option Json} (h : stored name = stored' name) :
    marked privileged su_user stored name = marked privileged su_user stored' name := by
  unfold marked
  rw [h]

/-- After the approval only the password can be another one, when nothing else differed before. -/
theorem same_environment_iff (origin : Origin) {form : Form} {row : Approval}
    (hprivileged : row.params.privileged = form.privileged)
    (hsu_user : row.params.su_user = form.su_user)
    (hothers : ∀ name, name ≠ "SU_PASSWORD" →
      marked form.privileged form.su_user (Dict.get? row.params.environment) name =
      marked form.privileged form.su_user (Dict.get? form.environment) name) :
    (∀ name, Dict.get? (executor_environment origin.fernet (privileged_environment row)) name =
        Dict.get? (executor_environment origin.fernet (form.privileged_environment origin)) name) ↔
      password origin.fernet (Dict.get? row.params.environment "SU_PASSWORD") =
        ((given_password form).map .str).or
          (password origin.fernet (Dict.get? form.environment "SU_PASSWORD")) := by
  simp only [get?_executor_environment]
  have hrow : Dict.get? (privileged_environment row) "SU_PASSWORD" =
      Dict.get? row.params.environment "SU_PASSWORD" := by
    rw [get?_row_environment, marked_password]
  constructor
  · intro h
    have hpassword := h "SU_PASSWORD"
    rwa [if_pos rfl, if_pos rfl, hrow, password_form] at hpassword
  · intro h name
    split
    · rw [hrow, h, password_form]
    · rename_i hname
      rw [get?_row_environment, hprivileged, hsu_user, hothers name hname,
        get?_form_environment, if_neg hname, Option.none_or]

end environment

/-- The default replaces the empty text only. -/
theorem textOr_eq_self {s other : String} (hother : other ≠ "") : textOr s other = s ↔ s ≠ "" := by
  unfold textOr
  split
  · exact iff_of_true rfl ‹_›
  · rename_i hs
    obtain rfl := not_not.mp hs
    exact iff_of_false hother (not_not.mpr rfl)

theorem intOr_eq_self {n other : Int} (hother : other ≠ 0) : intOr n other = n ↔ n ≠ 0 := by
  unfold intOr
  split
  · exact iff_of_true rfl ‹_›
  · rename_i hn
    obtain rfl := not_not.mp hn
    exact iff_of_false hother (not_not.mpr rfl)

/-- What the request sets is truthy, wherever the trigger has a default. -/
structure Form.Truthy (form : Form) : Prop where
  exec_mode : form.exec_mode ≠ ""
  concurrent : form.concurrent ≠ 0
  fail_strategy : form.fail_strategy ≠ ""
  pilot_count : form.pilot_count ≠ 0
  pilot_success_rate : form.pilot_success_rate ≠ 0

section

variable {row : Approval} {host : Host} {user : User} {y : Execution} {iv : Nat}

/-- The environment that the approval keeps of a request is the one that the request runs with. -/
theorem same_environment {form : Form}
    (henvironment : row.params.environment = form.privileged_environment origin)
    (hprivileged : row.params.privileged = form.privileged)
    (hsu_user : row.params.su_user = form.su_user) (name : String) :
    Dict.get? (executor_environment origin.fernet (privileged_environment row)) name =
      Dict.get? (executor_environment origin.fernet
        (form.privileged_environment { origin with iv })) name := by
  have hothers : ∀ name, name ≠ "SU_PASSWORD" →
    marked form.privileged form.su_user (Dict.get? row.params.environment) name =
      marked form.privileged form.su_user (Dict.get? form.environment) name := by
    intro name hname
    rw [henvironment]
    refine (marked_congr ?_).trans (congrFun marked_marked name)
    rw [get?_form_environment, if_neg hname, Option.none_or]
  refine (same_environment_iff { origin with iv } hprivileged hsu_user hothers).mpr ?_ name
  rw [henvironment]
  exact password_form

/-- An approved execution runs like `y` when its approval agrees with `y` and none of the values
with a default is falsy. -/
theorem same_run_iff {execution_type : String} (htype : execution_type_of row = execution_type)
    (hytype : y.execution_type = execution_type)
    (hcommand : (if execution_type = "command" then row.params.command
      else none) = y.params.command)
    (hscript_type : (if execution_type = "command" then none
      else row.params.script_type) = y.params.script_type)
    (hscript_content : (if execution_type = "command" then none
      else row.params.script_content) = y.params.script_content)
    (hargs : row.params.args = y.params.args)
    (huse_shell : row.params.use_shell = y.params.use_shell)
    (hdirectory : row.params.working_directory.filter (· ≠ "") =
      y.params.working_directory.filter (· ≠ ""))
    (htimeout : row.params.timeout_seconds = y.params.timeout_seconds)
    (hmerge : row.params.merge_streams = y.params.merge_streams)
    (hprofile : row.params.load_profile = y.params.load_profile)
    (hprivileged : row.params.privileged = y.params.privileged) (fernet : Fernet) :
    SameRun fernet (approved_execution row host user) y ↔
      (∀ name, Dict.get? (executor_environment fernet (privileged_environment row)) name =
          Dict.get? (executor_environment fernet y.params.environment) name) ∧
        textOr row.params.exec_mode "parallel" = y.params.exec_mode ∧
          intOr row.params.concurrent 10 = y.params.concurrent ∧
        textOr row.params.fail_strategy "continue" = y.params.fail_strategy ∧
        intOr row.params.pilot_count 2 = y.params.pilot_count ∧
        intOr row.params.pilot_success_rate 100 = y.params.pilot_success_rate := by
  unfold approved_execution
  rw [htype]
  constructor
  · exact fun h => ⟨h.environment, h.exec_mode, h.concurrent, h.fail_strategy, h.pilot_count,
      h.pilot_success_rate⟩
  · rintro ⟨henvironment, hmode, hconcurrent, hstrategy, hcount, hrate⟩
    exact { execution_type := hytype.symm, command := hcommand, script_type := hscript_type,
            script_content := hscript_content, args := hargs, use_shell := huse_shell, working_directory := hdirectory,
            timeout_seconds := htimeout, environment := henvironment, merge_streams := hmerge, load_profile := hprofile,
            privileged := hprivileged, exec_mode := hmode, concurrent := hconcurrent, fail_strategy := hstrategy,
            pilot_count := hcount, pilot_success_rate := hrate }

theorem execution_type_of_command (h : row.execution_type = "command") :
    execution_type_of row = "command" := by
  unfold execution_type_of
  rw [h]
  decide +kernel

theorem execution_type_of_script (h : row.execution_type = "script") :
    execution_type_of row = "script" := by
  unfold execution_type_of
  rw [h]
  decide +kernel

/-- No setting of the form is replaced by its default. -/
theorem truthy_iff {form : Form} : form.Truthy ↔ textOr form.exec_mode "parallel" = form.exec_mode ∧
    intOr form.concurrent 10 = form.concurrent ∧
      textOr form.fail_strategy "continue" = form.fail_strategy ∧
    intOr form.pilot_count 2 = form.pilot_count ∧
      intOr form.pilot_success_rate 100 = form.pilot_success_rate := by
  rw [textOr_eq_self (by decide), textOr_eq_self (by decide), intOr_eq_self (by decide),
    intOr_eq_self (by decide), intOr_eq_self (by decide)]
  exact ⟨fun h => ⟨h.1, h.2, h.3, h.4, h.5⟩, fun ⟨h₁, h₂, h₃, h₄, h₅⟩ => ⟨h₁, h₂, h₃, h₄, h₅⟩⟩

/-- An empty directory counts as none in both. -/
theorem filter_directory_or_none {form : Form} :
    form.directory_or_none.filter (· ≠ "") = form.working_directory.filter (· ≠ "") := by
  unfold Form.directory_or_none
  rw [Option.filter_filter]
  simp only [Bool.and_self]

/-- When the approved command runs as the direct one. -/
theorem command_same_run_iff {request : CommandRequest} (htype : row.execution_type = "command")
    (hparams : row.params = { request.params origin with working_directory := request.directory_or_none })
    (hytype : y.execution_type = "command") (hy : y.params = request.params { origin with iv }) :
    SameRun origin.fernet (approved_execution row host user) y ↔ request.Truthy := by
  rw [same_run_iff (execution_type_of_command htype) hytype, truthy_iff]
  · rw [and_iff_right]
    · rw [hparams, hy]
      rfl
    · rw [hy]
      exact same_environment (by rw [hparams]; rfl) (by rw [hparams]; rfl) (by rw [hparams]; rfl)
  all_goals rw [hparams, hy]
  all_goals first | rfl | exact filter_directory_or_none

/-- When the approved script does. -/
theorem script_same_run_iff {request : ScriptRequest} (htype : row.execution_type = "script")
    (hparams : row.params = { request.params origin with working_directory := request.directory_or_none })
    (hytype : y.execution_type = "script") (hy : y.params = request.params { origin with iv }) :
    SameRun origin.fernet (approved_execution row host user) y ↔ request.Truthy := by
  rw [same_run_iff (execution_type_of_script htype) hytype, truthy_iff]
  · rw [and_iff_right]
    · rw [hparams, hy]
      rfl
    · rw [hy]
      exact same_environment (by rw [hparams]; rfl) (by rw [hparams]; rfl) (by rw [hparams]; rfl)
  all_goals rw [hparams, hy]
  all_goals first | rfl | exact filter_directory_or_none

/-- The values that `submit_script_approval` leaves to their defaults are these, its own key for the
concurrency says the same, and a password that is needed stands in the environment as well. -/
structure ScriptRequest.Defaulted (request : ScriptRequest) (fernet : Fernet) : Prop where
  exec_mode : request.exec_mode ≠ ""
  concurrent : intOr request.concurrency 10 = request.concurrent
  fail_strategy : request.fail_strategy = "continue"
  pilot_count : request.pilot_count = 2
  pilot_success_rate : request.pilot_success_rate = 100
  su_password : request.privileged = true → ∀ p, request.su_password = some p → p ≠ "" →
    Dict.get? (executor_environment fernet request.environment) "SU_PASSWORD" = some (.str p)

/-- A password is given with the privilege only. -/
theorem given_password_iff {form : Form} {p : String} :
    given_password form = some p ↔ form.privileged = true ∧ form.su_password = some p ∧ p ≠ "" := by
  unfold given_password
  cases form.privileged <;> simp [Option.filter_eq_some_iff]

/-- When both environments give the executor the same, for a row that kept the raw one. -/
theorem same_raw_environment_iff (row : Approval) (origin : Origin) (form : Form)
    (henvironment : row.params.environment = form.environment)
    (hprivileged : row.params.privileged = form.privileged)
    (hsu_user : row.params.su_user = form.su_user) :
    (∀ name, Dict.get? (executor_environment origin.fernet (privileged_environment row)) name =
        Dict.get? (executor_environment origin.fernet (form.privileged_environment origin)) name) ↔
      (form.privileged = true → ∀ p, form.su_password = some p → p ≠ "" →
        Dict.get? (executor_environment origin.fernet form.environment) "SU_PASSWORD" =
          some (.str p)) := by
  rw [same_environment_iff origin hprivileged hsu_user (by rw [henvironment]; exact fun _ _ => rfl),
    henvironment, get?_executor_environment, if_pos rfl]
  constructor
  · intro h hprivileged p hp hne
    rw [given_password_iff.mpr ⟨hprivileged, hp, hne⟩] at h
    exact h
  · intro h
    cases hgiven : given_password form with
    | none => rfl
    | some p =>
      obtain ⟨hprivileged, hp, hne⟩ := given_password_iff.mp hgiven
      exact h hprivileged p hp hne

/-- When a script that was submitted for approval alone runs as the direct one. -/
theorem script_approval_same_run_iff {request : ScriptRequest} {host' : Host} {n : Int}
    (htype : row.execution_type = "script")
    (hparams : row.params = (request.script_approval origin host' n).params)
    (hytype : y.execution_type = "script") (hy : y.params = request.params { origin with iv }) :
    SameRun origin.fernet (approved_execution row host user) y ↔
      request.Defaulted origin.fernet := by
  have henvironment := same_raw_environment_iff row { origin with iv } request.toForm
    (by rw [hparams]; rfl) (by rw [hparams]; rfl) (by rw [hparams]; rfl)
  rw [same_run_iff (execution_type_of_script htype) hytype]
  · rw [hy]
    refine (and_congr_left fun _ => henvironment).trans ?_
    rw [hparams]
    constructor
    · rintro ⟨hpassword, hmode, hconcurrent, hstrategy, hcount, hrate⟩
      exact ⟨(textOr_eq_self (by decide)).mp hmode, hconcurrent, hstrategy.symm, hcount.symm,
        hrate.symm, hpassword⟩
    · intro h
      exact ⟨h.su_password, (textOr_eq_self (by decide)).mpr h.exec_mode, h.concurrent,
        h.fail_strategy.symm, h.pilot_count.symm, h.pilot_success_rate.symm⟩
  all_goals rw [hparams, hy]
  all_goals first | rfl | exact filter_directory_or_none

end

/-- What a submission must be like for the approval to keep it. -/
def Submission.Preserved (fernet : Fernet) : Submission → Prop
  | .command request => request.Truthy
  | .script request => request.Truthy
  | .script_approval request => request.Defaulted fernet

section

variable {site : Site} {user : User} {reason : String} {now : Time} {params : Parameters}
  {execution_type : String}
  {x y : Execution}

def eventStep (w : World) (event : Event) : Option World := some (w.react event)

/-- Runs keep what an approval is about. -/
theorem keepsTarget_of_runs (hruns : Runs eventStep (fun _ _ => True) w w')
    (h : w.KeepsTarget i params execution_type) :
    w'.KeepsTarget i params execution_type := by
  refine hruns.invariant (I := fun w => w.KeepsTarget i params execution_type)
    (fun s event s' hs _ hstep => ?_) h
  exact Option.some.inj hstep ▸ hs.react event

theorem ne_append_singleton {α : Type} {xs : List α} {x : α} : xs ≠ xs ++ [x] := by
  intro h
  have hlength := congrArg List.length h
  simp at hlength

/-- What an approve creates is the execution of the approval. -/
theorem created_by_approve (h : w.KeepsTarget i params execution_type)
    (hx : (w.next (.approve site i user reason now)).executions = w.executions ++ [x]) :
    ∃ row host, row.params = params ∧ row.execution_type = execution_type ∧
      x = approved_execution row host user := by
  obtain ⟨a, ha, hparams, htype⟩ := h
  by_cases hvotes : Votes site a user
  · rw [after_approve ha hvotes] at hx
    split at hx
    · exact absurd hx ne_append_singleton
    · exact absurd hx ne_append_singleton
    · split at hx
      · exact absurd hx ne_append_singleton
      · rename_i x' hlaunch
        obtain ⟨host, -, -, rfl⟩ := launch_row hlaunch
        have hsame : w.executions ++ [approved_execution (granted a user reason now) host user] =
          w.executions ++ [x] := hx
        exact ⟨granted a user reason now, host, hparams, htype,
          (List.singleton_inj.mp (List.append_cancel_left hsame)).symm⟩
  · rw [after_approve_of_not_votes] at hx
    · exact absurd hx ne_append_singleton
    · intro b hb
      exact Option.some.inj (ha.symm.trans hb) ▸ hvotes

/-- A submission stores what its form is about. -/
theorem keepsTarget_of_submitted {form : Form} {host : Host} {params : Parameters}
    (hstored : (w.submitted form origin host execution_type params).approvals.length =
      w.approvals.length + 1) :
    (w.submitted form origin host execution_type params).KeepsTarget w.approvals.length
      { params with working_directory := form.directory_or_none } execution_type := by
  obtain ⟨n, heq⟩ := submitted_eq hstored
  refine ⟨form.approval origin host execution_type params w.executions.length n, ?_, rfl, rfl⟩
  rw [heq]
  exact List.getElem?_concat_length

/-- A direct request creates the execution of its form. -/
theorem created_directly {form : Form} {host : Host} {params : Parameters}
    (haudit : form.need_audit = false)
    (hy : (w.submitted form origin host execution_type params).executions = w.executions ++ [y]) :
    y.params = params ∧ y.execution_type = execution_type := by
  unfold World.submitted at hy
  rw [haudit] at hy
  have hsame : w.executions ++ [form.execution origin host execution_type params] =
    w.executions ++ [y] := hy
  obtain rfl := List.singleton_inj.mp (List.append_cancel_left hsame)
  exact ⟨rfl, rfl⟩

/-- Whatever happens between a submission and the vote that completes its approval, what is run
then is what the request itself would have run, if and only if the submission is preserved. -/
theorem submitted_same_run_iff {sub : Submission} {v : World} {iv : Nat}
    (hstored : (w.next (sub.call origin)).approvals.length = w.approvals.length + 1)
    (hruns : Runs eventStep (fun _ _ => True) (w.next (sub.call origin)) w')
    (hx : (w'.next (.approve site w.approvals.length user reason now)).executions =
      w'.executions ++ [x])
    (hy : (v.next (sub.direct { origin with iv })).executions = v.executions ++ [y]) :
    SameRun origin.fernet x y ↔ sub.Preserved origin.fernet := by
  have hchanged : w.next (sub.call origin) ≠ w := by
    intro hc
    rw [hc] at hstored
    omega
  have hcreated : v.next (sub.direct { origin with iv }) ≠ v := by
    intro hc
    rw [hc] at hy
    exact ne_append_singleton hy
  cases sub with
  | command request =>
    rcases after_execute_command w origin { request with need_audit := true } with ⟨-, hsame⟩ |
      ⟨host, -, hnext⟩
    · exact absurd hsame hchanged
    · have htarget := keepsTarget_of_runs hruns (hnext ▸ keepsTarget_of_submitted (hnext ▸ hstored))
      obtain ⟨row, host', hparams, htype, rfl⟩ := created_by_approve htarget hx
      rcases after_execute_command v { origin with iv } { request with need_audit := false } with
        ⟨-, hsame⟩ | ⟨host'', -, hnext⟩
      · exact absurd hsame hcreated
      · obtain ⟨hyparams, hytype⟩ := created_directly rfl (hnext.symm ▸ hy)
        exact command_same_run_iff htype hparams hytype hyparams
  | script request =>
    rcases after_execute_script w origin { request with need_audit := true } with ⟨-, hsame⟩ |
      ⟨host, -, hnext⟩
    · exact absurd hsame hchanged
    · have htarget := keepsTarget_of_runs hruns (hnext ▸ keepsTarget_of_submitted (hnext ▸ hstored))
      obtain ⟨row, host', hparams, htype, rfl⟩ := created_by_approve htarget hx
      rcases after_execute_script v { origin with iv } { request with need_audit := false } with
        ⟨-, hsame⟩ | ⟨host'', -, hnext⟩
      · exact absurd hsame hcreated
      · obtain ⟨hyparams, hytype⟩ := created_directly rfl (hnext.symm ▸ hy)
        exact script_same_run_iff htype hparams hytype hyparams
  | script_approval request =>
    obtain hsame | ⟨host, n, hnext⟩ := after_submit_script_approval w origin request
    · exact absurd hsame hchanged
    · have hsubmitted : (w.add_approval
        (request.script_approval origin host n)).KeepsTarget w.approvals.length
          (request.script_approval origin host n).params "script" :=
        ⟨request.script_approval origin host n, List.getElem?_concat_length, rfl, rfl⟩
      have htarget := keepsTarget_of_runs hruns (hnext ▸ hsubmitted)
      obtain ⟨row, host', hparams, htype, rfl⟩ := created_by_approve htarget hx
      rcases after_execute_script v { origin with iv } { request with need_audit := false } with
        ⟨-, hsame⟩ | ⟨host'', -, hnext⟩
      · exact absurd hsame hcreated
      · obtain ⟨hyparams, hytype⟩ := created_directly rfl (hnext.symm ▸ hy)
        exact script_approval_same_run_iff htype hparams hytype hyparams

end

/-! Alice submits a script for a privileged user, with a password, and Bob approves it. -/

def backup (su_password : Option String) : ScriptRequest where
  host_id := "1"
  privileged := true
  su_user := some "backup"
  su_password
  approver_ids := [2]
  script_type := "sh"
  script_content := "pg_dump"

def backup_waiting (su_password : Option String) : World :=
  ({} : World).next ((Submission.script_approval (backup su_password)).call from_alice)

theorem backup_same_run : ∃ x y,
    ((backup_waiting none).next (.approve shop ({} : World).approvals.length bob "" 0)).executions =
        (backup_waiting none).executions ++ [x] ∧
      (({} : World).next ((Submission.script_approval (backup none)).direct from_alice)).executions =
        ({} : World).executions ++ [y] ∧
      (SameRun identity_cipher x y ↔
        (Submission.script_approval (backup none)).Preserved identity_cipher) := by
  refine ⟨_, _, rfl, rfl, ?_⟩
  have hx : ((backup_waiting none).next
    (.approve shop ({} : World).approvals.length bob "" 0)).executions =
      (backup_waiting none).executions ++ [_] := rfl
  have hy : (({} : World).next
    ((Submission.script_approval (backup none)).direct from_alice)).executions =
      ({} : World).executions ++ [_] := rfl
  have hstored : (({} : World).next
    ((Submission.script_approval (backup none)).call from_alice)).approvals.length =
      ({} : World).approvals.length + 1 := rfl
  exact submitted_same_run_iff hstored (.refl _) hx hy

/-- The environment with which the approved script runs has no password. -/
theorem backup_without_password : ∃ x y,
    ((backup_waiting (some "secret")).next (.approve shop 0 bob "" 0)).executions =
        (backup_waiting (some "secret")).executions ++ [x] ∧
      (({} : World).next ((Submission.script_approval
        (backup (some "secret"))).direct from_alice)).executions = [] ++ [y] ∧
      ¬SameRun identity_cipher x y := by
  refine ⟨_, _, rfl, rfl, fun h => ?_⟩
  have hpassword := h.environment "SU_PASSWORD"
  rw [get?_executor_environment, get?_executor_environment, if_pos rfl, if_pos rfl] at hpassword
  have hmissing := congrArg Option.isSome hpassword
  revert hmissing
  decide +kernel

end taurus.ops_approval
