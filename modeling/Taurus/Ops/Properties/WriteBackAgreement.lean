import Taurus.Engine.Runner.Runs
import Taurus.Ops.WriteBack

namespace taurus.ops

open taurus.lib taurus.python taurus.engine taurus.engine.runner taurus.engine.executor

variable {repr : Json → String} {ops : OpsExecution} {row : NodeExec}

/-- The error code a text starts with. -/
def prefix_code (message : Option String) : Option Nat :=
  match (message.getD "").toList with
  | 'E' :: cs =>
    if (cs.take 4).length = 4 ∧ (cs.take 4).all isdecimal then digitsNat? (cs.take 4) else none
  | _ => none

/-- What a write-back leaves in a row. -/
structure Result where
  status : Status
  exit_code : Option Int
  code : Option Nat
  stdout : Json
  stderr : Json

def result (row : NodeExec) : Result where
  status := row.status
  exit_code := row.exit_code
  code := prefix_code row.error_message
  stdout := getJson row.output "stdout"
  stderr := getJson row.output "stderr"

/-- The three paths leave the same in the row. -/
def WriteBacksAgree (env : Env) (repr : Json → String) (ops : OpsExecution)
    (row : NodeExec) : Prop :=
  result (poll_row env repr ops row) = result (push_row env.now repr ops row) ∧
    result (push_row env.now repr ops row) = result (sync_row env.now repr ops row)

/-- The text `name` of a chunk by both protocols: a layered chunk has only its content. -/
def chunk_text (name : String) : Json → String
  | .obj item =>
    let type := (getJson item "type").str?
    if type = some "stdout" ∨ type = some "stderr" then
      if type = some name then (getJson item "content").str?.getD "" else ""
    else if type = some "env" ∧ (getJson item "content").obj?.isSome then ""
    else (getJson item name).str?.getD ""
  | _ => ""

/-- The text `name` of a chunk by its flat field alone. -/
def flat_text (repr : Json → String) (name : String) : Json → String
  | .obj item => if (getJson item name).truthy then str repr (getJson item name) else ""
  | _ => ""

private theorem join_flat_part (item : Dict String Json) (name : String) :
    String.join (flat_part item name) = (getJson item name).str?.getD "" := by
  unfold flat_part
  split
  · split_ifs with h <;> simp_all [Json.str?]
  · cases hv : getJson item name <;> simp_all [Json.str?]

/-- What an item adds to the two outputs. -/
private theorem extract_item_texts (repr : Json → String) (x : Extracted) (item : Json) :
    String.join (extract_item repr x item).stdout_parts =
        String.join x.stdout_parts ++ chunk_text "stdout" item ∧
      String.join (extract_item repr x item).stderr_parts =
        String.join x.stderr_parts ++ chunk_text "stderr" item := by
  cases item with
  | obj item =>
    unfold extract_item chunk_text
    simp only
    split
    · simp_all [Json.str?]
    · cases hv : getJson item "content" <;> simp_all [Json.str?]
    · simp_all [Json.str?]
    · cases hv : getJson item "content" <;> simp_all [Json.str?]
    · simp_all [Json.str?, Json.obj?]
    · simp only [String.join_append, join_flat_part]
      cases ht : getJson item "type" with
      | str t => cases hc : getJson item "content" <;> simp_all [Json.str?, Json.obj?]
      | null | bool | int | float | arr | obj => simp [Json.str?]
  | null | bool | int | float | str | arr => simp [extract_item, chunk_text]

/-- The extracted texts are those of the chunks, one after the other. -/
theorem extract_texts (repr : Json → String) (buf : List Json) :
    String.join (extract repr buf).stdout_parts = String.join (buf.map (chunk_text "stdout")) ∧
      String.join (extract repr buf).stderr_parts =
        String.join (buf.map (chunk_text "stderr")) := by
  suffices h : ∀ x : Extracted,
      String.join (buf.foldl (extract_item repr) x).stdout_parts =
          String.join x.stdout_parts ++ String.join (buf.map (chunk_text "stdout")) ∧
        String.join (buf.foldl (extract_item repr) x).stderr_parts =
          String.join x.stderr_parts ++ String.join (buf.map (chunk_text "stderr")) by
    simpa [extract] using h {}
  induction buf with
  | nil => simp
  | cons item rest ih =>
    intro x
    obtain ⟨hout, herr⟩ := extract_item_texts repr x item
    obtain ⟨ihout, iherr⟩ := ih (extract_item repr x item)
    simp only [List.foldl_cons, ihout, iherr, hout, herr, List.map_cons, String.join_cons,
      String.append_assoc, and_self]

/-- The texts of the push path are the flat ones. -/
theorem push_texts (name : String) (buf : List Json) :
    buf.foldl (push_text repr name) "" = String.join (buf.map (flat_text repr name)) := by
  suffices h : ∀ text, buf.foldl (push_text repr name) text =
      text ++ String.join (buf.map (flat_text repr name)) by simpa using h ""
  induction buf with
  | nil => simp
  | cons item rest ih =>
    intro text
    have hitem : push_text repr name text item = text ++ flat_text repr name item := by
      cases item with
      | obj item => simp only [push_text, flat_text]; split_ifs <;> simp
      | null | bool | int | float | str | arr => simp [push_text, flat_text]
    rw [List.foldl_cons, ih, hitem, List.map_cons, String.join_cons, String.append_assoc]

/-- A text that starts with a code has it as its prefix. -/
theorem prefix_code_of_toList {s : String} (ds rest : List Char) (hs : s.toList = 'E' :: ds ++ rest)
    (hlen : ds.length = 4) (hdigits : ds.all isdecimal = true) :
    prefix_code (some s) = digitsNat? ds := by
  have htake : (ds ++ rest).take 4 = ds := by
    rw [← hlen]
    exact List.take_left
  simp [prefix_code, hs, htake, hlen, hdigits]

/-- The code is read from the start of the text. -/
private theorem prefix_code_E3001 (msg : String) :
    prefix_code (some s!"E3001: {msg}") = some 3001 := by
  refine (prefix_code_of_toList "3001".toList (": ".toList ++ msg.toList) ?_ rfl rfl).trans rfl
  simp only [ToString.toString, String.toList_append]
  rfl

private theorem prefix_code_E3002 (msg : String) :
    prefix_code (some s!"E3002: {msg}") = some 3002 := by
  refine (prefix_code_of_toList "3002".toList (": ".toList ++ msg.toList) ?_ rfl rfl).trans rfl
  simp only [ToString.toString, String.toList_append]
  rfl

/-- The condition under which the paths agree: the exit code is known, no path brings an
error code that the others do not, and the buffer reads the same by both protocols, by
its flat fields, and as the output that the row already has. -/
structure Agreeable (repr : Json → String) (ops : OpsExecution) (row : NodeExec) : Prop where
  exit_code : ops.exit_code ≠ none
  code : (ops.status = .SUCCESS ∧ prefix_code row.error_message = none) ∨
    (((ops.status = .FAILED ∧ has_own_code (message ops) = true) ∨
        (ops.status = .ABORTED ∧ mentions_cancel (message ops) = true)) ∧
      prefix_code row.error_message = prefix_code (some (message ops)))
  texts : ∀ name ∈ ["stdout", "stderr"],
    String.join (ops.output_buffer.map (chunk_text name)) =
        String.join (ops.output_buffer.map (flat_text repr name)) ∧
      getJson row.output name = .str (String.join (ops.output_buffer.map (chunk_text name)))

/-- The rows all three paths write: a running row of the execution that the scheduler
has waited for long enough. -/
structure Awaited (now : Time) (repr : Json → String) (ops : OpsExecution)
    (row : NodeExec) : Prop where
  terminal : ops.status.terminal = true
  running : row.status = .RUNNING
  refers : refers_to ops row = true
  found : sync_id repr row = some ops.execution_id
  due : sync_due now ops = true

/-- What a poll leaves in a running row. -/
theorem result_poll (env : Env) (hrunning : row.status = .RUNNING)
    (hterm : ops.status.terminal = true) :
    result (poll_row env repr ops row) =
      { status := (_unit_output_from_ops repr ops).status
        exit_code := (_unit_output_from_ops repr ops).exit_code.or row.exit_code
        code := prefix_code ((_unit_output_from_ops repr ops).error_message.or row.error_message)
        stdout := .str (String.join (ops.output_buffer.map (chunk_text "stdout")))
        stderr := .str (String.join (ops.output_buffer.map (chunk_text "stderr"))) } := by
  have houtput : (_unit_output_from_ops repr ops).output = ops_output repr ops := by
    cases hs : ops.status <;> simp_all [_unit_output_from_ops, OpsStatus.terminal]
    split_ifs <;> rfl
  have hmove : (_unit_output_from_ops repr ops).status ∈ VALID_TRANSITIONS .RUNNING := by
    cases hs : ops.status <;>
      simp_all [_unit_output_from_ops, OpsStatus.terminal, VALID_TRANSITIONS]
    split_ifs <;> simp
  obtain ⟨hout, herr⟩ := extract_texts repr ops.output_buffer
  simp only [result, poll_row, applied_status, applied_exit_code, applied_error_message,
    applied_output, hrunning, houtput, nextStatus, transition_status, hmove, if_true]
  simp [ops_output, _extract_stdout_stderr, getJson, Dict.get?_cons, hout, herr]

/-- What the push path leaves in a running row. -/
theorem result_push (now : Time) (h : Awaited now repr ops row) :
    result (push_row now repr ops row) =
      { status := (push_target ops).1
        exit_code := (push_target ops).2.1
        code := prefix_code ((push_target ops).2.2.or row.error_message)
        stdout := .str (String.join (ops.output_buffer.map (flat_text repr "stdout")))
        stderr := .str (String.join (ops.output_buffer.map (flat_text repr "stderr"))) } := by
  have hdone : ¬ (ops.status = .PENDING ∨ ops.status = .RUNNING) := by
    have := h.terminal
    rintro (hs | hs) <;> simp [hs, OpsStatus.terminal] at this
  simp [result, push_row, hdone, h.refers, h.running, push_output, push_texts, getJson,
    Dict.get?_cons]

/-- What the scheduler leaves in a running row. -/
theorem result_sync {now : Time} (h : Awaited now repr ops row) (target : Status)
    (ht : sync_target ops.status = some target) :
    result (sync_row now repr ops row) =
      { status := target
        exit_code := ops.exit_code
        code := if target ≠ .SUCCESS then prefix_code (some (message ops)) else none
        stdout := getJson row.output "stdout"
        stderr := getJson row.output "stderr" } := by
  simp only [result, sync_row, ht, h.found, h.due, and_self, if_true]
  split_ifs <;> rfl

/-- The output part of the agreement. -/
private theorem texts_iff :
    (∀ name ∈ ["stdout", "stderr"],
      String.join (ops.output_buffer.map (chunk_text name)) =
          String.join (ops.output_buffer.map (flat_text repr name)) ∧
        getJson row.output name = .str (String.join (ops.output_buffer.map (chunk_text name)))) ↔
    ((String.join (ops.output_buffer.map (chunk_text "stdout")) =
          String.join (ops.output_buffer.map (flat_text repr "stdout")) ∧
        String.join (ops.output_buffer.map (chunk_text "stderr")) =
          String.join (ops.output_buffer.map (flat_text repr "stderr"))) ∧
      .str (String.join (ops.output_buffer.map (flat_text repr "stdout"))) =
        getJson row.output "stdout" ∧
      .str (String.join (ops.output_buffer.map (flat_text repr "stderr"))) =
        getJson row.output "stderr") := by
  simp only [List.mem_cons, List.not_mem_nil, or_false, forall_eq_or_imp, forall_eq]
  constructor
  · rintro ⟨⟨ho, ho'⟩, he, he'⟩
    exact ⟨⟨ho, he⟩, by rw [ho', ho], by rw [he', he]⟩
  · rintro ⟨⟨ho, he⟩, ho', he'⟩
    exact ⟨⟨ho, by rw [← ho', ho]⟩, he, by rw [← he', he]⟩

/-- The three write-back paths leave the same status, exit code, error code and texts in a
row if and only if the execution and the row are `Agreeable`. -/
theorem write_backs_agree_iff (env : Env) (h : Awaited env.now repr ops row) :
    WriteBacksAgree env repr ops row ↔ Agreeable repr ops row := by
  have hagree : Agreeable repr ops row ↔ ops.exit_code ≠ none ∧
      ((ops.status = .SUCCESS ∧ prefix_code row.error_message = none) ∨
        (((ops.status = .FAILED ∧ has_own_code (message ops) = true) ∨
            (ops.status = .ABORTED ∧ mentions_cancel (message ops) = true)) ∧
          prefix_code row.error_message = prefix_code (some (message ops)))) ∧ _ :=
    ⟨fun h => ⟨h.exit_code, h.code, texts_iff.mp h.texts⟩,
      fun h => ⟨h.1, h.2.1, texts_iff.mpr h.2.2⟩⟩
  unfold WriteBacksAgree
  rw [hagree, result_poll env h.running h.terminal, result_push env.now h]
  have hterm := h.terminal
  cases hs : ops.status with
  | SUCCESS =>
    rw [result_sync h .SUCCESS (by rw [hs]; rfl)]
    cases hec : ops.exit_code <;>
      simp only [_unit_output_from_ops, push_target, hs, hec, Result.mk.injEq, Option.none_or]
    · simp
    · simp
      exact and_left_comm
  | FAILED =>
    rw [result_sync h .FAILED (by rw [hs]; rfl)]
    by_cases hown : has_own_code (message ops) = true <;> cases hec : ops.exit_code <;>
      simp only [_unit_output_from_ops, push_target, hs, hown, hec, Result.mk.injEq]
    · simp
    · simp
      constructor
      · rintro ⟨⟨-, htexts⟩, hcode, hrow⟩
        exact ⟨hcode, htexts, hrow⟩
      · rintro ⟨hcode, htexts, hrow⟩
        exact ⟨⟨hcode.symm, htexts⟩, hcode, hrow⟩
    · simp
    · -- without a code of its own the failure is E3001 on one path and E3002 on the other
      simp [prefix_code_E3001, prefix_code_E3002]
  | ABORTED =>
    rw [result_sync h .CANCELLED (by rw [hs]; rfl)]
    by_cases hcancel : mentions_cancel (message ops) = true <;> cases hec : ops.exit_code <;>
      simp only [_unit_output_from_ops, push_target, hs, hcancel, hec, Result.mk.injEq]
    · simp
    · simp
      exact and_left_comm
    · simp
    · simp
  | PENDING | RUNNING | APPROVING | REJECTED => simp [hs, OpsStatus.terminal] at hterm

/-- A command that has ended in the first minute, and its row. -/
def ended (status : OpsStatus) (exit_code : Int) (error_message : Option String) : OpsExecution :=
  { execution_id := "wfex-1-deploy", execution_type := "command", host_id := 1, status,
    exit_code := some exit_code, error_message,
    started_at := some (Time.seconds 0), finished_at := some (Time.seconds 60) }

def deployRow : NodeExec :=
  { node_key := "deploy", node_type := "command", node_name := "deploy", host_id := "1",
    dispatch_id := "wfex-1-deploy", attempt_no := 1, status := .RUNNING, fail_strategy := "fail_fast",
    adapter_state := [("ops_execution_id", .str "wfex-1-deploy")],
    output := [("ops_execution_id", .str "wfex-1-deploy"), ("stdout", .str ""), ("stderr", .str ""),
      ("exit_code", .null), ("ops_status", .int 1)],
    started_at := some (Time.seconds 0) }

/-- A command that fails with exit code 2 is E3001 for a poll and E3002 for the push path. -/
theorem failed_command_disagrees : ∃ env ops row, Awaited env.now (fun _ => "") ops row ∧
    ¬ WriteBacksAgree env (fun _ => "") ops row := by
  refine ⟨scripted 2 (fun _ _ => running) fun _ _ => running,
    ended .FAILED 2 (some "exit status 2"), deployRow, by constructor <;> decide +kernel,
    fun hagree => ?_⟩
  have hcode : (result (poll_row _ _ _ _)).code = (result (push_row _ _ _ _)).code :=
    congrArg Result.code hagree.1
  revert hcode
  decide +kernel

/-- A silent command that succeeds is written back alike. -/
theorem silent_command_agrees :
    WriteBacksAgree (scripted 2 (fun _ _ => running) fun _ _ => running) (fun _ => "")
        (ended .SUCCESS 0 none) deployRow ↔
      Agreeable (fun _ => "") (ended .SUCCESS 0 none) deployRow :=
  write_backs_agree_iff _ (by constructor <;> decide +kernel)

end taurus.ops
