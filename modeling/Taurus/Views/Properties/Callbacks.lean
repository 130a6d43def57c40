import Mathlib.Data.List.Find
import Taurus.Engine.Steps.KeptByCalls
import Taurus.Engine.Steps.Polled
import Taurus.Views.Executions

namespace taurus.units.CallbackEvent

/-- The callback reports a failure. -/
def failed (event : CallbackEvent) : Bool := event.status.str? = some "failed"

/-- The callback decides the outcome of its node. -/
def decides (event : CallbackEvent) : Bool := event.status.str? = some "success" || event.failed

/-- The callback brings an output. -/
def delivers (event : CallbackEvent) : Bool := !event.failed && !event.data.isEmpty

/-- The message of a failure. -/
def message (event : CallbackEvent) : String :=
  if event.error = "" then "External callback failed" else event.error

end taurus.units.CallbackEvent

namespace taurus.views

open taurus.lib taurus.python taurus.engine taurus.engine.runner taurus.units

/-- A request to the callback address of a node. -/
structure CallbackRequest where
  env : Env
  event : CallbackEvent

/-- The requests with one token, one after another. -/
def deliver (token : String) : List CallbackRequest → World → World
  | [], w => w
  | request :: rest, w =>
    deliver token rest (workflow_callback_view request.env token request.event w).2

/-- A row after one callback. -/
def received (row : NodeExec) (request : CallbackRequest) : NodeExec :=
  applied request.env row (HttpCallbackAdapter.inject_external_event row.adapter_state request.event) false

/-- The outcome that callbacks decide for a running node: the first that decides it. -/
def outcome (events : List CallbackEvent) : Status :=
  match events.find? (·.decides) with
  | none => .RUNNING
  | some event => if event.failed then .FAILED else .SUCCESS

/-- What a sequence of callbacks makes of a running row: the first decides its status, the
last ones with an output or a failure set the output and the error. -/
structure Answered (row : NodeExec) (events : List CallbackEvent) (final : NodeExec) : Prop where
  status : final.status = outcome events
  output : final.output = ((events.filter (·.delivers)).getLast?.map (·.data)).getD row.output
  error_message : final.error_message =
    ((events.filter (·.failed)).getLast?.map (·.message)).or row.error_message
  exit_code : final.exit_code = if events.any (·.failed) then some 1 else row.exit_code
  poll_count : final.poll_count = row.poll_count + events.length
  callback_status : getJson final.adapter_state "callback_status" =
    (events.getLast?.map (·.status)).getD (getJson row.adapter_state "callback_status")

variable {row : NodeExec} {w w' : World} {token : String}

/-- One more callback gives the outcome of all of them. -/
theorem outcome_append (events : List CallbackEvent) (event : CallbackEvent) (uo : UnitOutput)
    (huo : uo.status = outcome [event]) :
    nextStatus (outcome events) uo.status = outcome (events ++ [event]) := by
  unfold outcome at huo ⊢
  rw [List.find?_append]
  cases hfind : events.find? (·.decides) with
  | none =>
    simp only [Option.none_or]
    rw [huo]
    cases [event].find? (·.decides) with
    | none => rfl
    | some e =>
      simp only
      split_ifs <;> rfl
  | some e =>
    simp only [Option.some_or]
    split_ifs <;> exact nextStatus_terminal rfl _

/-- The status a callback gives. -/
theorem inject_status (state : Dict String Json) (event : CallbackEvent) :
    (HttpCallbackAdapter.inject_external_event state event).status = outcome [event] := by
  unfold HttpCallbackAdapter.inject_external_event outcome
  by_cases hsuccess : event.status.str? = some "success"
  · simp [hsuccess, CallbackEvent.decides, CallbackEvent.failed]
  · by_cases hfailed : event.status.str? = some "failed"
    · simp [hfailed, CallbackEvent.decides, CallbackEvent.failed]
    · simp [hsuccess, hfailed, CallbackEvent.decides, CallbackEvent.failed]

/-- Its output. -/
theorem inject_output (state : Dict String Json) (event : CallbackEvent) (old : Dict String Json) :
    (let output := (HttpCallbackAdapter.inject_external_event state event).output
     if output.isEmpty then old else output) = if event.delivers then event.data else old := by
  unfold HttpCallbackAdapter.inject_external_event
  by_cases hsuccess : event.status.str? = some "success"
  · cases hdata : event.data <;>
      simp [hsuccess, CallbackEvent.delivers, CallbackEvent.failed, hdata]
  · by_cases hfailed : event.status.str? = some "failed"
    · simp [hfailed, CallbackEvent.delivers, CallbackEvent.failed]
    · cases hdata : event.data <;>
        simp [hsuccess, hfailed, CallbackEvent.delivers, CallbackEvent.failed, hdata]

/-- Its error. -/
theorem inject_error (state : Dict String Json) (event : CallbackEvent) :
    (HttpCallbackAdapter.inject_external_event state event).error_message =
        (if event.failed then some event.message else none) ∧
      (HttpCallbackAdapter.inject_external_event state event).exit_code =
        if event.failed then some 1 else none := by
  unfold HttpCallbackAdapter.inject_external_event
  by_cases hsuccess : event.status.str? = some "success"
  · simp [hsuccess, CallbackEvent.failed]
  · by_cases hfailed : event.status.str? = some "failed"
    · have herror : HttpCallbackAdapter.error_text (HttpCallbackAdapter.called_back state event) =
          event.message := by
        unfold HttpCallbackAdapter.error_text HttpCallbackAdapter.called_back CallbackEvent.message
        rw [if_pos hfailed, getJson_set, if_pos rfl]
        by_cases hempty : event.error = "" <;> simp [hempty]
      simp [hfailed, herror, CallbackEvent.failed]
    · simp [hsuccess, hfailed, CallbackEvent.failed]

/-- The state of the adapter has the status of the callback. -/
theorem called_back_status (state : Dict String Json) (event : CallbackEvent) :
    getJson (HttpCallbackAdapter.called_back state event) "callback_status" = event.status := by
  unfold HttpCallbackAdapter.called_back
  split_ifs <;> simp [getJson_set]

theorem called_back_token (state : Dict String Json) (event : CallbackEvent) :
    getJson (HttpCallbackAdapter.called_back state event) "token" = getJson state "token" := by
  unfold HttpCallbackAdapter.called_back
  split_ifs <;> simp [getJson_set]

theorem received_adapter_state (row : NodeExec) (request : CallbackRequest) :
    (received row request).adapter_state =
      HttpCallbackAdapter.called_back row.adapter_state request.event := by
  unfold received
  rw [applied_adapter_state, HttpCallbackAdapter.inject_adapter_state]
  rfl

/-- The callbacks to a running row, one after another. -/
theorem received_answered (hrunning : row.status = .RUNNING) (requests : List CallbackRequest) :
    Answered row (requests.map (·.event)) (requests.foldl received row) := by
  induction requests using List.reverseRecOn with
  | nil => exact ⟨hrunning, rfl, rfl, rfl, rfl, rfl⟩
  | append_singleton requests request ih =>
    simp only [List.foldl_append, List.foldl_cons, List.foldl_nil, List.map_append,
      List.map_cons, List.map_nil]
    generalize requests.map (·.event) = events at ih
    generalize requests.foldl received row = current at ih
    have hstate := received_adapter_state current request
    obtain ⟨herror, hcode⟩ := inject_error current.adapter_state request.event
    constructor
    · unfold received
      rw [applied_status, ih.status]
      exact outcome_append events request.event _ (inject_status _ _)
    · have houtput := inject_output current.adapter_state request.event current.output
      unfold received
      rw [applied_output]
      refine houtput.trans ?_
      rw [ih.output, List.filter_append]
      by_cases hdelivers : request.event.delivers = true <;> simp [hdelivers]
    · unfold received
      rw [applied_error_message, herror, ih.error_message, List.filter_append]
      by_cases hfailed : request.event.failed = true <;> simp [hfailed]
    · unfold received
      rw [applied_exit_code, hcode, ih.exit_code, List.any_append]
      by_cases hfailed : request.event.failed = true <;> simp [hfailed]
    · unfold received
      rw [applied_poll_count, ih.poll_count]
      simp only [List.length_append, List.length_singleton, Bool.false_eq_true, if_false]
      omega
    · rw [hstate, called_back_status]
      simp

theorem received_pk (row : NodeExec) (request : CallbackRequest) :
    (received row request).pk = row.pk := rfl

theorem received_node_type (row : NodeExec) (request : CallbackRequest) :
    (received row request).node_type = row.node_type := rfl

/-- A row keeps its token through a callback. -/
theorem received_holds (row : NodeExec) (request : CallbackRequest) :
    holds_token token (received row request) = holds_token token row := by
  unfold holds_token
  rw [received_adapter_state, called_back_token]

/-- The rows with one of them replaced. -/
def replaced (row new : NodeExec) (rows : List NodeExec) : List NodeExec :=
  rows.map fun r => if r.pk = row.pk then new else r

theorem Table.save_replaced (t : Table) {old new : NodeExec} {now : Time} {fields : List Field}
    (hold : old ∈ t.rows) (hpk : new.pk = old.pk) :
    (t.save new now fields).rows = replaced old (old.write new now fields) t.rows := by
  rw [Table.save_rows]
  refine List.map_congr_left fun r hr => ?_
  rw [hpk]
  split_ifs with h
  · rw [t.eq_of_pk hr hold h]
  · rfl

/-- One request, when the node of the token is a callback node. -/
theorem callback_run (hfind : w.rows.find? (holds_token token) = some row)
    (htype : row.node_type = "http_callback") (request : CallbackRequest)
    (hclass : ∃ adapter, request.env.get_class "http_callback" = .ok adapter) :
    (workflow_callback_view request.env token request.event w).2.rows = replaced row
      (received row request) w.rows ∧
      (workflow_callback_view request.env token request.event w).2.execution = w.execution ∧
      (workflow_callback_view request.env token request.event w).2.log = w.log := by
  obtain ⟨adapter, hclass⟩ := hclass
  have hrow : row ∈ w.rows := List.mem_of_find?_eq_some hfind
  have hid := apply_unit_output_sameIdentity request.env row
    (HttpCallbackAdapter.inject_external_event row.adapter_state request.event) false
  have hrun : (workflow_callback_view request.env token request.event w).2 = { w with
      table := w.table.save (_apply_unit_output request.env row
        (HttpCallbackAdapter.inject_external_event row.adapter_state request.event) false).1 request.env.now
        (_apply_unit_output request.env row
          (HttpCallbackAdapter.inject_external_event row.adapter_state request.event) false).2 } := by
    unfold workflow_callback_view
    simp only [hfind, inject_external_event, htype, hclass, if_true]
  rw [hrun]
  exact ⟨Table.save_replaced w.table hrow hid.pk, rfl, rfl⟩

/-- The row of the token stays the row of the token. -/
theorem find_replaced (hfind : w.rows.find? (holds_token token) = some row)
    (request : CallbackRequest) :
    (replaced row (received row request) w.rows).find? (holds_token token) =
      some (received row request) := by
  have hrow : row ∈ w.rows := List.mem_of_find?_eq_some hfind
  unfold replaced
  rw [List.find?_map]
  have hsame : w.rows.find?
    (holds_token token ∘ fun r => if r.pk = row.pk then received row request else r) =
      w.rows.find? (holds_token token) := by
    refine List.find?_congr fun r hr => ?_
    simp only [Function.comp]
    split_ifs with h
    · rw [received_holds, w.table.eq_of_pk hr hrow h]
    · rfl
  rw [hsame, hfind]
  simp

/-- Requests with one token work on its row alone. -/
theorem deliver_rows (requests : List CallbackRequest)
    (hfind : w.rows.find? (holds_token token) = some row) (htype : row.node_type = "http_callback")
    (hclass : ∀ request ∈ requests, ∃ adapter,
      request.env.get_class "http_callback" = .ok adapter) :
    (deliver token requests w).rows = replaced row (requests.foldl received row) w.rows ∧
      (deliver token requests w).execution = w.execution ∧
        (deliver token requests w).log = w.log := by
  induction requests generalizing w row with
  | nil =>
    have hrow : row ∈ w.rows := List.mem_of_find?_eq_some hfind
    refine ⟨?_, rfl, rfl⟩
    have hmap : replaced row row w.rows = w.rows := by
      unfold replaced
      refine (List.map_congr_left fun r hr => ?_).trans (List.map_id _)
      split_ifs with h
      · exact (w.table.eq_of_pk hr hrow h).symm
      · rfl
    exact hmap.symm
  | cons request rest ih =>
    obtain ⟨hrows, hexecution, hlog⟩ :=
      callback_run hfind htype request (hclass request List.mem_cons_self)
    have hfind' := find_replaced hfind request
    rw [← hrows] at hfind'
    obtain ⟨hrest, hx, hl⟩ := ih hfind' ((received_node_type row request).trans htype)
      fun r hr => hclass r (List.mem_cons_of_mem _ hr)
    refine ⟨hrest.trans ?_, hx.trans hexecution, hl.trans hlog⟩
    rw [hrows]
    unfold replaced
    rw [List.map_map]
    refine List.map_congr_left fun r _ => ?_
    simp only [Function.comp, received_pk]
    split_ifs with h <;> simp_all [received_pk]

/-- However many callbacks a running node gets, the first that decides it sets its status for
good, while later ones still replace its output, its error and what its state says; all
other rows stay. -/
theorem callbacks_answered (requests : List CallbackRequest)
    (hfind : w.rows.find? (holds_token token) = some row) (htype : row.node_type = "http_callback")
    (hrunning : row.status = .RUNNING)
    (hclass : ∀ request ∈ requests, ∃ adapter,
      request.env.get_class "http_callback" = .ok adapter) :
    ∃ final, Answered row (requests.map (·.event)) final ∧
      (deliver token requests w).rows = w.rows.map (fun r => if r.pk = row.pk then final else r) ∧
      (deliver token requests w).execution = w.execution ∧ (deliver token requests w).log = w.log :=
  ⟨requests.foldl received row, received_answered hrunning requests,
    deliver_rows requests hfind htype hclass⟩

/-- A node that tells another system and waits for it. -/
def notification : DagVersion where
  dag :=
    { nodes := [{ node_key := "start", node_type := "start" },
        { node_key := "notify", node_type := "http_callback", params := [("url",
        .str "https://remote")] }]
      edges := [{ from_key := "start", to_key := "notify" }]
      keys_nodup := by decide
      edges_closed := by decide }
  workflow := { pk := 1, name := "notification" }

/-- The other system accepts every request. -/
def remote : Remote where
  token := "token"
  upper := id
  loads := fun _ => none
  request := fun _ => .ok 200

/-- A minute with the adapter of callback nodes. -/
def callbackMinute (minute : Int) : Env :=
  let env := scripted minute (fun _ _ => running) fun _ _ => running
  { env with get_class := fun _ => .ok (HttpCallbackAdapter env remote) }

def notified : World :=
  (Event.trigger (callbackMinute 0) 1 [] "manual" (some 1) none).run notification .initial

/-- A success, and a failure that comes later. -/
def success : CallbackRequest := ⟨callbackMinute 1, { data := [("ticket", .int 7)] }⟩
def lateFailure : CallbackRequest :=
  ⟨callbackMinute 2, { status := .str "failed", error := "withdrawn" }⟩

/-- The node succeeds with the error of the failure. -/
theorem late_failure_answered :
    ∃ row ∈ notified.rows, ∃ final, Answered row [success.event, lateFailure.event] final ∧
    (deliver "token" [success, lateFailure] notified).rows =
      notified.rows.map (fun r => if r.pk = row.pk then final else r) ∧
    (deliver "token" [success, lateFailure] notified).execution = notified.execution ∧
    (deliver "token" [success, lateFailure] notified).log = notified.log := by
  obtain ⟨row, hfind, htype, hrunning⟩ : ∃ row ∈ notified.rows.find? (holds_token "token"),
      row.node_type = "http_callback" ∧ row.status = .RUNNING := by decide +kernel
  exact ⟨row, List.mem_of_find?_eq_some hfind,
    callbacks_answered [success, lateFailure] hfind htype hrunning (by simp [success, lateFailure,
    callbackMinute])⟩

/-- A poll of a callback node that was loaded before its callbacks came. -/
theorem callback_polled {env : Env} (x : Execution) {remote : Remote}
    (htype : row.node_type = "http_callback")
    (hadapter : env.get_class "http_callback" = .ok (HttpCallbackAdapter env remote)) :
    adapter_polled env x row =
      .ok (answered env row (HttpCallbackAdapter.poll env row.adapter_state)) := by
  unfold adapter_polled
  rw [htype, hadapter]
  rfl

/-- A poll before any callback only looks at the time. -/
theorem poll_of_pending {env : Env}
    (hpending : getJson row.adapter_state "callback_status" = .str "pending") :
    HttpCallbackAdapter.poll env row.adapter_state =
      if HttpCallbackAdapter.timed_out env row.adapter_state then HttpCallbackAdapter.failed "E0604: External callback timeout"
      else { status := .RUNNING, output := [("waiting", .bool true)] } := by
  have hget := get?_of_getJson hpending (by simp)
  have hstate : row.adapter_state ≠ [] := by
    intro h
    simp [h] at hget
  have hstatus : HttpCallbackAdapter.callback_status row.adapter_state = some "pending" := by
    simp [HttpCallbackAdapter.callback_status, hget, Json.str?]
  unfold HttpCallbackAdapter.poll
  rw [if_neg hstate, hstatus]
  simp


/-- The state of a row between two polls. -/
def polled_state (env : Env) (row : NodeExec) : Dict String Json :=
  let backoff := min (POLL_BACKOFF_INITIAL_SEC * 2 ^ row.poll_count) POLL_BACKOFF_MAX_SEC
  let state := Dict.set row.adapter_state "__backoff_sec__" (.int backoff)
  let state := Dict.set state "__poll_count__" (.int (row.poll_count + 1))
  Dict.set state "__last_poll_ts__" (.str (env.isoformat env.now))

theorem answered_waiting {env : Env} (hrunning : row.status = .RUNNING) :
    answered env row { status := .RUNNING, output := [("waiting", .bool true)] } =
      ({ row with
          output := [("waiting", .bool true)], poll_count := row.poll_count + 1, adapter_state := polled_state env row },
        [.output, .poll_count, .update_datetime, .adapter_state]) := by
  have hsame : nextStatus .RUNNING .RUNNING = .RUNNING := rfl
  have happly : _apply_unit_output env row
    { status := .RUNNING, output := [("waiting", .bool true)] } false =
      ({ row with output := [("waiting", .bool true)], poll_count := row.poll_count + 1 },
        [.output, .poll_count, .update_datetime]) := by
    simp [_apply_unit_output, assign, hrunning, hsame]
  unfold answered
  rw [happly]
  simp [hrunning, polled_state]


/-- An adapter that answers a failure. -/
theorem answered_failed (env : Env) (hrunning : row.status = .RUNNING) (message : String) :
    let saved := answered env row (HttpCallbackAdapter.failed message)
    saved.1.status = .FAILED ∧ .status ∈ saved.2 ∧ saved.1.pk = row.pk := by
  have hnext : nextStatus row.status .FAILED = .FAILED := by
    rw [hrunning]
    rfl
  have hid := apply_unit_output_sameIdentity env row (HttpCallbackAdapter.failed message) false
  have hs : (_apply_unit_output env row
    (HttpCallbackAdapter.failed message) false).1.status = .FAILED :=
    (apply_unit_output_status env row _ false).trans hnext
  have hfield : .status ∈ (_apply_unit_output env row
    (HttpCallbackAdapter.failed message) false).2 := by
    have heq : nextStatus row.status (HttpCallbackAdapter.failed message).status = .FAILED := hnext
    rw [mem_apply_unit_output_fields, heq, hrunning]
    decide
  unfold answered
  simp only [hs, reduceCtorEq, if_false]
  exact ⟨trivial, hfield, hid.pk⟩

/-- Callbacks keep the row. -/
theorem foldl_received_pk (requests : List CallbackRequest) :
    (requests.foldl received row).pk = row.pk := by
  induction requests generalizing row with
  | nil => rfl
  | cons request rest ih => exact ih.trans (received_pk row request)

/-- A poll writes the polling fields only. -/
theorem polled_state_other {env : Env} {key : String}
    (hkey : key ∉ ["__backoff_sec__", "__poll_count__", "__last_poll_ts__"]) :
    getJson (polled_state env row) key = getJson row.adapter_state key := by
  obtain ⟨hbackoff, hcount, hlast⟩ : key ≠ "__backoff_sec__" ∧ key ≠ "__poll_count__" ∧
      key ≠ "__last_poll_ts__" := by
    simpa using hkey
  unfold polled_state
  simp [getJson_set, Ne.symm hbackoff, Ne.symm hcount, Ne.symm hlast]

/-- A poll that was loaded before its callbacks came and saves after them undoes them: what
they delivered is gone from the output and from the state, or the node fails although they
were accepted. -/
theorem overlapped_callbacks_lost (requests : List CallbackRequest)
    (hfind : w.rows.find? (holds_token token) = some row) (htype : row.node_type = "http_callback")
    (hrunning : row.status = .RUNNING)
    (hclass : ∀ request ∈ requests, ∃ adapter, request.env.get_class "http_callback" = .ok adapter)
    (hpending : getJson row.adapter_state "callback_status" = .str "pending") {env : Env}
    {x : Execution} {remote : Remote}
    (hadapter : env.get_class "http_callback" = .ok (HttpCallbackAdapter env remote))
    {new : NodeExec} {fields : List Field}
    (hpolled : adapter_polled env x row = .ok (new, fields)) :
    ∃ final ∈ ((deliver token requests w).table.save new env.now fields).rows, final.pk = row.pk ∧
      (HttpCallbackAdapter.timed_out env row.adapter_state = true → final.status = .FAILED) ∧
      (HttpCallbackAdapter.timed_out env row.adapter_state = false →
        final.status = outcome (requests.map (·.event)) ∧ final.output = [("waiting", .bool true)] ∧
          getJson final.adapter_state "callback_status" = .str "pending" ∧
          getJson final.adapter_state "callback_payload" =
            getJson row.adapter_state "callback_payload") := by
  have hrow : row ∈ w.rows := List.mem_of_find?_eq_some hfind
  have hanswered := received_answered hrunning requests
  obtain ⟨hrows, _, _⟩ := deliver_rows requests hfind htype hclass
  have hpk : (requests.foldl received row).pk = row.pk := foldl_received_pk requests
  generalize requests.foldl received row = current at hanswered hrows hpk
  have hcurrent : current ∈ (deliver token requests w).table.rows := by
    change current ∈ (deliver token requests w).rows
    rw [hrows]
    exact List.mem_map.mpr ⟨row, hrow, if_pos rfl⟩
  have hsaved : new.pk = row.pk →
      current.write new env.now fields ∈
      ((deliver token requests w).table.save new env.now fields).rows := fun hnew =>
    (Table.mem_save _ hcurrent (hnew.trans hpk.symm) _).mpr (Or.inr rfl)
  rw [callback_polled x htype hadapter, poll_of_pending hpending] at hpolled
  have hnew := Except.ok.inj hpolled
  cases htimed : HttpCallbackAdapter.timed_out env row.adapter_state with
  | false =>
    rw [htimed, if_neg (by simp), answered_waiting hrunning] at hnew
    obtain ⟨rfl, rfl⟩ := Prod.mk.inj hnew
    refine ⟨_, hsaved rfl, hpk, by simp, fun _ => ⟨?_, ?_, ?_, ?_⟩⟩
    · simp [NodeExec.write, hanswered.status]
    · simp [NodeExec.write]
    · simp [NodeExec.write, polled_state_other, hpending]
    · simp [NodeExec.write, polled_state_other]
  | true =>
    rw [htimed, if_pos rfl] at hnew
    obtain ⟨hs, hfield, hnewpk⟩ := answered_failed env hrunning "E0604: External callback timeout"
    rw [hnew] at hs hfield hnewpk
    refine ⟨_, hsaved hnewpk, hpk, fun _ => ?_, by simp⟩
    simp only [NodeExec.write, if_pos hfield]
    exact hs

/-- A poll during the success callback loses its ticket. -/
theorem ticket_lost : ∃ row ∈ notified.rows, ∃ new fields,
    adapter_polled (callbackMinute 1)
      { pk := 1, status := .RUNNING, fail_strategy := "fail_fast" } row = .ok (new, fields) ∧
    ∃ final ∈ ((deliver "token" [success] notified).table.save new
      (callbackMinute 1).now fields).rows, final.pk = row.pk ∧
      final.status = .SUCCESS ∧ final.output = [("waiting", .bool true)] := by
  obtain ⟨row, hfind, htype, hrunning, hpending, htimed⟩ :
      ∃ row ∈ notified.rows.find? (holds_token "token"), row.node_type = "http_callback" ∧
      row.status = .RUNNING ∧
      (getJson row.adapter_state "callback_status").str? = some "pending" ∧
      HttpCallbackAdapter.timed_out (callbackMinute 1) row.adapter_state = false := by
        decide +kernel
  have hstate : getJson row.adapter_state "callback_status" = .str "pending" := by
    cases heq : getJson row.adapter_state "callback_status" <;> simp [heq, Json.str?] at hpending
    rw [hpending]
  have hclass : (callbackMinute 1).get_class "http_callback" =
    .ok (HttpCallbackAdapter (callbackMinute 1) remote) := rfl
  have hpolled :=
    callback_polled { pk := 1, status := .RUNNING, fail_strategy := "fail_fast" } htype hclass
  obtain ⟨final, hfinal, hpk, _, hlost⟩ := overlapped_callbacks_lost [success] hfind htype hrunning
    (by simp [success, callbackMinute]) hstate hclass hpolled
  obtain ⟨hs, houtput, _⟩ := hlost htimed
  exact ⟨row, List.mem_of_find?_eq_some hfind, _, _, hpolled, final, hfinal, hpk, hs, houtput⟩

end taurus.views
