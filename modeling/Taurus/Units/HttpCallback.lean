import Taurus.Units.Loop

namespace taurus.units

open taurus.lib taurus.python taurus.engine taurus.engine.runner

def _ALLOWED_METHODS : List String := ["POST", "PUT", "PATCH"]

def _MAX_URL_LEN : Nat := 2048

/-- The event a callback request is made into. -/
structure CallbackEvent where
  status : Json := .str "success"
  data : Dict String Json := []
  error : String := ""

/-- The request `dispatch` sends. -/
structure OutgoingRequest where
  method : String
  url : Json
  headers : List (Json × Json)
  payload : Dict String Json
  timeout : Int

/-- What `dispatch` finds outside: a fresh token, `str.upper`, `json.loads`, and the status code
with which the remote side answers, if it does. -/
structure Remote where
  token : String
  upper : String → String
  loads : String → Option Json
  request : OutgoingRequest → Except Exn Int

namespace HttpCallbackAdapter

def failed (message : String) : UnitOutput :=
  { status := .FAILED, error_message := some message, exit_code := some 1 }

/-- The `i`-th element of a sequence that `dict` is made from. -/
def pair_of (i : Nat) : Json → Except Exn (Json × Json)
  | .arr [k, v] =>
    match unhashable k with
    | some message => .error (.other "TypeError" message)
    | none => .ok (k, v)
  | .obj [(k, _), (k', _)] => .ok (.str k, .str k')
  | .arr xs => wrong_length xs.length
  | .obj kvs => wrong_length kvs.length
  | .str s =>
    match s.toList with
    | [c, c'] => .ok (.str (String.ofList [c]), .str (String.ofList [c']))
    | cs => wrong_length cs.length
  | _ => .error (.other "TypeError" s!"cannot convert dictionary update sequence element #{i} to a sequence")
where
  wrong_length (n : Nat) : Except Exn (Json × Json) :=
    .error (.ValueError s!"dictionary update sequence element #{i} has length {n}; 2 is required")

/-- Set a header; a name that is no text, which `requests` refuses in any case, is only added. -/
def set_header (headers : List (Json × Json)) (header : Json × Json) : List (Json × Json) :=
  match header.1 with
  | .str name =>
    if headers.any (isText ·.1 name) then headers.map fun h => if isText h.1 name then
      (h.1, header.2)
    else h
    else headers ++ [header]
  | _ => headers ++ [header]

/-- `dict(headers)` -/
def headers_of : Json → Except Exn (List (Json × Json))
  | .obj kvs => .ok (kvs.map fun kv => (.str kv.1, kv.2))
  | .arr xs => (xs.zipIdx.mapM fun x => pair_of x.2 x.1).map fun pairs => pairs.foldl set_header []
  | .str s =>
    (s.toList.zipIdx.mapM fun c => pair_of c.2 (.str (String.ofList [c.1]))).map fun pairs =>
      pairs.foldl set_header []
  | v => .error (.other "TypeError" s!"'{type_name v}' object is not iterable")

/-- `(params.get("method") or "POST").upper()` -/
def method (remote : Remote) (params : Dict String Json) : Except Exn String :=
  match orElse (getJson params "method") (.str "POST") with
  | .str s => .ok (remote.upper s)
  | v => .error (.other "AttributeError" s!"'{type_name v}' object has no attribute 'upper'")

/-- The check of the url. -/
def check_url (url : String) (r : ValidationResult) : ValidationResult :=
  if url = "" then add_error r "/params/url" "E0601: Callback URL is required"
  else if !(startswith url.toList "http://".toList || startswith url.toList "https://".toList) then
    add_error r "/params/url" "E0601: URL must start with http:// or https://"
  else if _MAX_URL_LEN < url.length then
    add_error r "/params/url" s!"E0601: URL must not exceed {_MAX_URL_LEN} chars"
  else r

/-- The check of the timeout, when there is one. -/
def check_timeout (v : Json) (r : ValidationResult) : ValidationResult :=
  match v with
  | .null => r
  | v =>
    match int_of? v with
    | none => add_error r "/params/timeout_seconds" "E0601: timeout must be integer"
    | some t =>
      if t < 30 ∨ 604800 < t then
        add_error r "/params/timeout_seconds" "E0601: timeout range [30, 604800] seconds"
      else r

/-- The methods of the message are a set, in any order. -/
def validate_config (remote : Remote) (params : Dict String Json) :
    Except Exn ValidationResult := do
  let url ← stripped (getJson params "url")
  let r := check_url url {}
  let method ← method remote params
  let r := if _ALLOWED_METHODS.contains method then r
    else add_error r "/params/method" s!"E0601: method must be in {_ALLOWED_METHODS}"
  pure (check_timeout (getJson params "timeout_seconds") r)

/-- The payload: the reference to the node, then what the template adds or replaces. -/
def outgoing_payload (remote : Remote) (cfg : RenderedNodeConfig) (template : Json) :
    Dict String Json :=
  let payload : Dict String Json :=
    [("workflow_execution_id", .str s!"{cfg.execution_id}"), ("dispatch_id", .str cfg.dispatch_id),
      ("node_key", .str cfg.node_key), ("node_type", .str "http_callback"),
      ("token", .str remote.token)]
  match template with
  | .obj extra => Dict.update payload extra
  | .str text =>
    match if strip text.toList = [] then none else remote.loads text with
    | some (.obj extra) => Dict.update payload extra
    | _ => payload
  | _ => payload

/-- `headers.setdefault(name, value)` -/
def default_header (headers : List (Json × Json)) (name value : String) : List (Json × Json) :=
  if headers.any (isText ·.1 name) then headers else headers ++ [(.str name, .str value)]

def outgoing_headers (remote : Remote) (headers : List (Json × Json)) : List (Json × Json) :=
  default_header (default_header headers "Content-Type" "application/json") "X-Workflow-Token" remote.token

/-- Send the request and wait for the callback. -/
def dispatch (env : Env) (remote : Remote) (cfg : RenderedNodeConfig) : Except Exn UnitOutput := do
  let method ← method remote cfg.params
  let timeout ← int_of (orElse (getJson cfg.params "timeout_seconds") (.int 3600))
  let headers ← headers_of (orElse (getJson cfg.params "headers") (.obj []))
  let request : OutgoingRequest :=
    { method, timeout := min 30 timeout
      url := (Dict.get? cfg.params "url").getD (.str "")
      headers := outgoing_headers remote headers
      payload := outgoing_payload remote cfg (getJson cfg.params "payload_template") }
  match remote.request request with
  | .error e => pure (failed s!"E0603: {e.text}")
  | .ok status_code =>
    let adapter_state : Dict String Json :=
      [("callback_status", .str "pending"), ("token", .str remote.token),
        ("deadline", .str (env.isoformat (env.now + Time.seconds timeout))),
        ("remote_status_code", .int status_code)]
    pure
      { status := .RUNNING, adapter_state := some adapter_state
        output := [("token", .str remote.token), ("remote_status_code", .int status_code)] }

/-- The deadline of the state has passed; one that cannot be read never passes. -/
def timed_out (env : Env) (adapter_state : Dict String Json) : Bool :=
  match getJson adapter_state "deadline" with
  | .str text =>
    if text = "" then false else (env.parse_datetime text).any fun deadline => deadline < env.now
  | _ => false

/-- `adapter_state.get("error") or "External callback failed"` -/
def error_text (adapter_state : Dict String Json) : String :=
  match getJson adapter_state "error" with
  | .str s => if s = "" then "External callback failed" else s
  | _ => "External callback failed"

/-- `adapter_state.get("callback_status", "pending")`, when it is a text. -/
def callback_status (adapter_state : Dict String Json) : Option String :=
  ((Dict.get? adapter_state "callback_status").getD (.str "pending")).str?

/-- `adapter_state.get("callback_payload") or {}`; the payload of a callback is an object. -/
def callback_payload (adapter_state : Dict String Json) : Dict String Json :=
  (getJson adapter_state "callback_payload").obj?.getD []

def poll (env : Env) (adapter_state : Dict String Json) : UnitOutput :=
  if adapter_state = [] then failed "E0604: adapter_state missing, cannot poll callback"
  else if callback_status adapter_state = some "success" then
    { status := .SUCCESS, output := callback_payload adapter_state }
  else if callback_status adapter_state = some "failed" then failed (error_text adapter_state)
  else if callback_status adapter_state = some "cancelled" then
    { status := .CANCELLED, output := [("cancelled", .bool true)] }
  else if timed_out env adapter_state then failed "E0604: External callback timeout"
  else { status := .RUNNING, output := [("waiting", .bool true)] }

def cancel (adapter_state : Dict String Json) : UnitOutput :=
  if adapter_state = [] then
    { status := .CANCELLED, output := [("cancelled", .bool true), ("reason",
      .str "No adapter_state")] }
  else
    { status := .CANCELLED
      adapter_state := some (Dict.set adapter_state "callback_status" (.str "cancelled"))
      output := [("cancelled", .bool true), ("reason", .str "Triggered by workflow cancellation")] }

/-- The state after a callback. -/
def called_back (adapter_state : Dict String Json) (event : CallbackEvent) : Dict String Json :=
  let state := Dict.set adapter_state "callback_status" event.status
  let state := Dict.set state "callback_payload" (.obj event.data)
  if event.status.str? = some "failed" then
    Dict.set state "error" (.str (if event.error = "" then "External callback failed"
      else event.error))
  else state

def inject_external_event (adapter_state : Dict String Json) (event : CallbackEvent) : UnitOutput :=
  let state := called_back adapter_state event
  if event.status.str? = some "success" then
    { status := .SUCCESS, adapter_state := some state, output := event.data }
  else if event.status.str? = some "failed" then
    { status := .FAILED, adapter_state := some state, error_message := some (error_text state), exit_code := some 1 }
  else { status := .RUNNING, adapter_state := some state, output := event.data }

theorem inject_adapter_state (adapter_state : Dict String Json) (event : CallbackEvent) :
    (HttpCallbackAdapter.inject_external_event adapter_state event).adapter_state =
      some (HttpCallbackAdapter.called_back adapter_state event) := by
  unfold HttpCallbackAdapter.inject_external_event
  simp only
  split_ifs <;> rfl

end HttpCallbackAdapter

/-- The adapter of callback nodes, as a call of the runner finds it. -/
def HttpCallbackAdapter (env : Env) (remote : Remote) : Adapter where
  node_type := "http_callback"
  requires_host := false
  construct := .ok ()
  validate_and_render := fun params context => do
    let vr ← HttpCallbackAdapter.validate_config remote params
    if vr.ok then (env.render_structure context params).map fun params => { params := some params }
    else .error (.ValueError "http_callback validation failed")
  validate_config := HttpCallbackAdapter.validate_config remote
  dispatch := HttpCallbackAdapter.dispatch env remote
  poll := fun _ adapter_state => .ok (HttpCallbackAdapter.poll env adapter_state)
  cancel := fun _ adapter_state => .ok (HttpCallbackAdapter.cancel adapter_state)

end taurus.units
