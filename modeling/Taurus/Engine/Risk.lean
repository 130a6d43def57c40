import Taurus.Engine.Publish

namespace taurus.engine.views

open taurus.lib taurus.python taurus.engine.executor taurus.engine.registry taurus.engine.dag_validator taurus.engine.runner

/-- A step of a linear workflow with the text of its template. -/
structure Step where
  id : Int
  step_name : Option String := none
  script_content : Option String := none
  step_envs : Json := .obj []

structure Category where
  id : Int
  parent : Option Int := none
  reviewers : Bool := false

/-- What the risk assessment reads of a workflow; the categories are those of the installation. -/
structure Workflow where
  graph_definition : Json := .obj []
  hosts : Nat := 0
  global_envs : Json := .obj []
  steps : List Step := []
  auth_type : String := "private"
  need_audit : Bool := false
  category : Option Int := none
  categories : List Category := []

inductive RiskLevel where
  | low
  | medium
  | high
  deriving DecidableEq

def sensitive_env_keys : List String :=
  ["password", "passwd", "token", "secret", "api_key", "apikey", "access_key", "private_key",
    "authorization"]

def dangerous_patterns : List (String × String) :=
  [("rm -rf", "Includes rm -rf forced deletion"),
    ("rm -r", "Includes rm -r recursive deletion"),
    ("sudo ", "Includes sudo privilege escalation"),
    ("mkfs", "Includes mkfs disk formatting"),
    ("dd if=", "Includes dd raw disk write"),
    ("/dev/sd", "Includes direct disk device write"),
    ("shutdown", "Includes shutdown command"),
    ("reboot", "Includes reboot command"),
    ("init 0", "Includes init 0 shutdown"),
    ("init 6", "Includes init 6 reboot"),
    ("drop table", "Includes SQL DROP TABLE"),
    ("drop database", "Includes SQL DROP DATABASE"),
    ("truncate table", "Includes SQL TRUNCATE TABLE"),
    ("delete from", "Includes SQL DELETE FROM (no WHERE risk)"),
    ("systemctl stop", "Includes systemctl stop service stop"),
    ("kubectl delete", "Includes kubectl delete K8s resource deletion"),
    ("docker rm -f", "Includes docker rm -f forced container deletion"),
    ("chmod -R 777", "Includes chmod -R 777 permission relaxation"),
    ("chown -R", "Includes chown -R recursive owner change"),
    ("iptables -F", "Includes iptables -F firewall flush")]

def scanned_keys : List String :=
  ["command", "content", "script_content", "inline_script", "code", "args", "expression"]

/-- `sub in s` -/
def isIn (sub s : String) : Bool := isInfix sub.toList s.toList

/-- The dict `v or {}`, of which a method is used. -/
def dict_of (method : String) (v : Json) : Except Exn (Dict String Json) :=
  if !v.truthy then .ok []
  else
    match v with
    | .obj d => .ok d
    | .str _ =>
      .error (.other "AttributeError" ("'str' object has no attribute '" ++ method ++ "'"))
    | .arr _ =>
      .error (.other "AttributeError" ("'list' object has no attribute '" ++ method ++ "'"))
    | .bool _ =>
      .error (.other "AttributeError" ("'bool' object has no attribute '" ++ method ++ "'"))
    | .int _ =>
      .error (.other "AttributeError" ("'int' object has no attribute '" ++ method ++ "'"))
    | _ => .error (.other "AttributeError" ("'float' object has no attribute '" ++ method ++ "'"))

section

variable (py : Reprs) (lower : String → String)

/-- `(v or '').lower()`, where `lower` is `str.lower`. -/
def lowered (v : Json) : Except Exn String :=
  if !v.truthy then .ok (lower "")
  else
    match v with
    | .str s => .ok (lower s)
    | .obj _ => .error (.other "AttributeError" "'dict' object has no attribute 'lower'")
    | .arr _ => .error (.other "AttributeError" "'list' object has no attribute 'lower'")
    | .bool _ => .error (.other "AttributeError" "'bool' object has no attribute 'lower'")
    | .int _ => .error (.other "AttributeError" "'int' object has no attribute 'lower'")
    | _ => .error (.other "AttributeError" "'float' object has no attribute 'lower'")

def _scan_text (text label : String) : List String :=
  if text = "" then []
  else dangerous_patterns.filterMap fun (pattern, desc) =>
    if isIn (lower pattern) (lower text) then some ("[high] " ++ label ++ desc) else none

/-- The texts of a dict under the keys. -/
def texts_at (d : Dict String Json) (keys : List String) : List String :=
  keys.filterMap fun k => (getJson d k).str?

/-- Variables with their texts, as `k=v`. -/
def env_texts (envs : Dict String Json) : List String :=
  envs.filterMap fun (k, v) => v.str?.map fun v => k ++ "=" ++ v

def host_points (host_count : Nat) : List String :=
  if host_count ≥ 100 then
    ["[high] Batch target host count " ++ toString host_count ++
      " (>=100), error propagation risk is extremely high"]
  else if host_count ≥ 30 then
    ["[warning] Batch target host count " ++ toString host_count ++
      " (>=30), please note execution order and rollback plan"]
  else if host_count ≥ 10 then
    ["[tip] Batch target host count " ++ toString host_count ++
      ", suggest canary verification first"]
  else []

def env_points (global_envs : Json) : List String :=
  let env_str := lower (py.str (orElse global_envs (.obj [])))
  let found_sensitive := sensitive_env_keys.filter fun k => isIn k env_str
  if found_sensitive = [] then []
  else ["[high] Global environment variables suspected to contain sensitive fields: " ++
    String.intercalate "," found_sensitive ++
    ", recommend using a secrets management service"]

/-- The points for the type of a node. -/
def type_points (ntype label : String) (cfg : Dict String Json) : List String :=
  let op := getJson cfg "operation"
  let act := getJson cfg "action"
  let max_iter := getJson cfg "max_iterations"
  (if ntype = "file_op" ∧ ["delete", "rm", "replace", "overwrite", "mv"].any (isText op) then
    ["[warning] " ++ label ++ "File operation: " ++ py.str op ++
      ", may overwrite/delete production files"] else []) ++
  (if ntype = "program" ∧ ["stop", "restart", "uninstall", "remove"].any (isText act) then
    ["[warning] " ++ label ++ "Program action: " ++ py.str act ++
      ", will affect service availability"] else []) ++
  (if ntype = "sub_workflow" then
    ["[tip] " ++ label ++ "Sub-workflow nesting, recommend separate review of sub-workflow risk"]
      else []) ++
  (if ntype = "loop" ∧ max_iter.truthy ∧ (int_of? max_iter).any (100 < ·) then
    ["[warning] " ++ label ++ "Loop count too high (" ++ py.str max_iter ++
      "), amplified execution risk exists"] else [])

/-- What one turn of the loop over the nodes adds. -/
def node_points (node : Dict String Json) : Except Exn (List String) := do
  let ntype ← lowered lower (getJson node "node_type")
  let nkey := orElse (getJson node "node_key") (orElse (getJson node "id") (.str "node"))
  let label := "Node[" ++ py.str nkey ++ "/" ++ ntype ++ "] "
  let cfg ← dict_of "get" (getJson node "config")
  let envs ← dict_of "items" (orElse (getJson cfg "envs") (getJson cfg "env_vars"))
  pure (type_points py ntype label cfg ++ (texts_at cfg scanned_keys ++ env_texts envs).flatMap
    fun text => _scan_text lower text label)

def step_points (step : Step) : List String :=
  let step_name := (step.step_name.filter (· ≠ "")).getD (toString step.id)
  let envs := (step.step_envs.obj?).getD []
  (step.script_content.toList ++ env_texts envs).flatMap fun text =>
    _scan_text lower text ("Step[" ++ step_name ++ "] ")

/-- The edges that go on after a failure. -/
def continue_count (edges : List Json) : Nat :=
  (edges.filterMap Json.obj?).countP fun e =>
    let cond := py.str (orElse (getJson e "condition") (.str ""))
    cond ∈ ["on_failure", "always"] ∨ lower cond ∈ ["on_failure", "always"]

def edge_points (edges : List Json) : List String :=
  let count := continue_count py lower edges
  if count ≥ 3 then
    ["[warning] " ++ toString count ++
      " \"continue on failure\" connections exist, failures may skip alerts and propagate"]
  else []

end

/-- A category or one above it has a reviewer; a cycle of categories is left when it closes. -/
def has_reviewer (categories : List Category) : Nat → List Int → Option Int → Bool
  | 0, _, _ | _, _, none => false
  | fuel + 1, visited, some id =>
    match categories.find? (·.id = id) with
    | none => false
    | some cur =>
      if cur.id ∈ visited then
        false
      else cur.reviewers || has_reviewer categories fuel (cur.id :: visited) cur.parent

def category_points (workflow : Workflow) : List String :=
  if (workflow.auth_type = "public" ∨ workflow.need_audit = true) ∧
      has_reviewer workflow.categories
      (workflow.categories.length + 1) [] workflow.category = false then
    ["[tip] Public workflow/requires approval, but the category does not have an approver configured, please contact the category administrator"]
  else []

def risk_level (deduped : List String) : RiskLevel :=
  let high_count := deduped.countP (isIn "[high]")
  let warn_count := deduped.countP (isIn "[warning]")
  if high_count ≥ 2 ∨ (high_count ≥ 1 ∧ warn_count ≥ 2) then .high
  else if high_count ≥ 1 ∨ warn_count ≥ 2 then .medium
  else if warn_count ≥ 1 ∨ deduped.length ≥ 1 then (if deduped.length ≥ 3 then .medium else .low)
  else .low

/-- The field of a graph that is a dict. -/
def graph_field (graph_definition : Json) (k : String) : Json :=
  match graph_definition with
  | .obj graph => getJson graph k
  | _ => .null

def _evaluate_workflow_risk (py : Reprs) (lower : String → String) (workflow : Workflow) :
    Except Exn (RiskLevel × List String) := do
  let nodes ← elements (graph_field workflow.graph_definition "nodes")
  let found ← (nodes.filterMap Json.obj?).mapM (node_points py lower)
  let edges ← elements (graph_field workflow.graph_definition "edges")
  let risk_points :=
    host_points workflow.hosts ++ env_points py lower workflow.global_envs ++ found.flatten ++
    workflow.steps.flatMap (step_points lower) ++ edge_points py lower edges ++
      category_points workflow
  let deduped := risk_points.eraseDups
  pure (risk_level deduped, deduped)

/-- The parameters that the engine gives to the adapter of a node. -/
def extract_node_params_from_vueflow (node : Dict String Json) : Dict String Json :=
  match getJson node "params" with
  | .obj p => p
  | _ =>
    match getJson node "data" with
    | .obj data =>
      match getJson data "params" with
      | .obj p => p
      | _ =>
        match getJson data "config" with
        | .obj cfg => cfg
        | _ => node
    | _ => node

end taurus.engine.views
