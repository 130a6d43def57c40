import Taurus.Engine.Publish
import Taurus.Lib.Program
import Taurus.Python.Json

namespace taurus.editions

open taurus.lib taurus.lib.Prog taurus.python taurus.engine taurus.engine.views

inductive TierName where
  | community
  | starter
  | professional
  | enterprise
  | ultimate
  deriving DecidableEq, Repr

def TierName.name : TierName → String
  | community => "community"
  | starter => "starter"
  | professional => "professional"
  | enterprise => "enterprise"
  | ultimate => "ultimate"

def TierName.of_name? : String → Option TierName
  | "community" => some community
  | "starter" => some starter
  | "professional" => some professional
  | "enterprise" => some enterprise
  | "ultimate" => some ultimate
  | _ => none

namespace QuotaDefaults

def COMMUNITY : Dict String Json :=
  [("max_hosts", .int 50), ("max_users", .null), ("max_scheduled_tasks", .null),
    ("max_script_versions_per_script", .null), ("max_concurrent_executions", .null),
    ("max_workflows", .null)]

def STARTER : Dict String Json :=
  [("max_hosts", .int 200), ("max_users", .int 50), ("max_scheduled_tasks", .int 200),
    ("max_script_versions_per_script", .null), ("max_concurrent_executions", .int 50),
    ("max_workflows", .null)]

def PROFESSIONAL : Dict String Json :=
  [("max_hosts", .int 1000), ("max_users", .int 200), ("max_scheduled_tasks", .int 2000),
    ("max_script_versions_per_script", .null), ("max_concurrent_executions", .int 200),
    ("max_workflows", .null)]

def ENTERPRISE : Dict String Json :=
  [("max_hosts", .int 5000), ("max_users", .int 1000), ("max_scheduled_tasks", .null),
    ("max_script_versions_per_script", .null), ("max_concurrent_executions", .null),
    ("max_workflows", .null)]

def ULTIMATE : Dict String Json :=
  [("max_hosts", .null), ("max_users", .null), ("max_scheduled_tasks", .null),
    ("max_script_versions_per_script", .null), ("max_concurrent_executions", .null),
    ("max_workflows", .null)]

def for_tier : TierName → Dict String Json
  | .community => COMMUNITY
  | .starter => STARTER
  | .professional => PROFESSIONAL
  | .enterprise => ENTERPRISE
  | .ultimate => ULTIMATE

end QuotaDefaults

/-- Days after the expiry for which a license keeps its quotas. -/
def LICENSE_GRACE_DAYS : Int := 30

inductive LicenseState where
  | free
  | licensed
  | grace
  | blocked
  deriving DecidableEq, Repr

/-- A warning with the numbers it carries beside its text. -/
structure Warning where
  code : String
  message : String
  numbers : Dict String Int := []

structure LicenseStatus where
  state : LicenseState := .free
  valid : Bool := true
  tier : TierName := .community
  customer_id : Json := .null
  customer_name : Json := .null
  expires_at : Json := .null
  fingerprint_ok : Bool := true
  quota : Dict String Json := QuotaDefaults.COMMUNITY
  features : List Json := []
  warnings : List Warning := []
  grace_days_left : Option Int := none

/-- The surroundings of a process: its environment, the license file that is found with its text
read as JSON, the machine and the functions of other packages. -/
structure Site where
  bypass : Bool := false
  license_file : Option (String × Except String Json) := none
  current_fp : String := ""
  verify_signature : Dict String Json → String → Except String Unit
  fromisoformat : String → Option Time
  py : Reprs

def LicenseError (message : String) : Exn := .other "LicenseError" message

/-- `str(tier)` of a payload; unknown tiers count as community, and no value but a text
is written like a tier. -/
def _safe_tier (payload : Dict String Json) : TierName :=
  match Dict.get? payload "tier" with
  | none => .professional
  | some (.str tier) => (TierName.of_name? tier).getD .community
  | some _ => .community

def _resolve_quota (tier : TierName) (override : Json) : Dict String Json :=
  match override with
  | .obj override =>
    Dict.update (QuotaDefaults.for_tier tier) (override.filter fun kv => match kv.2 with
    | .null => false
    | _ => true)
  | _ => QuotaDefaults.for_tier tier

def free_status : LicenseStatus := { customer_name := .str "社区版（免费）" }

def blocked_status (reason_code message : String) : LicenseStatus :=
  { state := .blocked, valid := false, warnings := [{ code := reason_code, message }] }

/-- The whole days of a span of time. -/
def days (span : Time) : Int := span / 86400000000

/-- What the date of expiry says at some time. -/
inductive Expiry where
  | holds (state : LicenseState) (grace_days_left : Option Int) (warning : Option Warning)
  | ended (message : String)

def check_expiry_date (expires_raw : String) (expires_dt now : Time) : Expiry :=
  if expires_dt < now then
    let days_expired := days (now - expires_dt)
    if days_expired ≤ LICENSE_GRACE_DAYS then
      let grace_days_left := max 0 (LICENSE_GRACE_DAYS - days_expired)
      .holds .grace (some grace_days_left) (some
        { code := "EXPIRY_GRACE"
          message := s!"License 已过期 {days_expired} 天，处于 {LICENSE_GRACE_DAYS} 天宽限期" ++
            s!"（剩余 {grace_days_left} 天），宽限期结束后将回退免费版配额，请尽快续期"
          numbers := [("days_expired", days_expired), ("grace_days_left", grace_days_left)] })
    else
      .ended (s!"License 已过期 {days_expired} 天，超过 {LICENSE_GRACE_DAYS} 天宽限期，" ++
        "已回退免费版配额（限 50 台主机），请续期后恢复完整权益")
  else
    let delta := days (expires_dt - now)
    .holds .licensed none (if 0 < delta ∧ delta ≤ 30 then
      some
        { code := "EXPIRING_SOON"
          message := s!"License 将在 {delta} 天后过期（expires_at={expires_raw}）"
          numbers := [("days_left", delta)] }
    else none)

/-- A license without a date never expires. -/
def check_expiry (site : Site) (expires_raw : Json) (now : Time) : Except Exn Expiry :=
  match expires_raw with
  | .str raw =>
    match site.fromisoformat raw with
    | none => .error (LicenseError s!"expires_at 格式错误: {raw}")
    | some expires_dt => .ok (check_expiry_date raw expires_dt now)
  | _ => .ok (.holds .licensed none none)

/-- The signed payload of a license file. -/
def read_payload (site : Site) (raw : Except String Json) : Except Exn (Dict String Json) :=
  match raw with
  | .error e => .error (LicenseError s!"License 文件不是合法 JSON: {e}")
  | .ok (.obj doc) =>
    match getJson doc "payload", getJson doc "signature_b64" with
    | .obj payload, .str sig_b64 =>
      match site.verify_signature payload sig_b64 with
      | .error message => .error (LicenseError message)
      | .ok () => .ok payload
    | _, _ => .error (LicenseError "License 文件缺少 payload 或 signature_b64 字段")
  | .ok _ => .error (.other "AttributeError" "object has no attribute 'get'")

/-- `(expected_fp is None) or (expected_fp == current_fp)` -/
def fingerprint_ok (site : Site) (payload : Dict String Json) : Bool :=
  match getJson payload "machine_fingerprint" with
  | .null => true
  | expected_fp => isText expected_fp site.current_fp

def verify_license_file (site : Site) (raw : Except String Json) (now : Time) :
    Except Exn LicenseStatus := do
  let payload ← read_payload site raw
  let tier := _safe_tier payload
  let customer_id := getJson payload "customer_id"
  let customer_name := getJson payload "customer_name"
  let features ← elements (getJson payload "features")
  let expires_raw := getJson payload "expires_at"
  match ← check_expiry site expires_raw now with
  | .ended message =>
    .ok { blocked_status "LICENSE_EXPIRED_BLOCKED" message with
      customer_id, customer_name, expires_at := expires_raw, features }
  | .holds state grace_days_left expiry_warning =>
    if fingerprint_ok site payload then
      .ok
        { state, tier, customer_id, customer_name, expires_at := expires_raw
          quota := _resolve_quota tier (getJson payload "quota")
          features, warnings := expiry_warning.toList, grace_days_left }
    else
      let expected_fp := site.py.str (getJson payload "machine_fingerprint")
      let message := s!"License 机器指纹不匹配（期望 {expected_fp}，当前 {site.current_fp}）。" ++
        "已回退免费版配额，请在原始机器上使用，或联系销售重新绑定。"
      .ok { blocked_status "MACHINE_MISMATCH" message with
        customer_id, customer_name, expires_at := expires_raw, fingerprint_ok := false, features }

/-- The module variables of a process. -/
structure Process where
  _cache : Option LicenseStatus := none
  _cache_path : Option String := none

abbrev LicenseM := Prog Process Exn

/-- The status of a development process. -/
def bypass_status : LicenseStatus :=
  { state := .licensed
    tier := .professional
    customer_name := .str "Development (TAURUS_DEV_BYPASS_LICENSE=1)"
    quota := QuotaDefaults.PROFESSIONAL
    warnings := [{ code := "DEV_MODE", message := "开发旁路模式，按 professional 权益放行" }] }

/-- A failed check of the file is a blocked license; other exceptions leave the function. -/
def license_verdict (site : Site) (raw : Except String Json) (now : Time) :
    Except Exn LicenseStatus :=
  match verify_license_file site raw now with
  | .error (.other "LicenseError" message) => .ok (blocked_status "INVALID_LICENSE" message)
  | verdict => verdict

def load_license (site : Site) (now : Time) (force_reload : Bool := false) :
    LicenseM LicenseStatus :=
  if site.bypass then pure bypass_status
  else match site.license_file with
  | none => pure free_status
  | some (path, raw) => do
    let p ← getState
    match (if force_reload = false ∧ p._cache_path = some path then p._cache else none) with
    | some status => pure status
    | none => do
      let status ← fromExcept (license_verdict site raw now)
      modifyState fun _ => { _cache := some status, _cache_path := some path }
      pure status

/-- `current >= limit`, where a limit is of any type. -/
def reaches (current : Int) : Json → Except Exn Bool
  | .int limit => .ok (limit ≤ current)
  | .bool limit => .ok ((if limit then 1 else 0) ≤ current)
  | .float limit => .ok (limit ≤ current)
  | .str _ => .error (.other "TypeError" "'>=' not supported between instances of 'int' and 'str'")
  | .arr _ => .error (.other "TypeError" "'>=' not supported between instances of 'int' and 'list'")
  | .obj _ => .error (.other "TypeError" "'>=' not supported between instances of 'int' and 'dict'")
  | .null =>
    .error (.other "TypeError" "'>=' not supported between instances of 'int' and 'NoneType'")

/-- `EditionGate.get_quota`; the gate asks for the license anew at every access. -/
def get_quota (site : Site) (now : Time) (field : String) : LicenseM Json := do
  let status ← load_license site now
  pure (getJson status.quota field)

def check_quota (site : Site) (now : Time) (field : String) (current : Int) (human_name : String) :
    LicenseM Unit := do
  match ← get_quota site now field with
  | .null => pure ()
  | limit => do
    if ← fromExcept (reaches current limit) then do
      let status ← load_license site now
      raise (.other "PermissionDenied" (s!"当前服务等级（{status.tier.name}）{human_name} 配额已满（上限 " ++
        s!"{site.py.str limit}），请删除部分后再操作，或升级服务等级。"))
    else pure ()

/-- What `json.loads` makes of a text. Beside the error of its own it raises that of a number with
too many digits and that of containers within too many others. -/
inductive Loads where
  | value (v : Json)
  | JSONDecodeError (message : String)
  | ValueError (message : String)
  | RecursionError (message : String)

/-- Line ends as a file opened for text has them. -/
def universal_newlines : List Char → List Char
  | '\r' :: '\n' :: rest => '\n' :: universal_newlines rest
  | '\r' :: rest => '\n' :: universal_newlines rest
  | c :: rest => c :: universal_newlines rest
  | [] => []

/-- `path.read_text(encoding="utf-8")` -/
def read_text (content : ByteArray) : Except Exn String :=
  match String.fromUTF8? content with
  | none => .error (.other "UnicodeDecodeError" "'utf-8' codec can't decode bytes")
  | some text => .ok (String.ofList (universal_newlines text.toList))

section

variable (loads : String → Loads) (site : Site)

/-- The document of a license file. Only what `json.loads` calls an error of JSON is
handled later. -/
def read_doc (content : ByteArray) : Except Exn (Except String Json) := do
  let raw := String.ofList (strip (← read_text content).toList)
  match loads raw with
  | .value doc => .ok (.ok doc)
  | .JSONDecodeError e => .ok (.error e)
  | .ValueError message => .error (.ValueError message)
  | .RecursionError message => .error (.other "RecursionError" message)

/-- `verify_license_file` from the bytes of the file. -/
def verify_license_content (content : ByteArray) (now : Time) : Except Exn LicenseStatus := do
  let raw ← read_doc loads content
  verify_license_file site raw now

/-- A failed check of the file is a blocked license; other exceptions leave the function. -/
def content_verdict (content : ByteArray) (now : Time) : Except Exn LicenseStatus :=
  match verify_license_content loads site content now with
  | .error (.other "LicenseError" message) => .ok (blocked_status "INVALID_LICENSE" message)
  | verdict => verdict

/-- `load_license` where the license file that is found, if any, has some bytes. -/
def load_license_content (file : Option (String × ByteArray)) (now : Time)
    (force_reload : Bool := false) :
    LicenseM LicenseStatus :=
  if site.bypass then pure bypass_status
  else match file with
  | none => pure free_status
  | some (path, content) => do
    let p ← getState
    match (if force_reload = false ∧ p._cache_path = some path then p._cache else none) with
    | some status => pure status
    | none => do
      let status ← fromExcept (content_verdict loads site content now)
      modifyState fun _ => { _cache := some status, _cache_path := some path }
      pure status

end

end taurus.editions
