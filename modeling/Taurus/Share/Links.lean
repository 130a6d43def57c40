import Taurus.Lib.Thread
import Taurus.Share.Permissions

namespace taurus.share

open taurus.lib taurus.lib.Thread taurus.python taurus.engine

/-- An access to the database or to the store of sessions. -/
inductive Access where
  | get_link (share_token : String)
  | role_all (user_id : Int)
  | recursion_all_dept (dept_id : Int)
  | load_session (key : Nat)
  | save_session (key : Nat) (tokens : List String)
  | save_count (share_token : String) (current_access_count : Int)
  | create_log (row : ShareLinkAccessLog)
  | get_name (resource_type : ResourceType) (resource_id : String)

def Access.Answer : Access → Type
  | .get_link _ => Option ShareLink
  | .role_all _ => List Int
  | .recursion_all_dept _ => Option (List Int)
  | .load_session _ => List String
  | .save_session _ _ | .save_count _ _ | .create_log _ => Unit
  | .get_name _ _ => Option String

/-- Why a link is not opened. -/
inductive Refusal where
  | not_found
  | revoked
  | expired
  | exhausted
  | login_required
  | out_of_scope
  deriving DecidableEq

namespace Refusal

/-- What `activate_link` answers. -/
def reason : Refusal → String
  | not_found => "Share link does not exist or has been deleted"
  | revoked => "Share link has been revoked"
  | expired => "Share link has expired"
  | exhausted => "Share link access count has been exhausted"
  | login_required => "This share link is only accessible to logged-in users, please login first"
  | out_of_scope => "This share link is restricted to specified users/departments/roles"

/-- What `activate_link` logs. -/
def fail_reason : Refusal → String
  | not_found => "Link not found"
  | revoked => "Link manually revoked by creator"
  | expired => "Link expired"
  | exhausted => "Max access count exceeded"
  | login_required => "Login required"
  | out_of_scope => "Visitor not in bound scope"

/-- What `resource_detail` answers. -/
def msg : Refusal → String
  | not_found => "Share link not found or deleted"
  | revoked => "Share link revoked"
  | expired => "Share link expired"
  | exhausted => "Share link access limit reached"
  | login_required => "This share link requires login, please sign in"
  | out_of_scope => "This share link is restricted to specific users/depts/roles"

end Refusal

/-- The handling of a request, access by access; it may be answered with an error message. -/
abbrev Process (α : Type) : Type := Thread Access Access.Answer String α

def get_link (share_token : String) : Process (Option ShareLink) :=
  Thread.statement (.get_link share_token : Access)

def role_all (user_id : Int) : Process (List Int) := Thread.statement (.role_all user_id : Access)

def recursion_all_dept (dept_id : Int) : Process (Option (List Int)) :=
  Thread.statement (.recursion_all_dept dept_id : Access)

def load_session (key : Nat) : Process (List String) :=
  Thread.statement (.load_session key : Access)

def save_session (key : Nat) (tokens : List String) : Process Unit :=
  Thread.statement (.save_session key tokens : Access)

def save_count (share_token : String) (current_access_count : Int) : Process Unit :=
  Thread.statement (.save_count share_token current_access_count : Access)

def create_log (row : ShareLinkAccessLog) : Process Unit :=
  Thread.statement (.create_log row : Access)

def get_name (resource_type : ResourceType) (resource_id : String) : Process (Option String) :=
  Thread.statement (.get_name resource_type resource_id : Access)

def error_response {α : Type} (msg : String) : Process α := Thread.raise msg

/-- Who asks when, and under which key the tokens of the session are stored. -/
structure Request where
  user : Option User := none
  session : Option Nat := none
  now : Time := 0

/-- What a success answers. -/
structure Activation where
  resource_type : ResourceType
  resource_id : String
  resource_name : Option String
  permissions : List String
  access_scope : AccessScope
  expire_time : Option Time
  max_access_count : Int
  current_access_count : Int
  deriving DecidableEq

structure Detail where
  resource_type : ResourceType
  resource_id : String
  resource_name : String
  permissions : List String
  deriving DecidableEq

def _check_bind_subject_match (user : Option User) (bind_type bind_id : String) : Process Bool :=
  match user with
  | none => pure false
  | some user =>
    if bind_type = "user" then pure (toString user.id = bind_id)
    else if bind_type = "role" then do
      let roles ← role_all user.id
      pure (roles.any fun r => toString r = bind_id)
    else if bind_type = "dept" then
      match user.dept_id, short_int? bind_id.toList with
      | some user_dept_id, some dept_id => do
        let dept_and_children ← recursion_all_dept dept_id
        pure (dept_and_children.any fun ids => user_dept_id ∈ ids)
      | _, _ => pure false
    else pure false

/-- The checks that `activate_link` and `resource_detail` both make. -/
def refusal (link : ShareLink) (request : Request) : Process (Option Refusal) := do
  if link.is_active = false then pure (some .revoked)
  else if expired request.now link.expire_time then pure (some .expired)
  else if link.exhausted then pure (some .exhausted)
  else if link.access_scope = .authenticated ∧ request.user.isNone then pure (some .login_required)
  else
    match link.binding with
    | none => pure none
    | some (bind_type, bind_id) => do
      let found ← _check_bind_subject_match request.user bind_type bind_id
      pure (if found then none else some .out_of_scope)

/-- `request.session.get(SHARE_LINK_SESSION_KEY, []) or []` -/
def active_tokens (request : Request) : Process (Option (List String)) :=
  match request.session with
  | none => pure none
  | some key => do
    let tokens ← load_session key
    pure (some tokens)

def add_token (tokens : List String) (share_token : String) : List String :=
  if share_token ∈ tokens then tokens else tokens ++ [share_token]

theorem mem_add_token {tokens : List String} {share_token t : String} :
    t ∈ add_token tokens share_token ↔ t ∈ tokens ∨ t = share_token := by
  unfold add_token
  split
  · rename_i hmem
    exact ⟨Or.inl, fun h => h.elim id fun heq => heq ▸ hmem⟩
  · rw [List.mem_append, List.mem_singleton]

/-- A visitor is refused, which is logged. -/
def refuse (link : ShareLink) (request : Request) (refusal : Refusal) : Process Unit :=
  create_log {
    share_link := link.share_token
    access_user := request.user.map (·.id)
    access_success := false
    fail_reason := refusal.fail_reason }

/-- Success: the session in memory gets the token, the activation is counted and logged. -/
def open_link (link : ShareLink) (request : Request) :
    Process (Activation × Option (List String)) := do
  let session ← active_tokens request
  let session := session.map fun tokens => add_token tokens link.share_token
  let link := { link with current_access_count := link.current_access_count + 1 }
  save_count link.share_token link.current_access_count
  create_log { share_link := link.share_token, access_user := request.user.map (·.id), access_success := true, fail_reason := "" }
  let resource_name ← get_name link.resource_type link.resource_id
  pure ({ link with resource_name }, session)

/-- The result with the session in memory. -/
def activate_link (share_token : String) (request : Request) :
    Process (Except Refusal (Activation × Option (List String))) := do
  let link ← get_link share_token
  match link with
  | none => pure (.error .not_found)
  | some link => do
    let answer ← refusal link request
    match answer with
    | some refusal => do
      refuse link request refusal
      pure (.error refusal)
    | none => do
      let admission ← open_link link request
      pure (.ok admission)

/-- The session middleware stores a modified session at the end of a request. -/
def store_session (request : Request) (session : Option (List String)) : Process Unit :=
  match request.session, session with
  | some key, some tokens => save_session key tokens
  | _, _ => pure ()

def activate (share_token : String) (request : Request) : Process Activation := do
  let answer ← activate_link share_token request
  match answer with
  | .error refusal => error_response refusal.reason
  | .ok (data, session) => do
    store_session request (session.map fun tokens => add_token tokens share_token)
    pure data

def resource_detail (share_token : String) (request : Request) : Process Detail :=
  if share_token = "" then error_response "Missing share_token parameter"
  else do
    let link ← get_link share_token
    match link with
    | none => error_response Refusal.not_found.msg
    | some link => do
      let answer ← refusal link request
      match answer with
      | some refusal => error_response refusal.msg
      | none => do
        let session ← active_tokens request
        let name ← get_name link.resource_type link.resource_id
        store_session request ((session.filter (share_token ∉ ·)).map (· ++ [share_token]))
        match name with
        | none => error_response s!"Shared {link.resource_type.name} not found or deleted"
        | some resource_name => pure { link with resource_name }

/-- A request that may open a link. -/
inductive Visit where
  | activate (share_token : String) (request : Request)
  | resource_detail (share_token : String) (request : Request)

namespace Visit

def process : Visit → Process Unit
  | activate share_token request => share.activate share_token request >>= fun _ => pure ()
  | resource_detail share_token request =>
    share.resource_detail share_token request >>= fun _ => pure ()

def request : Visit → Request
  | activate _ request | resource_detail _ request => request

def share_token : Visit → String
  | activate share_token _ | resource_detail share_token _ => share_token

def is_detail : Visit → Bool
  | activate _ _ => false
  | resource_detail _ _ => true

end Visit

namespace World

def perform : (c : Access) → World → c.Answer × World
  | .get_link share_token, w => (w.tables.link? share_token, w)
  | .role_all user_id, w => (w.tables.role user_id, w)
  | .recursion_all_dept dept_id, w =>
    (Dept.recursion_all_dept w.tables.frames w.tables.depts dept_id, w)
  | .load_session key, w => (w.sessions key, w)
  | .save_session key tokens, w =>
    ((), { w with sessions := Function.update w.sessions key tokens })
  | .save_count share_token current_access_count, w =>
    ((), { w with tables := w.tables.save_count share_token current_access_count })
  | .create_log row, w => ((), { w with logs := w.logs ++ [row] })
  | .get_name resource_type resource_id, w => (w.tables.name resource_type resource_id, w)

end World

end taurus.share
