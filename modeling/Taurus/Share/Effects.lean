import Taurus.Share.Links

namespace taurus.share

open taurus.lib taurus.lib.Thread taurus.python taurus.engine

/-- The subjects that a user is. -/
inductive IsSubject (tables : Tables) (user : User) (bind_type bind_id : String) : Prop
  | user (htype : bind_type = "user") (hid : toString user.id = bind_id)
  | role (htype : bind_type = "role") {r : Int} (hr : r ∈ tables.role user.id)
    (hid : toString r = bind_id)
  | dept (htype : bind_type = "dept") {dept_id user_dept_id : Int} {dept_and_children : List Int}
      (huser : user.dept_id = some user_dept_id) (hid : short_int? bind_id.toList = some dept_id)
      (hdepts : Dept.recursion_all_dept tables.frames tables.depts dept_id = some dept_and_children)
      (hmem : user_dept_id ∈ dept_and_children)

/-- The visitor is one the link is for. -/
structure Serves (tables : Tables) (link : ShareLink) (user : Option User) : Prop where
  scope : link.access_scope = .authenticated → user.isSome
  subject : ∀ bind_type bind_id, link.binding = some (bind_type, bind_id) →
    ∃ u, user = some u ∧ IsSubject tables u bind_type bind_id

/-- The visitor may open the link. -/
structure Opens (tables : Tables) (link : ShareLink) (request : Request) : Prop where
  active : link.is_active = true
  unexpired : expired request.now link.expire_time = false
  unexhausted : link.exhausted = false
  serves : Serves tables link request.user

section

variable {w w' : World} {request : Request} {link : ShareLink}
  {share_token bind_type bind_id : String}

/-- What the check of the bound subject finds. -/
theorem complete_check_bind_subject_match (user : Option User) :
    ∃ found, (_check_bind_subject_match user bind_type bind_id).complete World.perform w =
      (.ok found, w) ∧
      (found = true ↔ ∃ u, user = some u ∧ IsSubject w.tables u bind_type bind_id) := by
  cases user with
  | none => exact ⟨false, rfl, nofun, nofun⟩
  | some user =>
    simp only [_check_bind_subject_match, Option.some.injEq, exists_eq_left']
    by_cases huser : bind_type = "user"
    · rw [if_pos huser]
      refine ⟨_, rfl, fun h => .user huser (of_decide_eq_true h), fun h => ?_⟩
      cases h with
      | user _ hid => exact decide_eq_true hid
      | role htype => exact absurd (huser.symm.trans htype) (by decide)
      | dept htype => exact absurd (huser.symm.trans htype) (by decide)
    · rw [if_neg huser]
      by_cases hrole : bind_type = "role"
      · rw [if_pos hrole]
        refine ⟨_, rfl, fun h => ?_, fun h => ?_⟩
        · obtain ⟨r, hr, hid⟩ := List.any_eq_true.mp h
          exact .role hrole hr (of_decide_eq_true hid)
        · cases h with
          | user htype => exact absurd htype huser
          | role _ hr hid => exact List.any_eq_true.mpr ⟨_, hr, decide_eq_true hid⟩
          | dept htype => exact absurd (hrole.symm.trans htype) (by decide)
      · rw [if_neg hrole]
        by_cases hdept : bind_type = "dept"
        · rw [if_pos hdept]
          split
          · rename_i user_dept_id dept_id huser_dept hid
            refine ⟨_, rfl, fun h => ?_, fun h => ?_⟩
            · obtain ⟨dept_and_children, hdepts, hmem⟩ := (Option.any_eq_true _ _).mp h
              exact .dept hdept huser_dept hid hdepts (of_decide_eq_true hmem)
            · cases h with
              | user htype => exact absurd htype huser
              | role htype => exact absurd htype hrole
              | dept _ huser' hid' hdepts hmem =>
                obtain rfl := Option.some.inj (hid'.symm.trans hid)
                obtain rfl := Option.some.inj (huser'.symm.trans huser_dept)
                exact (Option.any_eq_true _ _).mpr ⟨_, hdepts, decide_eq_true hmem⟩
          · rename_i hnone
            refine ⟨false, rfl, nofun, fun h => ?_⟩
            cases h with
            | user htype => exact absurd htype huser
            | role htype => exact absurd htype hrole
            | dept _ huser_dept hid => exact (hnone _ _ huser_dept hid).elim
        · rw [if_neg hdept]
          refine ⟨false, rfl, nofun, fun h => ?_⟩
          cases h with
          | user htype => exact absurd htype huser
          | role htype => exact absurd htype hrole
          | dept htype => exact absurd htype hdept

/-- Both requests refuse a link exactly when the visitor may not open it. -/
theorem complete_refusal (link : ShareLink) (request : Request) :
    ∃ answer, (refusal link request).complete World.perform w = (.ok answer, w) ∧
      (answer = none ↔ Opens w.tables link request) := by
  unfold refusal
  by_cases hactive : link.is_active = false
  · rw [if_pos hactive]
    exact ⟨_, rfl, nofun, fun h => Bool.noConfusion (hactive.symm.trans h.active)⟩
  · rw [if_neg hactive]
    by_cases hexpired : expired request.now link.expire_time = true
    · rw [if_pos hexpired]
      exact ⟨_, rfl, nofun, fun h => Bool.noConfusion (h.unexpired.symm.trans hexpired)⟩
    · rw [if_neg hexpired]
      by_cases hexhausted : link.exhausted = true
      · rw [if_pos hexhausted]
        exact ⟨_, rfl, nofun, fun h => Bool.noConfusion (h.unexhausted.symm.trans hexhausted)⟩
      · rw [if_neg hexhausted]
        by_cases hscope : link.access_scope = .authenticated ∧ request.user.isNone = true
        · rw [if_pos hscope]
          refine ⟨_, rfl, nofun, fun h => ?_⟩
          have hsome := h.serves.scope hscope.1
          rw [Option.isNone_iff_eq_none.mp hscope.2] at hsome
          cases hsome
        · rw [if_neg hscope]
          have hauthed : link.access_scope = .authenticated → request.user.isSome = true := by
            intro h
            have := fun hnone => hscope ⟨h, hnone⟩
            rwa [Option.isNone_eq_false_iff.symm, ← Bool.not_eq_true]
          have hopens : ∀ hserves : Serves w.tables link request.user,
            Opens w.tables link request := fun hserves =>
            ⟨Bool.eq_true_of_not_eq_false hactive, Bool.eq_false_of_not_eq_true hexpired,
              Bool.eq_false_of_not_eq_true hexhausted, hserves⟩
          split
          · rename_i hbinding
            exact ⟨none, rfl, fun _ => hopens
              ⟨hauthed, fun _ _ h => by rw [hbinding] at h; cases h⟩, fun _ => rfl⟩
          · rename_i bind_type bind_id hbinding
            obtain ⟨found, hfound, hiff⟩ : ∃ found,
              (_check_bind_subject_match request.user bind_type bind_id).complete World.perform w =
                (.ok found, w) ∧ (found = true ↔
                ∃ u, request.user = some u ∧ IsSubject w.tables u bind_type bind_id) :=
              complete_check_bind_subject_match request.user
            rw [complete_bind, hfound]
            refine ⟨_, rfl, ?_⟩
            constructor
            · intro h
              have hsubject : found = true := by
                cases found
                · cases h
                · rfl
              refine hopens ⟨hauthed, fun t i hti => ?_⟩
              obtain ⟨rfl, rfl⟩ := Prod.mk.inj (Option.some.inj (hbinding.symm.trans hti))
              exact hiff.mp hsubject
            · intro h
              rw [hiff.mpr (h.serves.subject _ _ hbinding)]
              rfl

/-- The tokens that an opened link leaves in the session of the request. -/
def opened_session (w : World) (request : Request) (share_token : String) : Option (List String) :=
  request.session.map fun key => add_token (w.sessions key) share_token

theorem complete_active_tokens : (active_tokens request).complete World.perform w =
    (.ok (request.session.map w.sessions), w) := by
  unfold active_tokens
  cases request.session <;> rfl

@[simp] theorem complete_get_link :
    (get_link share_token).complete World.perform w = (.ok (w.tables.link? share_token), w) := rfl

@[simp] theorem complete_get_name {resource_type : ResourceType} {resource_id : String} :
    (get_name resource_type resource_id).complete World.perform w =
      (.ok (w.tables.name resource_type resource_id), w) := rfl

/-- What admitting a visitor changes. -/
theorem complete_admit (link : ShareLink) (request : Request) (w : World) :
    ∃ data logs, (open_link link request).complete World.perform w =
      (.ok (data, opened_session w request link.share_token),
        { w with tables := w.tables.save_count link.share_token (link.current_access_count + 1), logs }) := by
  unfold open_link
  rw [complete_bind, complete_active_tokens]
  unfold opened_session
  cases request.session <;> exact ⟨_, _, rfl⟩

/-- Where the visitor may open the link, the activation counts it. -/
theorem complete_activate_link_of_opens (hlink : w.tables.link? share_token = some link)
    (hopens : Opens w.tables link request) :
    ∃ data logs, (activate_link share_token request).complete World.perform w =
      (.ok (.ok (data, opened_session w request share_token)),
        { w with tables := w.tables.save_count share_token (link.current_access_count + 1), logs }) := by
  obtain ⟨answer, hanswer, hiff⟩ := complete_refusal (w := w) link request
  obtain ⟨data, logs, hadmit⟩ := complete_admit link request w
  rw [Tables.share_token_of_link? hlink] at hadmit
  refine ⟨data, logs, ?_⟩
  unfold activate_link
  rw [complete_bind, complete_get_link, hlink]
  dsimp only
  rw [complete_bind, hanswer, hiff.mpr hopens]
  dsimp only
  rw [complete_bind, hadmit]
  rfl

/-- Otherwise it leaves all but the log as it was. -/
theorem complete_activate_link_of_not_opens
    (h : ∀ link, w.tables.link? share_token = some link → ¬Opens w.tables link request) :
    ∃ r logs, (activate_link share_token request).complete World.perform w =
      (.ok (.error r), { w with logs }) := by
  unfold activate_link
  rw [complete_bind, complete_get_link]
  cases hlink : w.tables.link? share_token with
  | none => exact ⟨_, _, rfl⟩
  | some link =>
    obtain ⟨answer, hanswer, hiff⟩ := complete_refusal (w := w) link request
    dsimp only
    rw [complete_bind, hanswer]
    cases answer with
    | none => exact (h link hlink (hiff.mp rfl)).elim
    | some r => exact ⟨r, _, rfl⟩

/-- The stored tokens after the middleware has run. -/
def stored_session (w : World) (request : Request) (session : Option (List String)) :
    Nat → List String :=
  match request.session, session with
  | some key, some tokens => Function.update w.sessions key tokens
  | _, _ => w.sessions

theorem complete_store_session (w : World) (request : Request) (session : Option (List String)) :
    (store_session request session).complete World.perform w =
      (.ok (), { w with sessions := stored_session w request session }) := by
  unfold store_session stored_session
  cases request.session <;> cases session <;> rfl

/-- A request for the details writes the token into a session that does not have it. -/
def detail_session (w : World) (request : Request) (share_token : String) : Option (List String) :=
  ((request.session.map w.sessions).filter (share_token ∉ ·)).map (· ++ [share_token])

/-- Activating a link changes at most the session of the visitor. -/
theorem sessions_activate (w : World) (share_token : String) (request : Request) :
    ((activate share_token request).complete World.perform w).2.sessions = w.sessions ∨
      ∃ link, w.tables.link? share_token = some link ∧ Opens w.tables link request ∧
        ((activate share_token request).complete World.perform w).2.sessions =
          stored_session w request ((opened_session w request share_token).map
            fun tokens => add_token tokens share_token) := by
  unfold activate
  rw [complete_bind]
  by_cases h : ∃ link, w.tables.link? share_token = some link ∧ Opens w.tables link request
  · obtain ⟨link, hlink, hopens⟩ := h
    obtain ⟨data, logs, hanswer⟩ := complete_activate_link_of_opens hlink hopens
    rw [hanswer]
    dsimp only
    rw [complete_bind, complete_store_session]
    exact Or.inr ⟨link, hlink, hopens, rfl⟩
  · obtain ⟨r, logs, hanswer⟩ :=
      complete_activate_link_of_not_opens fun link hlink hopens => h ⟨link, hlink, hopens⟩
    rw [hanswer]
    exact Or.inl rfl

theorem sessions_resource_detail (w : World) (share_token : String) (request : Request) :
    ((resource_detail share_token request).complete World.perform w).2.sessions = w.sessions ∨
      ∃ link, w.tables.link? share_token = some link ∧ Opens w.tables link request ∧
        ((resource_detail share_token request).complete World.perform w).2.sessions =
          stored_session w request (detail_session w request share_token) := by
  unfold resource_detail
  split
  · exact Or.inl rfl
  · rw [complete_bind, complete_get_link]
    cases hlink : w.tables.link? share_token with
    | none => exact Or.inl rfl
    | some link =>
      obtain ⟨answer, hanswer, hiff⟩ := complete_refusal (w := w) link request
      dsimp only
      rw [complete_bind, hanswer]
      cases answer with
      | some r => exact Or.inl rfl
      | none =>
        refine Or.inr ⟨link, rfl, hiff.mp rfl, ?_⟩
        dsimp only
        rw [complete_bind, complete_active_tokens]
        dsimp only
        rw [complete_bind, complete_get_name]
        dsimp only
        rw [complete_bind, complete_store_session]
        dsimp only
        split <;> rfl

/-- A stored session holds what the request had or what it added. -/
theorem mem_stored_session {session : Option (List String)} {key : Nat} {t : String}
    (hsession : ∀ key' tokens, request.session = some key' → session = some tokens → t ∈ tokens →
      t ∈ w.sessions key' ∨ t = share_token)
    (h : t ∈ stored_session w request session key) :
    t ∈ w.sessions key ∨ request.session = some key ∧ t = share_token := by
  unfold stored_session at h
  cases hkey : request.session with
  | none =>
    rw [hkey] at h
    exact Or.inl h
  | some key' =>
    rw [hkey] at h
    cases session with
    | none => exact Or.inl h
    | some tokens =>
      have h : t ∈ Function.update w.sessions key' tokens key := h
      by_cases hk : key = key'
      · subst hk
        rw [Function.update_self] at h
        exact (hsession key tokens hkey rfl h).imp id fun heq => ⟨rfl, heq⟩
      · rw [Function.update_of_ne hk] at h
        exact Or.inl h

/-- A visit brings only the token of a link that it opens into a session, and only into its own. -/
theorem mem_sessions_visit {v : Visit} {key : Nat} {t : String}
    (h : t ∈ (v.process.complete World.perform w).2.sessions key) :
    t ∈ w.sessions key ∨ v.request.session = some key ∧ v.share_token = t ∧
      ∃ link, w.tables.link? t = some link ∧ Opens w.tables link v.request := by
  cases v with
  | activate token request =>
    have h : t ∈ ((activate token request).complete World.perform w).2.sessions key :=
      complete_void World.perform _ w ▸ h
    obtain hsame | ⟨link, hlink, hopens, hstored⟩ := sessions_activate w token request
    · exact Or.inl (hsame ▸ h)
    · rw [hstored] at h
      refine (mem_stored_session (fun key' tokens hkey htokens hmem => ?_) h).imp id
        fun hnew : _ ∧ t = token =>
        ⟨hnew.1, hnew.2.symm, link, hnew.2.symm ▸ hlink, hopens⟩
      unfold opened_session at htokens
      rw [hkey, Option.map_some, Option.map_some] at htokens
      obtain rfl := Option.some.inj htokens
      exact (mem_add_token.mp hmem).elim mem_add_token.mp Or.inr
  | resource_detail token request =>
    have h : t ∈ ((resource_detail token request).complete World.perform w).2.sessions key :=
      complete_void World.perform _ w ▸ h
    obtain hsame | ⟨link, hlink, hopens, hstored⟩ := sessions_resource_detail w token request
    · exact Or.inl (hsame ▸ h)
    · rw [hstored] at h
      refine (mem_stored_session (fun key' tokens hkey htokens hmem => ?_) h).imp id
        fun hnew : _ ∧ t = token =>
        ⟨hnew.1, hnew.2.symm, link, hnew.2.symm ▸ hlink, hopens⟩
      unfold detail_session at htokens
      rw [hkey, Option.map_some] at htokens
      obtain ⟨old, hold, rfl⟩ := Option.map_eq_some_iff.mp htokens
      obtain rfl := Option.some.inj (Option.eq_some_of_filter_eq_some hold)
      exact (List.mem_append.mp hmem).imp id List.mem_singleton.mp

end

/-! A link to a script that may be opened so often, and a visitor without any other right. -/

def bob : User := { id := 2 }

def report : Resource := { id := 7, creator_id := some 1 }

def offer (max_access_count : Int) : ShareLink where
  resource_type := .script
  resource_id := "7"
  share_token := "offer"
  permissions := ["script:view", "script:execute"]
  max_access_count := max_access_count

def offering (max_access_count : Int) : World where
  tables := { links := [offer max_access_count], tokens_nodup := List.nodup_singleton _ }

def by_bob : Request := { user := some bob, session := some 0 }

end taurus.share
