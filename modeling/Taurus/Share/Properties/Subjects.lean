import Taurus.Share.Effects

namespace taurus.share

open taurus.lib taurus.lib.Thread taurus.python taurus.engine

/-- Something happens to the links: a visit, or a change of links, roles or departments. The
recursion limit stays. -/
inductive Event where
  | visit (v : Visit)
  | administer (tables : Tables)

def Event.perform (w : World) : Event → World
  | visit v => (v.process.complete World.perform w).2
  | administer tables => { w with tables := { tables with frames := w.tables.frames } }

def after (w : World) (events : List Event) : World := events.foldl Event.perform w

section

variable {w : World} {events : List Event} {key : Nat} {share_token t : String} {link : ShareLink}
  {user : Option User}

/-- At some time the link was opened in the session by a visitor with `P`. -/
def Opened (w : World) (events : List Event) (key : Nat) (share_token : String)
    (P : Tables → ShareLink → Option User → Prop) : Prop :=
  ∃ earlier v later link, events = earlier ++ .visit v :: later ∧ v.request.session = some key ∧
  v.share_token = share_token ∧
    (after w earlier).tables.link? share_token = some link ∧
    Opens (after w earlier).tables link v.request ∧
    P (after w earlier).tables link v.request.user

/-- A link that was opened stays opened. -/
theorem Opened.later {P : Tables → ShareLink → Option User → Prop}
    (h : Opened w events key share_token P) (e : Event) :
    Opened w (events ++ [e]) key share_token P := by
  obtain ⟨earlier, v, later, link, rfl, h⟩ := h
  exact ⟨earlier, v, later ++ [e], link, by rw [List.append_assoc]; rfl, h⟩

theorem frames_perform (c : Access) (w : World) :
    (World.perform c w).2.tables.frames = w.tables.frames := by cases c <;> rfl

/-- The frame limit never changes. -/
theorem frames_after (w : World) (events : List Event) :
    (after w events).tables.frames = w.tables.frames := by
  refine List.foldlRecOn (motive :=
    fun w' => w'.tables.frames = w.tables.frames) events Event.perform rfl fun w' hw' e _ => ?_
  cases e with
  | visit v =>
    exact complete_invariant World.perform
      (fun c s hs => (frames_perform c s).trans hs) v.process hw'
  | administer tables => exact hw'

theorem after_concat (e : Event) : after w (events ++ [e]) = e.perform (after w events) :=
  List.foldl_concat Event.perform w e events

/-- A token in a session was opened there. -/
theorem opened_of_mem_sessions (hclosed : ∀ key t, t ∉ w.sessions key)
    (h : t ∈ (after w events).sessions key) :
    Opened w events key t fun _ _ _ => True := by
  induction events using List.reverseRecOn with
  | nil => exact absurd h (hclosed key t)
  | append_singleton events e ih =>
    rw [after_concat] at h
    cases e with
    | visit v =>
      obtain hold | ⟨hkey, htoken, link, hlink, hopens⟩ := mem_sessions_visit h
      · exact (ih hold).later _
      · exact ⟨events, v, [], link, rfl, hkey, htoken, hlink, hopens, trivial⟩
    | administer tables => exact (ih h).later _

/-- Nothing has changed that decides whom the link is for: the visitor with the department and the
roles, the tree of the departments, and the scope and the binding of the link. -/
structure Unchanged (tables : Tables) (link : ShareLink) (user : Option User) (tables' : Tables)
    (link' : ShareLink) (user' : Option User) :
    Prop where
  visitor : user' = user
  role : ∀ u : User, user = some u → tables'.role u.id = tables.role u.id
  depts : tables'.depts = tables.depts
  scope : link'.access_scope = link.access_scope
  binding : link'.binding = link.binding

/-- A link serves whom it served while it is unchanged. -/
theorem Unchanged.serves {tables tables' : Tables} {link' : ShareLink} {user' : Option User}
    (h : Unchanged tables link user tables' link' user') (hframes : tables'.frames = tables.frames)
    (hserves : Serves tables' link' user') : Serves tables link user := by
  obtain ⟨rfl, hrole, hdepts, hscope, hbinding⟩ := h
  refine ⟨hscope ▸ hserves.scope, fun bind_type bind_id hb => ?_⟩
  obtain ⟨u, rfl, hsubject⟩ := hserves.subject bind_type bind_id (hbinding ▸ hb)
  refine ⟨u, rfl, ?_⟩
  cases hsubject with
  | user htype hid => exact .user htype hid
  | role htype hr hid => exact .role htype (hrole u rfl ▸ hr) hid
  | dept htype huser hid hrec hmem => exact .dept htype huser hid (hframes ▸ hdepts ▸ hrec) hmem

/-- A link that was opened in a session serves those it is for, as long as whoever uses the session
has opened it there and nothing has changed since. -/
theorem session_link_serves {now : Time} {resource_type : ResourceType} {resource_obj : Resource}
    (hclosed : ∀ key t, t ∉ w.sessions key)
    (hsame : Opened w events key link.share_token (fun _ _ _ => True) →
      Opened w events key link.share_token (Unchanged (after w events).tables link user))
    (hlink : link ∈ session_links (after w events).tables now
      ((after w events).sessions key) resource_type resource_obj) :
    Serves (after w events).tables link user := by
  obtain ⟨-, htoken, -⟩ := mem_session_links.mp hlink
  obtain ⟨earlier, v, later, link', -, -, -, -, hopens, hunchanged⟩ :=
    hsame (opened_of_mem_sessions hclosed htoken)
  exact hunchanged.serves ((frames_after _ _).trans (frames_after _ _).symm) hopens.serves

end

/-! A link for Alice, who opens it in a session that Bob uses after her. -/

def alice : User := { id := 4 }

def for_alice : ShareLink :=
  { offer 0 with bind_subject_type := some "user", bind_subject_id := some "4" }

def shared_desk : World where
  tables := { links := [for_alice], tokens_nodup := List.nodup_singleton _ }

def by_alice : Visit := .activate "offer" { user := some alice, session := some 0 }

def after_alice : World := after shared_desk [.visit by_alice]

/-- The link with its count after the activation. -/
def opened_link : ShareLink := { for_alice with current_access_count := 1 }

theorem opened_link_in_session :
    opened_link ∈ session_links after_alice.tables 0 (after_alice.sessions 0) .script report := by
  decide +kernel

theorem binding_for_alice {bind_type bind_id : String}
    (h : opened_link.binding = some (bind_type, bind_id)) :
    bind_type = "user" ∧ bind_id = "4" := by
  have hbinding : opened_link.binding = some ("user", "4") := by decide +kernel
  obtain ⟨rfl, rfl⟩ := Prod.mk.inj (Option.some.inj (hbinding.symm.trans h))
  exact ⟨rfl, rfl⟩

theorem opens_for_alice : Opens shared_desk.tables for_alice by_alice.request := by
  refine ⟨rfl, rfl, rfl, fun _ => rfl, fun bind_type bind_id h => ?_⟩
  obtain ⟨rfl, rfl⟩ := binding_for_alice h
  exact ⟨alice, rfl, .user rfl (by decide +kernel)⟩

/-- The example is served. -/
theorem alice_served :
    opened_link ∈ session_links after_alice.tables 0 (after_alice.sessions 0) .script report ∧
    Serves after_alice.tables opened_link (some alice) := by
  refine ⟨opened_link_in_session,
    session_link_serves (w := shared_desk) (fun _ _ => List.not_mem_nil)
    (fun _ => ?_) opened_link_in_session⟩
  exact ⟨[], by_alice, [], for_alice, rfl, rfl, rfl,
    by decide +kernel, opens_for_alice, rfl, fun _ _ => rfl, rfl, rfl, rfl⟩

/-- Bob, who uses the session after Alice, gets the rights of the link that is bound to her. -/
theorem bob_served :
    (∃ perms, get_user_effective_perms after_alice.tables 0 (some bob) "script" report
      (some (after_alice.sessions 0)) =
      .ok perms ∧ "script:execute" ∈ perms) ∧
    opened_link ∈ session_links after_alice.tables 0 (after_alice.sessions 0) .script report ∧
    ¬Serves after_alice.tables opened_link (some bob) := by
  refine ⟨⟨_, rfl, by decide +kernel⟩, opened_link_in_session, fun hserves => ?_⟩
  obtain ⟨u, hu, hsubject⟩ := hserves.subject "user" "4" (by decide +kernel)
  obtain rfl := Option.some.inj hu
  cases hsubject with
  | user _ hid => exact absurd hid (by decide +kernel)
  | role htype => exact absurd htype (by decide +kernel)
  | dept htype => exact absurd htype (by decide +kernel)

end taurus.share
