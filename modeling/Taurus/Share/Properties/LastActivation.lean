import Taurus.Share.Effects

namespace taurus.share

open taurus.lib taurus.lib.Thread taurus.engine

variable {tables : Tables} {now : Time} {user : Option User} {resource_obj : Resource}
  {resource_type : ResourceType}
  {tokens : List String} {share_token p : String} {link l : ShareLink} {n : Int}

/-- The visitor has every valid permission code of the link. -/
def Granted (tables : Tables) (now : Time) (user : Option User) (link : ShareLink)
    (resource_obj : Resource) (tokens : List String) :
    Prop :=
  ∃ perms, get_user_effective_perms tables now user link.resource_type.name resource_obj
    (some tokens) = .ok perms ∧
    ∀ p ∈ link.permissions, p ∈ ALL_PERMS_BY_RESOURCE link.resource_type → p ∈ perms

/-- The link can be opened at least twice more, or as often as one likes. -/
def Lasting (link : ShareLink) : Prop :=
  link.max_access_count ≤ 0 ∨ link.current_access_count + 1 < link.max_access_count

/-- The visitor has a permission for the resource of the link without that link: as a
superuser or the creator, because the resource is public, by a direct share, or by
another link in the session. -/
def Elsewhere (tables : Tables) (now : Time) (user : Option User) (link : ShareLink)
    (resource_obj : Resource) (tokens : List String) (p : String) : Prop :=
  owns user resource_obj = true ∨ p ∈ own_perms tables now user link.resource_type resource_obj ∨
    ∃ other ∈ session_links tables now tokens link.resource_type resource_obj,
    other.share_token ≠ link.share_token ∧ p ∈ other.permissions

/-- The other links of the session stay open. -/
theorem session_links_of_ne (hne : l.share_token ≠ share_token) :
    l ∈ session_links (tables.save_count share_token n) now
      (add_token tokens share_token) resource_type resource_obj ↔
      l ∈ session_links tables now tokens resource_type resource_obj := by
  rw [mem_session_links, mem_session_links, Tables.mem_save_count_of_ne hne, mem_add_token,
    or_iff_left hne]

/-- The opened link stays open as long as its new count is within the limit. -/
theorem session_links_self (hlink : tables.link? share_token = some link)
    (hactive : link.is_active = true) (hunexpired : expired now link.expire_time = false)
    (hid : toString resource_obj.id = link.resource_id) (htoken : l.share_token = share_token) :
    l ∈ session_links (tables.save_count share_token n) now
      (add_token tokens share_token) link.resource_type resource_obj ↔
      l = { link with current_access_count := n } ∧ l.exhausted = false := by
  rw [mem_session_links, Tables.mem_save_count_self hlink htoken]
  constructor
  · rintro ⟨hl, -, -, -, -, -, hunexhausted⟩
    exact ⟨hl, hunexhausted⟩
  · rintro ⟨rfl, hunexhausted⟩
    exact ⟨rfl, mem_add_token.mpr (Or.inr htoken), hactive, rfl, hunexpired, hid.symm, hunexhausted⟩

/-- A link lasts if one more use does not exhaust it. -/
theorem exhausted_next :
    ({ link with current_access_count := link.current_access_count + 1 } : ShareLink).exhausted =
      false ↔ Lasting link := by
  unfold ShareLink.exhausted Lasting
  rw [decide_eq_false_iff_not]
  dsimp only
  omega

/-- A successful activation grants the rights of the link exactly when it is not the last one, or
when the visitor has them anyway. -/
theorem activation_grants_iff {w w' : World} {request : Request} {data : Activation}
    (hactivated : (activate_link share_token request).complete World.perform w =
      (.ok (.ok (data, some tokens)), w'))
    (hlink : w.tables.link? share_token = some link)
    (hunexpired : expired now link.expire_time = false)
    (hid : toString resource_obj.id = link.resource_id) :
    Granted w'.tables now request.user link resource_obj tokens ↔ Lasting link ∨
      ∀ p ∈ link.permissions, p ∈ ALL_PERMS_BY_RESOURCE link.resource_type →
        Elsewhere w.tables now request.user link resource_obj
          ((request.session.map w.sessions).getD []) p := by
  have hopens : Opens w.tables link request := by
    by_contra hnot
    have hclosed : ∀ link', w.tables.link? share_token = some link' →
      ¬Opens w.tables link' request := fun link' hlink' =>
      Option.some.inj (hlink.symm.trans hlink') ▸ hnot
    obtain ⟨r, logs, h⟩ := complete_activate_link_of_not_opens hclosed
    rw [h] at hactivated
    cases hactivated
  obtain ⟨data', logs, h⟩ := complete_activate_link_of_opens hlink hopens
  rw [h] at hactivated
  obtain ⟨hanswer, rfl⟩ := Prod.mk.inj hactivated
  obtain ⟨rfl, hsession⟩ := Prod.mk.inj (Except.ok.inj (Except.ok.inj hanswer))
  obtain ⟨key, hkey, rfl⟩ := Option.map_eq_some_iff.mp hsession
  have htoken := Tables.share_token_of_link? hlink
  rw [hkey]
  obtain ⟨perms, hperms, hspec⟩ := get_user_effective_perms_spec
    (w.tables.save_count share_token
    (link.current_access_count + 1)) now request.user link.resource_type resource_obj
    (some (add_token (w.sessions key) share_token))
  have hself : ∀ l : ShareLink, l.share_token = share_token →
      (l ∈ session_links (w.tables.save_count share_token (link.current_access_count + 1)) now
      (add_token (w.sessions key) share_token)
        link.resource_type resource_obj ↔
      l = { link with current_access_count := link.current_access_count + 1 } ∧
        l.exhausted = false) := fun l =>
    session_links_self hlink hopens.active hunexpired hid
  have hgranted : Granted (w.tables.save_count share_token
    (link.current_access_count + 1)) now request.user link resource_obj
      (add_token (w.sessions key) share_token) ↔
      ∀ p ∈ link.permissions, p ∈ ALL_PERMS_BY_RESOURCE link.resource_type → p ∈ perms :=
    ⟨fun ⟨perms', hperms', hall⟩ => Except.ok.inj (hperms'.symm.trans hperms) ▸ hall,
      fun hall => ⟨perms, hperms, hall⟩⟩
  rw [hgranted]
  constructor
  · intro hall
    refine Classical.or_iff_not_imp_left.mpr fun hlast p hp hvalid => ?_
    obtain ⟨-, howns | hown | ⟨l, hl, hpl⟩⟩ := (hspec p).mp (hall p hp hvalid)
    · exact Or.inl howns
    · exact Or.inr (Or.inl hown)
    · have hne : l.share_token ≠ share_token := by
        intro heq
        obtain ⟨rfl, hunexhausted⟩ := (hself l heq).mp hl
        exact hlast (exhausted_next.mp hunexhausted)
      exact Or.inr (Or.inr ⟨l, (session_links_of_ne hne).mp hl, htoken ▸ hne, hpl⟩)
  · intro h p hp hvalid
    refine (hspec p).mpr ⟨hvalid, ?_⟩
    obtain hlasting | helsewhere := h
    · exact Or.inr (Or.inr ⟨_,
        (hself { link with current_access_count := link.current_access_count + 1 } htoken).mpr
        ⟨rfl, exhausted_next.mpr hlasting⟩, hp⟩)
    · obtain howns | hown | ⟨l, hl, hne, hpl⟩ := helsewhere p hp hvalid
      · exact Or.inl howns
      · exact Or.inr (Or.inl hown)
      · exact Or.inr (Or.inr ⟨l, (session_links_of_ne (htoken ▸ hne)).mpr hl, hpl⟩)

/-- The first of two activations. -/
theorem first_activation_granted :
    ∃ data w', (activate_link "offer" by_bob).complete World.perform (offering 2) =
    (.ok (.ok (data, some ["offer"])), w') ∧
      Granted w'.tables 0 (some bob) (offer 2) report ["offer"] := by
  have hactivated : (activate_link "offer" by_bob).complete World.perform (offering 2) =
    (.ok (.ok ({ offer 2 with resource_name := none, current_access_count := 1 }, some ["offer"])),
    _) := rfl
  have hlasting : Lasting (offer 2) := Or.inr (by decide)
  exact ⟨_, _, hactivated, (activation_grants_iff hactivated rfl rfl rfl).mpr (Or.inl hlasting)⟩

/-- The only activation grants nothing. -/
theorem last_activation_denied :
    ∃ data w', (activate_link "offer" by_bob).complete World.perform (offering 1) =
    (.ok (.ok (data, some ["offer"])), w') ∧
      ¬Granted w'.tables 0 (some bob) (offer 1) report ["offer"] := by
  refine ⟨{ offer 1 with resource_name := none, current_access_count := 1 }, _, rfl, ?_⟩
  rintro ⟨perms, hperms, hall⟩
  obtain rfl := Except.ok.inj hperms
  have hview := hall "script:view" List.mem_cons_self (by decide +kernel)
  revert hview
  decide +kernel

end taurus.share
