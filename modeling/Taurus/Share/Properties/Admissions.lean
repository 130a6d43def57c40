import Mathlib.Data.Finset.Card
import Taurus.Lib.Thread
import Taurus.Share.Effects

namespace taurus.share

open taurus.lib taurus.lib.Thread taurus.lib.Protocol taurus.lib.transition taurus.engine

namespace Visit

/-- The visit is to activate the link. -/
def activates (share_token : String) : Visit → Bool
  | activate t _ => t = share_token
  | resource_detail _ _ => false

end Visit

/-- The stored state with the executed accesses, the latest one first. -/
structure Journal where
  world : World
  log : List (Nat × Access) := []

def Journal.exec (i : Nat) (c : Access) (d : Journal) : Option (c.Answer × Journal) :=
  some ((d.world.perform c).1, { world := (d.world.perform c).2, log := (i, c) :: d.log })

abbrev Server : Type := Threads Journal Access Access.Answer String

def serving (w : World) (visits : List Visit) : Server where
  shared := { world := w }
  threads := visits.map Visit.process

/-- The access stores the count of the link. -/
def Access.counts (share_token : String) : Access → Bool
  | .save_count t _ => t = share_token
  | _ => false

/-- A count that was read is out of date once another request has stored one. -/
def counter (share_token : String) : Accesses Access Unit where
  reads c _ := match c with
    | .get_link t => t = share_token
    | _ => false
  saves c _ := c.counts share_token

/-- The requests that have counted their activation. -/
def activated (share_token : String) : List (Nat × Access) → Finset Nat
  | [] => ∅
  | (i, c) :: rest =>
    if c.counts share_token then
      insert i (activated share_token rest)
    else activated share_token rest

/-- The sessions into which the token was ever written. -/
def admitted (share_token : String) : List (Nat × Access) → Finset Nat
  | [] => ∅
  | (_, .save_session key tokens) :: rest =>
    if share_token ∈ tokens then
      insert key (admitted share_token rest)
    else admitted share_token rest
  | _ :: rest => admitted share_token rest

/-- An activation stores no outdated count, and `resource_detail` brings the token
into no new session. -/
def Access.orderly (share_token : String) (is_detail : Bool) (i : Nat)
    (log : List (Nat × Access)) : Access → Bool
  | .save_count t _ => t ≠ share_token ∨ (counter share_token).fresh i () log = true
  | .save_session key tokens =>
    is_detail = false ∨ share_token ∉ tokens ∨ key ∈ admitted share_token log
  | _ => true

def Orderly (share_token : String) (visits : List Visit) (s : Server) (i : Nat) : Prop :=
  ∀ c ∈ s.current i, c.orderly share_token (visits[i]?.any Visit.is_detail) i s.shared.log = true

instance decidableOrderly (share_token : String) (visits : List Visit) (s : Server) (i : Nat) :
    Decidable (Orderly share_token visits s i) := inferInstanceAs (Decidable (∀ c ∈ s.current i, _))

/-- How far a visit has come with a link: the count that it has read, whether its session had the
token, and whether it has counted its activation. -/
structure Progress where
  visit : Visit
  seen : Option Int := none
  holds : Bool := false
  counted : Bool := false

/-- A session with these tokens has opened the link. -/
def contains (share_token : String) (tokens : List String) : Bool := share_token ∈ tokens

/-- How the visits use a link with the limit `n`. -/
def usage (share_token : String) (n : Int) : Protocol Access Access.Answer Progress where
  allowed h
    | .load_session key => h.visit.request.session = some key
    | .save_session key tokens => h.visit.request.session = some key ∧
        (share_token ∈ tokens → h.holds = true ∨ h.counted = true ∨ h.visit.is_detail = true)
    | .save_count t m => t = share_token → h.counted = false ∧ h.seen = some (m - 1) ∧ m ≤ n
    | _ => True
  answers _ c answer :=
    match c, answer with
    | .get_link t, link =>
      ∀ l : ShareLink, link = some l →
        l.share_token = t ∧ (t = share_token → l.max_access_count = n)
    | _, _ => True
  next h c answer h' :=
    match c, answer with
    | .get_link t, link =>
      h' = if t = share_token then { h with seen := link.map ShareLink.current_access_count } else h
    | .load_session _, tokens => h' = { h with holds := contains share_token tokens }
    | .save_count t _, _ => h' = if t = share_token then { h with counted := true } else h
    | _, _ => h' = h

section

variable {share_token t : String} {n : Int} {visit : Visit} {request : Request} {α β : Type}

/-- From a progress with `P` the process keeps to the protocol and does not raise. -/
def Tidy (share_token : String) (n : Int) (P : Progress → Prop) (process : Process α)
    (Q : α → Progress → Prop) : Prop :=
  (usage share_token n).Keeps P process Q fun _ => False

/-- An access that the protocol neither limits nor follows. -/
theorem tidy_free {c : Access} {P : Progress → Prop}
    (hallowed : ∀ h, (usage share_token n).allowed h c)
    (hnext : ∀ h answer, (usage share_token n).next h c answer h) :
    Tidy share_token n P (Thread.statement c : Process c.Answer) fun _ => P :=
  fun h hP => ⟨hallowed h, fun answer _ => ⟨h, hnext h answer, hP⟩⟩

/-- Tidy processes may be run one after the other. -/
theorem tidy_bind {P : Progress → Prop} {R : α → Progress → Prop} {Q : β → Progress → Prop}
    {process : Process α} {f : α → Process β} (hprocess : Tidy share_token n P process R)
    (hf : ∀ a, Tidy share_token n (R a) (f a) Q) :
    Tidy share_token n P (process >>= f) Q := keeps_bind hprocess hf

/-- An answer alone is tidy. -/
theorem tidy_pure {P : Progress → Prop} {a : α} {Q : α → Progress → Prop} (h : ∀ x, P x → Q a x) :
    Tidy share_token n P (pure a : Process α) Q := keeps_pure h

/-- The check of the subject is tidy. -/
theorem tidy_check_bind_subject_match {P : Progress → Prop} {user : Option User}
    {bind_type bind_id : String} :
    Tidy share_token n P (_check_bind_subject_match user bind_type bind_id) fun _ => P := by
  have hreturn : ∀ found : Bool, Tidy share_token n P (pure found : Process Bool) fun _ => P :=
    fun _ => tidy_pure fun _ h => h
  unfold _check_bind_subject_match
  split
  · exact hreturn _
  · split
    · exact hreturn _
    · split
      · exact tidy_bind (tidy_free (c := .role_all _) (fun _ => trivial) fun _ _ => rfl)
          fun _ => hreturn _
      · split
        · split
          · exact tidy_bind (tidy_free (c := .recursion_all_dept _) (fun _ => trivial)
              fun _ _ => rfl) fun _ => hreturn _
          · exact hreturn _
        · exact hreturn _

/-- A link that is used up is refused. -/
theorem tidy_refusal {P : Progress → Prop} {link : ShareLink} :
    Tidy share_token n P (refusal link request) fun answer h => P h ∧
      (answer = none → link.exhausted = false) := by
  have hrefused : ∀ r, Tidy share_token n P (pure (some r) : Process (Option Refusal))
      fun answer h => P h ∧ (answer = none → link.exhausted = false) :=
        fun r => tidy_pure fun _ h => ⟨h, nofun⟩
  unfold refusal
  split
  · exact hrefused _
  · split
    · exact hrefused _
    · split
      · exact hrefused _
      · rename_i hexhausted
        have hexhausted := Bool.eq_false_of_not_eq_true hexhausted
        split
        · exact hrefused _
        · split
          · exact tidy_pure fun _ h => ⟨h, fun _ => hexhausted⟩
          · exact tidy_bind tidy_check_bind_subject_match fun found => tidy_pure fun _ h =>
              ⟨h, fun _ => hexhausted⟩

/-- The visit has not counted its activation. -/
def Waiting (visit : Visit) (h : Progress) : Prop := h.visit = visit ∧ h.counted = false

/-- It has read the link, which had room for one more. -/
def Reading (share_token : String) (n : Int) (visit : Visit) (link : ShareLink)
    (h : Progress) : Prop :=
  Waiting visit h ∧ (link.share_token = share_token →
    h.seen = some link.current_access_count ∧ link.max_access_count = n)

theorem tidy_get_link : Tidy share_token n (Waiting visit) (get_link t) fun answer h =>
    Waiting visit h ∧ ∀ link, answer = some link →
      link.share_token = t ∧ Reading share_token n visit link h := by
  rintro h ⟨hvisit, hcounted⟩
  refine ⟨trivial, fun answer hanswer => ⟨_, rfl, ?_⟩⟩
  by_cases ht : t = share_token
  · rw [if_pos ht]
    refine ⟨⟨hvisit, hcounted⟩, fun link hlink => ?_⟩
    obtain ⟨htoken, hmax⟩ := hanswer link hlink
    exact ⟨htoken, ⟨hvisit, hcounted⟩,
      fun _ => ⟨congrArg (Option.map ShareLink.current_access_count) hlink, hmax ht⟩⟩
  · rw [if_neg ht]
    refine ⟨⟨hvisit, hcounted⟩, fun link hlink => ?_⟩
    obtain ⟨htoken, -⟩ := hanswer link hlink
    exact ⟨htoken, ⟨hvisit, hcounted⟩, fun h => absurd (htoken ▸ h) ht⟩

/-- The session in memory has the token only if the stored one had it, or because of
the visit itself. -/
def Entitled (share_token : String) (session : Option (List String)) (h : Progress) : Prop :=
  ∀ tokens, session = some tokens → share_token ∈ tokens → h.holds = true ∨ h.counted = true ∨
  h.visit.is_detail = true

theorem tidy_active_tokens {P : Progress → Prop} (hvisit : ∀ h, P h → h.visit = visit)
    (hP : ∀ h holds, P h → P { h with holds }) :
    Tidy share_token n P (active_tokens visit.request) fun session h =>
      P h ∧ ∀ tokens, session = some tokens → share_token ∈ tokens → h.holds = true := by
  unfold active_tokens
  cases hsession : visit.request.session with
  | none => exact tidy_pure fun h hh => ⟨hh, nofun⟩
  | some key =>
    have hload : Tidy share_token n P (load_session key) fun tokens h => P h ∧
        (share_token ∈ tokens → h.holds = true) := by
      intro h hh
      refine ⟨?_, fun (tokens : List String) _ => ⟨_, rfl, hP h _ hh, decide_eq_true⟩⟩
      change h.visit.request.session = some key
      rw [hvisit h hh, hsession]
    refine tidy_bind hload fun tokens => tidy_pure fun h ⟨hh, hholds⟩ =>
      ⟨hh, fun _ htokens hmem => ?_⟩
    exact hholds (Option.some.inj htokens ▸ hmem)

theorem tidy_store_session {P : Progress → Prop} {session : Option (List String)}
    (hvisit : ∀ h, P h → h.visit = visit) (hentitled : ∀ h, P h → Entitled share_token session h) :
    Tidy share_token n P (store_session visit.request session) fun _ => P := by
  unfold store_session
  split
  · rename_i key tokens hsession
    refine fun h hh => ⟨⟨?_, hentitled h hh tokens rfl⟩, fun _ _ => ⟨h, rfl, hh⟩⟩
    rw [hvisit h hh, hsession]
  · exact tidy_pure fun _ hh => hh

/-- The visit has ended its business with the link. -/
def Admitted (share_token : String) (visit : Visit) (counted : Bool)
    (session : Option (List String)) (h : Progress) : Prop :=
  h.visit = visit ∧ h.counted = counted ∧ Entitled share_token session h

/-- An admission counts one use. -/
theorem tidy_admission {link : ShareLink} (hn : 0 < n) (hexhausted : link.exhausted = false) :
    Tidy share_token n (Reading share_token n visit link)
      (open_link link visit.request) fun answer =>
      Admitted share_token visit (link.share_token = share_token) answer.2 := by
  have hroom : ∀ h, Reading share_token n visit link h → link.share_token = share_token →
      link.current_access_count + 1 ≤ n := by
    intro h hreading htoken
    have hmax := (hreading.2 htoken).2
    unfold ShareLink.exhausted at hexhausted
    rw [decide_eq_false_iff_not] at hexhausted
    omega
  unfold open_link
  refine tidy_bind (tidy_active_tokens (fun h hh => hh.1.1) fun h holds hh => hh) fun session => ?_
  refine tidy_bind (R := fun _ => Admitted share_token visit (link.share_token = share_token)
    (session.map fun tokens => add_token tokens link.share_token)) ?_ fun _ => ?_
  · rintro h ⟨hreading, hholds⟩
    refine ⟨fun htoken => ⟨hreading.1.2, ?_, hroom h hreading htoken⟩, fun _ _ => ⟨_, rfl, ?_⟩⟩
    · rw [(hreading.2 htoken).1]
      exact congrArg some (Int.add_sub_cancel link.current_access_count 1).symm
    · by_cases htoken : link.share_token = share_token
      · rw [if_pos htoken]
        exact ⟨hreading.1.1, (decide_eq_true htoken).symm, fun _ _ _ => Or.inr (Or.inl rfl)⟩
      · rw [if_neg htoken]
        refine ⟨hreading.1.1, hreading.1.2.trans (decide_eq_false htoken).symm,
          fun tokens htokens hmem => Or.inl ?_⟩
        obtain ⟨tokens, rfl, rfl⟩ := Option.map_eq_some_iff.mp htokens
        exact hholds tokens rfl ((mem_add_token.mp hmem).resolve_right (Ne.symm htoken))
  · refine tidy_bind (tidy_free (c := .create_log _) (fun _ => trivial) fun _ _ => rfl) fun _ => ?_
    exact tidy_bind (tidy_free (c := .get_name _ _) (fun _ => trivial) fun _ _ => rfl) fun _ =>
      tidy_pure fun _ h => h

section

variable {f : Option ShareLink → Process β} {Q : β → Progress → Prop} {E : Progress → Prop}

/-- After reading a link the rest is tidy in both cases. -/
theorem keeps_get_link_bind (hnone : (usage share_token n).Keeps (Waiting visit) (f none) Q E)
    (hsome : ∀ link, link.share_token = t →
      (usage share_token n).Keeps (Reading share_token n visit link) (f (some link)) Q E) :
    (usage share_token n).Keeps (Waiting visit) (get_link t >>= f) Q E := by
  refine keeps_bind (tidy_get_link.conseq (fun _ h => h) (fun _ _ h => h) fun _ => False.elim)
    fun answer => ?_
  cases answer with
  | none => exact fun h hh => hnone h hh.1
  | some link => exact fun h hh => hsome link (hh.2 link rfl).1 h (hh.2 link rfl).2

theorem keeps_refusal_bind {link : ShareLink} {f : Option Refusal → Process β}
    (hsome : ∀ r, (usage share_token n).Keeps (Reading share_token n visit link) (f (some r)) Q E)
    (hnone : link.exhausted = false →
      (usage share_token n).Keeps (Reading share_token n visit link) (f none) Q E) :
    (usage share_token n).Keeps (Reading share_token n visit link)
      (refusal link request >>= f) Q E := by
  refine keeps_bind (tidy_refusal.conseq (fun _ h => h) (fun _ _ h => h) fun _ => False.elim)
    fun answer => ?_
  cases answer with
  | none => exact fun h hh => hnone (hh.2 rfl) h hh.1
  | some r => exact fun h hh => hsome r h hh.1

end

/-- After a refusal the visit still waits. -/
def Answered (share_token t : String) (visit : Visit) :
    Except Refusal (Activation × Option (List String)) → Progress → Prop
  | .error _ => Waiting visit
  | .ok (_, session) => Admitted share_token visit (t = share_token) session

theorem tidy_activate_link (hn : 0 < n) :
    Tidy share_token n (Waiting visit) (activate_link t visit.request)
      (Answered share_token t visit) := by
  refine keeps_get_link_bind (tidy_pure fun _ h => h) fun link htoken => ?_
  refine keeps_refusal_bind (fun r => ?_) fun hexhausted => ?_
  · exact tidy_bind (tidy_free (c := .create_log _) (fun _ => trivial) fun _ _ => rfl) fun _ =>
      tidy_pure fun _ h => h.1
  · exact tidy_bind (tidy_admission hn hexhausted) fun answer => tidy_pure fun _ h => htoken ▸ h

/-- An activation is counted exactly if it is of this link. -/
theorem keeps_activate (visit : Visit) (hn : 0 < n) :
    (usage share_token n).Keeps (Waiting visit) (activate t visit.request)
    (fun _ h => h.counted = decide (t = share_token)) fun h => h.counted = false := by
  refine keeps_bind ((tidy_activate_link hn).conseq (fun _ h => h) (fun _ _ h => h)
    fun _ => False.elim) fun answer => ?_
  cases answer with
  | error r => exact keeps_raise fun _ h => h.2
  | ok admission =>
    obtain ⟨data, session⟩ := admission
    refine keeps_bind ((tidy_store_session
      (P := Admitted share_token visit (t = share_token) session) (fun _ h => h.1) ?_).conseq
      (fun _ h => h) (fun _ _ h => h) fun _ => False.elim) fun _ => keeps_pure fun _ h => h.2.1
    rintro h ⟨-, hcounted, hentitled⟩ tokens htokens hmem
    obtain ⟨tokens, rfl, rfl⟩ := Option.map_eq_some_iff.mp htokens
    obtain hmem | rfl := mem_add_token.mp hmem
    · exact hentitled tokens rfl hmem
    · exact Or.inr (Or.inl (hcounted.trans (decide_eq_true rfl)))

/-- A look at the details is not counted. -/
theorem keeps_resource_detail (visit : Visit) (hdetail : visit.is_detail = true) :
    (usage share_token n).Keeps (Waiting visit) (resource_detail t visit.request)
      (fun _ h => h.counted = false)
      fun h => h.counted = false := by
  have herror : ∀ {P : Progress → Prop} {msg : String}, (∀ h, P h → h.counted = false) →
      (usage share_token n).Keeps P (error_response msg : Process Detail)
      (fun _ h => h.counted = false) fun h => h.counted = false :=
    fun hP => keeps_raise hP
  unfold resource_detail
  split
  · exact herror fun _ h => h.2
  · refine keeps_get_link_bind (herror fun _ h => h.2) fun link htoken => ?_
    refine keeps_refusal_bind (fun r => herror fun _ h => h.1.2) fun hexhausted => ?_
    refine keeps_bind ((tidy_active_tokens (fun h hh => hh.1.1) fun h holds hh => hh).conseq
      (fun _ h => h)
      (fun _ _ h => h.1.1) fun _ => False.elim) fun session => ?_
    refine keeps_bind ((tidy_free (c := .get_name _ _) (fun _ => trivial) fun _ _ => rfl).conseq
      (fun _ h => h)
      (fun _ _ h => h) fun _ => False.elim) fun name => ?_
    refine keeps_bind ((tidy_store_session (P := Waiting visit) (fun _ h => h.1) ?_).conseq
      (fun _ h => h)
      (fun _ _ h => h) fun _ => False.elim) fun _ => ?_
    · rintro h ⟨rfl, -⟩ tokens - -
      exact Or.inr (Or.inr hdetail)
    · split
      · exact herror fun _ h => h.2
      · exact keeps_pure fun _ h => h.2

/-- Only a successful activation of the link has counted itself. -/
theorem keeps_process (hn : 0 < n) : (usage share_token n).Keeps (Waiting visit) visit.process
    (fun _ h => h.counted = visit.activates share_token) fun h => h.counted = false := by
  cases visit with
  | activate t request =>
    exact keeps_bind (keeps_activate (.activate t request) hn) fun _ => keeps_pure fun _ h => h
  | resource_detail t request =>
    exact keeps_bind (keeps_resource_detail (.resource_detail t request) rfl) fun _ =>
      keeps_pure fun _ h => h

end

/-- The visit with a number. -/
def visit_of (visits : List Visit) (i : Nat) : Visit := (visits[i]?).getD (.activate "" {})

/-- The session of the visit with a number. -/
def session_of (visits : List Visit) (i : Nat) : Nat := (visit_of visits i).request.session.getD 0

/-- What is known of a visit when the visits `A` have counted themselves and the token was written
into the sessions `S`. -/
structure Fits (visits : List Visit) (A S : Finset Nat) (i : Nat) (fresh : Bool)
    (h : Progress) : Prop where
  visit : h.visit = visit_of visits i
  counted : h.counted = true ↔ i ∈ A
  seen : fresh = true → h.counted = false → h.seen = some (A.card : Int)
  holds : ∀ key, h.holds = true → h.visit.request.session = some key → key ∈ S

/-- The count is the number of the visits `A`, and the sessions `S` are theirs. -/
structure Kept (share_token : String) (n : Int) (visits : List Visit) (w : World) (A S : Finset Nat)
    (fresh : Nat → Bool) (hs : Nat → Progress) : Prop where
  link : ∃ link, w.tables.link? share_token = some link ∧ link.max_access_count = n ∧
    link.current_access_count = A.card
  limit : (A.card : Int) ≤ n
  sessions : S ⊆ A.image (session_of visits)
  stored : ∀ key, share_token ∈ w.sessions key → key ∈ S
  fits : ∀ i, Fits visits A S i (fresh i) (hs i)

namespace Kept

variable {share_token t : String} {n m : Int} {visits : List Visit} {w w' : World}
  {A A' S S' : Finset Nat} {fresh fresh' : Nat → Bool}
  {hs : Nat → Progress} {i key : Nat} {h : Progress} {tokens : List String}

/-- One visit comes along. -/
theorem fits_update (hother : ∀ j, j ≠ i → Fits visits A S j (fresh j) (hs j))
    (hself : Fits visits A S i (fresh i) h) (j : Nat) :
    Fits visits A S j (fresh j) (Function.update hs i h j) := by
  by_cases hij : j = i
  · subst hij
    rw [Function.update_self]
    exact hself
  · rw [Function.update_of_ne hij]
    exact hother j hij

/-- Nobody has learnt anything, and no session has got the token. -/
theorem mono (hkept : Kept share_token n visits w A S fresh hs)
    (hfresh : ∀ j, fresh' j = true → fresh j = true)
    (hlink : w'.tables.link? share_token = w.tables.link? share_token)
    (hsessions : w'.sessions = w.sessions) :
    Kept share_token n visits w' A S fresh' (Function.update hs i (hs i)) := by
  rw [Function.update_eq_self]
  exact { hkept with
    link := hlink ▸ hkept.link
    stored := hsessions ▸ hkept.stored
    fits := fun j => { hkept.fits j with seen := fun hj => (hkept.fits j).seen (hfresh j hj) } }

/-- A visit reads the link. -/
theorem read (hkept : Kept share_token n visits w A S fresh hs)
    (hfresh : ∀ j, j ≠ i → fresh' j = true → fresh j = true) :
    Kept share_token n visits w A S fresh' (Function.update hs i
      { hs i with seen := (w.tables.link? share_token).map ShareLink.current_access_count }) := by
  obtain ⟨link, hlink, hmax, hcount⟩ := hkept.link
  refine { hkept with fits := fits_update (fun j hj => ?_) ?_ }
  · exact { hkept.fits j with seen := fun hfresh' => (hkept.fits j).seen (hfresh j hj hfresh') }
  · exact { hkept.fits i with seen := fun _ _ => by rw [hlink, ← hcount]; rfl }

/-- A visit loads its session. -/
theorem load (hkept : Kept share_token n visits w A S fresh hs)
    (hfresh : ∀ j, fresh' j = true → fresh j = true)
    (hkey : (hs i).visit.request.session = some key) :
    Kept share_token n visits w A S fresh'
      (Function.update hs i { hs i with holds := contains share_token (w.sessions key) }) := by
  refine { hkept with fits := fits_update (fun j hj => ?_) ?_ }
  · exact { hkept.fits j with seen := fun hj => (hkept.fits j).seen (hfresh j hj) }
  · refine { hkept.fits i with seen := fun hi => (hkept.fits i).seen (hfresh i hi), holds := fun key' hholds hkey' => ?_ }
    obtain rfl := Option.some.inj (hkey.symm.trans hkey')
    exact hkept.stored key (of_decide_eq_true hholds)

/-- A visit stores its session, which has the token already, or the visit has counted itself. -/
theorem save (hkept : Kept share_token n visits w A S fresh hs)
    (hfresh : ∀ j, fresh' j = true → fresh j = true)
    (hkey : (hs i).visit.request.session = some key)
    (hallowed : share_token ∈ tokens → key ∈ S ∨ (hs i).counted = true) :
    Kept share_token n visits { w with sessions := Function.update w.sessions key tokens } A
      (if share_token ∈ tokens then insert key S else S) fresh' (Function.update hs i (hs i)) := by
  have hsub : ∀ k, k ∈ S → k ∈ if share_token ∈ tokens then insert key S else S := by
    intro k hk
    split
    · exact Finset.mem_insert_of_mem hk
    · exact hk
  rw [Function.update_eq_self]
  refine { hkept with sessions := ?_, stored := fun k hk => ?_, fits := fun j => ?_ }
  · split
    · rename_i hmem
      refine Finset.insert_subset ?_ hkept.sessions
      obtain hin | hcounted := hallowed hmem
      · exact hkept.sessions hin
      · refine Finset.mem_image.mpr ⟨i, ((hkept.fits i).counted).mp hcounted, ?_⟩
        unfold session_of
        rw [← (hkept.fits i).visit, hkey]
        rfl
    · exact hkept.sessions
  · by_cases hkk : k = key
    · subst hkk
      have hmem : share_token ∈ Function.update w.sessions k tokens k := hk
      rw [Function.update_self] at hmem
      rw [if_pos hmem]
      exact Finset.mem_insert_self k S
    · have hmem : share_token ∈ Function.update w.sessions key tokens k := hk
      rw [Function.update_of_ne hkk] at hmem
      exact hsub k (hkept.stored k hmem)
  · exact { hkept.fits j with
      seen := fun hj => (hkept.fits j).seen (hfresh j hj)
      holds := fun k hholds hk => hsub k ((hkept.fits j).holds k hholds hk) }

/-- A visit counts itself, and whoever else has read the link is out of date. -/
theorem count (hkept : Kept share_token n visits w A S fresh hs)
    (hfresh : ∀ j, fresh' j = true → j = i) (hcounted : (hs i).counted = false)
    (hnext : m = A.card + 1) (hm : m ≤ n) :
    Kept share_token n visits { w with tables := w.tables.save_count share_token m }
      (insert i A) S fresh'
      (Function.update hs i { hs i with counted := true }) := by
  have hnew : i ∉ A := by
    intro hi
    rw [((hkept.fits i).counted).mpr hi] at hcounted
    cases hcounted
  have hcard : ((insert i A).card : Int) = m := by
    rw [Finset.card_insert_of_notMem hnew, hnext]
    rfl
  obtain ⟨link, hlink, hmax, -⟩ := hkept.link
  refine ⟨⟨{ link with current_access_count := m }, ?_, hmax, hcard.symm⟩, hcard ▸ hm, ?_,
    hkept.stored, fits_update (fun j hj => ?_) ?_⟩
  · rw [Tables.link?_save_count, hlink, Option.map_some, if_pos (Tables.share_token_of_link? hlink)]
  · exact hkept.sessions.trans (Finset.image_subset_image (Finset.subset_insert i A))
  · exact { hkept.fits j with
      counted := by rw [Finset.mem_insert, or_iff_right hj, (hkept.fits j).counted]
      seen := fun hfresh' => absurd (hfresh j hfresh') hj }
  · exact { hkept.fits i with
      counted := ⟨fun _ => Finset.mem_insert_self i A, fun _ => rfl⟩
      seen := nofun }

end Kept

section

variable {share_token : String} {n : Int} {visits : List Visit} {i : Nat}

/-- What holds of the journal and the progress of the visits. -/
def Journal.Kept (share_token : String) (n : Int) (visits : List Visit) (d : Journal) :
    (Nat → Progress) → Prop :=
  share.Kept share_token n visits d.world (activated share_token d.log) (admitted share_token d.log)
    fun i => (counter share_token).fresh i () d.log

/-- One access keeps the account of the uses. -/
theorem kept_exec {d d' : Journal} {hs : Nat → Progress} {c : Access} {answer : c.Answer}
    (hkept : d.Kept share_token n visits hs)
    (horderly : c.orderly share_token ((visits[i]?).any Visit.is_detail) i d.log = true)
    (hallowed : (usage share_token n).allowed (hs i) c) (hexec : d.exec i c = some (answer, d')) :
    (usage share_token n).answers (hs i) c answer ∧
      ∀ h', (usage share_token n).next (hs i) c answer h' →
        d'.Kept share_token n visits (Function.update hs i h') := by
  obtain ⟨rfl, rfl⟩ := Prod.mk.inj (Option.some.inj hexec)
  have hstale : ∀ {c : Access}, (counter share_token).reads c () = false → ∀ j,
      (counter share_token).fresh j () ((i, c) :: d.log) = true →
        (counter share_token).fresh j () d.log = true :=
    fun hreads j => (counter share_token).fresh_of_cons hreads
  cases c with
  | get_link t =>
    obtain ⟨link, hlink, hmax, -⟩ := hkept.link
    refine ⟨fun l hl => ⟨Tables.share_token_of_link? hl, ?_⟩, ?_⟩
    · rintro rfl
      obtain rfl := Option.some.inj (hlink.symm.trans hl)
      exact hmax
    · rintro h' rfl
      by_cases ht : t = share_token
      · subst ht
        rw [if_pos rfl]
        refine share.Kept.read hkept fun j hj hfresh => ?_
        rw [(counter t).fresh_cons_other (Ne.symm hj)] at hfresh
        exact hfresh
      · rw [if_neg ht]
        exact share.Kept.mono hkept (hstale (decide_eq_false ht)) rfl rfl
  | load_session key =>
    refine ⟨trivial, ?_⟩
    rintro h' rfl
    exact share.Kept.load hkept (hstale rfl) hallowed
  | save_session key tokens =>
    refine ⟨trivial, ?_⟩
    rintro h' rfl
    refine share.Kept.save hkept (hstale rfl) hallowed.1 fun hmem => ?_
    obtain hholds | hcounted | hdetail := hallowed.2 hmem
    · exact Or.inl ((hkept.fits i).holds key hholds hallowed.1)
    · exact Or.inr hcounted
    · have hvisit : (visits[i]?).any Visit.is_detail = true := by
        rw [(hkept.fits i).visit] at hdetail
        unfold visit_of at hdetail
        cases hi : visits[i]? with
        | none =>
          rw [hi] at hdetail
          cases hdetail
        | some visit =>
          rw [hi] at hdetail
          exact hdetail
      obtain hactivate | hnone | hin := of_decide_eq_true horderly
      · exact absurd (hactivate.symm.trans hvisit) nofun
      · exact absurd hmem hnone
      · exact Or.inl hin
  | save_count t m =>
    refine ⟨trivial, ?_⟩
    rintro h' rfl
    by_cases ht : t = share_token
    · subst ht
      obtain ⟨hcounted, hseen, hm⟩ := hallowed rfl
      have hfresh := (of_decide_eq_true horderly).resolve_left fun h => h rfl
      have hcard := Option.some.inj (((hkept.fits i).seen hfresh hcounted).symm.trans hseen)
      have hlog : activated t ((i, .save_count t m) :: d.log) = insert i (activated t d.log) :=
        if_pos (decide_eq_true rfl)
      unfold Journal.Kept
      rw [if_pos rfl, hlog]
      refine share.Kept.count hkept (fun j hj => ?_) hcounted (by omega) hm
      have hsaves : (counter t).saves (.save_count t m) () = true := decide_eq_true rfl
      exact ((counter t).eq_of_fresh_saved hsaves hj).symm
    · have hlog : activated share_token ((i, .save_count t m) :: d.log) =
          activated share_token d.log :=
        if_neg fun h => ht (of_decide_eq_true h)
      unfold Journal.Kept
      rw [if_neg ht, hlog]
      refine share.Kept.mono hkept (hstale rfl) ?_ rfl
      change (d.world.tables.save_count t m).link? share_token = _
      rw [Tables.link?_save_count]
      cases hlink : d.world.tables.link? share_token with
      | none => rfl
      | some link =>
        rw [Option.map_some, if_neg fun h => ht (h.symm.trans (Tables.share_token_of_link? hlink))]
  | role_all _ | recursion_all_dept _ | create_log _ | get_name _ _ =>
    refine ⟨trivial, ?_⟩
    rintro h' rfl
    exact share.Kept.mono hkept (hstale rfl) rfl rfl

/-- No more sessions than its limit have got the token of the link, its count is the number of
the visits that have counted themselves, and of the visits that have ended these are the
successful activations. -/
structure Tallied (share_token : String) (n : Int) (visits : List Visit) (s : Server) : Prop where
  admitted : ((admitted share_token s.shared.log).card : Int) ≤ n
  count : (s.shared.world.tables.link? share_token).map ShareLink.current_access_count =
    some ((activated share_token s.shared.log).card : Int)
  ended : ∀ i visit result, visits[i]? = some visit → s.threads[i]? = some (.done result) →
    (i ∈ activated share_token s.shared.log ↔ visit.activates share_token = true ∧ result = .ok ())

/-- As long as no activation stores an outdated count and `resource_detail` brings the token into no
new session, the link keeps to its limit. -/
theorem link_keeps_limit {w : World} {link : ShareLink} {s : Server}
    (hlink : w.tables.link? share_token = some link) (hlimited : 0 < link.max_access_count)
    (hnew : link.current_access_count = 0) (hclosed : ∀ key, share_token ∉ w.sessions key)
    (hrun : Runs (Threads.step Journal.exec) (Orderly share_token visits) (serving w visits) s) :
    Tallied share_token link.max_access_count visits s := by
  have hstart : Threads.ObeyingTo (usage share_token link.max_access_count)
      (fun i => ends (fun _ h => h.counted = (visit_of visits i).activates share_token)
      fun h => h.counted = false)
      (Journal.Kept share_token link.max_access_count visits) (serving w visits) := by
    refine ⟨fun i => { visit := visit_of visits i }, ?_, fun i process hprocess => ?_⟩
    · exact {
        link := ⟨link, hlink, rfl, hnew⟩
        limit := Int.le_of_lt hlimited
        sessions := Finset.empty_subset _
        stored := fun key hkey => absurd hkey (hclosed key)
        fits := fun i => ⟨rfl, ⟨nofun, fun h => absurd h (Finset.notMem_empty i)⟩, nofun, nofun⟩ }
    · have hprocess : (visits.map Visit.process)[i]? = some process := hprocess
      rw [List.getElem?_map] at hprocess
      obtain ⟨visit, hvisit, rfl⟩ := Option.map_eq_some_iff.mp hprocess
      have hof : visit_of visits i = visit := congrArg (Option.getD · _) hvisit
      subst hof
      exact keeps_process hlimited _ ⟨rfl, rfl⟩
  obtain ⟨hs, hkept, hobeys⟩ :=
    Threads.obeyingTo_of_runs (fun s i hs c answer d horderly hkept hcurrent hallowed hexec =>
    kept_exec hkept (horderly c hcurrent) hallowed hexec) hrun hstart
  refine ⟨?_, ?_, fun i visit result hvisit hdone => ?_⟩
  · have hle := (Finset.card_le_card hkept.sessions).trans Finset.card_image_le
    have hlimit := hkept.limit
    omega
  · obtain ⟨link', hlink', -, hcount⟩ := hkept.link
    rw [hlink', Option.map_some, hcount]
  · have hof : visit_of visits i = visit := congrArg (Option.getD · _) hvisit
    have hend := hobeys i _ hdone
    rw [← (hkept.fits i).counted, ← hof]
    cases result with
    | ok answer =>
      have hcounted : (hs i).counted = (visit_of visits i).activates share_token := hend
      rw [hcounted]
      exact ⟨fun h => ⟨h, rfl⟩, And.left⟩
    | error msg =>
      have hcounted : (hs i).counted = false := hend
      rw [hcounted]
      exact ⟨nofun, fun h => nomatch h.2⟩

end

/-! Two visitors, each with a session. -/

def by_carol : Request := { user := some { id := 3 }, session := some 1 }

def two_activations : List Visit := [.activate "offer" by_bob, .activate "offer" by_carol]

def two_details : List Visit := [.resource_detail "offer" by_bob, .resource_detail "offer" by_carol]

theorem one_after_the_other :
    ((exec (Threads.step Journal.exec) (Orderly "offer" two_activations)
      (serving (offering 2) two_activations)
    [0, 0, 0, 0, 0, 0, 1, 1, 1, 1, 1, 1]).any fun s => (admitted "offer" s.shared.log).card = 2) =
      true := by decide +kernel

theorem two_of_two_admitted :
    ∃ s, Runs (Threads.step Journal.exec) (Orderly "offer" two_activations)
    (serving (offering 2) two_activations) s ∧ (admitted "offer" s.shared.log).card = 2 ∧
      Tallied "offer" 2 two_activations s := by
  obtain ⟨s, hrun, hs⟩ := exists_run_of_exec _ one_after_the_other
  have hlink : (offering 2).tables.link? "offer" = some (offer 2) := rfl
  exact ⟨s, hrun, of_decide_eq_true hs,
    link_keeps_limit hlink (by decide) rfl (fun _ => List.not_mem_nil) hrun⟩

theorem one_beside_the_other :
    ((exec (Threads.step Journal.exec) (fun _ _ => True) (serving (offering 1) two_activations)
    [0, 1, 0, 0, 0, 0, 0, 1, 1, 1, 1, 1]).any fun s => (admitted "offer" s.shared.log).card = 2) =
      true := by decide +kernel

theorem details_admitted :
    ((exec (Threads.step Journal.exec) (fun _ _ => True) (serving (offering 1) two_details)
    [0, 0, 0, 0, 1, 1, 1, 1]).any fun s => (admitted "offer" s.shared.log).card = 2) = true := by
  decide +kernel

/-- Two visitors that read the link before either counts are both admitted by a link for one, and so
are two that ask for the details, which are not counted at all. -/
theorem two_of_one_admitted :
    (¬∀ s, Runs (Threads.step Journal.exec) (fun _ _ => True)
      (serving (offering 1) two_activations) s →
      Tallied "offer" 1 two_activations s) ∧
    ¬∀ s, Runs (Threads.step Journal.exec) (fun _ _ => True) (serving (offering 1) two_details) s →
      Tallied "offer" 1 two_details s := by
  constructor
  · intro h
    obtain ⟨s, hrun, hs⟩ := exists_run_of_exec _ one_beside_the_other
    have htwo : (admitted "offer" s.shared.log).card = 2 := of_decide_eq_true hs
    have hone := (h s hrun).admitted
    omega
  · intro h
    obtain ⟨s, hrun, hs⟩ := exists_run_of_exec _ details_admitted
    have htwo : (admitted "offer" s.shared.log).card = 2 := of_decide_eq_true hs
    have hone := (h s hrun).admitted
    omega

end taurus.share
