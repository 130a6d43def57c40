import Taurus.Scheduler.Properties.Understood

namespace taurus.scheduler

open taurus.lib taurus.python taurus.engine

variable {env : Environment} {tables : Tables} {ref : String} {h : Host}

/-- The database finds what the loop compares equal. -/
structure LawfulQueries (env : Environment) : Prop where
  uuid : ∀ host_uuid ref, env.lower host_uuid = env.lower ref → env.uuid_iexact host_uuid ref = true
  text : ∀ value, env.same_text value value = true

def approved (tables : Tables) : List Host := tables.hosts.filter (·.status = .approved)

/-- How a host matches a reference: by its uuid, its ip, its name, its id or not at all. -/
def rank (env : Environment) (ref : String) (h : Host) : Nat :=
  if env.uuid_iexact h.host_uuid ref then 0
  else if h.host_ip.any (env.same_text · ref) then 1
  else if h.host_name.any (env.same_text · ref) then 2
  else if short_int? ref.toList = some h.pk then 3
  else 4

/-- The approved host that matches the reference best, the first of them in the order
of the table. -/
def best_match (env : Environment) (tables : Tables) (ref : String) : Option Host :=
  (List.range 4).findSome? fun r => (approved tables).find? (rank env ref · = r)

/-- The best matches of the references in their order, each host once. -/
def documented_hosts (env : Environment) (tables : Tables) (host_refs : List String) : List Host :=
  (host_refs.filterMap (best_match env tables)).foldl
    (fun ordered h => if ordered.any (·.pk = h.pk) then ordered else ordered ++ [h]) []

/-- The best match of the reference is one that the loop recognizes, and no approved
host before it is. -/
def Unambiguous (env : Environment) (tables : Tables) (ref : String) : Prop :=
  ∀ before h after, approved tables = before ++ h :: after → rank env ref h ≤ 3 →
    (∀ b ∈ before, rank env ref h < rank env ref b) →
    (∀ a ∈ after, rank env ref h ≤ rank env ref a) →
      refers_to env ref h = true ∧ ∀ b ∈ before, refers_to env ref b = false

/-- A host has a rank for a reference exactly if it is found by it. -/
theorem rank_le_iff : rank env ref h ≤ 3 ↔ found_by env h ref = true := by
  unfold rank found_by
  split_ifs <;> simp_all

/-- A host is found by what refers to it. -/
theorem found_by_of_refers_to (hlaws : LawfulQueries env) (hrefers : refers_to env ref h = true) :
    found_by env h ref = true := by
  unfold refers_to at hrefers
  unfold found_by
  simp only [Bool.or_eq_true, decide_eq_true_eq] at hrefers ⊢
  obtain ((huuid | hip) | hname) | hpk := hrefers
  · exact .inl (.inl (.inl (hlaws.uuid _ _ huuid)))
  · exact .inl (.inl (.inr (by rw [hip]; exact hlaws.text ref)))
  · exact .inl (.inr (by rw [hname]; exact hlaws.text ref))
  · exact .inr (by rw [← hpk, short_int?_toString])

/-- What the loop assigns to a reference: the first approved host that it recognizes. -/
def assigned_host (env : Environment) (tables : Tables) (ref : String) : Option Host :=
  (approved tables).find? (refers_to env ref)

/-- The ordered hosts are the assigned ones without repeats. -/
theorem ordered_hosts_eq (hlaws : LawfulQueries env) (host_refs : List String) :
    ordered_hosts env tables host_refs = (host_refs.filterMap (assigned_host env tables)).foldl
      (fun ordered h => if ordered.any (·.pk = h.pk) then ordered else ordered ++ [h]) [] := by
  have hassigned : ∀ ref ∈ host_refs,
      (tables.hosts.filter fun h => h.status = .approved ∧ host_refs.any (found_by env h)).find?
      (refers_to env ref) =
        assigned_host env tables ref := by
    intro ref hmem
    rw [assigned_host, approved, List.find?_filter, List.find?_filter]
    congr 1
    funext h
    cases hrefers : refers_to env ref h with
    | false => simp
    | true =>
      have hfound : host_refs.any (found_by env h) = true :=
        List.any_eq_true.mpr ⟨ref, hmem, found_by_of_refers_to hlaws hrefers⟩
      simp [hfound]
  unfold ordered_hosts
  simp only
  rw [List.filterMap_congr hassigned]

/-! The best match. -/

theorem findSome?_range_eq_some_iff {α : Type} {f : Nat → Option α} {n : Nat} {a : α} :
    (List.range n).findSome? f = some a ↔ ∃ r < n, f r = some a ∧ ∀ k < r, f k = none := by
  induction n with
  | zero => simp
  | succ n ih =>
    rw [List.range_succ, List.findSome?_append, Option.or_eq_some_iff, ih,
      List.findSome?_eq_none_iff, List.findSome?_singleton]
    constructor
    · rintro (⟨r, hr, hsome, hnone⟩ | ⟨hnone, hsome⟩)
      · exact ⟨r, hr.trans n.lt_succ_self, hsome, hnone⟩
      · exact ⟨n, n.lt_succ_self, hsome, fun k hk => hnone k (List.mem_range.mpr hk)⟩
    · rintro ⟨r, hr, hsome, hnone⟩
      obtain hlt | rfl := Nat.lt_succ_iff_lt_or_eq.mp hr
      · exact .inl ⟨r, hlt, hsome, hnone⟩
      · exact .inr ⟨fun k hk => hnone k (List.mem_range.mp hk), hsome⟩

/-- The best match is the first host of the least rank. -/
theorem best_match_eq_some_iff : best_match env tables ref = some h ↔
    ∃ before after, approved tables = before ++ h :: after ∧ rank env ref h ≤ 3 ∧
      (∀ b ∈ before, rank env ref h < rank env ref b) ∧
        ∀ a ∈ after, rank env ref h ≤ rank env ref a := by
  rw [best_match, findSome?_range_eq_some_iff]
  constructor
  · rintro ⟨r, hr, hsome, hnone⟩
    have hle : ∀ x ∈ approved tables, r ≤ rank env ref x := by
      intro x hx
      by_contra hlt
      have hthere := List.find?_eq_none.mp (hnone _ (Nat.lt_of_not_le hlt)) x hx
      simp at hthere
    obtain ⟨hrank, before, after, hsplit, hbefore⟩ := List.find?_eq_some_iff_append.mp hsome
    obtain rfl := of_decide_eq_true hrank
    refine ⟨before, after, hsplit, by omega, fun b hb => ?_, fun a ha => ?_⟩
    · have hge := hle b (hsplit ▸ List.mem_append_left _ hb)
      have hne : rank env ref b ≠ rank env ref h := by simpa using hbefore b hb
      omega
    · exact hle a (hsplit ▸ List.mem_append_right _ (List.mem_cons_of_mem _ ha))
  · rintro ⟨before, after, hsplit, hle, hbefore, hafter⟩
    refine ⟨rank env ref h, by omega, ?_, fun k hk => ?_⟩
    · refine List.find?_eq_some_iff_append.mpr
        ⟨decide_eq_true rfl, before, after, hsplit, fun b hb => ?_⟩
      have hlt := hbefore b hb
      simp only [Bool.not_eq_true', decide_eq_false_iff_not]
      omega
    · refine List.find?_eq_none.mpr fun x hx => ?_
      have hge : rank env ref h ≤ rank env ref x := by
        rw [hsplit, List.mem_append, List.mem_cons] at hx
        obtain hb | rfl | ha := hx
        · exact (hbefore x hb).le
        · exact Nat.le_refl _
        · exact hafter x ha
      simp only [decide_eq_true_eq]
      omega

/-- The loop assigns the best match. -/
theorem assigned_best_iff (hlaws : LawfulQueries env) :
    assigned_host env tables ref = best_match env tables ref ↔ Unambiguous env tables ref := by
  constructor
  · intro hbest before h after hsplit hle hbefore hafter
    rw [best_match_eq_some_iff.mpr ⟨before, after, hsplit, hle, hbefore, hafter⟩] at hbest
    refine ⟨List.find?_some hbest, fun b hb => ?_⟩
    rw [assigned_host, hsplit, List.find?_append, Option.or_eq_some_iff] at hbest
    obtain hearlier | ⟨hnone, -⟩ := hbest
    · exact absurd (hbefore h (List.mem_of_find?_eq_some hearlier)) (Nat.lt_irrefl _)
    · simpa using List.find?_eq_none.mp hnone b hb
  · intro h
    cases hbest : best_match env tables ref with
    | some x =>
      obtain ⟨before, after, hsplit, hle, hbefore, hafter⟩ := best_match_eq_some_iff.mp hbest
      obtain ⟨hrefers, hnone⟩ := h before x after hsplit hle hbefore hafter
      exact List.find?_eq_some_iff_append.mpr
        ⟨hrefers, before, after, hsplit, fun b hb => by simp [hnone b hb]⟩
    | none =>
      refine List.find?_eq_none.mpr fun x hx hrefers => ?_
      -- a host that the loop recognizes has a rank, so there is a best one
      have hle : rank env ref x ≤ 3 := rank_le_iff.mpr (found_by_of_refers_to hlaws hrefers)
      have hthere : ∃ y, best_match env tables ref = some y := by
        rw [← Option.isSome_iff_exists, best_match, List.isSome_findSome?, List.any_eq_true]
        exact ⟨rank env ref x, List.mem_range.mpr (by omega),
          List.find?_isSome.mpr ⟨x, hx, decide_eq_true rfl⟩⟩
      obtain ⟨y, hy⟩ := hthere
      cases hbest.symm.trans hy

/-- A list of references resolves as documented, whichever of them it holds, if the loop
assigns each its best match. -/
theorem targets_documented_iff (env : Environment) (tables : Tables) (host_refs : List String)
    (hlaws : LawfulQueries env) :
    (∀ refs ⊆ host_refs, ordered_hosts env tables refs = documented_hosts env tables refs) ↔
      ∀ ref ∈ host_refs, Unambiguous env tables ref := by
  constructor
  · intro h ref href
    have hsingle := h [ref] (List.cons_subset.mpr ⟨href, List.nil_subset _⟩)
    rw [ordered_hosts_eq hlaws, documented_hosts] at hsingle
    refine (assigned_best_iff hlaws).mp ?_
    revert hsingle
    cases hassigned : assigned_host env tables ref with
    | none =>
      cases hbest : best_match env tables ref with
      | none => exact fun _ => rfl
      | some y => simp [hassigned, hbest]
    | some x =>
      cases hbest : best_match env tables ref with
      | none => simp [hassigned, hbest]
      | some y => simp [hassigned, hbest]
  · intro h refs hrefs
    have hsame : ∀ ref ∈ refs, assigned_host env tables ref = best_match env tables ref :=
      fun ref href => (assigned_best_iff hlaws).mpr (h ref (hrefs href))
    rw [ordered_hosts_eq hlaws, documented_hosts, List.filterMap_congr hsame]

/-- The worker on a database with a type for uuids. -/
def nativeWorker : Environment :=
  { worker with uuid_iexact := fun host_uuid ref => worker.lower host_uuid = worker.lower ref }

/-- A database whose queries are lawful. -/
theorem nativeWorker_lawful : LawfulQueries nativeWorker where
  uuid := fun _ _ => decide_eq_true
  text := fun _ => decide_eq_true rfl

theorem office_resolved : ordered_hosts nativeWorker office ["10.0.0.7", "10.0.0.7"] =
    documented_hosts nativeWorker office ["10.0.0.7", "10.0.0.7"] := by
  refine (targets_documented_iff nativeWorker office ["10.0.0.7"] nativeWorker_lawful).mpr
    (fun ref href => ?_) _ (by simp)
  obtain rfl := List.mem_singleton.mp href
  intro before h after hsplit hle hbefore hafter
  have hoffice : approved office = office.hosts := rfl
  have hlength := congrArg List.length (hoffice.symm.trans hsplit)
  simp only [office, List.length_append, List.length_cons, List.length_nil] at hlength
  obtain rfl : before = [] := List.eq_nil_of_length_eq_zero (by omega)
  obtain ⟨rfl, -⟩ := List.cons.inj (hoffice.symm.trans hsplit)
  exact ⟨by decide +kernel, List.forall_mem_nil _⟩

/-- A host whose name is the ip of another one. -/
def lab : Tables where
  tasks := [{ nightly with hosts := .arr [.str "10.0.0.2"] }]
  hosts := [{ pk := 1, host_uuid := "a1", host_name := some "10.0.0.2", status := .approved },
    { pk := 2, host_uuid := "b2", host_ip := some "10.0.0.2", status := .approved }]

/-- The message that runs the task. -/
def nightlyMessage : Dict String Json :=
  [("task", .obj [("id", .int 3), ("name", .str "nightly")]), ("execution", .obj [("id", .int 1)])]

/-- The script runs on the host with the name, and an id with a leading zero is dropped. -/
theorem name_before_ip :
    (_process_script_task_payload_sync nativeWorker nightlyMessage lab).ops.map (·.host) = [1] ∧
      (documented_hosts nativeWorker lab ["10.0.0.2"]).map (·.pk) = [2] ∧
      (ordered_hosts nativeWorker lab ["02"]).map (·.pk) = [] ∧
      (documented_hosts nativeWorker lab ["02"]).map (·.pk) = [2] ∧
      ¬ ∀ (env : Environment) (tables : Tables) (host_refs : List String), LawfulQueries env →
        ordered_hosts env tables host_refs = documented_hosts env tables host_refs := by
  have hdocumented : (documented_hosts nativeWorker lab ["10.0.0.2"]).map (·.pk) = [2] := by
    decide +kernel
  refine ⟨by decide +kernel, hdocumented, by decide +kernel, by decide +kernel, fun h => ?_⟩
  have hordered : (ordered_hosts nativeWorker lab ["10.0.0.2"]).map (·.pk) = [1] := by
    decide +kernel
  rw [h nativeWorker lab ["10.0.0.2"] nativeWorker_lawful, hdocumented] at hordered
  exact absurd hordered (by decide)

end taurus.scheduler
