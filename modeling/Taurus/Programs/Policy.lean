import Mathlib.Data.String.Basic
import Taurus.Engine.Publish

namespace taurus.programs

open taurus.lib taurus.python taurus.engine taurus.engine.views

structure Host where
  id : Int
  host_name : Option String := none
  host_ip : Option String := none
  host_type : Option String := some "unknown"
  extra_info : Json := .obj []
  status : Int := 0
  online_status : Int := 0

structure ProgramInstallPolicy where
  program_name : String
  version : String
  config : Json := .obj []
  auto_start : Bool := true
  user : Option String := none
  group : Option String := none
  match_rules : Dict String Json := []
  status : Int := 0
  matched_hosts_count : Nat := 0
  applied_hosts_count : Nat := 0

structure ProgramInstallConfig where
  host : Int
  program_name : String
  version : String
  config : Json
  auto_start : Bool
  user : Option String
  group : Option String
  creator : Option Int

/-- The database: what its lookups select by a value that the column accepts. -/
structure Lookups where
  exact : String → Json → Host → Bool
  host_ip_startswith : Json → Host → Bool
  host_name_icontains : Json → Host → Bool
  extra_info_icontains : Json → Host → Bool

/-- A value as a text column takes it for a comparison. -/
def prepared (py : Reprs) : Json → Except Exn String
  | .null => .error (.ValueError "Cannot use None as a query value")
  | v => .ok (py.str v)

/-- `host_ip__gte=low, host_ip__lte=high`, where the database compares the texts; no row without
an address is selected. -/
def host_ip_between (low high : String) (host : Host) : Bool :=
  host.host_ip.any fun ip => low ≤ ip ∧ ip ≤ high

/-- The rule `host_ip_range`; other values than a list of two are passed over. -/
def range_query (py : Reprs) (match_rules : Dict String Json) : Except Exn (Host → Bool) :=
  match Dict.get? match_rules "host_ip_range" with
  | some (.arr [low, high]) => do
    let low ← prepared py low
    let high ← prepared py high
    .ok (host_ip_between low high)
  | _ => .ok fun _ => true

/-- The query of the rules other than `host_ip_range`. -/
def other_query (db : Lookups) (match_rules : Dict String Json) : Except Exn (Host → Bool) := do
  let extra_info_tags ← elements (getJson match_rules "extra_info_tags")
  .ok fun host =>
    (["host_type", "status", "online_status"].all fun field =>
      (Dict.get? match_rules field).all fun v => db.exact field v host) &&
    ((Dict.get? match_rules "host_ip_prefix").all fun v => db.host_ip_startswith v host) &&
    ((Dict.get? match_rules "host_name_pattern").all fun v => db.host_name_icontains v host) &&
    extra_info_tags.all fun tag => db.extra_info_icontains tag host

def _get_matched_hosts (py : Reprs) (db : Lookups) (hosts : List Host)
    (policy : ProgramInstallPolicy) :
    Except Exn (List Host) :=
  if policy.match_rules = [] then .ok (hosts.filter (·.status = 1))
  else do
    let others ← other_query db policy.match_rules
    let in_range ← range_query py policy.match_rules
    .ok (hosts.filter fun host => others host && in_range host)

/-- A program is installed or to be installed on the host in this version. -/
def has_config (configs : List ProgramInstallConfig) (policy : ProgramInstallPolicy)
    (host : Host) : Bool :=
  configs.any fun c => c.host = host.id ∧ c.program_name = policy.program_name ∧
  c.version = policy.version

def new_config (policy : ProgramInstallPolicy) (creator : Option Int) (host : Host) :
    ProgramInstallConfig :=
  { host := host.id, program_name := policy.program_name, version := policy.version, config := policy.config
    auto_start := policy.auto_start, user := policy.user.filter (· ≠ ""), group := policy.group.filter (· ≠ ""), creator }

/-- The loop over the matched hosts: the configurations with the numbers of created
and skipped ones. -/
def create_configs (policy : ProgramInstallPolicy) (creator : Option Int) :
    List Host → List ProgramInstallConfig → Nat → Nat → List ProgramInstallConfig × Nat × Nat
  | [], configs, created, skipped => (configs, created, skipped)
  | host :: rest, configs, created, skipped =>
    if has_config configs policy host then
      create_configs policy creator rest configs created (skipped + 1)
    else create_configs policy creator rest (configs ++ [new_config policy creator host])
      (created + 1) skipped

/-- What a request is answered: success, the numbers and a message. -/
structure Answer where
  ok : Bool
  data : Dict String Nat
  msg : String

/-- The answer with the policy and the configurations as they are stored afterwards. -/
def policy_apply (py : Reprs) (db : Lookups) (hosts : List Host) (creator : Option Int)
    (policy : ProgramInstallPolicy) (configs : List ProgramInstallConfig) :
    Except Exn (Answer × ProgramInstallPolicy × List ProgramInstallConfig) :=
  if policy.status ≠ 1 then .ok (⟨false, [], "Policy not enabled, cannot apply"⟩, policy, configs)
  else do
    let matched_hosts ← _get_matched_hosts py db hosts policy
    let (configs, created, skipped) := create_configs policy creator matched_hosts configs 0 0
    let matched := matched_hosts.length
    .ok (⟨true, [("matched", matched), ("created", created), ("skipped", skipped)],
        s!"Policy applied: {matched} hosts matched, {created} configs created, {skipped} skipped"⟩,
      { policy with matched_hosts_count := matched, applied_hosts_count := policy.applied_hosts_count + created }, configs)

section

variable {policy : ProgramInstallPolicy} {creator : Option Int} {matched : List Host}
  {configs : List ProgramInstallConfig}
  {created skipped : Nat} {host : Host}

/-- The loop appends one configuration for each matched host that has none yet, and
counts every host once. -/
theorem create_configs_spec (policy : ProgramInstallPolicy) (creator : Option Int)
    (matched : List Host) (configs : List ProgramInstallConfig) (created skipped : Nat) :
    ∃ new : List Host, new ⊆ matched ∧
      (create_configs policy creator matched configs created skipped).1 = configs ++ new.map
        (new_config policy creator) ∧
      (create_configs policy creator matched configs created skipped).2.1 = created + new.length ∧
      (create_configs policy creator matched configs created skipped).2.1 +
        (create_configs policy creator matched configs created skipped).2.2 =
          created + skipped + matched.length ∧
      ∀ host ∈ matched, has_config
        (configs ++ new.map (new_config policy creator)) policy host = true := by
  induction matched generalizing configs created skipped with
  | nil => exact ⟨[], List.Subset.refl _, by simp [create_configs], rfl, rfl, nofun⟩
  | cons host rest ih =>
    unfold create_configs
    by_cases hhas : has_config configs policy host = true
    · rw [if_pos hhas]
      obtain ⟨new, hsub, hconfigs, hcreated, hcount, hall⟩ := ih configs created (skipped + 1)
      refine ⟨new, fun h hh => List.mem_cons_of_mem _ (hsub hh), hconfigs, hcreated, ?_, ?_⟩
      · rw [hcount, List.length_cons]
        omega
      · refine List.forall_mem_cons.mpr ⟨?_, hall⟩
        unfold has_config at hhas ⊢
        rw [List.any_append, hhas, Bool.true_or]
    · rw [if_neg hhas]
      obtain ⟨new, hsub, hconfigs, hcreated, hcount, hall⟩ :=
        ih (configs ++ [new_config policy creator host]) (created + 1) skipped
      have happend : configs ++ [new_config policy creator host] ++ new.map
        (new_config policy creator) =
          configs ++ (host :: new).map (new_config policy creator) := by simp
      rw [happend] at hconfigs hall
      refine ⟨host :: new, List.cons_subset_cons _ hsub, hconfigs, ?_, ?_,
        List.forall_mem_cons.mpr ⟨?_, hall⟩⟩
      · rw [hcreated, List.length_cons]
        omega
      · rw [hcount, List.length_cons]
        omega
      · simp [has_config, new_config]

/-- Applying an enabled policy leaves every matched host with a configuration and creates
none for another host. -/
theorem policy_apply_installs {py : Reprs} {db : Lookups} {hosts : List Host} {answer : Answer}
    {policy' : ProgramInstallPolicy} {configs' : List ProgramInstallConfig}
    (henabled : policy.status = 1) (hmatched : _get_matched_hosts py db hosts policy = .ok matched)
    (happly : policy_apply py db hosts creator policy configs = .ok (answer, policy', configs')) :
    (∀ host ∈ matched, has_config configs' policy host = true) ∧
      ∀ c ∈ configs', c ∈ configs ∨ ∃ host ∈ matched, c = new_config policy creator host := by
  obtain ⟨new, hsub, hconfigs, -, -, hall⟩ := create_configs_spec policy creator matched configs 0 0
  unfold policy_apply at happly
  rw [if_neg (not_not.mpr henabled), hmatched] at happly
  obtain ⟨-, hstored⟩ := Prod.mk.inj (Except.ok.inj happly)
  obtain ⟨-, rfl⟩ := Prod.mk.inj hstored
  rw [hconfigs]
  refine ⟨hall, fun c hc => ?_⟩
  obtain hold | hnew := List.mem_append.mp hc
  · exact Or.inl hold
  · obtain ⟨host, hhost, rfl⟩ := List.mem_map.mp hnew
    exact Or.inr ⟨host, hsub hhost, rfl⟩

end

end taurus.programs
