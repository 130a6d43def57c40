import Taurus.Engine.DagValidator
import Taurus.Engine.Registry

namespace taurus.engine.registry

open taurus.lib taurus.python taurus.engine.dag_validator

section

variable {py : Reprs} {name : AdapterClass → String} {adapters before : Adapters}
  {call : Registering}
  {calls : List Registering} {nt k : String} {cls : AdapterClass}

/-- V-07 has nothing to say about a node whose type has a class, and what is listed are the own node
types of the classes. -/
structure TypesValidate (py : Reprs) (adapters : Adapters) : Prop where
  accepted : ∀ nt cls, get_class py adapters nt = .ok cls →
    ∀ n : Dict String Json, getJson n "node_type" = .str nt →
    type_message py (list_all_adapter_types adapters) n = .ok none
  listed : ∀ nt, nt ∈ list_all_adapter_types adapters ↔
    ∃ k cls, get_class py adapters k = .ok cls ∧ cls.node_type = nt

/-- An alias that is the class's own node type, or one of the built-in types and after the own node
type in the alphabet. -/
def Registering.Harmless (adapters : Adapters) : Registering → Prop
  | register _ _ => True
  | register_alias alias_name existing_node_type =>
    ∀ cls, Dict.get? adapters existing_node_type = some cls →
    alias_name = cls.node_type ∨
      (alias_name = "start" ∨ alias_name = "end") ∧ cls.node_type < alias_name

/-- A class is found exactly if it is registered. -/
theorem get_class_eq_ok_iff :
    get_class py adapters nt = .ok cls ↔ Dict.get? adapters nt = some cls := by
  unfold get_class
  cases Dict.get? adapters nt with
  | none => exact ⟨nofun, nofun⟩
  | some c =>
    exact ⟨fun h => congrArg some (Except.ok.inj h),
      fun h => congrArg Except.ok (Option.some.inj h)⟩

/-- A type has no message exactly if it is an end of the graph or registered. -/
theorem type_message_eq_none_iff {registered : List String} {n : Dict String Json}
    (hn : getJson n "node_type" = .str nt) :
    type_message py registered n = .ok none ↔ (nt = "start" ∨ nt = "end") ∨ nt ∈ registered := by
  have hmessage : ∀ message : String,
    (if nt ∈ ["start", "end"] ∨ nt ∈ registered then (.ok none : Except Exn _)
      else .ok (some message)) = .ok none ↔ (nt = "start" ∨ nt = "end") ∨ nt ∈ registered := by
    intro message
    split_ifs with hnt
    · simpa using hnt
    · simpa using hnt
  unfold type_message
  rw [hn]
  simp only [unhashable, Json.str?, Option.any_some, decide_eq_true_eq]
  exact hmessage _

/-- Every name of a class is its own node type or a built-in type that the alphabet has later. -/
theorem typesValidate_iff (hregistered : Registered calls adapters) : TypesValidate py adapters ↔
    ∀ k cls, Dict.get? adapters k = some cls → k = cls.node_type ∨
      (k = "start" ∨ k = "end") ∧ cls.node_type < k := by
  constructor
  · intro h k cls hk
    have howner : cls.node_type ∈ list_all_adapter_types adapters :=
      (h.listed _).mpr ⟨k, cls, get_class_eq_ok_iff.mpr hk, rfl⟩
    obtain ⟨c, hc, hfirst⟩ := mem_list_all_adapter_types.mp howner
    rw [hregistered.canonical k cls hk] at hc
    obtain rfl := Option.some.inj hc
    have hle : cls.node_type ≤ k := hfirst k hk
    by_cases hne : k = cls.node_type
    · exact Or.inl hne
    have haccepted := h.accepted k cls (get_class_eq_ok_iff.mpr hk) [("node_type", .str k)] rfl
    obtain hbuiltin | hlisted := (type_message_eq_none_iff rfl).mp haccepted
    · exact Or.inr ⟨hbuiltin, lt_of_le_of_ne hle (Ne.symm hne)⟩
    · -- a listed name comes first, the own node type too
      obtain ⟨c, hc, hfirst⟩ := mem_list_all_adapter_types.mp hlisted
      rw [hk] at hc
      obtain rfl := Option.some.inj hc
      exact absurd (le_antisymm (hfirst _ (hregistered.canonical k cls hk)) hle) hne
  · intro h
    have hfirst : ∀ k cls, Dict.get? adapters k = some cls → cls.node_type ≤ k := by
      intro k cls hk
      obtain rfl | ⟨-, hlt⟩ := h k cls hk
      · exact le_refl _
      · exact le_of_lt hlt
    have howner : ∀ k cls, Dict.get? adapters k = some cls →
        cls.node_type ∈ list_all_adapter_types adapters :=
      fun k cls hk => mem_list_all_adapter_types.mpr
        ⟨cls, hregistered.canonical k cls hk, fun k' => hfirst k' cls⟩
    refine ⟨fun nt cls hnt n hn => ?_, fun nt => ⟨fun hnt => ?_, ?_⟩⟩
    · rw [get_class_eq_ok_iff] at hnt
      rw [type_message_eq_none_iff hn]
      obtain rfl | ⟨hbuiltin, -⟩ := h nt cls hnt
      · exact Or.inr (howner _ cls hnt)
      · exact Or.inl hbuiltin
    · obtain ⟨cls, hget, hmin⟩ := mem_list_all_adapter_types.mp hnt
      refine ⟨nt, cls, get_class_eq_ok_iff.mpr hget, ?_⟩
      exact le_antisymm (hfirst nt cls hget) (hmin _ (hregistered.canonical nt cls hget))
    · rintro ⟨k, cls, hk, rfl⟩
      exact howner k cls (get_class_eq_ok_iff.mp hk)

/-- Registrations may be taken in two parts. -/
theorem apply_all_append {earlier later : List Registering} :
    apply_all py name [] (earlier ++ later) = .ok adapters ↔
    ∃ before, apply_all py name [] earlier = .ok before ∧
      apply_all py name before later = .ok adapters := by
  rw [apply_all, List.foldlM_append]
  exact bind_eq_ok

/-- Names keep their classes through any calls. -/
theorem get?_calls (h : apply_all py name before calls = .ok adapters)
    (hk : Dict.get? before k = some cls) : Dict.get? adapters k = some cls := by
  induction calls generalizing before with
  | nil =>
    obtain rfl := Except.ok.inj h
    exact hk
  | cons call rest ih =>
    obtain ⟨after, hafter, hrest⟩ := bind_eq_ok.mp h
    exact ih hrest (get?_apply hafter hk)

/-- After any sequence of successful calls the types of a registry validate exactly if every alias
was harmless when it was registered. -/
theorem types_validate_iff (h : apply_all py name [] calls = .ok adapters) :
    TypesValidate py adapters ↔ ∀ earlier call later before, calls = earlier ++ call :: later →
      apply_all py name [] earlier = .ok before → call.Harmless before := by
  have hregistered := registered_of_calls h
  rw [typesValidate_iff hregistered]
  constructor
  · rintro hnames earlier call later before rfl hbefore
    cases call with
    | register node_type c => trivial
    | register_alias alias_name existing =>
      intro cls hcls
      obtain ⟨c, hexisting, halias⟩ := hregistered.aliases alias_name existing (by simp)
      obtain ⟨before', hbefore', hrest⟩ := apply_all_append.mp h
      obtain rfl := Except.ok.inj (hbefore.symm.trans hbefore')
      rw [get?_calls hrest hcls] at hexisting
      obtain rfl := Option.some.inj hexisting
      exact hnames alias_name cls halias
  · intro hharmless k cls hk
    obtain hname | ⟨existing, hcall, hexisting⟩ := hregistered.named k cls hk
    · exact Or.inl hname
    obtain ⟨earlier, later, rfl⟩ := List.append_of_mem hcall
    obtain ⟨before, hbefore, hrest⟩ := apply_all_append.mp h
    obtain ⟨after, hafter, -⟩ := bind_eq_ok.mp hrest
    obtain ⟨alias_name, c, hadds, -, -⟩ := apply_spec hafter
    obtain ⟨rfl, hc⟩ : k = alias_name ∧ Dict.get? before existing = some c := hadds
    have hsame : c = cls := Option.some.inj ((get?_calls hrest hc).symm.trans hexisting)
    exact hharmless earlier _ later before rfl hbefore cls (hsame ▸ hc)

end

def start_class : AdapterClass := ⟨"start", false⟩

def end_class : AdapterClass := ⟨"end", false⟩

def noop_class : AdapterClass := ⟨"noop", false⟩

/-- An adapter that also runs the built-in type `start`. -/
def start_as_noop : List Registering :=
  [.register "noop" noop_class, .register_alias "start" "noop"]

/-- The alias comes after the own node type. -/
theorem start_as_noop_validates :
    ∃ adapters, apply_all .short AdapterClass.node_type [] start_as_noop = .ok adapters ∧
    TypesValidate .short adapters := by
  have hrun : apply_all .short AdapterClass.node_type [] start_as_noop =
      .ok [("noop", noop_class), ("start", noop_class)] := by decide +kernel
  refine ⟨_, hrun, (types_validate_iff hrun).mpr ?_⟩
  intro earlier call later before hcalls hbefore
  cases call with
  | register node_type c => trivial
  | register_alias alias_name existing =>
    intro cls hcls
    obtain _ | ⟨first, _ | ⟨second, rest⟩⟩ := earlier
    · simp [start_as_noop] at hcalls
    · obtain ⟨rfl, rfl, rfl⟩ : first = .register "noop" noop_class ∧ alias_name = "start" ∧
          existing = "noop" := by
        simp [start_as_noop] at hcalls
        exact ⟨hcalls.1.symm, hcalls.2.1.1.symm, hcalls.2.1.2.symm⟩
      obtain rfl : [("noop", noop_class)] = before := Except.ok.inj hbefore
      obtain rfl : noop_class = cls := Option.some.inj hcls
      exact Or.inr ⟨Or.inl rfl, by decide⟩
    · simp [start_as_noop] at hcalls

/-- The registrations of the built-in adapters. -/
def virtual_calls : List Registering := [.register "start" start_class, .register "end" end_class,
  .register "noop" noop_class, .register_alias "virtual_start" "start",
  .register_alias "virtual_end" "end"]

/-- A stored `virtual_start` still has its class and no longer passes V-07. -/
theorem virtual_start_refused :
    ∃ adapters, apply_all .short AdapterClass.node_type [] virtual_calls = .ok adapters ∧
    ¬ TypesValidate .short adapters := by
  have hrun : apply_all .short AdapterClass.node_type [] virtual_calls =
      .ok [("start", start_class), ("end", end_class), ("noop", noop_class),
      ("virtual_start", start_class),
        ("virtual_end", end_class)] := by decide +kernel
  refine ⟨_, hrun, fun h => ?_⟩
  have hnames :=
    (typesValidate_iff (registered_of_calls hrun)).mp h "virtual_start" start_class (by decide)
  exact absurd hnames (by decide)

end taurus.engine.registry
