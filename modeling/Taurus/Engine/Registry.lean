import Mathlib.Data.List.Induction
import Mathlib.Data.List.Sort
import Mathlib.Data.String.Basic
import Taurus.Engine.Schemas
import Taurus.Lib.Program
import Taurus.Python.Json

namespace taurus.engine.registry

open taurus.lib taurus.python

/-- An adapter class, told from others by its own node type. -/
structure AdapterClass where
  node_type : String
  requires_host : Bool
  deriving DecidableEq, Repr

/-- The map of a registry while adapters are registered; an alias may be any text. -/
abbrev Adapters := Dict String AdapterClass

/-- The adapter classes by node type and alias; none has an empty name. -/
structure UnitAdapterRegistry where
  _adapters : Adapters
  named : Dict.get? _adapters "" = none

/-- A list of texts as Python prints it. -/
def printed (py : Reprs) (names : List String) : String := py.repr (.arr (names.map .str))

section

variable (py : Reprs) (name : AdapterClass → String) (adapters : Adapters)

/-- `sorted(self._adapters)` -/
def names : List String := (adapters.map (·.1)).insertionSort (· ≤ ·)

/-- `register(node_type)` as a decorator of a class with all class attributes; `name`
is `__name__`. -/
def register (node_type : String) (cls : AdapterClass) : Except Exn Adapters :=
  if cls.node_type ≠ node_type then
    .error (.ValueError ("Adapter " ++ name cls ++ ".node_type='" ++ cls.node_type ++
      "' and decorator parameter node_type='" ++
      node_type ++ "' are inconsistent"))
  else match Dict.get? adapters node_type with
    | some other =>
      .error (.ValueError ("Node type conflict: node_type='" ++ node_type ++
        "' is already occupied by " ++
        py.repr (.str (name other))))
    | none => .ok (Dict.set adapters node_type cls)

def register_alias (alias_name existing_node_type : String) : Except Exn Adapters :=
  match Dict.get? adapters existing_node_type with
  | none =>
    .error (.other "KeyError" ("register_alias('" ++ alias_name ++ "' -> '" ++ existing_node_type ++
      "') failed: existing_node_type='" ++ existing_node_type ++
      "' not found in registered adapters; registered: " ++
      printed py (names adapters)))
  | some cls =>
    match (Dict.get? adapters alias_name).filter (· ≠ cls) with
    | some other =>
      .error (.ValueError ("register_alias conflict: alias='" ++ alias_name ++
        "' is already occupied by " ++
        py.repr (.str (name other)) ++ ", cannot point to " ++ py.repr (.str (name cls))))
    | none => .ok (Dict.set adapters alias_name cls)

def get_class (node_type : String) : Except Exn AdapterClass :=
  match Dict.get? adapters node_type with
  | some cls => .ok cls
  | none =>
    .error (.other "KeyError" ("Unknown node_type='" ++ node_type ++ "'; registered: " ++
      printed py (names adapters)))

/-- One turn of the loop: a class is listed under its first name. -/
def list_turn (s : List AdapterClass × List String) (nt : String) :
    List AdapterClass × List String :=
  match Dict.get? adapters nt with
  | none => s
  | some cls => if cls ∈ s.1 then s else (s.1 ++ [cls], s.2 ++ [nt])

def list_all_adapter_types : List String :=
  ((names adapters).foldl (list_turn adapters) ([], [])).2.insertionSort (· ≤ ·)

/-- A call that adds a name. -/
inductive Registering where
  | register (node_type : String) (cls : AdapterClass)
  | register_alias (alias_name existing_node_type : String)

def Registering.apply (adapters : Adapters) : Registering → Except Exn Adapters
  | register node_type cls => registry.register py name adapters node_type cls
  | register_alias alias_name existing_node_type =>
    registry.register_alias py name adapters alias_name existing_node_type

/-- The calls one after the other; an exception ends them. -/
def apply_all (calls : List Registering) : Except Exn Adapters :=
  calls.foldlM (fun adapters call => call.apply py name adapters) adapters

end

section

variable {py : Reprs} {name : AdapterClass → String} {adapters adapters' : Adapters} {nt k : String}
  {cls : AdapterClass}
  {call : Registering} {calls : List Registering} {ks : List String}

/-- The name that a call adds, and the class it adds it for. -/
def Registering.Adds (call : Registering) (adapters : Adapters) (k : String)
    (cls : AdapterClass) : Prop :=
  match call with
  | register node_type c => node_type = k ∧ c = cls ∧ cls.node_type = k
  | register_alias alias_name existing_node_type =>
    alias_name = k ∧ Dict.get? adapters existing_node_type = some cls

/-- A successful call adds one name, which had no class or the same one, and changes no other. -/
theorem apply_spec (h : call.apply py name adapters = .ok adapters') :
    ∃ k cls, call.Adds adapters k cls ∧ (∀ c, Dict.get? adapters k = some c → c = cls) ∧
      adapters' = Dict.set adapters k cls := by
  cases call with
  | register node_type c =>
    change registry.register py name adapters node_type c = .ok adapters' at h
    unfold registry.register at h
    split_ifs at h with htype
    rw [not_not] at htype
    split at h
    · cases h
    · next hfree =>
      refine ⟨node_type, c, ⟨rfl, rfl, htype⟩, fun c' hc' => ?_, (Except.ok.inj h).symm⟩
      rw [hfree] at hc'
      cases hc'
  | register_alias alias_name existing_node_type =>
    change registry.register_alias py name adapters alias_name existing_node_type =
      .ok adapters' at h
    unfold registry.register_alias at h
    split at h
    · cases h
    · next c hc =>
      split at h
      · cases h
      · next hfree =>
        refine ⟨alias_name, c, ⟨rfl, hc⟩, fun c' hc' => ?_, (Except.ok.inj h).symm⟩
        rw [hc', Option.filter_eq_none_iff] at hfree
        simpa using hfree c' rfl

/-- Names keep their classes. -/
theorem get?_apply (h : call.apply py name adapters = .ok adapters')
    (hk : Dict.get? adapters k = some cls) :
    Dict.get? adapters' k = some cls := by
  obtain ⟨k', cls', -, hsame, rfl⟩ := apply_spec h
  rw [Dict.get?_set]
  split_ifs with heq
  · subst heq
    rw [hsame cls hk]
  · exact hk

/-- What holds after any successful calls: every class has its own node type among its names, and
every other name of it is an alias that was registered. -/
structure Registered (calls : List Registering) (adapters : Adapters) : Prop where
  canonical : ∀ k cls, Dict.get? adapters k = some cls → Dict.get? adapters cls.node_type = some cls
  named : ∀ k cls, Dict.get? adapters k = some cls → k = cls.node_type ∨
    ∃ existing, Registering.register_alias k existing ∈ calls ∧
    Dict.get? adapters existing = some cls
  aliases : ∀ alias_name existing, Registering.register_alias alias_name existing ∈ calls →
    ∃ cls, Dict.get? adapters existing = some cls ∧ Dict.get? adapters alias_name = some cls

/-- A call keeps the map as the calls before it say. -/
theorem Registered.apply (hadapters : Registered calls adapters)
    (h : call.apply py name adapters = .ok adapters') :
    Registered (calls ++ [call]) adapters' := by
  have hkeep : ∀ {k cls}, Dict.get? adapters k = some cls →
    Dict.get? adapters' k = some cls := get?_apply h
  obtain ⟨k, cls, hadds, -, hadapters'⟩ := apply_spec h
  have hself : Dict.get? adapters' k = some cls := by rw [hadapters', Dict.get?_set_self]
  have hnew : ∀ {k' cls'}, Dict.get? adapters' k' = some cls' →
      (k' = k ∧ cls' = cls) ∨ Dict.get? adapters k' = some cls' := by
    intro k' cls' hget
    rw [hadapters', Dict.get?_set] at hget
    split_ifs at hget with heq
    · exact Or.inl ⟨heq.symm, (Option.some.inj hget).symm⟩
    · exact Or.inr hget
  refine ⟨fun k' cls' hget => ?_, fun k' cls' hget => ?_, fun alias_name existing hcall => ?_⟩
  · obtain ⟨rfl, rfl⟩ | hold := hnew hget
    · cases call with
      | register node_type c => rwa [hadds.2.2]
      | register_alias alias_name existing => exact hkeep (hadapters.canonical _ _ hadds.2)
    · exact hkeep (hadapters.canonical _ _ hold)
  · obtain ⟨rfl, rfl⟩ | hold := hnew hget
    · cases call with
      | register node_type c => exact Or.inl hadds.2.2.symm
      | register_alias alias_name existing =>
        obtain ⟨rfl, hexisting⟩ := hadds
        exact Or.inr ⟨existing, by simp, hkeep hexisting⟩
    · obtain hname | ⟨existing, hcall, hexisting⟩ := hadapters.named _ _ hold
      · exact Or.inl hname
      · exact Or.inr ⟨existing, List.mem_append_left _ hcall, hkeep hexisting⟩
  · obtain hcall | hcall := List.mem_append.mp hcall
    · obtain ⟨c, hexisting, halias⟩ := hadapters.aliases _ _ hcall
      exact ⟨c, hkeep hexisting, hkeep halias⟩
    · obtain rfl := List.mem_singleton.mp hcall
      obtain ⟨rfl, hexisting⟩ := hadds
      exact ⟨cls, hkeep hexisting, hself⟩

/-- The calls of a process one after the other, all of them successful. -/
theorem registered_of_calls (h : apply_all py name [] calls = .ok adapters) :
    Registered calls adapters := by
  induction calls using List.reverseRecOn generalizing adapters with
  | nil =>
    obtain rfl := Except.ok.inj h
    exact ⟨nofun, nofun, nofun⟩
  | append_singleton calls call ih =>
    rw [apply_all, List.foldlM_append] at h
    obtain ⟨before, hbefore, hcall⟩ := bind_eq_ok.mp h
    rw [List.foldlM_cons] at hcall
    obtain ⟨after, hafter, hnil⟩ := bind_eq_ok.mp hcall
    obtain rfl := Except.ok.inj hnil
    exact (ih hbefore).apply hafter

/-- The names seen so far in ascending order; a class is listed once, under the first of them. -/
theorem list_turns (known : ∀ k ∈ ks, (Dict.get? adapters k).isSome) (hsorted : ks.Pairwise (· ≤ ·))
    (s : List AdapterClass × List String) :
    nt ∈ (ks.foldl (list_turn adapters) s).2 ↔ nt ∈ s.2 ∨
      ∃ cls, nt ∈ ks ∧ Dict.get? adapters nt = some cls ∧ cls ∉ s.1 ∧
        ∀ k ∈ ks, Dict.get? adapters k = some cls → nt ≤ k := by
  induction ks generalizing s with
  | nil => simp
  | cons k rest ih =>
    obtain ⟨hfirst, hrest⟩ := List.pairwise_cons.mp hsorted
    obtain ⟨c, hc⟩ := Option.isSome_iff_exists.mp (known k List.mem_cons_self)
    rw [List.foldl_cons, ih (fun k' hk' => known k' (List.mem_cons_of_mem _ hk')) hrest]
    have hturn : list_turn adapters s k = if c ∈ s.1 then s else (s.1 ++ [c], s.2 ++ [k]) := by
      unfold list_turn
      rw [hc]
    rw [hturn]
    by_cases hseen : c ∈ s.1
    · -- the class is listed already, and `k` is no first name
      rw [if_pos hseen]
      refine or_congr_right ⟨?_, ?_⟩
      · rintro ⟨cls, hnt, hget, hunseen, hmin⟩
        refine ⟨cls, List.mem_cons_of_mem _ hnt, hget, hunseen, fun k' hk' hget' => ?_⟩
        obtain rfl | hk' := List.mem_cons.mp hk'
        · rw [hc] at hget'
          exact absurd (Option.some.inj hget' ▸ hseen) hunseen
        · exact hmin k' hk' hget'
      · rintro ⟨cls, hnt, hget, hunseen, hmin⟩
        obtain rfl | hnt := List.mem_cons.mp hnt
        · rw [hc] at hget
          exact absurd (Option.some.inj hget ▸ hseen) hunseen
        · exact ⟨cls, hnt, hget, hunseen, fun k' hk' => hmin k' (List.mem_cons_of_mem _ hk')⟩
    · -- `k` is the first name of its class
      rw [if_neg hseen, List.mem_append, List.mem_singleton, or_assoc]
      refine or_congr_right ⟨?_, ?_⟩
      · rintro (rfl | ⟨cls, hnt, hget, hunseen, hmin⟩)
        · refine ⟨c, List.mem_cons_self, hc, hseen, fun k' hk' hget' => ?_⟩
          obtain rfl | hk' := List.mem_cons.mp hk'
          · exact le_refl _
          · exact hfirst k' hk'
        · rw [List.mem_append, List.mem_singleton, not_or] at hunseen
          refine ⟨cls, List.mem_cons_of_mem _ hnt, hget, hunseen.1, fun k' hk' hget' => ?_⟩
          obtain rfl | hk' := List.mem_cons.mp hk'
          · rw [hc] at hget'
            exact absurd (Option.some.inj hget').symm hunseen.2
          · exact hmin k' hk' hget'
      · rintro ⟨cls, hnt, hget, hunseen, hmin⟩
        obtain rfl | hnt := List.mem_cons.mp hnt
        · exact Or.inl rfl
        by_cases hcls : cls = c
        · -- no name after `k` comes first in its class, except `k` itself
          subst hcls
          exact Or.inl (le_antisymm (hmin k List.mem_cons_self hc) (hfirst nt hnt))
        · refine Or.inr ⟨cls, hnt, hget, ?_, fun k' hk' => hmin k' (List.mem_cons_of_mem _ hk')⟩
          rw [List.mem_append, List.mem_singleton, not_or]
          exact ⟨hunseen, hcls⟩

/-- The listed names are those that come first among the names of their class. -/
theorem mem_list_all_adapter_types : nt ∈ list_all_adapter_types adapters ↔
    ∃ cls, Dict.get? adapters nt = some cls ∧ ∀ k, Dict.get? adapters k = some cls → nt ≤ k := by
  have hmem : ∀ k, k ∈ names adapters ↔ (Dict.get? adapters k).isSome := by
    intro k
    rw [names, List.mem_insertionSort, ← Dict.contains_iff, Dict.contains]
  rw [list_all_adapter_types, List.mem_insertionSort,
    list_turns (fun k hk => (hmem k).mp hk) (List.pairwise_insertionSort (· ≤ ·) _)]
  constructor
  · rintro (hnone | ⟨cls, -, hget, -, hfirst⟩)
    · cases hnone
    · exact ⟨cls, hget, fun k hk => hfirst k ((hmem k).mpr (by rw [hk]; rfl)) hk⟩
  · rintro ⟨cls, hget, hfirst⟩
    exact Or.inr ⟨cls, (hmem nt).mpr (by rw [hget]; rfl), hget, List.not_mem_nil,
      fun k _ hk => hfirst k hk⟩

end

end taurus.engine.registry
