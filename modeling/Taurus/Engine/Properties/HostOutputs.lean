import Taurus.Engine.Steps.Context

namespace taurus.engine.runner

open taurus.lib taurus.python

/-- Rows as the query of `_refresh_ctx_from_db` gives them: later attempts of a node first, with any
order among equal attempts, one row for every attempt on a host, and outputs with distinct keys. -/
structure Queried (rows : List NodeExec) : Prop where
  ordered : rows.Pairwise fun r r' => r.node_key = r'.node_key → r'.attempt_no ≤ r.attempt_no
  attempts : (rows.map (·.attempt_key)).Nodup
  outputs : ∀ r ∈ rows, (r.output.map (·.1)).Nodup

section

variable (rows : List NodeExec) (key : String)

/-- What the refreshed context has for a node. -/
def exposed : Dict String Json := (Dict.get? (refreshOutputs rows) key).getD []

def exposed_hosts : Dict String Json := ((getJson (exposed rows key) "__by_host__").obj?).getD []

/-- The rows of a node with some output. -/
def filled_rows : List NodeExec := (node_rows rows key).filter fun r => !r.output.isEmpty

/-- The rows up to the first one that has an `rc`. -/
def until_rc : List NodeExec → List NodeExec
  | [] => []
  | r :: rest => if Dict.contains r.output "rc" then [r] else r :: until_rc rest

/-- A row is of the last attempt on its host. -/
def LatestRow (r : NodeExec) : Prop :=
  r ∈ node_rows rows key ∧ ∀ r' ∈ node_rows rows key, r'.host_id = r.host_id →
  r'.attempt_no ≤ r.attempt_no

/-- A row is of the first attempt with some output on its host. -/
def EarliestFilled (r : NodeExec) : Prop :=
  r ∈ filled_rows rows key ∧ ∀ r' ∈ filled_rows rows key, r'.host_id = r.host_id →
  r.attempt_no ≤ r'.attempt_no

/-- The fields of a node are those of its first row with some output, and every host has the output
of its last attempt, if there is any. -/
structure OutputsNotMixed : Prop where
  fields : ∀ k, k ≠ "__by_host__" →
    Dict.get? (exposed rows key) k = (filled_rows rows key).head?.bind fun r => Dict.get? r.output k
  hosts : ∀ r, LatestRow rows key r →
    Dict.get? (exposed_hosts rows key) r.host_id =
    if r.output.isEmpty then none else some (.obj r.output)

/-- Among the rows up to the first `rc`, the last value of a field is that of the first row. -/
def FieldsAgree : Prop :=
  ∀ earlier r later, until_rc (filled_rows rows key) = earlier ++ r :: later →
  ∀ k v, k ≠ "__by_host__" →
    Dict.get? r.output k = some v → (∀ r' ∈ later, Dict.get? r'.output k = none) →
    ∃ first, (filled_rows rows key).head? = some first ∧ Dict.get? first.output k = some v

/-- Where some attempt has an output, the first such attempt has the output of the last attempt. -/
def AttemptsAgree : Prop :=
  ∀ r r', LatestRow rows key r → EarliestFilled rows key r' → r'.host_id = r.host_id →
  r'.output = r.output

end

section

variable {rows l : List NodeExec} {key k host : String} {agg : Dict String Json} {r : NodeExec}

/-- What is exposed is folded over the rows with an output. -/
theorem exposed_eq : exposed rows key = (filled_rows rows key).foldl addOutput [] := by
  have hfold : ∀ (l : List NodeExec) (acc : Option (Dict String Json)),
      (l.foldl foldOutputs acc).getD [] =
        (l.filter fun r => !r.output.isEmpty).foldl addOutput (acc.getD []) := by
    intro l
    induction l with
    | nil => exact fun _ => rfl
    | cons r rest ih =>
      intro acc
      rw [List.foldl_cons, ih]
      by_cases hr : r.output.isEmpty <;> simp [foldOutputs, hr]
  rw [exposed, refreshOutputs, refreshOutputs_foldl, hfold]
  rfl

/-- The output without a field named like the map of the hosts. -/
theorem get?_fields (hk : k ≠ "__by_host__") :
    Dict.get? (r.output.filter (·.1 ≠ "__by_host__")) k = Dict.get? r.output k := by
  have hfilter := Dict.get?_filter r.output (fun k => decide (k ≠ "__by_host__")) k
  rw [if_pos (by simpa using hk)] at hfilter
  exact hfilter

theorem nodup_fields (hr : (r.output.map (·.1)).Nodup) :
    ((r.output.filter (·.1 ≠ "__by_host__")).map (·.1)).Nodup :=
  hr.sublist (List.filter_sublist.map _)

/-- One more row adds its fields unless an `rc` is there. -/
theorem get?_addOutput (hr : (r.output.map (·.1)).Nodup) (hk : k ≠ "__by_host__") :
    Dict.get? (addOutput agg r) k =
      if Dict.contains agg "rc" then Dict.get? agg k
      else (Dict.get? r.output k).or (Dict.get? agg k) := by
  have hrc : ∀ v, Dict.contains (Dict.set agg "__by_host__" v) "rc" = Dict.contains agg "rc" := by
    intro v
    rw [Dict.contains, Dict.contains, Dict.get?_set_ne _ _ (by decide)]
  unfold addOutput
  dsimp only
  rw [hrc]
  split_ifs
  · exact Dict.get?_set_ne _ _ hk.symm
  · rw [Dict.get?_update _ _ _ (nodup_fields hr), get?_fields hk, Dict.get?_set_ne _ _ hk.symm]

/-- And it always adds its host. -/
theorem hosts_addOutput (hr : (r.output.map (·.1)).Nodup) :
    ((getJson (addOutput agg r) "__by_host__").obj?).getD [] =
      Dict.set (((getJson agg "__by_host__").obj?).getD []) r.host_id (.obj r.output) := by
  have hget : Dict.get? (addOutput agg r) "__by_host__" =
      some (.obj (Dict.set (((getJson agg "__by_host__").obj?).getD []) r.host_id
      (.obj r.output))) := by
    unfold addOutput
    dsimp only
    split_ifs
    · exact Dict.get?_set_self _ _ _
    · have hnone : Dict.get? (r.output.filter (·.1 ≠ "__by_host__")) "__by_host__" = none := by
        have hfilter :=
          Dict.get?_filter r.output (fun k => decide (k ≠ "__by_host__")) "__by_host__"
        rwa [if_neg (by simp)] at hfilter
      rw [Dict.get?_update _ _ _ (nodup_fields hr), hnone, Dict.get?_set_self]
      rfl
  rw [getJson, hget]
  rfl

/-- The last value of a field in some rows. -/
def last_value (k : String) (l : List NodeExec) : Option Json :=
  (l.reverse.findSome? fun r => Dict.get? r.output k)

/-- The last value of a field, one row further. -/
theorem last_value_cons (k : String) (r : NodeExec) (l : List NodeExec) :
    last_value k (r :: l) = (last_value k l).or (Dict.get? r.output k) := by
  rw [last_value, List.reverse_cons, List.findSome?_append]
  simp [last_value]

/-- It is the value of a row that no later row of them has the field after. -/
theorem last_value_eq_some_iff {v : Json} :
    last_value k l = some v ↔ ∃ earlier r later, l = earlier ++ r :: later ∧
    Dict.get? r.output k = some v ∧ ∀ r' ∈ later, Dict.get? r'.output k = none := by
  rw [last_value, List.findSome?_eq_some_iff]
  constructor
  · rintro ⟨l₁, r, l₂, hl, hr, hnone⟩
    rw [List.reverse_eq_iff] at hl
    refine ⟨l₂.reverse, r, l₁.reverse,
      by simpa using hl, hr, fun r' hr' => hnone r' (List.mem_reverse.mp hr')⟩
  · rintro ⟨earlier, r, later, rfl, hr, hnone⟩
    exact ⟨later.reverse, r, earlier.reverse,
      by simp, hr, fun r' hr' => hnone r' (List.mem_reverse.mp hr')⟩

/-- A field is that of the last row before one with a return code. -/
theorem get?_addOutputs (hl : ∀ r ∈ l, (r.output.map (·.1)).Nodup) (hk : k ≠ "__by_host__")
    (agg : Dict String Json) :
    Dict.get? (l.foldl addOutput agg) k =
      if Dict.contains agg "rc" then Dict.get? agg k
      else (last_value k (until_rc l)).or (Dict.get? agg k) := by
  induction l generalizing agg with
  | nil => simp [until_rc, last_value]
  | cons r rest ih =>
    have hr := hl r List.mem_cons_self
    have hrc : Dict.contains (addOutput agg r) "rc" =
        (Dict.contains agg "rc" || Dict.contains r.output "rc") := by
      rw [Dict.contains, get?_addOutput hr (by decide)]
      cases hagg : Dict.contains agg "rc" with
      | true => simpa [Dict.contains] using hagg
      | false =>
        rw [Dict.contains] at hagg
        simp [Dict.contains, hagg]
    rw [List.foldl_cons, ih (fun r' hr' => hl r' (List.mem_cons_of_mem _ hr')), hrc,
      get?_addOutput hr hk, until_rc]
    cases Dict.contains agg "rc" with
    | true => simp
    | false =>
      cases Dict.contains r.output "rc" with
      | true => simp [last_value]
      | false => simp [last_value_cons, Option.or_assoc]

/-- Under `__by_host__` each host has its last output. -/
theorem hosts_addOutputs (hl : ∀ r ∈ l, (r.output.map (·.1)).Nodup) (host : String)
    (agg : Dict String Json) :
    Dict.get? (((getJson (l.foldl addOutput agg) "__by_host__").obj?).getD []) host =
      (((l.filter (·.host_id = host)).getLast?.map fun r => Json.obj r.output).or
        (Dict.get? (((getJson agg "__by_host__").obj?).getD []) host)) := by
  induction l generalizing agg with
  | nil => simp
  | cons r rest ih =>
    rw [List.foldl_cons, ih (fun r' hr' => hl r' (List.mem_cons_of_mem _ hr')),
      hosts_addOutput (hl r List.mem_cons_self), Dict.get?_set]
    by_cases hhost : r.host_id = host
    · rw [if_pos hhost, List.filter_cons_of_pos (by simpa using hhost), List.getLast?_cons]
      cases (rest.filter (·.host_id = host)).getLast? <;> rfl
    · rw [if_neg hhost, List.filter_cons_of_neg (by simpa using hhost)]

/-- The rows of a node that have an output. -/
theorem mem_filled_rows :
    r ∈ filled_rows rows key ↔ (r ∈ rows ∧ r.node_key = key) ∧ r.output.isEmpty = false := by
  rw [filled_rows, List.mem_filter, mem_node_rows, Bool.not_eq_true']

theorem Queried.filled_outputs (h : Queried rows) :
    ∀ r ∈ filled_rows rows key, (r.output.map (·.1)).Nodup :=
  fun r hr => h.outputs r (mem_filled_rows.mp hr).1.1

/-- A host has one row for each attempt. -/
theorem Queried.eq_of_attempt {r r' : NodeExec} (h : Queried rows) (hr : r ∈ filled_rows rows key)
    (hr' : r' ∈ filled_rows rows key) (hhost : r.host_id = r'.host_id)
    (hattempt : r.attempt_no = r'.attempt_no) :
    r = r' := by
  obtain ⟨⟨hmem, hkey⟩, -⟩ := mem_filled_rows.mp hr
  obtain ⟨⟨hmem', hkey'⟩, -⟩ := mem_filled_rows.mp hr'
  apply List.inj_on_of_nodup_map h.attempts hmem hmem'
  simp only [NodeExec.attempt_key, hkey, hkey', hhost, hattempt]

/-- A field is that of the last row up to the first with a return code. -/
theorem get?_exposed (h : Queried rows) (hk : k ≠ "__by_host__") :
    Dict.get? (exposed rows key) k = last_value k (until_rc (filled_rows rows key)) := by
  rw [exposed_eq, get?_addOutputs h.filled_outputs hk]
  simp [Dict.contains]

/-- The last row of a host that writes its entry is its first attempt with some output. -/
theorem getLast?_filled_iff (h : Queried rows) :
    ((filled_rows rows key).filter (·.host_id = host)).getLast? = some r ↔
      EarliestFilled rows key r ∧ r.host_id = host := by
  have hordered : ((filled_rows rows key).filter (·.host_id = host)).Pairwise fun r r' =>
    r'.attempt_no ≤ r.attempt_no := by
    refine List.Pairwise.imp_of_mem ?_
      ((h.ordered.sublist (List.filter_sublist.trans List.filter_sublist)).sublist
      List.filter_sublist)
    intro x y hx hy hxy
    have hkx := (mem_filled_rows.mp (List.mem_of_mem_filter hx)).1.2
    have hky := (mem_filled_rows.mp (List.mem_of_mem_filter hy)).1.2
    exact hxy (hkx.trans hky.symm)
  have hlast : ∀ {x}, ((filled_rows rows key).filter (·.host_id = host)).getLast? = some x →
      EarliestFilled rows key x ∧ x.host_id = host := by
    intro x hx
    obtain ⟨l, hl⟩ := List.getLast?_eq_some_iff.mp hx
    have hmem : x ∈ (filled_rows rows key).filter (·.host_id = host) := by rw [hl]; simp
    obtain ⟨hfilled, hhost⟩ := List.mem_filter.mp hmem
    rw [decide_eq_true_eq] at hhost
    refine ⟨⟨hfilled, fun r' hr' hsame => ?_⟩, hhost⟩
    have hmem' : r' ∈ l ++ [x] := by
      rw [← hl, List.mem_filter, decide_eq_true_eq]
      exact ⟨hr', hsame.trans hhost⟩
    rw [hl, List.pairwise_append] at hordered
    obtain hr' | hr' := List.mem_append.mp hmem'
    · exact hordered.2.2 r' hr' x (by simp)
    · rw [List.mem_singleton.mp hr']
  refine ⟨hlast, ?_⟩
  rintro ⟨⟨hfilled, hmin⟩, hhost⟩
  have hmem : r ∈ (filled_rows rows key).filter (·.host_id = host) :=
    List.mem_filter.mpr ⟨hfilled, by simpa using hhost⟩
  obtain ⟨x, hx⟩ := Option.isSome_iff_exists.mp (List.getLast?_isSome.mpr (List.ne_nil_of_mem hmem))
  obtain ⟨⟨hxfilled, hxmin⟩, hxhost⟩ := hlast hx
  have hattempt : x.attempt_no = r.attempt_no :=
    le_antisymm (hxmin r hfilled (hhost.trans hxhost.symm))
      (hmin x hxfilled (hxhost.trans hhost.symm))
  rw [hx, h.eq_of_attempt hxfilled hfilled (hxhost.trans hhost.symm) hattempt]

/-- A host has the output of its last row. -/
theorem get?_exposed_hosts (h : Queried rows) : Dict.get? (exposed_hosts rows key) host =
    ((filled_rows rows key).filter (·.host_id = host)).getLast?.map fun r => .obj r.output := by
  rw [exposed_hosts, exposed_eq, hosts_addOutputs h.filled_outputs]
  exact Option.or_none

theorem head?_until_rc : (until_rc l).head? = l.head? := by
  cases l with
  | nil => rfl
  | cons r rest =>
    rw [until_rc]
    split_ifs <;> rfl

/-- The fields are those of the first row exactly if no later one changes them. -/
theorem fields_iff (h : Queried rows) : (∀ k, k ≠ "__by_host__" →
    Dict.get? (exposed rows key) k = (filled_rows rows key).head?.bind
      fun r => Dict.get? r.output k) ↔
      FieldsAgree rows key := by
  constructor
  · intro hfields earlier r later hsplit k v hk hr hlater
    have hvalue := last_value_eq_some_iff.mpr ⟨earlier, r, later, hsplit, hr, hlater⟩
    rw [← get?_exposed h hk, hfields k hk] at hvalue
    exact Option.bind_eq_some_iff.mp hvalue
  · intro hagree k hk
    rw [get?_exposed h hk]
    cases hvalue : last_value k (until_rc (filled_rows rows key)) with
    | some v =>
      obtain ⟨earlier, r, later, hsplit, hr, hlater⟩ := last_value_eq_some_iff.mp hvalue
      exact (Option.bind_eq_some_iff.mpr (hagree earlier r later hsplit k v hk hr hlater)).symm
    | none =>
      -- the first row is among those whose fields are taken
      cases hfirst : (filled_rows rows key).head? with
      | none => rfl
      | some first =>
        rw [last_value, List.findSome?_eq_none_iff] at hvalue
        rw [← head?_until_rc] at hfirst
        exact (hvalue first (List.mem_reverse.mpr (List.mem_of_head? hfirst))).symm

/-- Each host has its latest output exactly if the attempts agree. -/
theorem hosts_iff (h : Queried rows) : (∀ r, LatestRow rows key r →
    Dict.get? (exposed_hosts rows key) r.host_id = if r.output.isEmpty then none
      else some (.obj r.output)) ↔
      AttemptsAgree rows key := by
  constructor
  · intro hhosts r r' hlatest hearliest hhost
    have hentry := hhosts r hlatest
    rw [get?_exposed_hosts h, (getLast?_filled_iff h).mpr ⟨hearliest, hhost⟩] at hentry
    split_ifs at hentry
    · cases hentry
    · exact Json.obj.inj (Option.some.inj hentry)
  · intro hagree r hlatest
    rw [get?_exposed_hosts h]
    cases hlast : ((filled_rows rows key).filter (·.host_id = r.host_id)).getLast? with
    | some r' =>
      obtain ⟨hearliest, hhost⟩ := (getLast?_filled_iff h).mp hlast
      have hsame := hagree r r' hlatest hearliest hhost
      rw [← hsame, (mem_filled_rows.mp hearliest.1).2]
      rfl
    | none =>
      have hempty : r.output.isEmpty = true := by
        by_contra hfilled
        have hmem : r ∈ filled_rows rows key :=
          List.mem_filter.mpr ⟨hlatest.1, by simpa using hfilled⟩
        rw [List.getLast?_eq_none_iff, List.filter_eq_nil_iff] at hlast
        exact hlast r hmem (by simp)
      rw [if_pos hempty]
      rfl

/-- The refreshed context has the fields of one output, and for every host that of its last
attempt, exactly if the rows up to the first `rc` agree on the fields and the attempts of every
host with some output agree. -/
theorem outputs_not_mixed_iff (h : Queried rows) :
    OutputsNotMixed rows key ↔ FieldsAgree rows key ∧ AttemptsAgree rows key :=
  ⟨fun hnot => ⟨(fields_iff h).mp hnot.fields, (hosts_iff h).mp hnot.hosts⟩,
    fun hagree => ⟨(fields_iff h).mpr hagree.1, (hosts_iff h).mpr hagree.2⟩⟩

end

/-- A finished row of a script on some host. -/
def script_row (pk : Nat) (host_id : String) (attempt_no : Nat) (output : Dict String Json) :
    NodeExec where
  pk := pk
  node_key := "deploy"
  node_type := "script"
  node_name := "deploy"
  host_id := host_id
  attempt_no := attempt_no
  dispatch_id := toString pk
  status := .SUCCESS
  output := output
  fail_strategy := "fail_fast"

/-- Two hosts whose outputs have an `rc`. -/
def rows_with_rc : List NodeExec :=
  [script_row 1 "web-1" 1 [("rc", .int 0), ("stdout", .str "a")],
    script_row 2 "web-2" 1 [("rc", .int 1)]]

theorem rows_with_rc_not_mixed : OutputsNotMixed rows_with_rc "deploy" := by
  have hmem : ∀ r ∈ rows_with_rc, r = rows_with_rc.head (by decide) ∨
      r = rows_with_rc.getLast (by decide) := by
    simp [rows_with_rc]
  refine (outputs_not_mixed_iff ⟨by decide, by decide, by decide⟩).mpr ⟨?_, ?_⟩
  · intro earlier r later hsplit k v hk hr hlater
    have hfirst : until_rc (filled_rows rows_with_rc "deploy") =
      [rows_with_rc.head (by decide)] := rfl
    rw [hfirst, eq_comm, List.append_eq_singleton_iff] at hsplit
    obtain ⟨-, hsplit⟩ | ⟨-, hsplit⟩ := hsplit
    · obtain rfl := (List.cons.inj hsplit).1
      exact ⟨_, rfl, hr⟩
    · cases hsplit
  · intro r r' hlatest hearliest hhost
    rcases hmem r (mem_node_rows.mp hlatest.1).1 with rfl | rfl <;>
      obtain rfl | rfl := hmem r' (mem_filled_rows.mp hearliest.1).1.1
    · rfl
    · exact absurd hhost (by decide)
    · exact absurd hhost (by decide)
    · rfl

/-- Two hosts without an `rc`, the second of which has another field. -/
def rows_without_rc : List NodeExec :=
  [script_row 1 "web-1" 1 [("stdout", .str "a")], script_row 2 "web-2" 1 [("stderr", .str "b")]]

/-- The context then has the fields of both. -/
theorem rows_without_rc_mixed : ¬ OutputsNotMixed rows_without_rc "deploy" := by
  intro h
  have hstderr : some (Json.str "b") = none := h.fields "stderr" (by decide)
  cases hstderr

end taurus.engine.runner
