import Taurus.Engine.Steps.Dispatching

namespace taurus.engine.runner

open taurus.lib taurus.lib.Prog taurus.python taurus.engine.executor

variable {ver : DagVersion} {x : Execution} {w₀ : World}

/-- The rule for a filtered read: the rows come with the state they were read from. -/
theorem triple_objects_filter {p : NodeExec → Bool} {P : World → Prop}
    {Q : List NodeExec → World → Prop} {E : World → Prop} (h : ∀ w, P w → Q (w.rows.filter p) w) :
    Triple P (objects_filter p) Q E := h

/-- Aggregating a loop parent writes at most its own row. -/
theorem aggregate_touched (env : Env) (row : NodeExec) (w : World) (hx : w.execution = some x)
    (hrow : row ∈ w.rows) (hparent : is_loop_parent row = true) :
    Touched ver [row] w (_aggregate_loop_children env row w).2 := by
  suffices h : Triple (Before ver x row w) (_aggregate_loop_children env row)
      (fun _ => Touched ver [row] w) (Touched ver [row] w) from h.state (.start hx hrow)
  unfold _aggregate_loop_children
  refine triple_bind (triple_objects_filter (Q := fun children s =>
    Before ver x row w s ∧ children = child_rows s.rows row.node_key) fun s hs => ⟨hs, rfl⟩)
    fun children => ?_
  simp only
  split_ifs with hnone hall
  · exact triple_pure fun _ h => h.1.touched
  · exact triple_pure fun _ h => h.1.touched
  · have hterm : ∀ c ∈ children, c.status.terminal = true := by simpa using hall
    refine triple_bind (R := fun _ s =>
      (Before ver x row w s ∧ children = child_rows s.rows row.node_key) ∧
      { act := .aggregate row, before := s.rows } ∈ s.log) ?_ fun _ => ?_
    · refine triple_modifyState fun s hs => ⟨⟨⟨?_, hs.1.execution, hs.1.stored⟩, hs.2⟩, ?_⟩
      · have hnoted : Noted ver x s.log s.rows (.aggregate row) :=
          ⟨hs.1.stored, hparent, by rw [← hs.2]; exact hterm⟩
        exact hs.1.touched.trans (.note hs.1.execution hnoted)
      · simp [World.note, World.rows]
    · refine triple_bind (R := fun _ => After ver x row w)
        (triple_save rfl (fun _ h => h.1.1) fun s hs => ?_) fun _ =>
        triple_pure fun _ h => h.touched
      refine .aggregate env hparent hs.2 ?_
      rw [← hs.1.2]
      rfl

/-- Cancelling an unfinished row writes it to CANCELLED. -/
theorem cancel_row_touched (env : Env) (user_id : Option Int) (message : String)
    (on_error : NodeExec → NodeExec) (herr : ∀ r, (on_error r).pk = r.pk)
    (row : NodeExec) (w : World) (hx : w.execution = some x) (hrow : row ∈ w.rows)
    (hunfinished : is_unfinished row = true) :
    Touched ver [row] w (cancel_row env x user_id message on_error row w).2 := by
  suffices h : Triple (Before ver x row w) (cancel_row env x user_id message on_error row)
      (fun _ => Touched ver [row] w) (Touched ver [row] w) from h.state (.start hx hrow)
  refine triple_bind (R := fun (r : NodeExec) s => Before ver x row w s ∧
    r.pk = row.pk) ?_ fun r => ?_
  · unfold cancel_answer
    split
    · refine triple_bind triple_cancel_adapter fun answer => ?_
      split
      · exact triple_pure fun _ h => ⟨h, (apply_unit_output_sameIdentity _ _ _ _).pk⟩
      · exact triple_pure fun _ h => ⟨h, herr row⟩
    · exact triple_pure fun _ h => ⟨h, rfl⟩
  · intro s hs
    have hsave : Triple (Before ver x row w) (save env (cancelled_row env user_id message r)
        (cancelFields user_id)) (fun _ => After ver x row w) (Touched ver [row] w) :=
      triple_save hs.2 (fun _ h => h) fun s _ =>
        .cancel hunfinished (by simp [NodeExec.write, cancelFields, cancelled_row])
    exact hsave.conseq (fun _ h => h) (fun _ _ h => h.touched) (fun _ h => h) s hs.1

/-- The steps so far, within the current execution. -/
structure Live (ver : DagVersion) (x : Execution) (w₀ w : World) : Prop where
  moves : Moves ver w₀ w
  execution : w.execution = some x

/-- A call begins live. -/
theorem Live.start {w : World} (hx : w.execution = some x) : Live ver x w w := ⟨.refl w, hx⟩

/-- Touching rows keeps it live. -/
theorem Live.touched {rows : List NodeExec} {w w' : World} (h : Live ver x w₀ w)
    (ht : Touched ver rows w w') : Live ver x w₀ w' :=
  ⟨h.moves.trans ht.moves, ht.execution.trans h.execution⟩

theorem Live.step {w w' : World} (h : Live ver x w₀ w) (hs : Step ver w w')
    (hx : w'.execution = w.execution) : Live ver x w₀ w' := ⟨h.moves.tail hs, hx.trans h.execution⟩

/-- Loaded rows are distinct. -/
theorem loaded_nodup (w : World) (p : NodeExec → Bool) : ((w.rows.filter p).map (·.pk)).Nodup :=
  w.table.pk_nodup.sublist (List.filter_sublist.map _)

/-- A first row stays one while its state and output stay. -/
theorem FirstRow.of_sameIdentity {n : Node} {r base : NodeExec} (h : FirstRow x n base)
    (hid : r.SameIdentity base) (hstate : r.adapter_state = base.adapter_state)
    (hout : r.output = base.output) : FirstRow x n r where
  node_key := hid.node_key.trans h.node_key
  node_type := hid.node_type.trans h.node_type
  attempt_no := hid.attempt_no.trans h.attempt_no
  adapter_state := hstate.trans h.adapter_state
  output := hout.trans h.output
  fail_strategy := hid.fail_strategy.trans h.fail_strategy

/-- Rows of a runnable node are first rows. -/
theorem firstRow_of_runnable_rows {env : Env} {n : Node} {user_id : Option Int} {r : NodeExec}
    (h : r ∈ runnable_rows env x user_id n) : FirstRow x n r := by
  unfold runnable_rows at h
  simp only at h
  split_ifs at h
  · obtain ⟨base, hbase, rfl⟩ := List.mem_map.mp h
    exact (firstRow_of_prep hbase).1.of_sameIdentity (by constructor <;> rfl) rfl rfl
  · exact (firstRow_of_prep h).1

/-- A runnable end node has succeeded at once. -/
theorem runnable_rows_status {env : Env} {n : Node} {user_id : Option Int} {r : NodeExec}
    (h : r ∈ runnable_rows env x user_id n) (hend : n.node_type = "end") : r.status = .SUCCESS := by
  simp only [runnable_rows, hend, if_true, List.mem_map] at h
  obtain ⟨base, _, rfl⟩ := h
  rfl

/-- Rows of a start node are first rows and have succeeded. -/
theorem firstRow_of_start_rows {env : Env} {user_id : Option Int} {r : NodeExec}
    (h : r ∈ start_rows env x ver.dag user_id) :
    ∃ n ∈ ver.dag.nodes, n.node_type = "start" ∧ FirstRow x n r ∧ r.status = .SUCCESS := by
  unfold start_rows at h
  simp only [List.mem_flatMap, List.mem_filter, List.mem_map, decide_eq_true_eq] at h
  obtain ⟨n, ⟨hn, htype⟩, base, hbase, rfl⟩ := h
  have hf := (firstRow_of_prep hbase).1
  exact ⟨n, hn, htype, hf.of_sameIdentity (by constructor <;> rfl) rfl rfl, rfl⟩

/-- The rows of the runnable keys are created for a reason. -/
theorem createdRow_of_rows_for_keys {env : Env} {user_id : Option Int} {rows : List NodeExec}
    {r : NodeExec}
    (h : r ∈ rows_for_keys env x ver.dag user_id (node_rows rows)
      (compute_next_runnables ver.dag (node_rows rows) (refresh_ctx rows (_build_edge_ctx x ver))
        x.fail_strategy).1) : CreatedRow ver x rows r := by
  unfold rows_for_keys at h
  obtain ⟨key, hkey, hr⟩ := List.mem_flatMap.mp h
  split_ifs at hr with hnone
  · cases hr
  have hrun := runnable_of_mem hkey
  split at hr
  · cases hr
  rename_i n hn
  obtain ⟨n', hn', hstart, _⟩ := hrun.node
  obtain rfl : n = n' := Option.some.inj (hn.symm.trans hn')
  obtain ⟨hmem, rfl⟩ := ver.dag.node?_eq_some_iff.mp hn
  refine ⟨n, hmem, ?_, firstRow_of_runnable_rows hr, fun htype => ?_⟩
  rotate_left
  · exact runnable_rows_status hr (htype.resolve_left hstart)
  by_cases hend : n.node_type = "end"
  · exact .reach_end hend hrun
  · exact .node hstart hend (by simpa using hnone) hkey

/-- What has happened once `rows` were created over the rows `before`. -/
structure Creation (before rows created : List NodeExec) (w : World) : Prop where
  entry : ∀ c ∈ created, { act := .create rows, before } ∈ w.log
  mem : ∀ y, y ∈ w.rows ↔ y ∈ created ∨ y ∈ before
  row_of_mem : ∀ c ∈ created, ∃ r ∈ rows, c = { r with pk := c.pk }
  pk_lt : ∀ c ∈ created, ∀ b ∈ before, b.pk < c.pk
  pk_nodup : (created.map (·.pk)).Nodup
  filter : ∀ p : NodeExec → Bool, (∀ r ∈ rows, ∀ n, p { r with pk := n } = false) →
    w.rows.filter p = before.filter p

/-- Creating rows: a creation, or the state before. -/
theorem triple_create_rows {rows before : List NodeExec}
    (hrows : ∀ r ∈ rows, CreatedRow ver x before r) :
    Triple (fun w => Live ver x w₀ w ∧ w.rows = before) (create_rows rows)
      (fun created w => Live ver x w₀ w ∧ Creation before rows created w) (Live ver x w₀) := by
  unfold create_rows
  split_ifs with hnone
  · refine triple_pure fun w hw => ⟨hw.1, ?_⟩
    constructor <;> simp [hw.2]
  refine triple_bind triple_record_noted fun _ => triple_bulk_create ?_ ?_
  · rintro w table created ⟨hw, rfl⟩ hins
    have hc := Table.bulk_create_created hins
    refine ⟨hw.step (.insert _ hw.execution hrows hins) rfl, ?_⟩
    exact ⟨fun _ _ => List.mem_append_right _ (List.mem_singleton.mpr rfl), hc.mem, hc.row_of_mem,
      fun c hcm b hb => hc.pk_lt hcm hb, hc.pk_nodup, hc.filter⟩
  · rintro w ⟨hw, rfl⟩
    exact hw.step (.note _ hw.execution hrows) rfl

/-- Writing candidates and their children keeps what `Since` says. -/
theorem Since.touched {before candidates : List NodeExec} {keys : List String} {w w' : World}
    (h : Since before keys w.rows) (ht : Touched ver candidates w w')
    (hpk : ∀ b ∈ before, b.status.terminal = true → b.pk ∉ candidates.map (·.pk))
    (hcand : ∀ a ∈ candidates, a.node_key ∈ keys ∨
      (a ∈ before ∧ a.status = .PENDING ∧ is_loop_child a = true)) : Since before keys w'.rows where
  kept b hb hterm := ht.kept b (h.kept b hb hterm) (hpk b hb hterm)
  origin r hr := by
    obtain hr | ⟨a, ha, hrpk, hrkey⟩ | ⟨hpending, hchild, a, ha, i, hrkey⟩ := ht.origin r hr
    · exact h.origin r hr
    · obtain hkey | ⟨hb, hp, hc⟩ := hcand a ha
      · exact Or.inr (Or.inl (hrkey ▸ hkey))
      · exact Or.inr (Or.inr (Or.inl ⟨a, hb, hrpk.symm, hrkey.symm, hp, hc⟩))
    · refine Or.inr (Or.inr (Or.inr ⟨hpending, hchild, a.node_key, i, hrkey, ?_⟩))
      obtain hkey | ⟨hb, hp, hc⟩ := hcand a ha
      · exact Or.inl hkey
      · exact Or.inr ⟨a, hb, rfl, hp, hc⟩

theorem ne_pending_of_terminal {s : Status} (h : s.terminal = true) : s ≠ .PENDING := by
  rintro rfl
  cases h

/-- Dispatching the created rows and the pending loop children writes only these,
and every row of before that was not pending stays. -/
theorem dispatch_pending_touched (ver : DagVersion) {before rows created : List NodeExec}
    (pending : List NodeExec) (env : Env) (ctx : EdgeCtx) (user_id : Option Int) {w : World}
    (hx : w.execution = some x) (hcreation : Creation before rows created w)
    (hrows : ∀ r ∈ rows, ∃ n, FirstRow x n r)
    (hpending : ∀ r ∈ pending, r ∈ w.rows ∧ r.status = .PENDING ∧ is_loop_child r = true)
    (hnodup : (pending.map (·.pk)).Nodup) :
    Touched ver (created ++ pending) w
        (_dispatch_pending env x ver.dag (created ++ pending) ctx user_id w).2 ∧
      ∀ b ∈ before, b.status ≠ .PENDING →
        b ∈ (_dispatch_pending env x ver.dag (created ++ pending) ctx user_id w).2.rows := by
  have hfirst : ∀ c ∈ created, c.attempt_no = 1 ∧ c.adapter_state = [] ∧
      c.node_key ∈ rows.map (·.node_key) := by
    intro c hc
    obtain ⟨r, hr, heq⟩ := hcreation.row_of_mem c hc
    obtain ⟨n, hf⟩ := hrows r hr
    have hkey : c.node_key = r.node_key := by rw [heq]
    refine ⟨?_, ?_, hkey ▸ List.mem_map_of_mem hr⟩ <;> rw [heq]
    · exact hf.attempt_no
    · exact hf.adapter_state
  have hflag : ∀ c ∈ created, is_loop_child c = false := by
    intro c hc
    simp [is_loop_child, (hfirst c hc).2.1, getJson, Json.truthy]
  have hold : ∀ r ∈ pending, r ∈ before := by
    intro r hr
    obtain hc | hb := (hcreation.mem r).mp (hpending r hr).1
    · exact absurd (hpending r hr).2.2 (by simp [hflag r hc])
    · exact hb
  have hcand : ∀ a ∈ created ++ pending, a.node_key ∈ rows.map (·.node_key) ∨
      (a ∈ before ∧ a.status = .PENDING ∧ is_loop_child a = true) := by
    intro a ha
    obtain hc | hp := List.mem_append.mp ha
    · exact Or.inl (hfirst a hc).2.2
    · exact Or.inr ⟨hold a hp, (hpending a hp).2⟩
  have hpk : ∀ b ∈ before, b.status ≠ .PENDING → b.pk ∉ (created ++ pending).map (·.pk) := by
    intro b hb hne hmem
    obtain ⟨a, ha, hab⟩ := List.mem_map.mp hmem
    obtain hc | hp := List.mem_append.mp ha
    · have := hcreation.pk_lt a hc b hb
      omega
    · obtain rfl := w.table.eq_of_pk (hpending a hp).1 ((hcreation.mem b).mpr (Or.inr hb)) hab
      exact hne (hpending a hp).2.1
  have hinit : Since before (rows.map (·.node_key)) w.rows := by
    constructor
    · exact fun b hb _ => (hcreation.mem b).mpr (Or.inr hb)
    · intro y hy
      obtain hc | hb := (hcreation.mem y).mp hy
      · exact Or.inr (Or.inl (hfirst y hc).2.2)
      · exact Or.inl hb
  have hall : ((created ++ pending).map (·.pk)).Nodup := by
    rw [List.map_append, List.nodup_append]
    refine ⟨hcreation.pk_nodup, hnodup, ?_⟩
    intro i hi j hj hij
    obtain ⟨c, hc, rfl⟩ := List.mem_map.mp hi
    obtain ⟨p, hp, rfl⟩ := List.mem_map.mp hj
    have := hcreation.pk_lt c hc p (hold p hp)
    omega
  have hloop : Touched ver (created ++ pending) w
      (Prog.forEach (dispatch_row env x ver.dag ctx user_id) (created ++ pending) w).2 := by
    refine touched_forEach (I := fun s => (s.execution = some x ∧ w.log <+: s.log) ∧
      Since before (rows.map (·.node_key)) s.rows) hall ?_ ?_ ⟨⟨hx, List.prefix_refl _⟩, hinit⟩ ?_
    · intro a ha s hs hin
      refine dispatch_row_touched env ctx user_id a s hs.1.1 hin fun _ => ?_
      obtain hc | hp := List.mem_append.mp ha
      · exact .created rows before (hs.1.2.subset (hcreation.entry a hc))
          (hcreation.row_of_mem a hc)
          (hfirst a hc).1 hs.2
      · exact .child (hpending a hp).2.2
    · intro s s' hs ht
      exact ⟨⟨ht.execution.trans hs.1.1, hs.1.2.trans ht.moves.log_grows⟩,
        hs.2.touched ht (fun b hb hterm => hpk b hb (ne_pending_of_terminal hterm)) hcand⟩
    · intro a ha
      obtain hc | hp := List.mem_append.mp ha
      · exact (hcreation.mem a).mpr (Or.inl hc)
      · exact (hpending a hp).1
  have hstate : (_dispatch_pending env x ver.dag (created ++ pending) ctx user_id w).2 =
      (Prog.forEach (dispatch_row env x ver.dag ctx user_id) (created ++ pending) w).2 := by
    change (andThen _ _ w).2 = _
    unfold andThen
    rcases Prog.forEach (dispatch_row env x ver.dag ctx user_id)
      (created ++ pending) w with ⟨_ | _, s⟩ <;> rfl
  rw [hstate]
  exact ⟨hloop, fun b hb hne => hloop.kept b ((hcreation.mem b).mpr (Or.inr hb)) (hpk b hb hne)⟩

end taurus.engine.runner
