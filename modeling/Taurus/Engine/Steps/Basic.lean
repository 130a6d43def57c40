import Taurus.Lib.History
import Taurus.Engine.Tables
import Taurus.Engine.Executor.Runnables
import Taurus.Engine.Runner.Runs

namespace taurus.engine.runner

open taurus.lib taurus.lib.history taurus.python taurus.engine.executor

/-- The rows an act inserts into the table. -/
def Act.rows : Act → List NodeExec
  | .create rows | .retry _ rows | .expand _ rows | .skip _ _ rows => rows
  | .dispatch _ | .poll _ | .cancel _ | .aggregate _ => []

/-- The row an act hands to its adapter for the first time. -/
def Act.dispatched? : Act → Option NodeExec
  | .dispatch row => some row
  | _ => none

/-- The loop parent an act aggregates. -/
def Act.aggregated? : Act → Option NodeExec
  | .aggregate row => some row
  | _ => none

/-- The completed nodes and the new rows of a retry pass. -/
def Act.retried? : Act → Option (List String × List NodeExec)
  | .retry completed rows => some (completed, rows)
  | _ => none

/-- The execution, the context and the new rows of a skip pass. -/
def Act.skipped? : Act → Option (Execution × EdgeCtx × List NodeExec)
  | .skip execution ctx rows => some (execution, ctx, rows)
  | _ => none

@[simp] theorem Act.dispatched?_eq_some {act : Act} {row : NodeExec} :
    act.dispatched? = some row ↔ act = .dispatch row := by cases act <;> simp [Act.dispatched?]

@[simp] theorem Act.aggregated?_eq_some {act : Act} {row : NodeExec} :
    act.aggregated? = some row ↔ act = .aggregate row := by cases act <;> simp [Act.aggregated?]

@[simp] theorem Act.retried?_eq_some {act : Act} {p : List String × List NodeExec} :
    act.retried? = some p ↔ act = .retry p.1 p.2 := by
  obtain ⟨completed, rows⟩ := p
  cases act <;> simp [Act.retried?]

@[simp] theorem Act.skipped?_eq_some {act : Act} {p : Execution × EdgeCtx × List NodeExec} :
    act.skipped? = some p ↔ act = .skip p.1 p.2.1 p.2.2 := by
  obtain ⟨execution, ctx, rows⟩ := p
  cases act <;> simp [Act.skipped?]

/-- The execution strategy as the runnable computation takes it. -/
def Execution.strategy (x : Execution) : String :=
  if x.fail_strategy = "" then "fail_fast" else x.fail_strategy

/-- What no later call changes in an execution. -/
structure SameRun (a b : Execution) : Prop where
  pk : a.pk = b.pk
  fail_strategy : a.fail_strategy = b.fail_strategy
  global_timeout_sec : a.global_timeout_sec = b.global_timeout_sec
  trigger_params : a.trigger_params = b.trigger_params

/-- A row as it is created for the first attempt of a node. -/
structure FirstRow (x : Execution) (n : Node) (r : NodeExec) : Prop where
  node_key : r.node_key = n.node_key
  node_type : r.node_type = n.node_type
  attempt_no : r.attempt_no = 1
  adapter_state : r.adapter_state = []
  output : r.output = []
  fail_strategy : r.fail_strategy = resolve_node_fail_strategy n.fail_strategy x.strategy

/-- Why rows of a node may be created when the table holds `rows`. -/
inductive Startable (ver : DagVersion) (x : Execution) (rows : List NodeExec) (n : Node) : Prop
  /-- the trigger reaches the start nodes of an empty table -/
  | start (htype : n.node_type = "start") (hempty : rows = [])
  /-- a business node without rows is runnable in the refreshed context -/
  | node (hstart : n.node_type ≠ "start") (hend : n.node_type ≠ "end")
      (hnew : node_rows rows n.node_key = [])
      (hrun : n.node_key ∈ (compute_next_runnables ver.dag (node_rows rows)
        (refresh_ctx rows (_build_edge_ctx x ver)) x.fail_strategy).1)
  /-- an end node is runnable -/
  | reach_end (htype : n.node_type = "end")
      (hrun : Runnable ver.dag (node_rows rows) x.strategy n.node_key)

/-- A row the runner may create when the table holds `rows`: control nodes are
reached at once. -/
def CreatedRow (ver : DagVersion) (x : Execution) (rows : List NodeExec) (r : NodeExec) : Prop :=
  ∃ n ∈ ver.dag.nodes, Startable ver x rows n ∧ FirstRow x n r ∧
    (n.node_type = "start" ∨ n.node_type = "end" → r.status = .SUCCESS)

/-- How the rows of a table may have changed since a create entry of the same phase:
`keys` are the keys of the rows it created. -/
structure Since (before : List NodeExec) (keys : List String) (now : List NodeExec) : Prop where
  kept : ∀ b ∈ before, b.status.terminal = true → b ∈ now
  origin : ∀ x ∈ now, x ∈ before ∨ x.node_key ∈ keys ∨
    (∃ b ∈ before, b.pk = x.pk ∧ b.node_key = x.node_key ∧ b.status = .PENDING ∧
      is_loop_child b = true) ∨
    (x.status = .PENDING ∧ is_loop_child x = true ∧ ∃ p i, x.node_key = childKey p i ∧
      (p ∈ keys ∨ ∃ b ∈ before, b.node_key = p ∧ b.status = .PENDING ∧ is_loop_child b = true))

/-- A stored row the runner may hand to its adapter: a pending loop child, or a row
created earlier in the same phase. -/
inductive Candidate (log : List Entry) (rows : List NodeExec) (r : NodeExec) : Prop
  | child (h : is_loop_child r = true)
  | created (created before : List NodeExec) (hlog : { act := .create created, before } ∈ log)
      (hrow : ∃ c ∈ created, r = { c with pk := r.pk }) (hattempt : r.attempt_no = 1)
      (hsince : Since before (created.map (·.node_key)) rows)

/-- The child rows of one expanded loop row. -/
structure ChildRow (parent r : NodeExec) : Prop where
  node_key : ∃ i, r.node_key = childKey parent.node_key i
  attempt_no : r.attempt_no = 1
  status : r.status = .PENDING
  loop_child : is_loop_child r = true
  host_id : r.host_id = parent.host_id

/-- No row of `rows` is lost in `rows'`. -/
def KeepsRows (rows rows' : List NodeExec) : Prop := ∀ b ∈ rows, ∃ r ∈ rows', r.SameIdentity b

/-- Rows that are all still there are kept. -/
theorem KeepsRows.of_subset {rows rows' : List NodeExec} (h : rows ⊆ rows') :
    KeepsRows rows rows' :=
  fun b hb => ⟨b, h hb, .refl b⟩

theorem KeepsRows.refl (rows : List NodeExec) : KeepsRows rows rows :=
  .of_subset (List.Subset.refl _)

theorem KeepsRows.trans {rows rows' rows'' : List NodeExec} (h : KeepsRows rows rows')
    (h' : KeepsRows rows' rows'') : KeepsRows rows rows'' := by
  intro b hb
  obtain ⟨r, hr, hrb⟩ := h b hb
  obtain ⟨s, hs, hsr⟩ := h' r hr
  exact ⟨s, hs, hsr.trans hrb⟩

/-- The context the skip pass may go by: one refreshed from rows of which the table
still has all terminal ones, unless a loop was aggregated, and with the statuses
of the runnable computation. -/
def SkipContext (ver : DagVersion) (x : Execution) (log : List Entry) (rows : List NodeExec)
    (ctx : EdgeCtx) : Prop :=
  ∃ rows₀, KeepsRows rows₀ rows ∧
    ((∀ b ∈ rows₀, b.status.terminal = true → b ∈ rows) ∨ ∃ e ∈ log, ∃ r, e.act = .aggregate r) ∧
    (ctx = refresh_ctx rows₀ (_build_edge_ctx x ver) ∨
      ctx = (compute_next_runnables ver.dag (node_rows rows₀)
        (refresh_ctx rows₀ (_build_edge_ctx x ver)) x.fail_strategy).2)

/-- Why the loop row of key `key` may be expanded: it was dispatched as a loop child, or
it was created earlier in the same phase and dispatched. -/
inductive Expandable (log : List Entry) (rows : List NodeExec) (key : String) : Prop
  | child (e : Entry) (he : e ∈ log) (row : NodeExec) (hact : e.act = .dispatch row)
      (hkey : row.node_key = key) (hchild : is_loop_child row = true)
  | created (created before : List NodeExec) (hlog : { act := .create created, before } ∈ log)
      (hkey : key ∈ created.map (·.node_key))
      (hsince : Since before (created.map (·.node_key)) rows)
      (hdispatched : ∃ e ∈ log, ∃ row, e.act = .dispatch row ∧ row.node_key = key)

/-- The row of an expanded key was dispatched. -/
theorem Expandable.dispatched {log : List Entry} {rows : List NodeExec} {key : String}
    (h : Expandable log rows key) :
    ∃ e ∈ log, ∃ row, e.act = .dispatch row ∧ row.node_key = key := by
  cases h with
  | child e he row hact hkey hchild => exact ⟨e, he, row, hact, hkey⟩
  | created created before hlog hkey hsince hdispatched => exact hdispatched

/-- When the runner performs an act: `rows` are the stored rows, `log` the history. -/
def Noted (ver : DagVersion) (x : Execution) (log : List Entry) (rows : List NodeExec) : Act → Prop
  | .dispatch row => ∃ r ∈ rows, row.SameIdentity r ∧ row.adapter_state = r.adapter_state ∧
      r.status = .PENDING ∧ Candidate log rows r
  | .poll _ | .cancel _ => True
  | .create created => ∀ r ∈ created, CreatedRow ver x rows r
  | .retry completed created => ∃ env user_id,
      created = retry_rows env x ver.dag completed user_id rows
  | .expand parent created => Expandable log rows parent.node_key ∧
      (∃ r ∈ rows, parent.SameIdentity r) ∧ ∀ r ∈ created, ChildRow parent r
  | .aggregate row => row ∈ rows ∧ is_loop_parent row = true ∧
      ∀ c ∈ child_rows rows row.node_key, c.status.terminal = true
  | .skip y ctx created => y = x ∧ SkipContext ver x log rows ctx ∧ ∃ env user_id,
      created = skip_inserts env x ver.dag rows ctx user_id

/-- What a save may turn the stored row `old` into. -/
inductive Write (log : List Entry) (rows : List NodeExec) (old new : NodeExec) : Prop
  | poll (h : old.status = .RUNNING) (hnew : new.status ∈ VALID_TRANSITIONS .RUNNING)
  | refuse (h : old.status = .PENDING) (hnew : new.status = .FAILED)
    (hcand : Candidate log rows old)
  | dispatch (h : old.status = .PENDING) (hnew : new.status ∈ VALID_TRANSITIONS .RUNNING)
      (hcand : Candidate log rows old)
  | cancel (h : is_unfinished old = true) (hnew : new.status = .CANCELLED)
  | aggregate (env : Env) (hparent : is_loop_parent old = true)
      (hlog : { act := .aggregate old, before := rows } ∈ log)
      (hnew : new.status = (aggregated_row env old (child_rows rows old.node_key)).status)

/-- One observable step of the runner on an execution. -/
inductive Step (ver : DagVersion) : World → World → Prop
  | begin {w : World} (x : Execution) (h : w.execution = none) (hrows : w.rows = []) :
      Step ver w { w with execution := some x }
  | note {w : World} {x : Execution} (act : Act) (hx : w.execution = some x)
      (h : Noted ver x w.log w.rows act) : Step ver w (w.note act)
  | insert {w : World} {x : Execution} {table : Table} {created : List NodeExec} (act : Act)
      (hx : w.execution = some x) (h : Noted ver x w.log w.rows act)
      (hins : w.table.bulk_create act.rows = some (table, created)) :
      Step ver w { w.note act with table }
  | save {w : World} (old row : NodeExec) (now : Time) (fields : List Field) (hold : old ∈ w.rows)
      (hpk : row.pk = old.pk) (h : Write w.log w.rows old (old.write row now fields)) :
      Step ver w { w with table := w.table.save row now fields }
  | finish {w : World} (f : Execution → Execution) (hf : ∀ x, SameRun (f x) x) :
      Step ver w { w with execution := w.execution.map f }

/-- What a call can observe, beside the history. -/
abbrev Db : Type := Option Execution × Table

/-- The world as a system with a history: a rollback takes the database back. -/
def recorded : Recorded World Db Entry where
  view w := (w.execution, w.table)
  log := World.log
  undo := World.rollback
  view_undo _ _ := rfl
  log_undo _ _ := rfl

/-- Any number of steps, parts of which may have been rolled back. -/
def Moves (ver : DagVersion) : World → World → Prop := history.Moves recorded (Step ver)

/-- A step only adds to the log. -/
theorem Step.log_grows {ver : DagVersion} {w w' : World} (h : Step ver w w') :
    w.log <+: w'.log := by
  cases h with
  | begin | save | finish => exact List.prefix_refl _
  | note | insert => exact List.prefix_append _ _

namespace Moves

variable {ver : DagVersion} {w w₁ w₂ w' : World}

theorem refl (w : World) : Moves ver w w := history.Moves.refl w

theorem step (h : Step ver w w') : Moves ver w w' := history.Moves.step h

theorem trans (h : Moves ver w w₁) (h' : Moves ver w₁ w₂) : Moves ver w w₂ :=
  history.Moves.trans h h'

theorem tail (h : Moves ver w w₁) (h' : Step ver w₁ w₂) : Moves ver w w₂ := h.trans (.step h')

/-- A rollback keeps what the log says. -/
theorem rollback (h : Moves ver w w') : Moves ver w (w.rollback w') := history.Moves.undo h

theorem log_grows (h : Moves ver w w') : w.log <+: w'.log :=
  history.Moves.log_grows (fun _ _ h => h.log_grows) h

/-- What every entry of the history satisfies, when it holds of each act that the
runner has reason to note. -/
theorem noted_entries {C P : Entry → Prop} {T : Db → Prop}
    (hstep : ∀ w w', Step ver w w' → (∀ e ∈ w'.log, C e) → T (recorded.view w) →
      T (recorded.view w'))
    (hnoted : ∀ (w : World) (x : Execution) (act : Act), w.execution = some x →
      T (recorded.view w) →
      (∀ e ∈ w.log, C e) → C { act, before := w.rows } → Noted ver x w.log w.rows act →
      P { act, before := w.rows })
    (h : Moves ver w w') (hC : ∀ e ∈ w'.log, C e) (hT : T (recorded.view w))
    (hP : ∀ e ∈ w.log, P e) :
    ∀ e ∈ w'.log, P e := by
  refine history.Moves.entries (fun _ _ h => h.log_grows) hstep ?_ h hC hT hP
  intro w w' hw hC hT hP e he
  have hadd : ∀ (x : Execution) (act : Act), w.execution = some x →
      (∀ e ∈ w.log ++ [{ act, before := w.rows }], C e) → Noted ver x w.log w.rows act →
      e ∈ w.log ++ [{ act, before := w.rows }] → P e := by
    intro x act hx hC h hmem
    obtain hold | hnew := List.mem_append.mp hmem
    · exact hP e hold
    · obtain rfl := List.mem_singleton.mp hnew
      exact hnoted w x act hx hT (fun e he => hC e (List.mem_append_left _ he)) (hC _ hmem) h
  cases hw with
  | begin | save | finish => exact hP e he
  | note act hx h => exact hadd _ act hx hC h he
  | insert act hx h hins => exact hadd _ act hx hC h he

end Moves

/-- The rows of a node's first attempt. -/
theorem firstRow_of_prep {env : Env} {x : Execution} {n : Node} {user_id : Option Int}
    {r : NodeExec} (h : r ∈ _prep_node_rows env x n user_id) :
    FirstRow x n r ∧ (r.status = .PENDING ∨ r.status = .FAILED) := by
  unfold _prep_node_rows at h
  cases hhosts : expand_hosts n with
  | nil =>
    simp only [hhosts, List.mem_singleton] at h
    subst h
    exact ⟨by constructor <;> rfl, Or.inr rfl⟩
  | cons host rest =>
    simp only [hhosts, List.mem_map] at h
    obtain ⟨hid, _, rfl⟩ := h
    exact ⟨by constructor <;> rfl, Or.inl rfl⟩

end taurus.engine.runner
