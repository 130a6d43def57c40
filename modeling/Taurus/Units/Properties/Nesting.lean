import Taurus.Engine.Steps.Calls
import Taurus.Units.SubWorkflow

namespace taurus.units

open taurus.lib taurus.lib.Prog taurus.python taurus.engine taurus.engine.runner
open SubWorkflowAdapter (plan child_params _compute_nesting_depth)

variable {site : Site} {py : Reprs} {env : Env} {ver : DagVersion} {pk : Nat}
  {trigger_params : Dict String Json}
  {cfg : RenderedNodeConfig} {call : ChildCall} {beyond beyond' : Except Exn TriggerResult}

/-- The depth of an execution that has these trigger params; a top-level one has none in them. -/
def HasDepth (trigger_params : Dict String Json) (depth : Nat) : Prop :=
  Dict.get? trigger_params "__nesting_depth__" = if depth = 0 then none else some (.int depth)

/-- A child is one level deeper than its parent. -/
theorem compute_nesting_depth_within {depth : Nat} (h : HasDepth trigger_params depth) :
    _compute_nesting_depth (site.within pk trigger_params) pk = depth + 1 := by
  have hfound : (site.within pk trigger_params).execution_params pk =
    some trigger_params := if_pos rfl
  unfold _compute_nesting_depth
  rw [hfound]
  unfold HasDepth at h
  by_cases hzero : depth = 0
  · rw [if_pos hzero] at h
    simp only [h, hzero]
    rfl
  · rw [if_neg hzero] at h
    simp only [h]
    rfl

/-- A call that `dispatch` makes is for an execution that is one deeper, and not too deep. -/
theorem plan_call {depth : Nat} (h : HasDepth trigger_params depth) (hcfg : cfg.execution_id = pk)
    (hcall : plan (site.within pk trigger_params) py cfg = .ok (.inr call)) :
    ((depth + 1 : Nat) : Int) ≤ MAX_NESTING_DEPTH ∧ HasDepth call.trigger_params (depth + 1) := by
  have hdepth : _compute_nesting_depth (site.within pk trigger_params) pk = depth + 1 :=
    compute_nesting_depth_within h
  unfold plan at hcall
  rw [hcfg, hdepth] at hcall
  simp only at hcall
  split at hcall
  · cases hcall
  · cases hwf : (site.within pk trigger_params).workflow (getJson cfg.params "sub_workflow_id") with
    | error e =>
      rw [hwf] at hcall
      cases hcall
    | ok found =>
      rw [hwf] at hcall
      simp only [bind, Except.bind] at hcall
      split at hcall
      · cases hcall
      · split at hcall
        · cases hcall
        · split at hcall
          · cases hcall
          · split at hcall
            · cases hcall
            · rename_i hle
              split at hcall
              · obtain rfl := Sum.inr.inj (Except.ok.inj hcall)
                refine ⟨by omega, ?_⟩
                unfold HasDepth
                rw [if_neg (Nat.succ_ne_zero depth)]
                exact (Dict.get?_set_self _ _ _).trans (by push_cast; rfl)
              · cases hcall

/-! The recursion through `trigger_workflow` ends. -/

/-- Only the calls that `dispatch` makes matter. -/
theorem dispatch_congr {trigger trigger' : RenderedNodeConfig → ChildCall → Except Exn TriggerResult}
    (h : ∀ call, plan site py cfg = .ok (.inr call) → trigger cfg call = trigger' cfg call) :
    SubWorkflowAdapter.dispatch site py env trigger cfg =
      SubWorkflowAdapter.dispatch site py env trigger' cfg := by
  unfold SubWorkflowAdapter.dispatch
  cases hplan : plan site py cfg with
  | error e => rfl
  | ok answer =>
    cases answer with
    | inl uo => rfl
    | inr call =>
      simp only [bind, Except.bind]
      rw [h call hplan]

/-- Only the trigger of children matters below the limit. -/
theorem with_sub_workflows_congr {depth : Nat}
    {trigger trigger' : RenderedNodeConfig → ChildCall → Except Exn TriggerResult}
    (hdepth : HasDepth trigger_params depth)
    (h : ∀ cfg call, ((depth + 1 : Nat) : Int) ≤ MAX_NESTING_DEPTH →
      HasDepth call.trigger_params (depth + 1) →
      trigger cfg call = trigger' cfg call) :
    with_sub_workflows site py env pk trigger_params trigger =
      with_sub_workflows site py env pk trigger_params trigger' := by
  unfold with_sub_workflows
  congr 1
  funext node_type
  split_ifs
  · congr 1
    funext others
    congr 1
    funext cfg
    refine dispatch_congr fun call hcall => ?_
    obtain ⟨hle, hchild⟩ := plan_call hdepth rfl hcall
    exact h _ call hle hchild
  · rfl

/-- Beyond the depth that is left no execution is triggered. -/
theorem nested_eq {levels levels' depth : Nat} (hdepth : HasDepth trigger_params depth)
    (hlevels : MAX_NESTING_DEPTH ≤ (levels + depth : Nat))
    (hlevels' : MAX_NESTING_DEPTH ≤ (levels' + depth : Nat)) :
    nested site py beyond levels env pk trigger_params =
      nested site py beyond' levels' env pk trigger_params := by
  induction levels generalizing levels' depth env pk trigger_params with
  | zero =>
    have hnone : ¬ ((depth + 1 : Nat) : Int) ≤ MAX_NESTING_DEPTH := by omega
    cases levels' with
    | zero => exact with_sub_workflows_congr hdepth fun cfg call hle => absurd hle hnone
    | succ levels' => exact with_sub_workflows_congr hdepth fun cfg call hle => absurd hle hnone
  | succ levels ih =>
    cases levels' with
    | zero =>
      have hnone : ¬ ((depth + 1 : Nat) : Int) ≤ MAX_NESTING_DEPTH := by omega
      exact with_sub_workflows_congr hdepth fun cfg call hle => absurd hle hnone
    | succ levels' =>
      refine with_sub_workflows_congr hdepth fun cfg call _ hchild => ?_
      have hnested : nested site py beyond levels env (site.new_execution cfg) call.trigger_params =
          nested site py beyond' levels' env (site.new_execution cfg) call.trigger_params :=
          ih hchild (by omega) (by omega)
      simp only [hnested]

/-! The runs of an execution. -/

/-- What lies outside the runner during a call on an execution: the sub-workflows of sub-workflows
are triggered in turn, as deep as the adapter allows. -/
def surroundings (site : Site) (py : Reprs) (env : Env) (pk : Nat)
    (trigger_params : Dict String Json) : Env :=
  nested site py (.error (.other "RecursionError" "maximum recursion depth exceeded"))
    MAX_NESTING_DEPTH.toNat env pk trigger_params

/-- A call on the execution `pk` with these trigger params, whenever and whatever the
adapters answer. -/
def Made (py : Reprs) (pk : Nat) (trigger_params : Dict String Json) : Call → Prop
  | .trigger env execution_id params _ _ _ => execution_id = pk ∧ params = trigger_params ∧
      ∃ site env₀, env = surroundings site py env₀ pk trigger_params
  | .advance env _ | .scheduled env | .cancel env _ =>
    ∃ site env₀, env = surroundings site py env₀ pk trigger_params

/-- The worlds of the execution in its runs. -/
def Lives (py : Reprs) (ver : DagVersion) (pk : Nat) (trigger_params : Dict String Json) :
    World → Prop :=
  Relation.ReflTransGen (fun w w' => ∃ c : Call, c.Enabled w ∧ Made py pk trigger_params c ∧
    w' = c.run ver w) .initial

/-- The row of the execution, if there is one, is that with the primary key and the params. -/
def IsRowOf (pk : Nat) (trigger_params : Dict String Json) (w : World) : Prop :=
  ∀ x, w.execution = some x → x.pk = pk ∧ x.trigger_params = trigger_params

/-- A row stays in its execution. -/
theorem isRowOf_of_moves {w w' : World} {x : Execution} (h : Moves ver w w')
    (hx : w.execution = some x) (hw : IsRowOf pk trigger_params w) :
    IsRowOf pk trigger_params w' := by
  have hkept : ∃ y, w'.execution = some y ∧ y.pk = pk ∧ y.trigger_params = trigger_params := by
    refine history.Moves.invariant (R := recorded) (C := fun _ => True)
      (T := fun s => ∃ y, s.1 = some y ∧ y.pk = pk ∧ y.trigger_params = trigger_params)
      (fun _ _ h => h.log_grows) ?_ h (fun _ _ => trivial) ⟨x, hx, hw x hx⟩
    rintro s s' hstep - ⟨y, hy, hpk, hparams⟩
    cases hstep with
    | begin x h => cases h.symm.trans hy
    | note | insert | save => exact ⟨y, hy, hpk, hparams⟩
    | finish f hf =>
      exact ⟨f y, congrArg (Option.map f) hy, (hf y).pk.trans hpk,
        (hf y).trigger_params.trans hparams⟩
  obtain ⟨y, hy, hkept⟩ := hkept
  intro x' hx'
  obtain rfl := Option.some.inj (hy.symm.trans hx')
  exact hkept

/-- A triggered execution has the primary key and the params it was triggered with. -/
theorem isRowOf_trigger (env : Env) (trigger_type : String) (user_id : Option Int)
    (fail_strategy : Option String) {w : World} (hx : w.execution = none) (hrows : w.rows = []) :
    IsRowOf pk trigger_params
      (trigger_workflow env ver pk trigger_params trigger_type user_id fail_strategy w).2 := by
  have hnone : ∀ w', IsRowOf pk trigger_params (World.rollback w w') := by
    intro w' y hy
    cases hx.symm.trans hy
  unfold trigger_workflow runner.transaction atomic
  split_ifs with hnodes
  · exact hnone w
  · let x : Execution := {
      pk, status := .RUNNING, fail_strategy := resolve_fail_strategy ver.workflow fail_strategy
      global_timeout_sec := ver.workflow.global_timeout_sec, trigger_params, trigger_type }
    let begun : World := { w with execution := some x }
    have hbegun : begun.execution = some x := rfl
    have hmoves : Moves ver begun (start_execution env x ver user_id begun).2 :=
      (triple_start_execution env user_id).state ⟨.start hbegun, hrows⟩
    have hrow : IsRowOf pk trigger_params begun := by
      rintro y hy
      obtain rfl := Option.some.inj hy
      exact ⟨rfl, rfl⟩
    rw [bind_ok (rfl : modifyState _ w = (.ok (), begun))]
    have hend := isRowOf_of_moves hmoves hbegun hrow
    rcases hrun : start_execution env x ver user_id begun with ⟨_ | result, w'⟩
    · exact hnone w'
    · rw [hrun] at hend
      exact hend

/-- A row lives in a reachable state. -/
theorem Lives.reachable {w : World} (h : Lives py ver pk trigger_params w) : Reachable ver w :=
  Relation.ReflTransGen.mono (fun _ _ ⟨c, hc, _, hrun⟩ => ⟨c, hc, hrun⟩) _ _ h

theorem Lives.isRowOf {w : World} (h : Lives py ver pk trigger_params w) :
    IsRowOf pk trigger_params w := by
  induction h with
  | refl => exact fun x hx => by cases hx
  | @tail w w' hw hcall ih =>
    obtain ⟨c, hc, hmade, rfl⟩ := hcall
    have hempty : NoneEmpty (recorded.view w) := reachable_noneEmpty (Lives.reachable hw)
    cases hx : w.execution with
    | some x => exact isRowOf_of_moves (call_moves c hc hempty) hx ih
    | none =>
      -- there is nothing to advance or to cancel
      cases c with
      | trigger env id params type user fs =>
        obtain ⟨rfl, rfl, -⟩ := hmade
        exact isRowOf_trigger env type user fs hx (hempty hx)
      | advance env user =>
        have hsame : Call.run ver (.advance env user) w = w := by
          simp [Call.run, advance_workflow, bind_ok (rfl : getState w = _), hx, raise]
        rw [hsame]
        exact ih
      | scheduled env =>
        have hsame : (Call.run ver (.scheduled env) w).execution = w.execution := by
          simp [Call.run, scheduled_advance, runner.transaction, atomic, advance_workflow,
            bind_ok (rfl : getState w = _), hx, raise, World.rollback]
        intro y hy
        cases (hsame.trans hx).symm.trans hy
      | cancel env reason =>
        have hsame : (Call.run ver (.cancel env reason) w).execution = w.execution := by
          simp [Call.run, cancel_workflow, runner.transaction, atomic,
            bind_ok (rfl : getState w = _), hx, raise, World.rollback]
        intro y hy
        cases (hsame.trans hx).symm.trans hy

/-- The executions that a top-level one leads to, and the worlds they pass through: one
whose trigger params have no depth, and those that `dispatch` triggers for the
sub-workflow rows of another one. -/
inductive Executes (py : Reprs) : DagVersion → Nat → Dict String Json → Nat → World → Prop
  | top {ver : DagVersion} {pk : Nat} {trigger_params : Dict String Json} {w : World}
      (hkey : Dict.get? trigger_params "__nesting_depth__" = none)
      (hw : Lives py ver pk trigger_params w) :
      Executes py ver pk trigger_params 0 w
  | sub {ver : DagVersion} {pk child depth : Nat} {trigger_params : Dict String Json} {w w' : World}
      {x : Execution}
      {row : NodeExec} {call : ChildCall} (site : Site) (env : Env)
      (hparent : Executes py ver pk trigger_params depth w)
      (hx : w.execution = some x) (hrow : .dispatch row ∈ w.log.map (·.act))
      (htype : row.node_type = "sub_workflow")
      (hcall : plan (site.within pk trigger_params) py
        (_build_rendered_cfg env x row row.rendered_params) = .ok (.inr call))
      (hw : Lives py call.ver child call.trigger_params w') :
      Executes py call.ver child call.trigger_params (depth + 1) w'

/-- A row that executes lives. -/
theorem Executes.lives {depth : Nat} {w : World} (h : Executes py ver pk trigger_params depth w) :
    Lives py ver pk trigger_params w := by
  cases h with
  | top hkey hw => exact hw
  | sub site env hparent hx hrow htype hcall hw => exact hw

/-- The trigger params of an execution carry its depth, and no execution is too deep. -/
theorem Executes.hasDepth {depth : Nat} {w : World}
    (h : Executes py ver pk trigger_params depth w) :
    HasDepth trigger_params depth ∧ (depth : Int) ≤ MAX_NESTING_DEPTH := by
  induction h with
  | top hkey hw => exact ⟨hkey, by decide⟩
  | sub site env hparent hx hrow htype hcall hw ih =>
    obtain ⟨hpk, -⟩ := hparent.lives.isRowOf _ hx
    obtain ⟨hle, hchild⟩ := plan_call ih.1 hpk hcall
    exact ⟨hchild, hle⟩

/-- Sub-workflows nest at most `MAX_NESTING_DEPTH` deep, whatever refers to what, and
triggering them ends: that many levels of the recursion answer as any more would, and what lies
beyond them is never asked. -/
theorem nesting_bounded {depth : Nat} {w : World} (h : Executes py ver pk trigger_params depth w) :
    (depth : Int) ≤ MAX_NESTING_DEPTH ∧
      ∀ (site : Site) (env : Env) (beyond beyond' : Except Exn TriggerResult)
        (levels levels' : Nat), MAX_NESTING_DEPTH ≤ levels → MAX_NESTING_DEPTH ≤ levels' →
        nested site py beyond levels env pk trigger_params =
          nested site py beyond' levels' env pk trigger_params := by
  obtain ⟨hdepth, hle⟩ := h.hasDepth
  refine ⟨hle, fun site env beyond beyond' levels levels' hlevels hlevels' => ?_⟩
  exact nested_eq hdepth (by push_cast; omega) (by push_cast; omega)

/-- A workflow with itself as sub-workflow. -/
def selfNested : DagVersion where
  dag :=
    { nodes := [{ node_key := "start", node_type := "start" },
        { node_key := "again", node_type := "sub_workflow", params := [("sub_workflow_id", .int 1)] }]
      edges := [{ from_key := "start", to_key := "again" }]
      keys_nodup := by simp
      edges_closed := by simp }
  workflow := { pk := 1, name := "self nested" }

/-- A database in which it is published. -/
def selfSite : Site where
  workflow := fun _ => .ok (some { dag_published_version := some selfNested })
  execution_params := fun _ => none
  existing_sub_execution := fun _ => none
  new_execution := fun cfg => cfg.execution_id + 1

def selfEnv (minute : Int) : Env :=
  surroundings selfSite .short (scripted minute (fun _ _ => running) fun _ _ => running) 1 []

/-- The tick in which its first execution triggers the second. -/
def selfStarted : World := started selfNested (selfEnv 0) [.advance (selfEnv 1) none]

/-- The call in an answer of `plan`. -/
def call? : Except Exn (UnitOutput ⊕ ChildCall) → Option ChildCall
  | .ok (.inr call) => some call
  | _ => none

/-- The second execution is one deep. -/
theorem self_nested_bounded : ∃ (ver : DagVersion) (trigger_params : Dict String Json),
    Executes .short ver 2 trigger_params 1 .initial ∧ ((1 : Nat) : Int) ≤ MAX_NESTING_DEPTH := by
  have hlives : Lives .short selfNested 1 [] selfStarted :=
    .tail (.tail .refl ⟨.trigger (selfEnv 0) 1 [] "manual" none none, rfl, ⟨rfl, rfl, _,
      _, rfl⟩, rfl⟩)
      ⟨.advance (selfEnv 1) none, trivial, ⟨_, _, rfl⟩, rfl⟩
  have hcall : ∃ x ∈ selfStarted.execution, ∃ row ∈ selfStarted.log.filterMap (·.act.dispatched?),
      row.node_type = "sub_workflow" ∧
        ∃ call ∈ call? (plan (selfSite.within 1 []) .short
        (_build_rendered_cfg (selfEnv 1) x row row.rendered_params)),
          True := by
    decide +kernel
  obtain ⟨x, hx, row, hrow, htype, call, hcall, -⟩ := hcall
  obtain ⟨e, he, hact⟩ := List.mem_filterMap.mp hrow
  have hplan : plan (selfSite.within 1 []) .short
    (_build_rendered_cfg (selfEnv 1) x row row.rendered_params) =
      .ok (.inr call) := by
    unfold call? at hcall
    split at hcall
    · rename_i hok
      rw [hok, Option.mem_some.mp hcall]
    · cases hcall
  have hexecutes : Executes .short call.ver 2 call.trigger_params 1 .initial :=
    .sub selfSite (selfEnv 1) (.top rfl hlives) hx
      (List.mem_map.mpr ⟨e, he, Act.dispatched?_eq_some.mp hact⟩) htype hplan
      .refl
  exact ⟨_, _, hexecutes, (nesting_bounded hexecutes).1⟩

end taurus.units
