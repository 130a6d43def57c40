import Mathlib.Data.String.Basic
import Taurus.Engine.Steps.Phases

namespace taurus.engine.runner

open taurus.lib taurus.lib.Prog taurus.python taurus.engine.executor

variable {ver : DagVersion} {x : Execution} {w₀ : World}

/-- A transaction of steps is made of steps, or undone as a whole. -/
theorem transaction_moves {α : Type} {m : RunnerM α} {w : World} (h : Moves ver w (m w).2) :
    Moves ver w (transaction m w).2 := by
  unfold transaction atomic
  rcases hm : m w with ⟨_ | a, w'⟩ <;> simp only [hm] at h ⊢
  · exact h.rollback
  · exact h

/-- A call of advance is made of steps. -/
theorem advance_workflow_moves (env : Env) (user_id : Option Int) (w : World) :
    Moves ver w (advance_workflow env ver user_id w).2 := by
  refine Triple.state (P := fun s => s = w) (E := Moves ver w) ?_ rfl
  refine triple_bind (triple_getState (Q := fun s s' => s' = w ∧ s = w) fun s hs => ⟨hs, hs⟩)
    fun s => ?_
  cases hx : s.execution with
  | none => exact triple_raise fun _ hs => hs.1 ▸ Moves.refl _
  | some x =>
    refine triple_bind (R := fun _ => Live ver x w) ?_ fun polled =>
      Triple.of_state fun s' hs' => ?_
    · rintro _ ⟨rfl, rfl⟩
      exact (triple_poll_phase env).conseq (fun _ h => h) (fun _ _ h => h)
        (fun _ h => h.moves) _ (.start hx)
    · exact hs'.moves.trans (transaction_moves (advance_phases_moves env user_id _ _ hs'.execution))

theorem scheduled_advance_moves (env : Env) (w : World) :
    Moves ver w (scheduled_advance env ver w).2 :=
  transaction_moves (advance_workflow_moves env none w)

theorem cancel_workflow_moves (env : Env) (reason : Option String) (w : World) :
    Moves ver w (cancel_workflow env reason w).2 := by
  refine transaction_moves (Triple.state (P := fun s => s = w) (E := Moves ver w) ?_ rfl)
  refine triple_bind (triple_getState (Q := fun s s' => s' = w ∧ s = w) fun s hs => ⟨hs, hs⟩)
    fun s => ?_
  cases hx : s.execution with
  | none => exact triple_raise fun _ hs => hs.1 ▸ Moves.refl _
  | some x =>
    refine Triple.conseq (P := Live ver x w) (E := Live ver x w) ?_ ?_ (fun _ _ h => h)
      fun _ h => h.moves
    · refine triple_bind triple_load fun rows => ?_
      refine triple_bind (triple_cancel_rows fun _ => rfl) fun _ => ?_
      exact triple_modifyState fun s hs =>
        hs.moves.tail (.finish _ fun _ => by constructor <;> rfl)
    · rintro _ ⟨rfl, rfl⟩
      exact .start hx

/-- The end nodes that the trigger reaches after its first dispatch. -/
theorem triple_reach_end_nodes (env : Env) (user_id : Option Int) :
    Triple (Live ver x w₀) (reach_end_nodes env x ver user_id) (fun _ => Live ver x w₀)
      (Live ver x w₀) := by
  refine triple_bind (triple_getState (Q := fun s w => Live ver x w₀ w ∧ s = w)
    fun w hw => ⟨hw, rfl⟩)
    fun s => ?_
  refine triple_bind (R := fun _ w => Live ver x w₀ w ∧ s = w)
    ((triple_refresh (fun _ h => h.1) rfl rfl).conseq (fun _ h => h)
    (fun _ _ h => h.2) fun _ h => h)
    fun ctx => ?_
  simp only
  refine triple_bind (R := fun _ => Live ver x w₀) ?_ fun _ => triple_pure fun _ h => h
  set keys := (compute_next_runnables ver.dag (node_rows s.rows) ctx x.fail_strategy).1 with hkeys
  -- the rows of nodes other than end nodes stay as the computation has seen them
  refine (triple_forEach (E := Live ver x w₀) (I := fun rest w =>
    (rest ⊆ keys ∧ Live ver x w₀ w) ∧ ∀ k m, ver.dag.node? k = some m → m.node_type ≠ "end" →
      node_rows s.rows k = node_rows w.rows k) (fun key rest => ?_) keys).conseq ?_
    (fun _ _ h => h.1.2) fun _ h => h
  · rintro w ⟨⟨hsub, hw⟩, hsame⟩
    have hrest : rest ⊆ keys := fun k hk => hsub (List.mem_cons_of_mem _ hk)
    cases hn : ver.dag.node? key with
    | none => exact ⟨⟨hrest, hw⟩, hsame⟩
    | some n =>
      by_cases hend : n.node_type = "end"
      · have hkey := (ver.dag.node?_eq_some_iff.mp hn).2
        have hrun : Runnable ver.dag (node_rows w.rows) x.strategy n.node_key := by
          rw [hkey]
          exact (runnable_of_mem (hsub List.mem_cons_self)).congr_end hn hend hsame
        have hcreated : ∀ r ∈ runnable_rows env x user_id n, CreatedRow ver x w.rows r :=
          fun r hr =>
          ⟨n, (ver.dag.node?_eq_some_iff.mp hn).1, .reach_end hend hrun,
            firstRow_of_runnable_rows hr, fun _ => runnable_rows_status hr hend⟩
        simp only [ne_eq, hend, not_true_eq_false, if_false]
        refine (triple_create_rows hcreated).conseq (fun _ h => h) (fun created w' hw' => ?_)
          (fun _ h => h) w ⟨hw, rfl⟩
        refine ⟨⟨hrest, hw'.1⟩, fun k m hm hne => (hsame k m hm hne).trans ?_⟩
        refine (hw'.2.filter _ fun r hr pk => ?_).symm
        have hrkey : r.node_key = key := (firstRow_of_runnable_rows hr).node_key.trans hkey
        refine decide_eq_false fun (heq : r.node_key = k) => ?_
        obtain rfl : n = m := Option.some.inj (hn.symm.trans (hrkey ▸ heq ▸ hm))
        exact hne hend
      · simp only [ne_eq, hend, not_false_eq_true, if_true]
        exact ⟨⟨hrest, hw⟩, hsame⟩
  · rintro w ⟨hw, rfl⟩
    exact ⟨⟨List.Subset.refl _, hw⟩, fun _ _ _ _ => rfl⟩

/-- What follows the creation of an execution is made of steps. -/
theorem triple_start_execution (env : Env) (user_id : Option Int) :
    Triple (fun s => Live ver x w₀ s ∧ s.rows = []) (start_execution env x ver user_id)
      (fun _ => Moves ver w₀)
      (Moves ver w₀) := by
  have hE : ∀ s, Live ver x w₀ s → Moves ver w₀ s := fun _ h => h.moves
  unfold start_execution
  simp only
  set created := start_rows env x ver.dag user_id ++ rows_for_keys env x ver.dag user_id
    (fun _ => []) (compute_next_runnables ver.dag (fun _ => [])
    (_build_edge_ctx x ver) x.fail_strategy).1
  have hcreated : ∀ r ∈ created, CreatedRow ver x [] r := by
    intro r hr
    obtain hstart | hrun := List.mem_append.mp hr
    · obtain ⟨n, hn, htype, hf, hstatus⟩ := firstRow_of_start_rows hstart
      exact ⟨n, hn, .start htype rfl, hf, fun _ => hstatus⟩
    · exact createdRow_of_rows_for_keys hrun
  refine triple_bind ((triple_create_rows hcreated).conseq (fun _ h => h) (fun _ _ h => h) hE)
    fun inserts => ?_
  refine triple_bind (R := fun _ => Live ver x w₀)
    (Triple.conseq (Triple.of_state ?_) (fun _ h => h)
    (fun _ _ h => h) hE) fun _ => ?_
  · rintro s ⟨hs, hcreation⟩
    have hfirst : ∀ r ∈ created, ∃ n, FirstRow x n r := by
      intro r hr
      obtain ⟨n, _, _, hf, _⟩ := hcreated r hr
      exact ⟨n, hf⟩
    have h :=
      fun ctx => dispatch_pending_touched ver [] env ctx user_id hs.execution hcreation hfirst
      (by simp) (by simp)
    simp only [List.append_nil] at h
    exact hs.touched (h _).1
  refine triple_bind ((triple_reach_end_nodes env user_id).conseq (fun _ h => h)
    (fun _ _ h => h) hE)
    fun _ => ?_
  exact triple_bind (R := fun _ => Moves ver w₀)
    (Triple.of_state fun s hs => hs.moves.trans (finalize_moves env s).1) fun _ =>
    triple_pure fun _ h => h

/-- Triggering an execution is made of steps. -/
theorem trigger_workflow_moves (env : Env) (id : Nat) (params : Dict String Json) (type : String)
    (user_id : Option Int) (fail_strategy : Option String) (w : World) (hx : w.execution = none)
    (hrows : w.rows = []) :
    Moves ver w (trigger_workflow env ver id params type user_id fail_strategy w).2 := by
  refine transaction_moves (Triple.state (P := fun s => s = w) (E := Moves ver w) ?_ rfl)
  split_ifs
  · exact triple_raise fun _ hs => hs ▸ Moves.refl _
  set x : Execution := _
  refine triple_bind (R := fun _ s => Live ver x w s ∧ s.rows = []) (triple_modifyState ?_) fun _ =>
    triple_start_execution env user_id
  rintro _ rfl
  exact ⟨⟨.step (.begin x hx hrows), rfl⟩, hrows⟩

/-- The table of an execution that does not exist yet is empty. -/
def NoneEmpty (s : Db) : Prop := s.1 = none → s.2.rows = []

/-- No expansion of a node is empty along the way. -/
theorem Moves.noneEmpty {w w' : World} (h : Moves ver w w') (hw : NoneEmpty (recorded.view w)) :
    NoneEmpty (recorded.view w') := by
  refine history.Moves.invariant (C := fun _ => True) (fun _ _ h => h.log_grows) ?_ h
    (fun _ _ => trivial) hw
  intro w w' hstep _ hw
  cases hstep with
  | begin x h hrows => exact fun hnone => by cases hnone
  | note act hx h => exact fun hnone => by simp [recorded, World.note, hx] at hnone
  | insert act hx h hins => exact fun hnone => by simp [recorded, World.note, hx] at hnone
  | save old row now fields hold hpk h =>
    intro hnone
    have hrows : w.rows = [] := hw hnone
    simp [hrows] at hold
  | finish f hf =>
    intro hnone
    exact hw (by simpa [recorded] using hnone)

/-- Every call is made of steps. -/
theorem call_moves (c : Call) {w : World} (hc : c.Enabled w) (hw : NoneEmpty (recorded.view w)) :
    Moves ver w (c.run ver w) := by
  cases c with
  | trigger env id params type user fs =>
    exact trigger_workflow_moves env id params type user fs w hc (hw hc)
  | advance env user => exact advance_workflow_moves env user w
  | scheduled env => exact scheduled_advance_moves env w
  | cancel env reason => exact cancel_workflow_moves env reason w

/-- So is every run of calls. -/
theorem run_moves {w w' : World} (h : Run ver w w') (hw : NoneEmpty (recorded.view w)) :
    Moves ver w w' := by
  induction h with
  | refl => exact .refl w
  | tail _ hcall ih =>
    obtain ⟨c, hc, rfl⟩ := hcall
    exact ih.trans (call_moves c hc (ih.noneEmpty hw))

/-- Reachable states come from steps. -/
theorem reachable_moves {w : World} (h : Reachable ver w) : Moves ver .initial w :=
  run_moves h fun _ => rfl

/-- Without an execution they have no rows. -/
theorem reachable_noneEmpty {w : World} (h : Reachable ver w) : NoneEmpty (recorded.view w) :=
  (reachable_moves h).noneEmpty fun _ => rfl

end taurus.engine.runner

namespace taurus.engine

namespace NodeExec

/-- Rows are ordered by node and host, then by attempt. -/
theorem before_total (a b : NodeExec) : a.before b ∨ b.before a := by
  unfold before
  obtain hkey | hkey | hkey := lt_trichotomy a.node_key b.node_key
  · exact Or.inl (Or.inl hkey)
  · obtain hattempt | hattempt | hattempt := lt_trichotomy a.attempt_no b.attempt_no
    · exact Or.inr (Or.inr ⟨hkey.symm, Or.inl hattempt⟩)
    · obtain hpk | hpk := Nat.le_total a.pk b.pk
      · exact Or.inl (Or.inr ⟨hkey, Or.inr ⟨hattempt.symm, hpk⟩⟩)
      · exact Or.inr (Or.inr ⟨hkey.symm, Or.inr ⟨hattempt, hpk⟩⟩)
    · exact Or.inl (Or.inr ⟨hkey, Or.inl hattempt⟩)
  · exact Or.inr (Or.inl hkey)

theorem before_trans {a b c : NodeExec} (h : a.before b) (h' : b.before c) : a.before c := by
  unfold before at h h' ⊢
  obtain h | ⟨hkey, h⟩ := h
  · obtain h' | ⟨hkey', -⟩ := h'
    · exact Or.inl (h.trans h')
    · exact Or.inl (hkey' ▸ h)
  · obtain h' | ⟨hkey', h'⟩ := h'
    · exact Or.inl (hkey ▸ h')
    · refine Or.inr ⟨hkey.trans hkey', ?_⟩
      omega

instance : Std.Total before := ⟨before_total⟩

instance : IsTrans NodeExec before := ⟨fun _ _ _ => before_trans⟩

theorem before_congr {a b a' b' : NodeExec} (ha : a'.SameIdentity a) (hb : b'.SameIdentity b)
    (h : a.before b) :
    a'.before b' := by
  unfold before at h ⊢
  rw [ha.node_key, ha.attempt_no, ha.pk, hb.node_key, hb.attempt_no, hb.pk]
  exact h

end NodeExec

namespace Table

/-- The rows come in `Meta.ordering`. -/
def Ordered (t : Table) : Prop := t.rows.Pairwise NodeExec.before

/-- A save keeps the order. -/
theorem Ordered.save {t : Table} (h : t.Ordered) (row : NodeExec) (now : Time)
    (fields : List Field) :
    (t.save row now fields).Ordered := by
  have hsame : ∀ r : NodeExec,
    (if r.pk = row.pk then r.write row now fields else r).SameIdentity r := by
    intro r
    split_ifs
    · exact r.write_sameIdentity _ _ _
    · exact .refl r
  exact List.pairwise_map.mpr (h.imp fun hab => NodeExec.before_congr (hsame _) (hsame _) hab)

theorem Ordered.bulk_create {t t' : Table} {rows created : List NodeExec} (h : t.Ordered)
    (hins : t.bulk_create rows = some (t', created)) : t'.Ordered := by
  induction rows generalizing t created with
  | nil =>
    obtain ⟨rfl, -⟩ := Prod.mk.inj (Option.some.inj hins)
    exact h
  | cons r rest ih =>
    simp only [Table.bulk_create] at hins
    split at hins
    · rename_i hfresh
      have hinsert : (t.insert r hfresh).Ordered :=
        List.Pairwise.orderedInsert (t.stored r) t.rows h
      cases hrest : (t.insert r hfresh).bulk_create rest with
      | none => simp [hrest] at hins
      | some p =>
        simp only [hrest, Option.some.injEq, Prod.mk.injEq] at hins
        obtain ⟨rfl, -⟩ := hins
        exact ih hinsert hrest
    · cases hins

end Table

namespace runner

/-- The rows of every world that a run passes through come in `Meta.ordering`. -/
theorem Moves.ordered {ver : DagVersion} {w w' : World} (h : Moves ver w w')
    (hw : w.table.Ordered) :
    w'.table.Ordered := by
  refine taurus.lib.history.Moves.invariant (C := fun _ => True) (T := fun s : Db => s.2.Ordered)
    (fun _ _ h => h.log_grows) ?_ h (fun _ _ => trivial) hw
  intro w₁ w₂ hstep _ hordered
  cases hstep with
  | begin | note | finish => exact hordered
  | insert act hx h hins => exact Table.Ordered.bulk_create hordered hins
  | save old row now fields hold hpk h => exact Table.Ordered.save hordered row now fields

end runner

end taurus.engine
