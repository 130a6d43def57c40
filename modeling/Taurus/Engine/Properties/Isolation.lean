import Taurus.Engine.Runner.Dispatch
import Taurus.Engine.Steps.Dispatching
import Taurus.Lib.Program

namespace taurus.engine.runner

open taurus.lib taurus.lib.Prog taurus.lib.transition taurus.python taurus.engine.executor

section

variable (env : Env) (x : Execution) (dag : Dag) (ctx : EdgeCtx) (user_id : Option Int)
  (row : NodeExec)

/-- The child rows of a loop row for its items. -/
def child_rows_of (uo : UnitOutput) (items : List Json) : List NodeExec :=
  let raw_params := getJson uo.output "body_params"
  items.mapIdx fun i item =>
    loop_child env x row user_id (columnText (getJson uo.output "body_node_type"))
      (if raw_params.truthy then raw_params else .obj []) items.length i item

/-- The answer is terminal and brings the items and the body of a loop. -/
def brings_items (uo : UnitOutput) : Bool :=
  uo.status.terminal && (getJson uo.output "loop_items").truthy &&
    (getJson uo.output "body_node_type").truthy

/-- The child rows that are to be created for an answer. -/
def answer_children (uo : UnitOutput) : List NodeExec :=
  if brings_items uo then
    child_rows_of env x user_id row uo ((iterate (getJson uo.output "loop_items")).getD [])
  else []

/-- The outcome of `prepare_dispatch`, which does not look at the database. -/
def prepare_outcome : Except Exn (String ⊕ (Adapter × Dict String Json)) :=
  (prepare_dispatch env dag ctx row .initial).1

/-- What `adapter.dispatch` does for a row that gets as far as that. -/
def dispatch_outcome : Option (Except Exn UnitOutput) :=
  match prepare_outcome env dag ctx row with
  | .ok (.inr (adapter, rendered)) =>
    some (adapter.dispatch (_build_rendered_cfg env x
      (handed_row env row rendered user_id) rendered))
  | _ => none

/-- The child rows that are to be created for a candidate. -/
def expansion : List NodeExec :=
  if row.status = .PENDING then
    match dispatch_outcome env x dag ctx user_id row with
    | some (.ok uo) => answer_children env x user_id row uo
    | _ => []
  else []

/-- The adapter can be constructed, and rendering the node raises nothing but a `ValueError`. -/
def Renders : Prop :=
  ∀ node, dispatch_node dag row = some node → ∀ adapter, env.get_class row.node_type = .ok adapter →
    adapter.construct = .ok () ∧
      ∀ e, render_node_config env adapter node
      (_build_workflow_context ctx) row.host_id row.attempt_no
        row.fail_strategy = .error e → ∃ message, e = .ValueError message

/-- No exception escapes on the way of a candidate: it renders, an adapter raises in `dispatch`
only where there is a user, and the items of a loop can be iterated. -/
structure Harmless : Prop where
  renders : Renders env dag ctx row
  dispatches : ∀ e, dispatch_outcome env x dag ctx user_id row = some (.error e) →
    user_id.isSome = true
  expands : ∀ uo, dispatch_outcome env x dag ctx user_id row = some (.ok uo) →
    brings_items uo = true →
    (iterate (getJson uo.output "loop_items")).isSome = true

end

/-- A stored row with this key is RUNNING or terminal. -/
def Ends (pk : Nat) (w : World) : Prop :=
  ∃ r ∈ w.rows, r.pk = pk ∧ (r.status = .RUNNING ∨ r.status.terminal = true)

/-- There is a stored row with this key. -/
def Stored (pk : Nat) (w : World) : Prop := ∃ r ∈ w.rows, r.pk = pk

/-- What a world can still take is what the world `w` can take after the rows `new`. -/
def Takes (w : World) (new : List NodeExec) (s : World) : Prop :=
  ∀ more, Table.Insertable s.rows more ↔ Table.Insertable w.rows (new ++ more)

section

variable {env : Env} {x : Execution} {dag : Dag} {ctx : EdgeCtx} {user_id : Option Int}
  {row : NodeExec} {w : World}

/-- Preparing a dispatch changes nothing. -/
theorem prepare_dispatch_eq :
    prepare_dispatch env dag ctx row w = (prepare_outcome env dag ctx row, w) := by
  refine Prod.ext ?_ ((triple_prepare (P := (· = w)) (E := (· = w)) fun _ h => h).state rfl)
  unfold prepare_outcome prepare_dispatch
  cases dispatch_node dag row with
  | none => rfl
  | some node =>
    cases env.get_class row.node_type with
    | error e => rfl
    | ok adapter =>
      cases hconstruct : adapter.construct with
      | error e => simp only [hconstruct, fromExcept, bind, andThen, raise]
      | ok u =>
        simp only [hconstruct, fromExcept, bind, andThen, ret]
        cases render_node_config env adapter node
          (_build_workflow_context ctx) row.host_id row.attempt_no
            row.fail_strategy with
        | error e => cases e <;> rfl
        | ok rendered =>
          simp only
          cases adapter.validate_config rendered.params with
          | error e => rfl
          | ok vr =>
            simp only
            split_ifs <;> rfl

/-- Checking and rendering returns exactly for a row that renders. -/
theorem prepare_outcome_ok_iff :
    (∃ p, prepare_outcome env dag ctx row = .ok p) ↔ Renders env dag ctx row := by
  unfold prepare_outcome prepare_dispatch Renders
  cases dispatch_node dag row with
  | none => exact iff_of_true ⟨_, rfl⟩ fun _ h => by cases h
  | some node =>
    cases env.get_class row.node_type with
    | error e => exact iff_of_true ⟨_, rfl⟩ fun _ _ _ h => by cases h
    | ok adapter =>
      cases hconstruct : adapter.construct with
      | error e =>
        refine iff_of_false ?_ fun h => ?_
        · rintro ⟨p, h⟩
          simp [hconstruct, fromExcept, raise, bind, andThen] at h
        · have hok := (h node rfl adapter rfl).1
          rw [hconstruct] at hok
          cases hok
      | ok u =>
        simp only [hconstruct, fromExcept, bind, andThen, ret]
        cases hrender : render_node_config env adapter node
          (_build_workflow_context ctx) row.host_id row.attempt_no
            row.fail_strategy with
        | ok rendered =>
          refine iff_of_true ?_ ?_
          · simp only
            cases adapter.validate_config rendered.params with
            | error e => exact ⟨_, rfl⟩
            | ok vr =>
              simp only
              split_ifs <;> exact ⟨_, rfl⟩
          · rintro _ ⟨⟩ _ ⟨⟩
            exact ⟨hconstruct, fun e he => by simp [hrender] at he⟩
        | error e =>
          cases e with
          | ValueError message =>
            refine iff_of_true ⟨_, rfl⟩ ?_
            rintro _ ⟨⟩ _ ⟨⟩
            refine ⟨hconstruct, fun e he => ⟨message, ?_⟩⟩
            rw [hrender] at he
            exact (Except.error.inj he).symm
          | IntegrityError m | WorkflowRunnerError m | other n m =>
            refine iff_of_false (by rintro ⟨p, h⟩; cases h) fun h => ?_
            obtain ⟨message, hmessage⟩ := (h node rfl adapter rfl).2 _ hrender
            cases hmessage

/-- The children of a row are those of any row with the same identity. -/
theorem child_rows_of_sameIdentity {parent : NodeExec} (h : parent.SameIdentity row)
    (uo : UnitOutput) (items : List Json) :
    child_rows_of env x user_id parent uo items = child_rows_of env x user_id row uo items := by
  unfold child_rows_of loop_child
  simp only [h.node_key, h.node_name, h.host_id, h.fail_strategy, h.timeout_sec]

/-- The children of an answer depend on the identity of the row alone. -/
theorem answer_children_sameIdentity {parent : NodeExec} (h : parent.SameIdentity row)
    (uo : UnitOutput) :
    answer_children env x user_id parent uo = answer_children env x user_id row uo := by
  unfold answer_children
  rw [child_rows_of_sameIdentity h]

/-- Rows are created exactly if they are new. -/
theorem returns_bulk_create_iff {rows : List NodeExec} :
    Returns (bulk_create rows) w ↔ Table.Insertable w.rows rows := by
  rw [World.rows, ← Table.bulk_create_isSome_iff]
  unfold Returns bulk_create
  cases w.table.bulk_create rows <;> simp

theorem insertable_nil (t : Table) : Table.Insertable t.rows [] :=
  (t.bulk_create_isSome_iff []).mp rfl

/-- Some of the rows can be inserted if all can. -/
theorem insertable_left {rows new more : List NodeExec} (h : Table.Insertable rows (new ++ more)) :
    Table.Insertable rows new := by
  obtain ⟨hkeys, hids⟩ := h
  rw [← List.append_assoc, List.map_append] at hkeys hids
  exact ⟨hkeys.of_append_left, hids.of_append_left⟩

/-- A save leaves the unique columns alone. -/
theorem insertable_save (t : Table) (new : NodeExec) (now : Time) (fields : List Field)
    (rows : List NodeExec) :
    Table.Insertable (t.save new now fields).rows rows ↔ Table.Insertable t.rows rows := by
  have hkeys : (t.save new now fields).rows.map (·.attempt_key) = t.rows.map (·.attempt_key) := by
    rw [t.save_rows, List.map_map]
    refine List.map_congr_left fun r _ => ?_
    simp only [Function.comp_apply]
    split_ifs <;> rfl
  have hids : (t.save new now fields).rows.map (·.dispatch_id) = t.rows.map (·.dispatch_id) := by
    rw [t.save_rows, List.map_map]
    refine List.map_congr_left fun r _ => ?_
    simp only [Function.comp_apply]
    split_ifs <;> rfl
  unfold Table.Insertable
  simp only [List.map_append, hkeys, hids]

/-- After an insertion a table takes what it could take together with the inserted rows. -/
theorem insertable_bulk_create {t t' : Table} {rows created : List NodeExec}
    (h : t.bulk_create rows = some (t', created)) (more : List NodeExec) :
    Table.Insertable t'.rows more ↔ Table.Insertable t.rows (rows ++ more) := by
  induction rows generalizing t created with
  | nil =>
    obtain ⟨rfl, -⟩ := Prod.mk.inj (Option.some.inj h)
    rfl
  | cons r rest ih =>
    unfold Table.bulk_create at h
    by_cases hfresh : t.Fresh r
    · rw [dif_pos hfresh] at h
      rw [List.cons_append, Table.insertable_cons hfresh]
      cases hrest : (t.insert r hfresh).bulk_create rest with
      | none =>
        rw [hrest] at h
        cases h
      | some p =>
        rw [hrest] at h
        obtain ⟨rfl, -⟩ := Prod.mk.inj (Option.some.inj h)
        exact ih hrest
    · rw [dif_neg hfresh] at h
      cases h

theorem takes_nil : Takes w [] w := fun _ => Iff.rfl

theorem Takes.save {new : List NodeExec} {s : World} (h : Takes w new s)
    (saved : NodeExec) (now : Time) (fields : List Field) :
    Takes w new { s with table := s.table.save saved now fields } :=
  fun more => (insertable_save s.table saved now fields more).trans (h more)

/-- The table takes the rows. -/
theorem triple_takes_bulk_create (rows : List NodeExec) :
    Triple (Takes w []) (bulk_create rows) (fun _ => Takes w rows) fun _ => True := by
  intro s hs
  unfold bulk_create
  cases hins : s.table.bulk_create rows with
  | none => trivial
  | some p => exact fun more => (insertable_bulk_create hins more).trans (hs (rows ++ more))

/-- Without a body there are no children. -/
theorem answer_children_of_body {uo : UnitOutput}
    (hbody : (getJson uo.output "body_node_type").truthy = false) :
    answer_children env x user_id row uo = [] := by
  simp [answer_children, brings_items, hbody]

/-- An expanded loop creates its children. -/
theorem triple_takes_expand {uo : UnitOutput} (hterminal : uo.status.terminal = true)
    (hitems : (getJson uo.output "loop_items").truthy = true) :
    Triple (Takes w []) (_expand_loop_children env x row uo user_id)
      (fun _ => Takes w (answer_children env x user_id row uo)) fun _ => True := by
  unfold _expand_loop_children
  simp only [hitems, Bool.not_true, Bool.false_or]
  cases hbody : (getJson uo.output "body_node_type").truthy with
  | false =>
    refine triple_pure fun s hs => ?_
    rwa [answer_children_of_body hbody]
  | true =>
    simp only [Bool.not_true, Bool.false_eq_true, if_false]
    cases hiterate : iterate (getJson uo.output "loop_items") with
    | none => exact triple_raise fun _ _ => trivial
    | some items =>
      have hchildren : answer_children env x user_id row uo =
          child_rows_of env x user_id row uo items := by
        simp [answer_children, brings_items, hterminal, hitems, hbody, hiterate]
      rw [hchildren]
      refine triple_bind (R := fun _ => Takes w []) (triple_modifyState fun s hs => hs) fun _ => ?_
      exact triple_bind (triple_takes_bulk_create _) fun _ => triple_pure fun s hs => hs

/-- An answer creates the children it brings. -/
theorem triple_takes_answer {uo : UnitOutput} :
    Triple (Takes w []) (dispatch_answer env x row uo user_id)
      (fun _ => Takes w (answer_children env x user_id row uo)) fun _ => True := by
  unfold dispatch_answer
  simp only
  have hid := (apply_unit_output_sameIdentity env { row with status := .RUNNING } uo true).trans
    (show NodeExec.SameIdentity { row with status := .RUNNING } row by constructor <;> rfl)
  refine triple_bind (R := fun _ => Takes w [])
    (triple_modifyState fun s hs => hs.save _ _ _) fun _ => ?_
  by_cases h : (uo.status.terminal && (getJson uo.output "loop_items").truthy) = true
  · rw [if_pos h, ← answer_children_sameIdentity hid]
    rw [Bool.and_eq_true] at h
    exact triple_takes_expand h.1 h.2
  · rw [if_neg h]
    refine triple_pure fun s hs => ?_
    have hnone : answer_children env x user_id row uo = [] := by
      unfold answer_children brings_items
      simp [Bool.eq_false_of_not_eq_true h]
    rwa [hnone]

/-- A prepared row is handed to its adapter. -/
theorem dispatch_outcome_of_prepared {adapter : Adapter} {rendered : Dict String Json}
    (h : prepare_outcome env dag ctx row = .ok (.inr (adapter, rendered))) :
    dispatch_outcome env x dag ctx user_id row =
      some (adapter.dispatch (_build_rendered_cfg env x
        (handed_row env row rendered user_id) rendered)) := by
  rw [dispatch_outcome, h]

theorem handed_row_sameIdentity (env : Env) (row : NodeExec) (rendered : Dict String Json)
    (user_id : Option Int) :
    (handed_row env row rendered user_id).SameIdentity row := by
  constructor <;> rfl

/-- A candidate that is processed without an exception has its child rows created. -/
theorem triple_takes_row :
    Triple (Takes w []) (dispatch_row env x dag ctx user_id row)
      (fun _ => Takes w (expansion env x dag ctx user_id row)) fun _ => True := by
  unfold dispatch_row expansion
  by_cases hpending : row.status = .PENDING
  · rw [if_neg (not_not.mpr hpending), if_pos hpending]
    refine triple_bind (R := fun p s => Takes w [] s ∧ prepare_outcome env dag ctx row = .ok p) ?_
      fun p => ?_
    · intro s hs
      rw [prepare_dispatch_eq]
      cases prepare_outcome env dag ctx row with
      | error e => trivial
      | ok p => exact ⟨hs, rfl⟩
    cases p with
    | inl message =>
      refine triple_bind (R := fun _ s => Takes w [] s ∧
        prepare_outcome env dag ctx row = .ok (.inl message)) ?_
        fun _ => triple_pure fun s hs => ?_
      · exact triple_bind (R := fun _ s => Takes w [] s ∧
          prepare_outcome env dag ctx row = .ok (.inl message))
          (triple_modifyState fun s hs => ⟨hs.1.save _ _ _, hs.2⟩) fun _ =>
            triple_pure fun s hs => hs
      · simpa [dispatch_outcome, hs.2] using hs.1
    | inr p =>
      obtain ⟨adapter, rendered⟩ := p
      rintro s ⟨hs, hprepared⟩
      rw [dispatch_outcome_of_prepared hprepared]
      refine triple_bind (R := fun _ => Takes w []) (triple_modifyState fun s hs => hs)
        (fun _ => ?_) s hs
      simp only [handed_row]
      cases adapter.dispatch (_build_rendered_cfg env x _ rendered) with
      | error e =>
        simp only
        split
        · exact triple_bind (R := fun _ => Takes w [])
            (triple_modifyState fun s hs => hs.save _ _ _) fun _ =>
            triple_pure fun s hs => hs
        · exact triple_raise fun _ _ => trivial
      | ok uo =>
        simp only
        rw [← answer_children_sameIdentity (handed_row_sameIdentity env row rendered user_id)]
        exact triple_bind triple_takes_answer fun _ => triple_pure fun s hs => hs
  · rw [if_pos hpending, if_neg hpending]
    exact triple_pure fun s hs => hs

/-- A loop expands exactly if its items can be iterated and its rows are new. -/
theorem returns_expand_iff {uo : UnitOutput} (hterminal : uo.status.terminal = true)
    (hitems : (getJson uo.output "loop_items").truthy = true) :
    Returns (_expand_loop_children env x row uo user_id) w ↔
      (brings_items uo = true → (iterate (getJson uo.output "loop_items")).isSome = true) ∧
        Table.Insertable w.rows (answer_children env x user_id row uo) := by
  unfold _expand_loop_children answer_children brings_items
  simp only [hitems, hterminal, Bool.not_true, Bool.false_or, Bool.true_and]
  cases (getJson uo.output "body_node_type").truthy with
  | false =>
    exact iff_of_true (returns_pure _ _) ⟨fun h => absurd h Bool.false_ne_true, insertable_nil _⟩
  | true =>
    simp only [true_implies, if_true]
    cases iterate (getJson uo.output "loop_items") with
    | none => exact iff_of_false (not_returns_raise _ _) fun h => Bool.false_ne_true h.1
    | some items =>
      simp only [Option.isSome_some, true_and, Option.getD_some]
      refine returns_modify_bind_iff.trans ?_
      exact (returns_bind_of_total fun _ s => returns_pure _ s).trans returns_bulk_create_iff

theorem returns_answer_iff {uo : UnitOutput} :
    Returns (dispatch_answer env x row uo user_id) w ↔
      (brings_items uo = true → (iterate (getJson uo.output "loop_items")).isSome = true) ∧
        Table.Insertable w.rows (answer_children env x user_id row uo) := by
  unfold dispatch_answer
  simp only
  refine returns_modify_bind_iff.trans ?_
  have hid := (apply_unit_output_sameIdentity env { row with status := .RUNNING } uo true).trans
    (show NodeExec.SameIdentity { row with status := .RUNNING } row by constructor <;> rfl)
  by_cases h : (uo.status.terminal && (getJson uo.output "loop_items").truthy) = true
  · rw [if_pos h]
    rw [Bool.and_eq_true] at h
    refine (returns_expand_iff h.1 h.2).trans (and_congr_right fun _ => ?_)
    rw [answer_children_sameIdentity hid]
    exact insertable_save ..
  · rw [if_neg h]
    have hbrings : brings_items uo = false := by simp [brings_items, Bool.eq_false_of_not_eq_true h]
    refine iff_of_true (returns_pure _ _)
      ⟨fun hb => absurd (hbrings.symm.trans hb) Bool.false_ne_true, ?_⟩
    rw [answer_children, hbrings]
    exact insertable_nil w.table

/-- A pending candidate is processed without an exception if and only if it is harmless and its
child rows can be created. -/
theorem returns_row_iff (hpending : row.status = .PENDING) :
    Returns (dispatch_row env x dag ctx user_id row) w ↔
      Harmless env x dag ctx user_id row ∧
        Table.Insertable w.rows (expansion env x dag ctx user_id row) := by
  have hharmless : Harmless env x dag ctx user_id row ↔ Renders env dag ctx row ∧
      (∀ e, dispatch_outcome env x dag ctx user_id row = some (.error e) → user_id.isSome = true) ∧
      ∀ uo, dispatch_outcome env x dag ctx user_id row = some (.ok uo) → brings_items uo = true →
        (iterate (getJson uo.output "loop_items")).isSome = true :=
    ⟨fun h => ⟨h.renders, h.dispatches, h.expands⟩, fun h => ⟨h.1, h.2.1, h.2.2⟩⟩
  unfold dispatch_row
  rw [if_neg (not_not.mpr hpending), returns_bind_iff, hharmless, ← prepare_outcome_ok_iff,
    prepare_dispatch_eq, expansion, if_pos hpending]
  cases hprepared : prepare_outcome env dag ctx row with
  | error e =>
    exact iff_of_false (by rintro ⟨p, h, -⟩; cases h) (by rintro ⟨⟨⟨p, h⟩, -⟩, -⟩; cases h)
  | ok p =>
    simp only [Except.ok.injEq, exists_eq_left', exists_eq', true_and]
    cases p with
    | inl message =>
      have hnone : dispatch_outcome env x dag ctx user_id row = none := by
        rw [dispatch_outcome, hprepared]
      rw [hnone]
      exact iff_of_true ⟨false, rfl⟩
        ⟨⟨fun _ h => (by cases h), fun _ h => (by cases h)⟩, insertable_nil _⟩
    | inr p =>
      obtain ⟨adapter, rendered⟩ := p
      rw [dispatch_outcome_of_prepared hprepared]
      refine returns_modify_bind_iff.trans ?_
      simp only [handed_row, Option.some.injEq]
      cases adapter.dispatch (_build_rendered_cfg env x _ rendered) with
      | error e =>
        cases huser : user_id.isSome with
        | true =>
          exact iff_of_true ⟨false, rfl⟩
            ⟨⟨fun _ _ => rfl, fun _ h => (by cases h)⟩, insertable_nil _⟩
        | false =>
          exact iff_of_false (not_returns_raise _ _) fun h =>
            absurd (h.1.1 e rfl) Bool.false_ne_true
      | ok uo =>
        refine (returns_bind_of_total fun _ s => returns_pure _ s).trans
          (returns_answer_iff.trans ?_)
        simp only [reduceCtorEq, false_implies, implies_true, true_and, Except.ok.injEq, forall_eq']
        rw [← answer_children_sameIdentity (handed_row_sameIdentity env row rendered user_id)]
        rfl

/-- A row that is not pending expands to nothing. -/
theorem expansion_of_not_pending (h : row.status ≠ .PENDING) :
    expansion env x dag ctx user_id row = [] := by
  rw [expansion, if_neg h]

/-- A dispatch returns exactly if it is harmless and its rows are new. -/
theorem returns_candidate_iff :
    Returns (dispatch_row env x dag ctx user_id row) w ↔
      (row.status = .PENDING → Harmless env x dag ctx user_id row) ∧
        Table.Insertable w.rows (expansion env x dag ctx user_id row) := by
  by_cases hpending : row.status = .PENDING
  · rw [returns_row_iff hpending, forall_prop_of_true hpending]
  · rw [expansion_of_not_pending hpending]
    unfold dispatch_row
    rw [if_pos hpending]
    exact iff_of_true (returns_pure _ _) ⟨fun h => absurd h hpending, insertable_nil _⟩

/-- A pass raises nothing if and only if its candidates are harmless and their child rows can be
created together. -/
theorem returns_rows_iff {candidates : List NodeExec} :
    Returns (Prog.forEach (dispatch_row env x dag ctx user_id) candidates) w ↔
      (∀ row ∈ candidates, row.status = .PENDING → Harmless env x dag ctx user_id row) ∧
        Table.Insertable w.rows (candidates.flatMap (expansion env x dag ctx user_id)) := by
  rw [returns_forEach_iff]
  induction candidates generalizing w with
  | nil => exact iff_of_true trivial ⟨fun _ h => absurd h List.not_mem_nil, insertable_nil _⟩
  | cons row rest ih =>
    simp only [Along, ih, List.flatMap_cons, List.forall_mem_cons]
    by_cases hreturns : Returns (dispatch_row env x dag ctx user_id row) w
    · have hreturned := returns_candidate_iff.mp hreturns
      obtain ⟨accepted, haccepted⟩ := hreturns
      have htakes : Takes w (expansion env x dag ctx user_id row)
          (dispatch_row env x dag ctx user_id row w).2 :=
        triple_takes_row.ok takes_nil (Prod.ext haccepted rfl)
      rw [htakes]
      exact ⟨fun h => ⟨⟨hreturned.1, h.2.1⟩, h.2.2⟩, fun h => ⟨⟨accepted, haccepted⟩, h.1.2, h.2⟩⟩
    · refine iff_of_false (fun h => hreturns h.1) fun h =>
        hreturns (returns_candidate_iff.mpr ⟨h.1.1, ?_⟩)
      exact insertable_left h.2

/-- A row that was dispatched is RUNNING or has ended. -/
theorem ends_write {pk : Nat} (hstored : Stored pk w) {saved : NodeExec}
    (hpk : saved.pk = pk) {now : Time} {fields : List Field} (hfield : .status ∈ fields)
    (hstatus : saved.status = .RUNNING ∨ saved.status.terminal = true) :
    Ends pk { w with table := w.table.save saved now fields } := by
  obtain ⟨r, hr, hrpk⟩ := hstored
  refine ⟨r.write saved now fields, ?_, hrpk, ?_⟩
  · exact (w.table.mem_save hr (hpk.trans hrpk.symm) _).mpr (.inr rfl)
  · simpa [NodeExec.write, hfield] using hstatus

/-- Dispatching keeps the rows stored. -/
theorem kept_stored (pk : Nat) : KeptByDispatch (fun _ => True) (Stored pk) where
  dispatch _ _ h := h
  expand _ _ _ h := h
  save w row now fields _ h := by
    obtain ⟨r, hr, hpk⟩ := h
    obtain ⟨r', hr', hsame⟩ := w.table.exists_mem_save row now fields hr
    exact ⟨r', hr', hsame.pk.trans hpk⟩
  insert w rows table created hins h := by
    obtain ⟨r, hr, hpk⟩ := h
    exact ⟨r, ((Table.bulk_create_created hins).mem r).mpr (.inr hr), hpk⟩

theorem kept_ends (pk : Nat) : KeptByDispatch (· ≠ pk) (Ends pk) where
  dispatch _ _ h := h
  expand _ _ _ h := h
  save w row now fields hown h := by
    obtain ⟨r, hr, hpk, hstatus⟩ := h
    refine ⟨r, ?_, hpk, hstatus⟩
    rw [World.rows, Table.save_rows, List.mem_map]
    exact ⟨r, hr, if_neg fun heq => hown (heq.symm.trans hpk)⟩
  insert w rows table created hins h := by
    obtain ⟨r, hr, hends⟩ := h
    exact ⟨r, ((Table.bulk_create_created hins).mem r).mpr (.inr hr), hends⟩

theorem running_next (s : Status) :
    nextStatus .RUNNING s = .RUNNING ∨ (nextStatus .RUNNING s).terminal = true := by
  cases s <;> decide

/-- An answer leaves its row running or terminal. -/
theorem triple_ends_answer {uo : UnitOutput} {pk : Nat} (hpk : row.pk = pk) :
    Triple (Stored pk) (dispatch_answer env x row uo user_id) (fun _ => Ends pk) fun _ => True := by
  unfold dispatch_answer
  simp only
  refine triple_bind (R := fun _ => Ends pk) (triple_modifyState fun w hw => ?_) fun _ => ?_
  · refine ends_write hw ?_ (by simp) ?_
    · exact (apply_unit_output_sameIdentity env
        { row with status := .RUNNING } uo true).pk.trans hpk
    · rw [apply_unit_output_status]
      exact running_next uo.status
  · split
    · exact ((kept_ends pk).expand_children env x _ uo user_id).conseq (fun _ h => h)
        (fun _ _ h => h)
        fun _ _ => trivial
    · exact triple_pure fun _ h => h

/-- A pending candidate that is processed without an exception ends running or terminal. -/
theorem triple_ends_row (hpending : row.status = .PENDING) :
    Triple (Stored row.pk) (dispatch_row env x dag ctx user_id row) (fun _ => Ends row.pk)
      fun _ => True := by
  unfold dispatch_row
  rw [if_neg (not_not.mpr hpending)]
  refine triple_bind (triple_prepare fun _ _ => trivial) fun p => ?_
  cases p with
  | inl message =>
    refine triple_bind (R := fun _ => Ends row.pk) ?_ fun _ => triple_pure fun _ h => h
    refine triple_bind (R := fun _ => Ends row.pk) (triple_modifyState fun w hw => ?_) fun _ =>
      triple_pure fun _ h => h
    refine ends_write hw ?_ ?_ ?_
    · rfl
    · simp [failFields]
    · exact .inr rfl
  | inr p =>
    obtain ⟨adapter, rendered⟩ := p
    refine triple_bind (R := fun _ => Stored row.pk) (triple_modifyState fun w hw => hw) fun _ => ?_
    simp only
    cases adapter.dispatch (_build_rendered_cfg env x _ rendered) with
    | error e =>
      simp only
      split
      · refine triple_bind (R := fun _ => Ends row.pk) (triple_modifyState fun w hw => ?_) fun _ =>
          triple_pure fun _ h => h
        refine ends_write hw ?_ ?_ ?_
        · rfl
        · simp
        · exact .inr rfl
      · exact triple_raise fun _ _ => trivial
    | ok uo => exact triple_bind (triple_ends_answer rfl) fun _ => triple_pure fun _ h => h

/-- A pass that raises nothing leaves each of its pending candidates running or terminal. -/
theorem triple_ends_rows {candidates : List NodeExec} (hdistinct : (candidates.map (·.pk)).Nodup)
    (hrow : row ∈ candidates) (hpending : row.status = .PENDING) :
    Triple (Stored row.pk) (Prog.forEach (dispatch_row env x dag ctx user_id) candidates)
      (fun _ => Ends row.pk)
      fun _ => True := by
  induction candidates with
  | nil => exact absurd hrow List.not_mem_nil
  | cons first rest ih =>
    obtain ⟨hfirst, hrest⟩ := List.nodup_cons.mp hdistinct
    obtain rfl | hrow := List.mem_cons.mp hrow
    · refine triple_bind (R := fun _ => Ends row.pk) (triple_ends_row hpending) fun _ => ?_
      refine triple_bind (R := fun _ => Ends row.pk) ?_ fun _ => triple_pure fun _ h => h
      refine ((kept_ends row.pk).dispatch_rows env x dag rest ctx user_id fun r hr => ?_).conseq
        (fun _ h => h)
        (fun _ _ h => h) fun _ _ => trivial
      exact fun heq => hfirst (List.mem_map.mpr ⟨r, hr, heq⟩)
    · refine triple_bind (R := fun _ => Stored row.pk) ?_ fun _ =>
        triple_bind (ih hrest hrow) fun _ =>
        triple_pure fun _ h => h
      exact ((kept_stored row.pk).dispatch_row env x dag ctx user_id first trivial).conseq
        (fun _ h => h)
        (fun _ _ h => h) fun _ _ => trivial

end

/-- Failures are isolated if and only if every pending candidate is harmless and the child rows of
all candidates can be created together. -/
theorem failures_isolated_iff (env : Env) (x : Execution) (dag : Dag) (ctx : EdgeCtx)
    (user_id : Option Int) (w : World) (candidates : List NodeExec)
    (hstored : ∀ row ∈ candidates, row ∈ w.rows) (hdistinct : (candidates.map (·.pk)).Nodup) :
    ((∃ n, (_dispatch_pending env x dag candidates ctx user_id w).1 = .ok n) ∧
      ∀ row ∈ candidates, row.status = .PENDING →
        ∃ r ∈ (_dispatch_pending env x dag candidates ctx user_id w).2.rows,
          r.pk = row.pk ∧ (r.status = .RUNNING ∨ r.status.terminal = true)) ↔
      (∀ row ∈ candidates, row.status = .PENDING → Harmless env x dag ctx user_id row) ∧
        Table.Insertable w.rows (candidates.flatMap (expansion env x dag ctx user_id)) := by
  rw [← returns_rows_iff]
  have hreturns : (∃ n, (_dispatch_pending env x dag candidates ctx user_id w).1 = .ok n) ↔
      Returns (Prog.forEach (dispatch_row env x dag ctx user_id) candidates) w :=
    returns_bind_of_total fun _ s => returns_pure _ s
  rw [← hreturns]
  refine and_iff_left_of_imp ?_
  rintro ⟨n, hn⟩ row hrow hpending
  have hends : Triple (Stored row.pk) (_dispatch_pending env x dag candidates ctx user_id)
    (fun _ => Ends row.pk)
      fun _ => True :=
    triple_bind (triple_ends_rows hdistinct hrow hpending) fun _ => triple_pure fun _ h => h
  exact hends.ok ⟨row, hstored row hrow, rfl⟩ (Prod.ext hn rfl)

/-- Two nodes that wait for nothing. -/
def sideBySide : Dag where
  nodes :=
    [{ node_key := "build", node_type := "command" },
      { node_key := "check", node_type := "command" }]
  edges := []
  keys_nodup := by decide
  edges_closed := by decide

/-- Their rows, not dispatched yet. -/
def bothPending : World where
  execution := none
  table := ((Table.empty.bulk_create (sideBySide.nodes.map fun n =>
    { node_key := n.node_key, node_type := n.node_type, node_name := n.node_key, host_id := "1",
      dispatch_id := n.node_key, status := .PENDING, attempt_no := 1,
      fail_strategy := "fail_fast" })).map (·.1)).getD .empty
  log := []

/-- Adapters whose `dispatch` raises. -/
def refusing : Env :=
  { scripted 0 (fun _ _ => running) fun _ _ => running with
    get_class := fun node_type => .ok { scriptedAdapter node_type (fun _ _ =>
      running) fun _ _ => running with
      dispatch := fun _ => .error (.other "OSError" "connection refused") } }

/-- The context of an execution without nodes and parameters. -/
def noCtx : EdgeCtx := ⟨[], [], [], []⟩

/-- For a user both rows fail, and nothing escapes. -/
theorem refused_for_user :
    (∀ row ∈ bothPending.rows, row.status = .PENDING →
      Harmless refusing default sideBySide noCtx (some 7) row) ∧
      Table.Insertable bothPending.rows
        (bothPending.rows.flatMap (expansion refusing default sideBySide noCtx (some 7))) :=
  (failures_isolated_iff refusing default sideBySide noCtx (some 7) bothPending bothPending.rows
    (fun _ h => h) (by decide)).mp ⟨⟨0, rfl⟩, by decide +kernel⟩

/-- Without a user, as the scheduler calls, the first failure escapes and the second row is not
looked at. -/
theorem refused_for_scheduler :
    (_dispatch_pending refusing default sideBySide bothPending.rows noCtx none bothPending).1 =
        .error (.ValueError "The following fields do not exist in this model") ∧
      (_dispatch_pending refusing default sideBySide bothPending.rows noCtx none bothPending).2.rows.map (·.status) =
        [.PENDING, .PENDING] := by
  constructor
  · rfl
  · decide +kernel

end taurus.engine.runner
