import Taurus.Engine.Concurrent.Discipline
import Taurus.Engine.Steps.Creating

namespace taurus.engine.concurrent

open taurus.lib taurus.lib.Protocol taurus.python taurus.engine.executor taurus.engine.runner

variable {α β : Type} {a : Bool} {env : Env} {x : Execution} {user_id : Option Int}

/-- From a standing with `P` the session keeps to the discipline until it returns with `Q`
or raises. -/
def Obedient (P : Standing → Prop) (t : Session α) (Q : α → Standing → Prop) : Prop :=
  discipline.Keeps P t Q fun _ => True

/-- No answer is to be saved; `a` says whether the transaction is open. -/
def Idle (a : Bool) (h : Standing) : Prop := h.active = a ∧ h.flight = none

section rules

variable {P : Standing → Prop} {R : α → Standing → Prop} {Q : β → Standing → Prop}

/-- A session that keeps to the protocol and goes on with one that does. -/
theorem obedient_bind {t : Session α} {f : α → Session β} (ht : Obedient P t R)
    (hf : ∀ b, Obedient (R b) (f b) Q) : Obedient P (t >>= f) Q := keeps_bind ht hf

theorem obedient_pure {b : β} (h : ∀ s, P s → Q b s) :
    Obedient P (pure b : Session β) Q := keeps_pure h

theorem obedient_raise {e : Exn} : Obedient P (Thread.raise e : Session β) Q :=
  keeps_raise fun _ _ => trivial

theorem obedient_fromExcept {r : Except Exn β} (h : ∀ b, r = .ok b → ∀ s, P s → Q b s) :
    Obedient P (Thread.fromExcept r : Session β) Q := keeps_fromExcept h fun _ _ => trivial

/-- A loop keeps to it with an invariant over what is left. -/
theorem obedient_forEach {I : List α → Standing → Prop} {body : α → Session β}
    (h : ∀ b rest, Obedient (I (b :: rest)) (body b) fun _ => I rest) (as : List α) :
    Obedient (I as) (Thread.forEach body as) fun _ => I [] := keeps_forEach h as

/-- A loop whose body returns to the same standing. -/
theorem obedient_each {body : α → Session β} (h : ∀ b, Obedient P (body b) fun _ => P)
    (as : List α) :
    Obedient P (Thread.forEach body as) fun _ => P :=
  keeps_forEach (I := fun _ => P) (fun b _ => h b) as

end rules

theorem obedient_select : Obedient (Idle a) select fun _ => Idle a := by
  rintro h ⟨hactive, hflight⟩
  exact ⟨hflight, fun rows _ => ⟨h, ⟨h.children, rfl, fun r hr => Or.inl hr⟩, hactive, hflight⟩⟩

theorem obedient_select_execution : Obedient (Idle a) select_execution fun _ => Idle a :=
  fun h hidle => ⟨hidle.2, fun _ _ => ⟨h, rfl, hidle⟩⟩

theorem obedient_select_for_update {p : NodeExec → Bool} :
    Obedient (Idle a) (select_for_update p) fun _ => Idle a :=
  fun h hidle => ⟨hidle.2, fun _ _ => ⟨h, rfl, hidle⟩⟩

theorem obedient_save_execution {change : Execution → Execution} :
    Obedient (Idle a) (save_execution change) fun _ => Idle a :=
  fun h hidle => ⟨hidle.2, fun _ _ => ⟨h, rfl, hidle⟩⟩

/-- A save is allowed when its source is honest and it writes no PENDING. -/
theorem obedient_save {source : Source} {row : NodeExec} {fields : List Field}
    (hhonest : source.Honest row fields) (hstatus : .status ∈ fields → row.status ≠ .PENDING) :
    Obedient (Idle a) (save source env row fields) fun _ => Idle a := by
  rintro h ⟨hactive, hflight⟩
  refine ⟨⟨hhonest, hstatus, fun f hf => ?_⟩, fun _ _ => ⟨_, rfl, hactive, rfl⟩⟩
  rw [hflight] at hf
  cases hf

theorem obedient_filter {p : NodeExec → Bool} :
    Obedient (Idle a) (objects_filter p) fun _ => Idle a :=
  obedient_bind obedient_select fun _ => obedient_pure fun _ h => h

theorem obedient_refresh {ctx : EdgeCtx} :
    Obedient (Idle a) (refresh_ctx_from_db ctx) fun _ => Idle a :=
  obedient_bind obedient_select fun _ => obedient_pure fun _ h => h

/-- A poll never makes a row pending. -/
theorem polled_status {row : NodeExec} {p : NodeExec × List Field} (h : polled env x row = .ok p)
    (hfields : .status ∈ p.2) : p.1.status ≠ .PENDING := by
  cases polled_end h with
  | same => cases hfields
  | failed => simp [failed_row]
  | answered hrunning uo =>
    intro hpending
    have hwritten : (row.write (answered env row uo).1 env.now (answered env row uo).2).status =
        .PENDING := by
      simp only [NodeExec.write, if_pos hfields, hpending]
    rw [write_answered_status hrunning] at hwritten
    have hvalid := nextStatus_running uo.status
    rw [hwritten] at hvalid
    simp [VALID_TRANSITIONS] at hvalid

/-- Polling one row keeps to the protocol. -/
theorem obedient_poll_one_row {row : NodeExec} :
    Obedient (Idle a) (poll_one_row env x row) fun _ => Idle a := by
  refine obedient_bind (R := fun p h => Idle a h ∧ polled env x row = .ok p)
    (obedient_fromExcept fun p hp h hidle => ⟨hidle, hp⟩) fun p => ?_
  obtain ⟨new, fields⟩ := p
  show Obedient _ (if fields = [] then pure new else _) _
  split_ifs
  · exact obedient_pure fun _ h => h.1
  · rintro h ⟨hidle, hpolled⟩
    have hsave : Obedient (Idle a) (save (.poll env x row) env new fields) fun _ => Idle a :=
      obedient_save hpolled (polled_status hpolled)
    exact obedient_bind hsave (fun _ => obedient_pure fun _ h => h) h hidle

theorem obedient_poll_phase : Obedient (Idle a) (poll_phase env x) fun _ => Idle a := by
  refine obedient_bind obedient_filter fun rows => ?_
  refine obedient_bind (obedient_each (fun _ => obedient_poll_one_row) rows) fun _ => ?_
  exact obedient_pure fun _ h => h

theorem obedient_cancel_row {message : String} {on_error : NodeExec → NodeExec} {row : NodeExec} :
    Obedient (Idle a) (cancel_row env x user_id message on_error row) fun _ => Idle a :=
  obedient_save trivial fun _ h => by cases h

theorem obedient_fail_fast_phase :
    Obedient (Idle a) (fail_fast_phase env x user_id) fun _ => Idle a := by
  unfold fail_fast_phase
  split_ifs
  · refine obedient_bind obedient_filter fun failed => ?_
    show Obedient _ (if _ then _ else _) _
    split_ifs
    · refine obedient_bind obedient_select_for_update fun rows => ?_
      refine obedient_bind (obedient_each (fun _ => obedient_cancel_row) rows) fun _ => ?_
      exact obedient_pure fun _ h => h
    · exact obedient_pure fun _ h => h
  · exact obedient_pure fun _ h => h

theorem obedient_aggregate {parent_row : NodeExec} :
    Obedient (Idle a) (aggregate_loop_children env parent_row) fun _ => Idle a := by
  refine obedient_bind obedient_filter fun children => ?_
  show Obedient _ (if _ then _ else if _ then _ else _) _
  split_ifs
  · exact obedient_pure fun _ h => h
  · exact obedient_pure fun _ h => h
  · refine obedient_bind (obedient_save trivial fun _ => ?_) fun _ => obedient_pure fun _ h => h
    unfold aggregated_row
    dsimp only
    split_ifs <;> simp

theorem obedient_aggregate_loops : Obedient (Idle a) (aggregate_loops env) fun _ => Idle a := by
  refine obedient_bind obedient_filter fun parents => ?_
  refine obedient_bind (obedient_each (fun _ => obedient_aggregate) parents) fun _ => ?_
  exact obedient_pure fun _ h => h

theorem obedient_finalize {dag : Dag} :
    Obedient (Idle a) (finalize_workflow_if_done env dag) fun _ => Idle a := by
  refine obedient_bind obedient_select fun rows => ?_
  cases final_status dag rows with
  | none => exact obedient_pure fun _ h => h
  | some status => exact obedient_bind obedient_save_execution fun _ => obedient_pure fun _ h => h

section inserts

variable {rows : List NodeExec}

/-- The batches hold all rows, in order. -/
theorem pieces_flatten (size : Nat) (as : List α) :
    ∀ room, (pieces size room as).1 ++ (pieces size room as).2.flatten = as := by
  induction as with
  | nil => exact fun room => by cases room <;> rfl
  | cons a rest ih =>
    intro room
    cases room with
    | zero => simpa [pieces] using ih size
    | succ n => simpa [pieces] using ih n

/-- The batches are the rows in order. -/
theorem batches_flatten (as : List α) : (batches as).flatten = as := by
  have hflat := pieces_flatten 499 as 0
  cases as with
  | nil => rfl
  | cons a rest => simpa [batches, pieces] using hflat

theorem mem_of_batches {batch : List α} {as : List α} (h : batch ∈ batches as) {a : α}
    (ha : a ∈ batch) : a ∈ as := by
  rw [← batches_flatten as]
  exact List.mem_flatten_of_mem h ha

/-- Rows created for no dispatch leave the standing as it is. -/
theorem obedient_create_aside {s : Standing} (hs : Idle true s) :
    Obedient (· = s) (create_rows rows) fun _ => (· = s) := by
  have hbatch : ∀ batch, Obedient (· = s) (insert_batch batch) fun _ => (· = s) := by
    intro batch
    refine obedient_bind (R := fun _ => (· = s)) ?_ fun created => ?_
    · rintro _ rfl
      exact ⟨⟨hs.1, hs.2⟩, fun _ _ => ⟨_, ⟨_, rfl, fun c hc => Or.inl hc⟩, rfl⟩⟩
    · cases created with
      | none => exact obedient_raise
      | some created => exact obedient_pure fun _ h => h
  unfold create_rows
  split_ifs
  · exact obedient_pure fun _ h => h
  · exact obedient_bind (obedient_each hbatch _) fun _ => obedient_pure fun _ h => h

/-- Rows are created inside a transaction. -/
theorem obedient_create : Obedient (Idle true) (create_rows rows) fun _ => Idle true := by
  intro s hs
  have hidle : Obedient (· = s) (create_rows rows) fun _ => Idle true :=
    Keeps.conseq (obedient_create_aside hs) (fun _ h => h) (fun _ _ h => h.symm ▸ hs) fun _ h => h
  exact hidle s rfl

/-- The session may dispatch the rows of the list it has created. -/
structure Holding (created : List NodeExec) (h : Standing) : Prop where
  idle : Idle true h
  apart : created.Pairwise Apart
  held : ∀ c ∈ created, is_loop_child c = false ∧ c ∈ h.created

theorem holding_nil {h : Standing} (hidle : Idle true h) : Holding [] h := ⟨hidle, .nil, by simp⟩

/-- Rows that are no loop children can be dispatched once they are created. -/
theorem obedient_create_held (hrows : ∀ r ∈ rows, is_loop_child r = false) :
    Obedient (Idle true) (create_rows rows) Holding := by
  have hbatch : ∀ batch ∈ batches rows, ∀ bs : List (List NodeExec), Obedient (Holding bs.flatten)
      (insert_batch batch) fun created => Holding (bs ++ [created]).flatten := by
    intro batch hin bs
    refine obedient_bind (R := fun answer h => ∀ created, answer = some created →
      Holding (bs ++ [created]).flatten h)
      ?_ fun answer => ?_
    · rintro h ⟨hidle, hapart, hheld⟩
      refine ⟨⟨hidle.1, hidle.2⟩, fun answer hanswer => ?_⟩
      cases answer with
      | none => exact ⟨h, ⟨h.created, rfl, fun c hc => Or.inl hc⟩, fun _ hno => by cases hno⟩
      | some created =>
        obtain ⟨hfrom, hnew, hcross⟩ := hanswer
        have hchild : ∀ c ∈ created, is_loop_child c = false := by
          intro c hc
          obtain ⟨r, hr, heq⟩ := hfrom c hc
          rw [heq]
          exact hrows r (mem_of_batches hin hr)
        refine ⟨{ h with created := h.created ++ created }, ⟨_, rfl, fun c hc => ?_⟩, ?_⟩
        · obtain hc | hc := List.mem_append.mp hc
          · exact Or.inl hc
          · exact Or.inr ⟨hchild c hc, created, rfl, hc⟩
        · rintro _ heq
          obtain rfl := Option.some.inj heq
          rw [List.flatten_append, List.flatten_singleton]
          refine ⟨hidle, List.pairwise_append.mpr ⟨hapart, hnew, fun b hb c hc => ?_⟩,
            fun c hc => ?_⟩
          · exact hcross c hc b (hheld b hb).2
          · obtain hc | hc := List.mem_append.mp hc
            · exact ⟨(hheld c hc).1, List.mem_append_left _ (hheld c hc).2⟩
            · exact ⟨hchild c hc, List.mem_append_right _ hc⟩
    · cases answer with
      | none => exact obedient_raise
      | some created => exact obedient_pure fun _ h => h created rfl
  unfold create_rows
  split_ifs
  · exact obedient_pure fun _ => holding_nil
  · refine fun h hidle => obedient_bind (keeps_collect hbatch []) (fun created => ?_) h
      (holding_nil hidle)
    exact obedient_pure fun _ h => h

end inserts

section dispatching

variable {row : NodeExec} {rest : List NodeExec} {h h' : Standing}

/-- The rows still to be dispatched: created ones, then loop children that were read. -/
def Ready (rest : List NodeExec) (h : Standing) : Prop :=
  Idle true h ∧ ∃ created children, rest = created ++ children ∧ created.Pairwise Apart ∧
    (∀ c ∈ created, is_loop_child c = false ∧ c ∈ h.created) ∧
    ∀ r ∈ children, is_loop_child r = true ∧ r ∈ h.children

/-- The next candidate was created here or is a loop child. -/
theorem Ready.head (hready : Ready (row :: rest) h) :
    if is_loop_child row then row ∈ h.children else row ∈ h.created := by
  obtain ⟨_, created, children, heq, _, hcreated, hchildren⟩ := hready
  cases created with
  | nil =>
    obtain rfl : row :: rest = children := heq
    obtain ⟨hchild, hmem⟩ := hchildren row List.mem_cons_self
    rwa [if_pos hchild]
  | cons c created =>
    obtain ⟨rfl, _⟩ := List.cons.inj heq
    obtain ⟨hno, hmem⟩ := hcreated row List.mem_cons_self
    rwa [hno, if_neg Bool.false_ne_true]

/-- What is done to one row leaves the others ready. -/
theorem Ready.tail (hready : Ready (row :: rest) h) (hidle : Idle true h')
    (hcreated : ∀ c ∈ h.created, Apart row c → c ∈ h'.created)
    (hchildren : h'.children = h.children) :
    Ready rest h' := by
  obtain ⟨_, created, children, heq, hapart, hheld, hread⟩ := hready
  refine ⟨hidle, ?_⟩
  cases created with
  | nil =>
    obtain rfl : row :: rest = children := heq
    refine ⟨[], rest, rfl, .nil, by simp, fun r hr => ?_⟩
    rw [hchildren]
    exact hread r (List.mem_cons_of_mem _ hr)
  | cons c created =>
    obtain ⟨rfl, rfl⟩ := List.cons.inj heq
    obtain ⟨hrow, hrest⟩ := List.pairwise_cons.mp hapart
    refine ⟨created, children, rfl, hrest, fun c hc => ?_, hchildren ▸ hread⟩
    obtain ⟨hno, hmem⟩ := hheld c (List.mem_cons_of_mem _ hc)
    exact ⟨hno, hcreated c hmem (hrow c hc)⟩

/-- The row is with its adapter, and its answer has to be saved next. -/
def Flying (row handed : NodeExec) (rest : List NodeExec) (h : Standing) : Prop :=
  h.active = true ∧ h.flight = some handed ∧ handed.pk = row.pk ∧
  ∃ before, Ready (row :: rest) before ∧
    (∀ c ∈ before.created, Apart row c → c ∈ h.created) ∧ h.children = before.children

/-- Saving a row of its own accord. -/
theorem obedient_save_failed {message : String} :
    Obedient (Ready (row :: rest)) (save .other env (failed_row env row message) failFields)
      fun _ => Ready rest := by
  rintro h hready
  have hstatus : (failed_row env row message).status ≠ .PENDING := by simp [failed_row]
  refine ⟨⟨trivial, fun _ => hstatus, fun f hf => ?_⟩, fun _ _ => ⟨_, rfl, ?_⟩⟩
  · rw [hready.1.2] at hf
    cases hf
  · refine hready.tail ⟨hready.1.1, rfl⟩ (fun c hc hapart => List.mem_filter.mpr ⟨hc, ?_⟩) rfl
    exact decide_eq_true hapart.1.symm

/-- Saving the answer of an adapter. -/
theorem obedient_save_answer {handed new : NodeExec} {fields : List Field}
    (hpk : new.pk = handed.pk) (hfield : .status ∈ fields) (hstatus : new.status ≠ .PENDING) :
    Obedient (Flying row handed rest) (save .other env new fields) fun _ => Ready rest := by
  rintro h ⟨hactive, hflight, hhanded, before, hready, hcreated, hchildren⟩
  refine ⟨⟨trivial, fun _ => hstatus, fun f hf => ?_⟩, fun _ _ => ⟨_, rfl, ?_⟩⟩
  · rw [hflight] at hf
    obtain rfl := Option.some.inj hf
    exact ⟨hpk, hfield⟩
  · refine hready.tail ⟨hactive, rfl⟩ (fun c hc hapart => ?_) hchildren
    refine List.mem_filter.mpr ⟨hcreated c hc hapart, ?_⟩
    rw [hpk, hhanded]
    exact decide_eq_true hapart.1.symm

/-- A row is handed to its adapter. -/
theorem obedient_hand {rendered : Dict String Json} :
    Obedient (Ready (row :: rest)) (statement (.dispatch (handed_row env row rendered user_id)))
      fun _ => Flying row (handed_row env row rendered user_id) rest := by
  rintro h hready
  have hid : (handed_row env row rendered user_id).SameIdentity row := by constructor <;> rfl
  have hchild : is_loop_child (handed_row env row rendered user_id) = is_loop_child row := rfl
  refine ⟨⟨hready.1.2, ?_⟩,
    fun _ _ => ⟨_, rfl, hready.1.1, rfl, rfl, h, hready, fun c hc hapart => ?_, rfl⟩⟩
  · have hhead := hready.head
    rw [hchild]
    split_ifs at hhead ⊢
    · exact ⟨row, hhead, hid⟩
    · exact ⟨row, hhead, hid⟩
  · exact List.mem_filter.mpr ⟨hc, decide_eq_true hapart.2.symm⟩

/-- Expanding a loop keeps the other candidates ready. -/
theorem obedient_expand {parent_row : NodeExec} {uo : UnitOutput} :
    Obedient (Ready rest) (expand_loop_children env x parent_row uo user_id) fun _ =>
      Ready rest := by
  intro s hready
  refine obedient_bind (P := (· = s)) (R := fun _ => (· = s)) (obedient_fromExcept fun _ _ _ h => h)
    (fun child_rows => ?_) s rfl
  refine obedient_bind (obedient_create_aside hready.1) fun _ => obedient_pure ?_
  rintro _ rfl
  exact hready

/-- A row whose adapter has accepted it is not pending. -/
theorem accepted_status (uo : UnitOutput) (user_id : Option Int) :
    (accepted env row uo user_id).1.status ≠ .PENDING := by
  intro hpending
  have hstatus := apply_unit_output_status env { row with status := .RUNNING } uo true
  have hvalid := nextStatus_running uo.status
  unfold accepted at hpending
  simp only at hpending
  rw [← hstatus, hpending] at hvalid
  simp [VALID_TRANSITIONS] at hvalid

/-- The answer of a dispatch is saved before the next row. -/
theorem obedient_dispatch_answer {handed : NodeExec} {uo : UnitOutput} :
    Obedient (Flying row handed rest) (dispatch_answer env x handed uo user_id) fun _ =>
      Ready rest := by
  unfold dispatch_answer
  have hpk : (accepted env handed uo user_id).1.pk = handed.pk :=
    (apply_unit_output_sameIdentity env { handed with status := .RUNNING } uo true).pk
  have hfield : Field.status ∈ (accepted env handed uo user_id).2 := by
    simp [accepted, dispatchFields]
  generalize hnew : accepted env handed uo user_id = p at hpk hfield
  have hstatus : p.1.status ≠ .PENDING := hnew ▸ accepted_status uo user_id
  obtain ⟨new, fields⟩ := p
  refine obedient_bind (obedient_save_answer hpk hfield hstatus) fun _ => ?_
  show Obedient _ (if _ then _ else _) _
  split_ifs
  · exact obedient_expand
  · exact obedient_pure fun _ h => h

/-- A row that is ready is dispatched once, and the rest stays ready. -/
theorem obedient_dispatch_row {dag : Dag} {ctx : EdgeCtx} :
    Obedient (Ready (row :: rest)) (dispatch_row env x dag ctx user_id row) fun _ =>
      Ready rest := by
  unfold dispatch_row
  by_cases hpending : row.status ≠ .PENDING
  · rw [if_pos hpending]
    exact obedient_pure fun h hready => hready.tail hready.1 (fun _ hc _ => hc) rfl
  rw [if_neg hpending]
  refine obedient_bind (R := fun _ => Ready (row :: rest)) (obedient_fromExcept fun _ _ _ h => h)
    fun outcome => ?_
  cases outcome with
  | inl message => exact obedient_bind obedient_save_failed fun _ => obedient_pure fun _ h => h
  | inr p =>
    obtain ⟨adapter, rendered⟩ := p
    refine obedient_bind obedient_hand fun _ => ?_
    split
    · split_ifs
      · exact obedient_bind (obedient_save_answer rfl (by simp) (by simp [dispatch_failed]))
          fun _ =>
          obedient_pure fun _ h => h
      · exact obedient_raise
    · exact obedient_bind obedient_dispatch_answer fun _ => obedient_pure fun _ h => h

theorem obedient_dispatch_pending {dag : Dag} {ctx : EdgeCtx} {candidate_rows : List NodeExec} :
    Obedient (Ready candidate_rows) (dispatch_pending env x dag candidate_rows ctx user_id)
      fun _ => Idle true := by
  refine obedient_bind (obedient_forEach
    (I := Ready) (fun _ _ => obedient_dispatch_row) candidate_rows) fun _ => ?_
  exact obedient_pure fun _ h => h.1

end dispatching

section phases

variable {ver : DagVersion} {ctx : EdgeCtx}

/-- Retry rows are created inside the transaction. -/
theorem obedient_retry {dag : Dag} {completed : List String} :
    Obedient (Idle true) (retry_failed_rows env x dag completed user_id) fun _ => Idle true := by
  refine obedient_bind obedient_select fun rows => ?_
  exact obedient_bind obedient_create fun _ => obedient_pure fun _ h => h

theorem obedient_skip {dag : Dag} :
    Obedient (Idle true) (mark_ineligible_nodes_skipped env x dag ctx user_id)
      fun _ => Idle true := by
  refine obedient_bind obedient_select fun rows => ?_
  exact obedient_bind obedient_create fun _ => obedient_pure fun _ h => h

/-- The rows of runnable nodes are no loop children. -/
theorem rows_for_keys_no_child {dag : Dag} {existing : String → List NodeExec} {keys : List String}
    {r : NodeExec} (hr : r ∈ rows_for_keys env x dag user_id existing keys) :
    is_loop_child r = false := by
  obtain ⟨key, _, hr⟩ := List.mem_flatMap.mp hr
  split_ifs at hr
  · cases hr
  · split at hr
    · cases hr
    · have hstate := (firstRow_of_runnable_rows hr).adapter_state
      simp only [is_loop_child, hstate]
      rfl

/-- Reading the pending loop children makes them ready beside the created rows. -/
theorem obedient_read_children {created : List NodeExec} :
    Obedient (Holding created) (objects_filter fun r => r.status = .PENDING && is_loop_child r)
      fun children => Ready (created ++ children) := by
  refine obedient_bind (R := fun rows => Ready
    (created ++ rows.filter fun r => r.status = .PENDING && is_loop_child r)) ?_ fun _ =>
    obedient_pure fun _ h => h
  rintro h ⟨hidle, hapart, hheld⟩
  refine ⟨hidle.2, fun (rows : List NodeExec) _ => ?_⟩
  have hread : ∀ r ∈ rows.filter (fun r => r.status = .PENDING && is_loop_child r),
      is_loop_child r = true ∧ r ∈ rows := by
    intro r hr
    obtain ⟨hr, hp⟩ := List.mem_filter.mp hr
    exact ⟨(Bool.and_eq_true _ _ ▸ hp).2, hr⟩
  refine ⟨{ h with children := h.children ++ rows.filter fun r => r.status = .PENDING && is_loop_child r },
    ⟨_, rfl, fun r hr => ?_⟩, hidle, created, _, rfl, hapart, hheld, fun r hr => ?_⟩
  · obtain hr | hr := List.mem_append.mp hr
    · exact Or.inl hr
    · exact Or.inr (hread r hr)
  · exact ⟨(hread r hr).1, List.mem_append_right _ hr⟩

/-- The dispatch phase keeps to the protocol. -/
theorem obedient_dispatch_phase :
    Obedient (Idle true) (dispatch_phase env x ver ctx user_id) fun _ => Idle true := by
  refine obedient_bind obedient_select fun all_rows => ?_
  refine obedient_bind (obedient_create_held fun r hr => rows_for_keys_no_child hr)
    fun created => ?_
  refine obedient_bind obedient_read_children fun children => ?_
  refine obedient_bind obedient_dispatch_pending fun dispatched => ?_
  show Obedient _ (if _ then _ else _) _
  by_cases hsome : 0 < dispatched
  · rw [if_pos hsome]
    refine obedient_bind obedient_refresh fun _ => ?_
    exact obedient_bind obedient_aggregate_loops fun _ => obedient_pure fun _ h => h
  · rw [if_neg hsome]
    exact obedient_pure fun _ h => h

theorem obedient_advance_phases {tick : AdvanceTick} {completed : List String} :
    Obedient (Idle true) (advance_phases env x ver ctx user_id tick completed)
      fun _ => Idle true := by
  refine obedient_bind obedient_retry fun _ => ?_
  refine obedient_bind obedient_fail_fast_phase fun _ => ?_
  refine obedient_bind obedient_aggregate_loops fun _ => ?_
  refine obedient_bind obedient_refresh fun _ => ?_
  refine obedient_bind obedient_dispatch_phase fun p => ?_
  refine obedient_bind obedient_skip fun _ => ?_
  exact obedient_bind obedient_finalize fun _ => obedient_pure fun _ h => h

/-- A transaction keeps to the discipline if its body does. -/
theorem obedient_transaction {t : Session α} (h : Obedient (Idle true) t fun _ => Idle true) :
    Obedient (Idle false) (transaction t) fun _ => Idle false := by
  rintro s ⟨hactive, hflight⟩
  refine ⟨hflight, fun _ _ => ⟨{ active := true }, rfl, ?_⟩⟩
  refine keeps_ending h ?_ ?_ _ ⟨rfl, rfl⟩
  · exact fun _ _ hidle => ⟨hidle.2, fun _ _ => ⟨{}, rfl, rfl, rfl⟩⟩
  · exact fun _ _ => ⟨trivial, fun _ _ => ⟨{}, rfl, trivial⟩⟩

/-- A call of advance keeps to it, atomic or not. -/
theorem obedient_advance {atomic : Session AdvanceTick → Session AdvanceTick}
    (hatomic : ∀ {t}, Obedient (Idle true) t (fun _ => Idle true) →
      Obedient (Idle a) (atomic t) fun _ => Idle a) :
    Obedient (Idle a) (advance_workflow env ver user_id atomic) fun _ => Idle a := by
  refine obedient_bind obedient_select_execution fun execution => ?_
  cases execution with
  | none => exact obedient_raise
  | some execution =>
    exact obedient_bind obedient_poll_phase fun _ => hatomic obedient_advance_phases

theorem obedient_cancel_workflow {reason : Option String} :
    Obedient (Idle false) (cancel_workflow env reason) fun _ => Idle false := by
  refine obedient_transaction (obedient_bind obedient_select_execution fun execution => ?_)
  cases execution with
  | none => exact obedient_raise
  | some execution =>
    refine obedient_bind obedient_filter fun rows => ?_
    refine obedient_bind (obedient_each (fun _ => obedient_cancel_row) rows) fun _ => ?_
    exact obedient_save_execution

/-- Every call keeps to the discipline. -/
theorem obedient_client (ver : DagVersion) (client : Client) :
    Obedient (Idle false) (client.session ver) fun _ => Idle false := by
  cases client with
  | advance env user_id =>
    exact obedient_bind (obedient_advance obedient_transaction) fun _ => obedient_pure fun _ h => h
  | scheduled env =>
    refine obedient_bind (obedient_transaction ?_) fun _ => obedient_pure fun _ h => h
    exact obedient_advance fun h => h
  | cancel env reason => exact obedient_cancel_workflow

end phases

/-- Any number of calls that begin on a database keep to the discipline and leave it sound. -/
theorem obeying_start (ver : DagVersion) (w : World) (clients : List Client) :
    Threads.Obeying discipline Sound (Sessions.start ver w clients) := by
  refine ⟨fun _ => {}, ⟨⟨List.nodup_nil, by simp [Sessions.start]⟩, fun i => fits_empty _ i⟩,
    fun i t ht => ?_⟩
  obtain ⟨client, _, rfl⟩ := List.mem_map.mp (List.mem_of_getElem? ht)
  exact (obedient_client ver client {} ⟨rfl, rfl⟩).mono fun _ _ _ => trivial

end taurus.engine.concurrent
