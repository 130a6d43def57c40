import Taurus.Engine.Steps.KeptByCalls
import Taurus.Units.Loop

namespace taurus.engine.runner

open taurus.lib taurus.lib.Prog taurus.python taurus.engine.executor

/-- One expansion of a loop node on a host: the child rows made for its items, and the limit
its adapter reported. -/
structure Expansion where
  children : List NodeExec
  max_concurrency : Int

namespace Expansion

/-- The stored row is a child of the loop. -/
def Owns (loop : Expansion) (r : NodeExec) : Prop :=
  r.dispatch_id ∈ loop.children.map (·.dispatch_id)

instance (loop : Expansion) : DecidablePred loop.Owns := fun _ => by unfold Owns; infer_instance

/-- The stored row is a child of the loop that its adapter works on. -/
def Runs (loop : Expansion) (r : NodeExec) : Prop := r.status = .RUNNING ∧ loop.Owns r

instance (loop : Expansion) : DecidablePred loop.Runs := fun _ => by unfold Runs; infer_instance

/-- How many children of the loop are RUNNING. -/
def running (loop : Expansion) (rows : List NodeExec) : Nat := rows.countP fun r => loop.Runs r

/-- No more children are RUNNING than the loop allows. -/
def Within (loop : Expansion) (rows : List NodeExec) : Prop :=
  (loop.running rows : Int) ≤ loop.max_concurrency

end Expansion

/-- The loop that an entry has expanded, when the table takes its child rows and its adapter
has reported a limit. -/
def Entry.expansion? (e : Entry) : Option Expansion :=
  match e.act with
  | .expand parent children =>
    match getJson parent.output "max_concurrency" with
    | .int m =>
      if 1 ≤ m ∧ Table.Insertable e.before children then
        some { children, max_concurrency := m }
      else none
    | _ => none
  | _ => none

/-- The entry hands a stored row of the loop to its adapter. -/
def Entry.Hands (e : Entry) (loop : Expansion) : Prop :=
  match e.act with
  | .dispatch row => ∃ r ∈ e.before, r.pk = row.pk ∧ loop.Owns r
  | _ => False

instance (e : Entry) (loop : Expansion) : Decidable (e.Hands loop) := by
  unfold Entry.Hands
  split <;> infer_instance

/-- A child of the loop expanded by `earlier` is handed over by `e` only while fewer children
than allowed are RUNNING. -/
def Waits (earlier e : Entry) : Prop :=
  ∀ loop ∈ earlier.expansion?, e.Hands loop → (loop.running e.before : Int) < loop.max_concurrency

instance : DecidableRel Waits := fun _ _ => by unfold Waits; infer_instance

/-- In no loop more children are RUNNING than its adapter has reported as the limit. -/
def Bounded (w : World) : Prop := ∀ e ∈ w.log, ∀ loop ∈ e.expansion?, loop.Within w.rows

section counts

variable {α : Type} {p : α → Bool} {key : α → Nat} {f : α → α} {k : Nat} {as : List α}

/-- Changing the element of one key adds at most one element with `p`. -/
theorem countP_change_le (hnodup : (as.map key).Nodup) :
    (as.map fun a => if key a = k then f a else a).countP p ≤ as.countP p + 1 := by
  induction as with
  | nil => simp
  | cons a rest ih =>
    rw [List.map_cons, List.nodup_cons] at hnodup
    rw [List.map_cons, List.countP_cons, List.countP_cons]
    by_cases hk : key a = k
    · have hrest : (rest.map fun a => if key a = k then f a else a) = rest := by
        refine (List.map_congr_left fun b hb => if_neg fun heq => ?_).trans (List.map_id' rest)
        exact hnodup.1 (List.mem_map.mpr ⟨b, hb, heq.trans hk.symm⟩)
      rw [hrest]
      split_ifs <;> omega
    · have := ih hnodup.2
      rw [if_neg hk]
      omega

/-- A change that gives no element `p` adds none. -/
theorem countP_change_le_of (h : ∀ a ∈ as, key a = k → p (f a) = true → p a = true) :
    (as.map fun a => if key a = k then f a else a).countP p ≤ as.countP p := by
  rw [List.countP_map]
  refine List.countP_mono_left fun a ha hp => ?_
  simp only [Function.comp_apply] at hp
  split_ifs at hp with hk
  · exact h a ha hk hp
  · exact hp

end counts

namespace Expansion

variable {loop : Expansion} {t : Table} {row : NodeExec} {now : Time} {fields : List Field}

/-- A write that does not set RUNNING makes no child run. -/
theorem runs_of_write {r : NodeExec} (h : .status ∈ fields → row.status ≠ .RUNNING)
    (hruns : loop.Runs (r.write row now fields)) : loop.Runs r := by
  refine ⟨?_, hruns.2⟩
  have hstatus : (if .status ∈ fields then row.status else r.status) = .RUNNING := hruns.1
  split_ifs at hstatus with hmem
  · exact absurd hstatus (h hmem)
  · exact hstatus

/-- Nor does a save of one. -/
theorem running_save_le (loop : Expansion) (t : Table) (now : Time)
    (hrow : .status ∈ fields → row.status ≠ .RUNNING) :
    loop.running (t.save row now fields).rows ≤ loop.running t.rows := by
  apply countP_change_le_of
  intro r _ _ hruns
  exact decide_eq_true (runs_of_write hrow (of_decide_eq_true hruns))

/-- Nor does a save of a row that is no child. -/
theorem running_save_other_le (now : Time) (fields : List Field)
    (hrow : ∀ r ∈ t.rows, r.pk = row.pk → ¬ loop.Owns r) :
    loop.running (t.save row now fields).rows ≤ loop.running t.rows := by
  apply countP_change_le_of
  intro r hr hpk hruns
  have howns : loop.Owns r := (of_decide_eq_true hruns : loop.Runs (r.write row now fields)).2
  exact absurd howns (hrow r hr hpk)

/-- A save makes at most one child run. -/
theorem running_save_le_succ (loop : Expansion) (t : Table) (row : NodeExec) (now : Time)
    (fields : List Field) :
    loop.running (t.save row now fields).rows ≤ loop.running t.rows + 1 :=
  countP_change_le t.pk_nodup

/-- Inserted rows that are not RUNNING add no running child. -/
theorem running_insert (loop : Expansion) {t' : Table} {rows created : List NodeExec}
    (hrows : ∀ r ∈ rows, r.status ≠ .RUNNING) (h : t.bulk_create rows = some (t', created)) :
    loop.running t'.rows = loop.running t.rows := by
  unfold running
  rw [List.countP_eq_length_filter, List.countP_eq_length_filter,
    (Table.bulk_create_created h).filter]
  intro r hr n
  exact decide_eq_false fun hruns => hrows r hr hruns.1

end Expansion

/-- An expansion brings a positive limit, and rows that the table takes. -/
theorem expansion_spec {e : Entry} {loop : Expansion} (h : loop ∈ e.expansion?) :
    1 ≤ loop.max_concurrency ∧ Table.Insertable e.before loop.children := by
  unfold Entry.expansion? at h
  split at h
  · split at h
    · split_ifs at h with hloop
      · obtain rfl := Option.some.inj h
        exact hloop
      · cases h
    · cases h
  · cases h

section steps

variable {ver : DagVersion} {w w' : World}

/-- A step keeps the rows. -/
theorem Step.keepsRows (h : Step ver w w') : KeepsRows w.rows w'.rows := by
  cases h with
  | begin | note | finish => exact .refl _
  | insert act hx h hins =>
    exact .of_subset fun b hb => ((Table.bulk_create_created hins).mem b).mpr (Or.inr hb)
  | save old row now fields hold hpk h =>
    exact fun b hb => w.table.exists_mem_save row now fields hb

/-- What steps add to the history they add with all rows of the start still there. -/
theorem Moves.keepsRows_entries (h : Moves ver w w') :
    ∀ e ∈ w'.log, e ∈ w.log ∨ KeepsRows w.rows e.before := by
  refine h.noted_entries (C := fun _ => True) (T := fun s => KeepsRows w.rows s.2.rows) ?_ ?_
    (fun _ _ => trivial)
    (.refl _) fun e he => Or.inl he
  · intro w₁ w₂ hstep _ hkeeps
    exact KeepsRows.trans hkeeps hstep.keepsRows
  · intro w₁ x act _ hkeeps _ _ _
    exact Or.inr hkeeps

/-- A loop has no child yet where its rows can be inserted later. -/
theorem Expansion.running_keepsRows {loop : Expansion} {rows rows' : List NodeExec}
    (hkeeps : KeepsRows rows rows') (h : Table.Insertable rows' loop.children) :
    loop.running rows = 0 := by
  refine List.countP_eq_zero.mpr fun r hr hruns => ?_
  obtain ⟨r', hr', hsame⟩ := hkeeps r hr
  obtain ⟨c, hc, hid⟩ := List.mem_map.mp (of_decide_eq_true hruns : loop.Runs r).2
  have hnodup := h.2
  rw [List.map_append] at hnodup
  refine (List.nodup_append.mp hnodup).2.2 _ (List.mem_map_of_mem hr') _ (List.mem_map_of_mem hc) ?_
  exact hsame.dispatch_id.trans hid.symm

/-- Bookkeeping keeps the bound: the children of a loop just expanded do not run. -/
theorem Bounded.note (h : Bounded w) (act : Act) : Bounded (w.note act) := by
  intro e he loop hloop
  obtain he | he := List.mem_append.mp he
  · exact h e he loop hloop
  · obtain rfl := List.mem_singleton.mp he
    obtain ⟨hlimit, hins⟩ := expansion_spec hloop
    have hzero : loop.running w.rows = 0 := Expansion.running_keepsRows (.refl _) hins
    change (loop.running w.rows : Int) ≤ loop.max_concurrency
    omega

/-- So does a table with no more running children. -/
theorem Bounded.of_running_le (h : Bounded w) (hlog : w'.log = w.log)
    (hle : ∀ loop : Expansion, loop.running w'.rows ≤ loop.running w.rows) : Bounded w' := by
  intro e he loop hloop
  have hbound : (loop.running w.rows : Int) ≤ loop.max_concurrency := h e (hlog ▸ he) loop hloop
  have := hle loop
  change (loop.running w'.rows : Int) ≤ loop.max_concurrency
  omega

/-- The answer to a dispatch keeps the bound, if the dispatch has waited. -/
theorem Bounded.answer (h : Bounded w) {row new : NodeExec} (now : Time) (fields : List Field)
    (hpk : new.pk = row.pk) (hwaits : ∀ e ∈ w.log,
      Waits e { act := .dispatch row, before := w.rows }) :
    Bounded { w.note (.dispatch row) with table := w.table.save new now fields } := by
  intro e he loop hloop
  obtain he | he := List.mem_append.mp he
  · have hbound : (loop.running w.rows : Int) ≤ loop.max_concurrency := h e he loop hloop
    change (loop.running (w.table.save new now fields).rows : Int) ≤ loop.max_concurrency
    by_cases hhands : ∃ r ∈ w.rows, r.pk = row.pk ∧ loop.Owns r
    · have hroom : (loop.running w.rows : Int) < loop.max_concurrency :=
        hwaits e he loop hloop hhands
      have hsucc : loop.running (w.table.save new now fields).rows ≤ loop.running w.rows + 1 :=
        loop.running_save_le_succ w.table new now fields
      omega
    · have hle : loop.running (w.table.save new now fields).rows ≤ loop.running w.rows :=
        Expansion.running_save_other_le now fields fun r hr heq howns =>
          hhands ⟨r, hr, heq.trans hpk, howns⟩
      omega
  · obtain rfl := List.mem_singleton.mp he
    cases hloop

/-- While every child has waited for room, no write of the runner exceeds a limit. -/
theorem bounded_kept (ver : DagVersion) :
    KeptByCalls ver fun w => w.log.Pairwise Waits → Bounded w where
  execution w x h hlog := (h hlog).of_running_le rfl fun _ => le_refl _
  note w act h hlog := (h (List.pairwise_append.mp hlog).1).note act
  insert w rows table created hrows hins h hlog :=
    (h hlog).of_running_le rfl fun loop => (loop.running_insert hrows hins).le
  save w row now fields hrow h hlog :=
    (h hlog).of_running_le rfl fun loop => loop.running_save_le w.table now hrow
  answer w row new now fields hpk h hlog := by
    obtain ⟨hearlier, -, hwaits⟩ := List.pairwise_append.mp hlog
    exact (h hearlier).answer now fields hpk fun e he => hwaits e he _ (List.mem_singleton.mpr rfl)
  undo w w' h hmoves hlog := by
    intro e he loop hloop
    obtain hold | hkeeps := hmoves.keepsRows_entries e he
    · exact h (hlog.sublist hmoves.log_grows.sublist) e hold loop hloop
    · obtain ⟨hlimit, hins⟩ := expansion_spec hloop
      have hzero : loop.running w.rows = 0 := Expansion.running_keepsRows hkeeps hins
      change (loop.running w.rows : Int) ≤ loop.max_concurrency
      omega

/-- In a run in which a child row is handed to its adapter only while fewer children of
its loop are RUNNING than its adapter has reported as the limit, no loop ever has more
children RUNNING than that. -/
theorem loops_bounded {w : World} (h : Reachable ver w)
    (hwaits : w.log.Pairwise Waits) : Bounded w :=
  (bounded_kept ver).reachable h (fun _ _ he => absurd he List.not_mem_nil) hwaits

end steps

/-- A loop over two items, `max_concurrency` of which may run at the same time. -/
def twoItems (max_concurrency : Int) : DagVersion where
  dag :=
    { nodes := [{ node_key := "start", node_type := "start" },
        { node_key := "each", node_type := "loop"
          params := [("loop_type", .str "for_each"), ("items", .arr [.str "a", .str "b"]),
            ("body_node_type", .str "command"), ("max_concurrency", .int max_concurrency)] }]
      edges := [{ from_key := "start", to_key := "each" }]
      keys_nodup := by simp
      edges_closed := by simp }
  workflow := { pk := 1, name := "two items" }

/-- The loop adapter, and bodies whose work goes on. -/
def bodiesRun (minute : Int) : Env :=
  let env := scripted minute (fun _ _ => running) fun _ _ => running
  { env with get_class := fun node_type =>
      if node_type = "loop" then .ok (units.LoopAdapter
        (fun _ => none) .short env) else env.get_class node_type }

/-- The tick after the expansion. -/
def bodiesStarted (max_concurrency : Int) : World :=
  started (twoItems max_concurrency) (bodiesRun 0) [.advance (bodiesRun 1) none]

/-- With room for both items they run side by side. -/
theorem two_at_once_bounded :
    (∃ e ∈ (bodiesStarted 2).log, ∃ loop ∈ e.expansion?, loop.running (bodiesStarted 2).rows = 2) ∧
      Bounded (bodiesStarted 2) :=
  ⟨by decide +kernel, loops_bounded (started_reachable _ _ _ rfl) (by decide +kernel)⟩

/-- They also do where the loop adapter has reported that one item may run at a time. -/
theorem one_at_a_time_exceeded :
    ¬ ∀ (ver : DagVersion) (w : World), Reachable ver w → Bounded w := by
  intro h
  have hexceeded : ∃ e ∈ (bodiesStarted 1).log, ∃ loop ∈ e.expansion?, loop.max_concurrency = 1 ∧
      loop.running (bodiesStarted 1).rows = 2 := by decide +kernel
  obtain ⟨e, he, loop, hloop, hone, htwo⟩ := hexceeded
  have hbound : (loop.running (bodiesStarted 1).rows : Int) ≤ loop.max_concurrency :=
    h _ _ (started_reachable _ _ _ rfl) e he loop hloop
  omega

end taurus.engine.runner
