import Taurus.Engine.Steps.Calls

namespace taurus.engine.runner

open taurus.lib taurus.python taurus.engine.executor

variable {ver : DagVersion}

/-- The entry aggregates the successful loop parent `pk` over a failed child row. -/
def FailedChildAggregation (pk : Nat) (e : Entry) : Prop :=
  ∃ row, e.act = .aggregate row ∧ row.pk = pk ∧ is_loop_parent row = true ∧ row.status = .SUCCESS ∧
    ∃ c ∈ e.before, c.status = .FAILED ∧ ∃ i, c.node_key = childKey row.node_key i

/-- What becomes of one row: a failed, skipped or cancelled one keeps its status, a
successful one changes only by the aggregation of a failed child. -/
structure KeepsStatus (log : List Entry) (r r' : NodeExec) : Prop where
  pk : r'.pk = r.pk
  final : r.status = .FAILED ∨ r.status = .SKIPPED ∨ r.status = .CANCELLED → r'.status = r.status
  success : r.status = .SUCCESS → r'.status = .SUCCESS ∨
    (r'.status = .FAILED ∧ ∃ e ∈ log, FailedChildAggregation r.pk e)

/-- Terminal statuses are final between two states of an execution. -/
def TerminalStatusesFinal (w w' : World) : Prop :=
  ∀ r ∈ w.rows, ∃ r' ∈ w'.rows, KeepsStatus w'.log r r'

/-- The aggregation of a loop parent respects the status it finds: the parent is
neither skipped nor cancelled, a failed one has a failed child, and the failed rows
taken for children of a successful one include a child of this loop. -/
def AggregatesInPlace (e : Entry) : Prop :=
  ∀ row, e.act = .aggregate row →
    row.status ≠ .SKIPPED ∧ row.status ≠ .CANCELLED ∧
    (row.status = .FAILED → ∃ c ∈ child_rows e.before row.node_key, c.status = .FAILED) ∧
    (row.status = .SUCCESS → (∃ c ∈ child_rows e.before row.node_key, c.status = .FAILED) →
      ∃ c ∈ e.before, c.status = .FAILED ∧ ∃ i, c.node_key = childKey row.node_key i)

theorem KeepsStatus.refl (log : List Entry) (r : NodeExec) : KeepsStatus log r r :=
  ⟨rfl, fun _ => rfl, fun h => Or.inl h⟩

/-- Statuses kept over two stretches of a run are kept over both. -/
theorem KeepsStatus.trans {log log' : List Entry} {a b c : NodeExec} (hab : KeepsStatus log a b)
    (hbc : KeepsStatus log' b c) (hlog : log <+: log') : KeepsStatus log' a c where
  pk := hbc.pk.trans hab.pk
  final h := by
    have hb := hab.final h
    rw [← hb] at h ⊢
    exact hbc.final h
  success h := by
    obtain hb | ⟨hb, e, he, hagg⟩ := hab.success h
    · rw [← hab.pk]
      exact hbc.success hb
    · refine Or.inr ⟨?_, e, hlog.subset he, hagg⟩
      rw [hbc.final (Or.inl hb), hb]

/-- Of the saves of the runner only an aggregation writes a terminal row. -/
theorem Write.keepsStatus {log : List Entry} {rows : List NodeExec} {old new : NodeExec}
    (h : Write log rows old new) (hpk : new.pk = old.pk) (hlog : ∀ e ∈ log, AggregatesInPlace e) :
    KeepsStatus log old new := by
  have hopen : old.status = .PENDING ∨ old.status = .RUNNING → KeepsStatus log old new := by
    rintro (ho | ho) <;> exact ⟨hpk, by simp [ho], by simp [ho]⟩
  cases h with
  | poll h | refuse h | dispatch h => simp [hopen, h]
  | cancel h => exact hopen (by simpa [is_unfinished] using h)
  | aggregate env hparent hentry hnew =>
    obtain ⟨hskip, hcancel, hfailed, hsuccess⟩ := hlog _ hentry old rfl
    have hstatus : new.status =
        if (child_rows rows old.node_key).any (·.status = .FAILED) then
          .FAILED
        else .SUCCESS := hnew
    refine ⟨hpk, ?_, fun hs => ?_⟩
    · rintro (hf | hs | hc)
      · obtain ⟨c, hc, hcf⟩ := hfailed hf
        rw [hstatus, hf, if_pos (List.any_eq_true.mpr ⟨c, hc, by simpa using hcf⟩)]
      · exact absurd hs hskip
      · exact absurd hc hcancel
    · by_cases hany : (child_rows rows old.node_key).any (·.status = .FAILED)
      · obtain ⟨c, hc, hcf⟩ := List.any_eq_true.mp hany
        refine Or.inr ⟨by rw [hstatus, if_pos hany], _, hentry, old, rfl, rfl, hparent, hs, ?_⟩
        exact hsuccess hs ⟨c, hc, by simpa using hcf⟩
      · exact Or.inl (by rw [hstatus, if_neg hany])

/-- One step keeps terminal statuses when the aggregations so far did. -/
theorem Step.terminalStatusesFinal {w w' : World} (h : Step ver w w')
    (hlog : ∀ e ∈ w'.log, AggregatesInPlace e) : TerminalStatusesFinal w w' := by
  intro r hr
  cases h with
  | begin | note | finish => exact ⟨r, hr, .refl _ _⟩
  | insert act hx h hins =>
    exact ⟨r, ((Table.bulk_create_created hins).mem r).mpr (Or.inr hr), .refl _ _⟩
  | save old row now fields hold hpk h =>
    by_cases hrpk : r.pk = old.pk
    · obtain rfl := w.table.eq_of_pk hr hold hrpk
      exact ⟨_, (w.table.mem_save hold hpk _).mpr (Or.inr rfl), h.keepsStatus (by simp) hlog⟩
    · exact ⟨r, (w.table.mem_save hold hpk r).mpr (Or.inl ⟨hr, hrpk⟩), .refl _ _⟩

/-- Terminal statuses are final in every run whose aggregations respect the status
of the loop parent. -/
theorem terminal_statuses_final {w w' : World} (hw : Reachable ver w) (hrun : Run ver w w')
    (hagg : ∀ e ∈ w'.log, AggregatesInPlace e) : TerminalStatusesFinal w w' := by
  refine history.Moves.relation (C := AggregatesInPlace) ?_ ?_ (fun _ _ h => h.log_grows) ?_
    (run_moves hrun (reachable_noneEmpty hw)) hagg
  · intro w₁ w₂ hview _ r hr
    have htable : w₂.table = w₁.table := congrArg Prod.snd hview
    exact ⟨r, by simpa only [World.rows, htable] using hr, .refl _ _⟩
  · intro w₁ w₂ w₃ h₁₂ h₂₃ hlog r hr
    obtain ⟨r₂, hr₂, hk₂⟩ := h₁₂ r hr
    obtain ⟨r₃, hr₃, hk₃⟩ := h₂₃ r₂ hr₂
    exact ⟨r₃, hr₃, hk₂.trans hk₃ hlog⟩
  · exact fun _ _ h hC => h.terminalStatusesFinal hC

/-- A single loop node after the start. -/
def oneLoop : DagVersion where
  dag :=
    { nodes := [{ node_key := "start", node_type := "start" },
      { node_key := "each", node_type := "loop" }]
      edges := [{ from_key := "start", to_key := "each" }]
      keys_nodup := by decide
      edges_closed := by decide }
  workflow := { pk := 1, name := "one loop", fail_strategy := "continue" }

/-- The loop has two items, of which the second fails at its first poll. -/
def secondItemFails (minute : Int) : Env :=
  scripted minute
    (fun key _ => if key = "each" then forEachAnswer [.int 7, .int 8] "command" else running)
    fun key _ => if key = "each__loop_1" then { status := .FAILED } else { status := .SUCCESS }

/-- The loop node goes from success to failed with its second child, and stays so. -/
theorem one_loop_final :
    TerminalStatusesFinal (started oneLoop (secondItemFails 0) [.scheduled (secondItemFails 1)])
      (started oneLoop (secondItemFails 0)
        ([.scheduled (secondItemFails 1)] ++
          [.scheduled (secondItemFails 2), .scheduled (secondItemFails 3)])) := by
  refine terminal_statuses_final (started_reachable _ _ _ rfl) (started_append _ _ _ _ rfl) ?_
  intro e he row hact
  have hlog : ∀ e ∈ (started oneLoop (secondItemFails 0)
      ([.scheduled (secondItemFails 1)] ++
      [.scheduled (secondItemFails 2), .scheduled (secondItemFails 3)])).log,
        ∀ row ∈ e.act.aggregated?, row.status = .SUCCESS ∧ ∃ c ∈ e.before, c.status = .FAILED ∧
        c.node_key = childKey row.node_key 1 := by decide +kernel
  obtain ⟨hstatus, c, hc, hfailed, hkey⟩ := hlog e he row (by simpa using hact)
  refine ⟨by simp [hstatus], by simp [hstatus], by simp [hstatus], fun _ _ => ?_⟩
  exact ⟨c, hc, hfailed, 1, hkey⟩

/-- A loop node that is skipped because its source failed, beside a node that runs on. -/
def skippedLoop : DagVersion where
  dag :=
    { nodes := [{ node_key := "start", node_type := "start" },
        { node_key := "check", node_type := "command" },
        { node_key := "each", node_type := "loop" },
        { node_key := "watch", node_type := "command" }]
      edges := [{ from_key := "start", to_key := "check" },
        { from_key := "start", to_key := "watch" },
        { from_key := "check", to_key := "each", condition := "success(check)" }]
      keys_nodup := by decide
      edges_closed := by decide }
  workflow := { pk := 1, name := "skipped loop", fail_strategy := "continue" }

/-- The check fails at its first poll, everything else keeps running. -/
def checkFails (minute : Int) : Env :=
  scripted minute (fun _ _ => running) fun key _ =>
    if key = "check" then { status := .FAILED, error_message := some "exit code 1" } else running

/-- The skipped loop node becomes successful in the next tick. -/
theorem skipped_loop_succeeds :
    ∃ w w', Reachable skippedLoop w ∧ Run skippedLoop w w' ∧ ¬ TerminalStatusesFinal w w' := by
  refine ⟨started skippedLoop (checkFails 0) [.scheduled (checkFails 1)], _,
    started_reachable _ _ _ rfl, started_append _ _ _ [.scheduled (checkFails 2)] rfl, ?_⟩
  intro hfinal
  have hskipped : ∃ r ∈ (started skippedLoop (checkFails 0) [.scheduled (checkFails 1)]).rows,
      r.pk = 4 ∧ r.status = .SKIPPED := by decide +kernel
  have hsuccess : ∀ r ∈ (started skippedLoop (checkFails 0)
      ([.scheduled (checkFails 1)] ++ [.scheduled (checkFails 2)])).rows,
      r.pk = 4 → r.status = .SUCCESS := by decide +kernel
  obtain ⟨r, hr, hpk, hstatus⟩ := hskipped
  obtain ⟨r', hr', hkeeps⟩ := hfinal r hr
  have hkept := hkeeps.final (Or.inr (Or.inl hstatus))
  rw [hsuccess r' hr' (hkeeps.pk.trans hpk), hstatus] at hkept
  cases hkept

end taurus.engine.runner
