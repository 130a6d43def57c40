import Taurus.Engine.Steps.Skipping

namespace taurus.engine.runner

open taurus.lib taurus.python taurus.engine.executor

variable {ver : DagVersion}

/-- A failed row wants a retry when its node allows one more attempt and the error
text has a retryable code. -/
theorem wants_retry_eq_some {dag : Dag} {row : NodeExec} {n : Node}
    (h : wants_retry dag row = some n) :
    dag.node? row.node_key = some n ∧ (row.attempt_no : Int) < n.max_retries := by
  unfold wants_retry at h
  cases hn : dag.node? row.node_key with
  | none => simp [hn] at h
  | some m =>
    simp only [hn] at h
    split_ifs at h with hno
    obtain rfl : m = n := by simpa using h
    exact ⟨rfl, by omega⟩

/-- A row is inserted as a first attempt, or as the pending next attempt of a failed row
that wants one. -/
theorem inserted_attempt {x : Execution} {log : List Entry} {rows : List NodeExec} {act : Act}
    (hnodup : (rows.map (·.attempt_key)).Nodup) (h : Noted ver x log rows act) {r : NodeExec}
    (hr : r ∈ act.rows) :
    r.attempt_no = 1 ∨ ((r.status = .PENDING ∧ r.adapter_state = []) ∧ ∃ old ∈ rows,
      old.status = .FAILED ∧
      SameSlot r old ∧ r.attempt_no = old.attempt_no + 1 ∧ ∃ n,
        wants_retry ver.dag old = some n) := by
  cases act with
  | dispatch | poll | cancel | aggregate => cases hr
  | create created =>
    obtain ⟨n, _, _, hf, _⟩ := h r hr
    exact Or.inl hf.attempt_no
  | retry completed created =>
    obtain ⟨env, user_id, rfl⟩ := h
    obtain ⟨old, ⟨⟨hold, _⟩, _⟩, n, hn, rfl⟩ := (mem_retry_rows hnodup).mp hr
    exact Or.inr ⟨⟨rfl, rfl⟩, old, hold.1, hold.2, ⟨rfl, rfl⟩, rfl, n, hn⟩
  | expand parent created => exact Or.inl (h.2.2 r hr).attempt_no
  | skip y ctx created =>
    obtain ⟨_, _, env, user_id, rfl⟩ := h
    obtain ⟨n, _, hrow⟩ := skip_inserts_spec hr
    exact Or.inl (firstRow_of_skipped hrow).2.1

/-- A save leaves no row pending. -/
theorem Write.status_ne_pending {log : List Entry} {rows : List NodeExec} {old new : NodeExec}
    (h : Write log rows old new) : new.status ≠ .PENDING := by
  cases h with
  | poll _ hnew | dispatch _ hnew =>
    intro hp
    rw [hp] at hnew
    exact absurd hnew (by decide)
  | refuse _ hnew | cancel _ hnew => simp [hnew]
  | aggregate env _ _ hnew =>
    rw [hnew]
    simp only [aggregated_row]
    split_ifs <;> simp

/-- The attempts of each slot have no gap, and those after the first are allowed
by the node. -/
structure AttemptsOk (dag : Dag) (rows : List NodeExec) : Prop where
  pred : ∀ r ∈ rows, r.attempt_no = 1 ∨ ∃ p ∈ rows, SameSlot r p ∧ r.attempt_no = p.attempt_no + 1
  pos : ∀ r ∈ rows, 1 ≤ r.attempt_no
  bound : ∀ r ∈ rows, r.attempt_no = 1 ∨
    ∃ n, dag.node? r.node_key = some n ∧ (r.attempt_no : Int) ≤ n.max_retries
  pending : ∀ r ∈ rows, r.status = .PENDING → r.attempt_no = 1 ∨ r.adapter_state = []

/-- A save that leaves no row pending keeps the attempts in order. -/
theorem AttemptsOk.save {dag : Dag} {t : Table} {old row : NodeExec} {now : Time}
    {fields : List Field} (hw : AttemptsOk dag t.rows) (hold : old ∈ t.rows) (hpk : row.pk = old.pk)
    (hpending : (old.write row now fields).status ≠ .PENDING) :
    AttemptsOk dag (t.save row now fields).rows := by
  have hfrom : ∀ r ∈ (t.save row now fields).rows, ∃ r₀ ∈ t.rows, r.SameIdentity r₀ :=
    fun r hr => t.exists_of_mem_save hr
  constructor
  · intro r hr
    obtain ⟨r₀, hr₀, hid⟩ := hfrom r hr
    rw [hid.attempt_no]
    refine (hw.pred r₀ hr₀).imp_right fun ⟨p₀, hp₀, hslot, hno⟩ => ?_
    obtain ⟨p, hp, hidp⟩ := t.exists_mem_save row now fields hp₀
    refine ⟨p, hp, ⟨?_, ?_⟩, by rw [hno, hidp.attempt_no]⟩
    · rw [hid.node_key, hslot.1, hidp.node_key]
    · rw [hid.host_id, hslot.2, hidp.host_id]
  · intro r hr
    obtain ⟨r₀, hr₀, hid⟩ := hfrom r hr
    rw [hid.attempt_no]
    exact hw.pos r₀ hr₀
  · intro r hr
    obtain ⟨r₀, hr₀, hid⟩ := hfrom r hr
    rw [hid.attempt_no, hid.node_key]
    exact hw.bound r₀ hr₀
  · intro r hr hr_pending
    obtain ⟨hr, _⟩ | rfl := (t.mem_save hold hpk r).mp hr
    · exact hw.pending r hr hr_pending
    · exact absurd hr_pending hpending

/-- Inserting and saving keep the attempts in order. -/
theorem Step.attemptsOk {w w' : World} (h : Step ver w w') (hw : AttemptsOk ver.dag w.rows) :
    AttemptsOk ver.dag w'.rows := by
  cases h with
  | begin | note | finish => exact hw
  | insert act hx h hins =>
    rename_i x table created
    have hc := Table.bulk_create_created hins
    have hnew : ∀ c ∈ created, c.attempt_no = 1 ∨ ((c.status = .PENDING ∧ c.adapter_state = []) ∧
        ∃ old ∈ w.rows, old.status = .FAILED ∧ SameSlot c old ∧ c.attempt_no = old.attempt_no + 1 ∧
          ∃ n, wants_retry ver.dag old = some n) := by
      intro c hcm
      obtain ⟨r, hr, heq⟩ := hc.row_of_mem c hcm
      have hins := inserted_attempt w.table.attempt_nodup h hr
      rw [heq]
      exact hins
    have hmem : ∀ r ∈ table.rows, r ∈ created ∨ r ∈ w.rows := fun r hr => (hc.mem r).mp hr
    have hold : ∀ r ∈ w.rows, r ∈ table.rows := fun r hr => (hc.mem r).mpr (Or.inr hr)
    constructor
    · intro r hr
      obtain hr | hr := hmem r hr
      · exact (hnew r hr).imp_right fun ⟨_, p, hp, _, hslot, hno, _⟩ => ⟨p, hold p hp, hslot, hno⟩
      · exact (hw.pred r hr).imp_right fun ⟨p, hp, h⟩ => ⟨p, hold p hp, h⟩
    · intro r hr
      obtain hr | hr := hmem r hr
      · rcases hnew r hr with h | ⟨_, p, _, _, _, hno, _⟩ <;> omega
      · exact hw.pos r hr
    · intro r hr
      obtain hr | hr := hmem r hr
      · refine (hnew r hr).imp_right fun ⟨_, p, _, _, hslot, hno, n, hwants⟩ => ?_
        obtain ⟨hn, hlt⟩ := wants_retry_eq_some hwants
        exact ⟨n, hslot.1 ▸ hn, by omega⟩
      · exact hw.bound r hr
    · intro r hr hpending
      obtain hr | hr := hmem r hr
      · exact (hnew r hr).imp_right fun h => h.1.2
      · exact hw.pending r hr hpending
  | save old row now fields hold hpk h => exact hw.save hold hpk h.status_ne_pending

/-- Along any steps the attempts stay as they should. -/
theorem Moves.attemptsOk {w w' : World} (h : Moves ver w w') (hw : AttemptsOk ver.dag w.rows) :
    AttemptsOk ver.dag w'.rows :=
  history.Moves.invariant (C := fun _ => True) (T := fun s : Db => AttemptsOk ver.dag s.2.rows)
    (fun _ _ h => h.log_grows) (fun _ _ h _ hw => h.attemptsOk hw) h (fun _ _ => trivial) hw

/-- They are so at the start. -/
theorem attemptsOk_initial (dag : Dag) : AttemptsOk dag World.initial.rows := by
  constructor <;> simp [World.initial, World.rows, Table.empty]

/-- Only first attempts are dispatched. -/
theorem AttemptsOk.dispatched_first {x : Execution} {log : List Entry} {rows : List NodeExec}
    {row : NodeExec} (hw : AttemptsOk ver.dag rows) (h : Noted ver x log rows (.dispatch row)) :
    row.attempt_no = 1 := by
  obtain ⟨r, hr, hid, _, hpending, hcand⟩ := h
  rw [hid.attempt_no]
  cases hcand with
  | child hchild =>
    obtain hno | hstate := hw.pending r hr hpending
    · exact hno
    · simp [is_loop_child, hstate, getJson, Json.truthy] at hchild
  | created _ _ _ _ hno _ => exact hno

/-- The entry dispatches first attempts and retries later ones only. -/
private def AttemptsApart (e : Entry) : Prop :=
  (∀ row, e.act = .dispatch row → row.attempt_no = 1) ∧
    ∀ completed created, e.act = .retry completed created → ∀ r ∈ created, r.attempt_no ≠ 1

/-- Every entry of the log dispatches first attempts and retries later ones. -/
private theorem attempts_apart {w : World} (hw : Reachable ver w) :
    ∀ e ∈ w.log, AttemptsApart e := by
  refine Moves.noted_entries (C := fun _ => True) (T := fun s => AttemptsOk ver.dag s.2.rows)
    (fun _ _ h _ hw => h.attemptsOk hw) ?_ (reachable_moves hw) (fun _ _ => trivial)
    (attemptsOk_initial ver.dag) (by simp [World.initial])
  intro w x act _ hw _ _ hnoted
  refine ⟨fun row hact => ?_, fun completed created hact r hr => ?_⟩
  · obtain rfl : act = .dispatch row := hact
    exact hw.dispatched_first hnoted
  · obtain rfl : act = .retry completed created := hact
    obtain ⟨env, user_id, rfl⟩ := hnoted
    obtain ⟨old, ⟨⟨hold, _⟩, _⟩, n, _, rfl⟩ := (mem_retry_rows w.table.attempt_nodup).mp hr
    have hpos := hw.pos old hold.1
    simp only [retry_row]
    omega

/-- Some run after `w` hands the row to its adapter. -/
def Executed (ver : DagVersion) (w : World) (r : NodeExec) : Prop :=
  ∃ w', Run ver w w' ∧ ∃ e ∈ w'.log, ∃ row, e.act = .dispatch row ∧ row.attempt_key = r.attempt_key

/-- No row that a retry pass builds is ever dispatched, whatever happens later. -/
theorem retries_never_executed {w : World} (hw : Reachable ver w) {e : Entry} (he : e ∈ w.log)
    {completed : List String} {created : List NodeExec} (hact : e.act = .retry completed created)
    {r : NodeExec} (hr : r ∈ created) : ¬ Executed ver w r := by
  rintro ⟨w', hrun, d, hd, row, hdispatch, hkey⟩
  have hretry := (attempts_apart hw e he).2 completed created hact r hr
  have hfirst := (attempts_apart (hw.trans hrun) d hd).1 row hdispatch
  simp only [NodeExec.attempt_key, Prod.mk.injEq] at hkey
  exact hretry (hkey.2.2 ▸ hfirst)

/-- A command with two more attempts, on one host or on several. -/
def retried (hosts : List String) : DagVersion where
  dag :=
    { nodes := [{ node_key := "start", node_type := "start" },
        { node_key := "deploy", node_type := "command", requires_host := some true, host_ids := hosts,
          max_retries := 3 }]
      edges := [{ from_key := "start", to_key := "deploy" }]
      keys_nodup := by simp
      edges_closed := by simp }
  workflow := { pk := 1, name := "retried", fail_strategy := "continue" }

/-- The first host is unreachable, the others follow from minute two on. -/
def unreachable (minute : Int) : Env :=
  scripted minute (fun _ _ => running) fun _ host =>
    if host = "1" ∨ 2 ≤ minute then
      { status := .FAILED, error_message := some "E2001: host unreachable" }
    else running

/-- The second attempt after a lost host is due and pending, and never executed. -/
theorem lost_host_never_retried :
    ∃ r ∈ (started (retried ["1"]) (unreachable 0) [.scheduled (unreachable 1)]).rows,
      (r.status = .PENDING ∧ r.attempt_no = 2 ∧ r.queued_at = some (Time.seconds 60)) ∧
      ¬ Executed (retried ["1"])
        (started (retried ["1"]) (unreachable 0) [.scheduled (unreachable 1)]) r := by
  have hrow : ∃ r ∈ (started (retried ["1"]) (unreachable 0) [.scheduled (unreachable 1)]).rows,
      r.status = .PENDING ∧ r.attempt_no = 2 ∧ r.queued_at = some (Time.seconds 60) := by
      decide +kernel
  obtain ⟨r, hr, hpending⟩ := hrow
  refine ⟨r, hr, hpending, ?_⟩
  rintro ⟨w', hrun, d, hd, row, hdispatch, hkey⟩
  have hfirst := (attempts_apart ((started_reachable _ _ _ rfl).trans hrun) d hd).1 row hdispatch
  simp only [NodeExec.attempt_key, Prod.mk.injEq] at hkey
  rw [hfirst, hpending.2.1] at hkey
  exact absurd hkey.2.2 (by decide)

/-- The retry pass of the lost host, of which no row is executed. -/
theorem lost_host_retries :
    ∃ e ∈ (started (retried ["1"]) (unreachable 0) [.scheduled (unreachable 1)]).log,
      ∃ created, e.act = .retry ["deploy"] created ∧ created ≠ [] ∧ ∀ r ∈ created,
        ¬ Executed (retried ["1"])
          (started (retried ["1"]) (unreachable 0) [.scheduled (unreachable 1)]) r := by
  have hretry : ∃ e ∈ (started (retried ["1"]) (unreachable 0) [.scheduled (unreachable 1)]).log,
      ∃ p ∈ e.act.retried?, p.1 = ["deploy"] ∧ p.2.length ≠ 0 := by decide +kernel
  obtain ⟨e, he, ⟨completed, created⟩, hp, rfl, hlength⟩ := hretry
  have hact : e.act = .retry ["deploy"] created := by simpa using hp
  refine ⟨e, he, created, hact, fun hnil => hlength (by simp [hnil]), fun r hr => ?_⟩
  exact retries_never_executed (started_reachable _ _ _ rfl) he hact hr

/-- The attempts that a node allows, `max(1, max_retries)`. -/
def attemptLimit (dag : Dag) (key : String) : Int :=
  max 1 (((dag.node? key).map (·.max_retries)).getD 0)

/-- The attempts of each node and host are exactly `1..k`, within the limit of the node. -/
def AttemptsExact (dag : Dag) (rows : List NodeExec) : Prop :=
  ∀ key host, ∃ k : Nat, (∀ n, (∃ r ∈ rows, r.attempt_key = (key, host, n)) ↔ 1 ≤ n ∧ n ≤ k) ∧
    (k : Int) ≤ attemptLimit dag key

/-- Rows have a last attempt, unless there are none. -/
private theorem exists_last (rows : List NodeExec) :
    rows = [] ∨ ∃ r ∈ rows, ∀ s ∈ rows, s.attempt_no ≤ r.attempt_no := by
  induction rows with
  | nil => exact Or.inl rfl
  | cons x rest ih =>
    right
    obtain rfl | ⟨r, hr, hlast⟩ := ih
    · exact ⟨x, by simp, by simp⟩
    by_cases hle : x.attempt_no ≤ r.attempt_no
    · refine ⟨r, List.mem_cons_of_mem _ hr, fun s hs => ?_⟩
      obtain rfl | hs := List.mem_cons.mp hs
      · exact hle
      · exact hlast s hs
    · refine ⟨x, List.mem_cons_self, fun s hs => ?_⟩
      obtain rfl | hs := List.mem_cons.mp hs
      · exact le_refl _
      · have := hlast s hs
        omega

/-- Below an attempt all earlier ones exist. -/
theorem AttemptsOk.below {dag : Dag} {rows : List NodeExec} (h : AttemptsOk dag rows) {r : NodeExec}
    (hr : r ∈ rows) {n : Nat} (hn : 1 ≤ n) (hle : n ≤ r.attempt_no) :
    ∃ p ∈ rows, SameSlot p r ∧ p.attempt_no = n := by
  induction hd : r.attempt_no - n generalizing r with
  | zero => exact ⟨r, hr, ⟨rfl, rfl⟩, by omega⟩
  | succ d ih =>
    obtain hfirst | ⟨p, hp, hslot, hno⟩ := h.pred r hr
    · omega
    · obtain ⟨q, hq, hqslot, hqno⟩ := ih hp (by omega) (by omega)
      exact ⟨q, hq, ⟨hqslot.1.trans hslot.1.symm, hqslot.2.trans hslot.2.symm⟩, hqno⟩

/-- Attempts that follow each other have the numbers of their order. -/
theorem AttemptsOk.exact {dag : Dag} {rows : List NodeExec} (h : AttemptsOk dag rows) :
    AttemptsExact dag rows := by
  intro key host
  have hslot : ∀ r, r ∈ rows.filter (fun r => r.node_key = key ∧ r.host_id = host) ↔
      r ∈ rows ∧ r.node_key = key ∧ r.host_id = host := by simp
  rcases exists_last (rows.filter fun r => r.node_key = key ∧ r.host_id = host) with
    hnone | ⟨r, hr, hlast⟩
  · refine ⟨0, fun n => ⟨?_, by omega⟩, ?_⟩
    · rintro ⟨r, hr, hkey⟩
      simp only [NodeExec.attempt_key, Prod.mk.injEq] at hkey
      have hmem := (hslot r).mpr ⟨hr, hkey.1, hkey.2.1⟩
      rw [hnone] at hmem
      cases hmem
    · unfold attemptLimit
      omega
  · obtain ⟨hin, hkey, hhost⟩ := (hslot r).mp hr
    refine ⟨r.attempt_no, fun n => ⟨?_, ?_⟩, ?_⟩
    · rintro ⟨s, hs, hskey⟩
      simp only [NodeExec.attempt_key, Prod.mk.injEq] at hskey
      obtain ⟨hk, hh, rfl⟩ := hskey
      exact ⟨h.pos s hs, hlast s ((hslot s).mpr ⟨hs, hk, hh⟩)⟩
    · rintro ⟨hpos, hle⟩
      obtain ⟨p, hp, hps, hno⟩ := h.below hin hpos hle
      exact ⟨p, hp, by simp [NodeExec.attempt_key, hps.1, hps.2, hkey, hhost, hno]⟩
    · unfold attemptLimit
      obtain hone | ⟨n, hn, hle⟩ := h.bound r hin
      · omega
      · rw [← hkey, hn]
        simp only [Option.map_some, Option.getD_some]
        omega

/-- A retry pass builds no row whose node, host and attempt number are taken. -/
def RetriesFresh (e : Entry) : Prop :=
  ∀ completed created, e.act = .retry completed created →
    ∀ r ∈ created, ∀ y ∈ e.before, y.attempt_key ≠ r.attempt_key

/-- Before the pass, on every host of a completed node, the last failed row that wants
a retry is the last attempt of all. -/
def NoneSuperseded (dag : Dag) (e : Entry) : Prop :=
  ∀ completed created, e.act = .retry completed created →
    ∀ r, LastFailed e.before r → r.node_key ∈ completed → (wants_retry dag r).isSome →
      ∀ s ∈ e.before, SameSlot s r → s.attempt_no ≤ r.attempt_no

/-- The retries of a pass are fresh exactly if the failed rows are the last attempts. -/
private theorem retriesFresh_iff {x : Execution} {log : List Entry}
    {rows : List NodeExec} {act : Act} (hrows : AttemptsOk ver.dag rows)
    (hnodup : (rows.map (·.attempt_key)).Nodup) (h : Noted ver x log rows act) :
    RetriesFresh { act, before := rows } ↔ NoneSuperseded ver.dag { act, before := rows } := by
  constructor
  · rintro hfresh completed created rfl r hlast hkey hwants s hs hslot
    obtain ⟨env, user_id, rfl⟩ := h
    obtain ⟨n, hn⟩ := Option.isSome_iff_exists.mp hwants
    by_contra hlt
    obtain ⟨y, hy, hyslot, hyno⟩ := hrows.below hs (n := r.attempt_no + 1) (by omega) (by omega)
    refine hfresh completed _ rfl (retry_row env x n user_id r)
      ((mem_retry_rows hnodup).mpr ⟨r, ⟨hlast, hkey⟩, n, hn, rfl⟩) y hy ?_
    simp [NodeExec.attempt_key, retry_row, hyslot.1, hyslot.2, hslot.1, hslot.2, hyno]
  · rintro hnone completed created rfl r hr y hy hkey
    obtain ⟨env, user_id, rfl⟩ := h
    obtain ⟨old, ⟨hlast, hin⟩, n, hn, rfl⟩ := (mem_retry_rows hnodup).mp hr
    simp only [NodeExec.attempt_key, retry_row, Prod.mk.injEq] at hkey
    have hle := hnone completed _ rfl old hlast hin (by simp [hn]) y hy ⟨hkey.1, hkey.2.1⟩
    omega

/-- In every reachable state the attempts of each node and host are exactly `1..k`
within the limit of the node, and a retry pass built only new rows if and only if
it found no failed row superseded by a later attempt. -/
theorem retry_attempts {w : World} (hw : Reachable ver w) :
    AttemptsExact ver.dag w.rows ∧ ∀ e ∈ w.log, RetriesFresh e ↔ NoneSuperseded ver.dag e := by
  have hmoves := reachable_moves hw
  refine ⟨(hmoves.attemptsOk (attemptsOk_initial ver.dag)).exact, ?_⟩
  refine Moves.noted_entries (C := fun _ => True) (T := fun s => AttemptsOk ver.dag s.2.rows)
    (fun _ _ h _ hw => h.attemptsOk hw) ?_ hmoves (fun _ _ => trivial)
    (attemptsOk_initial ver.dag) (by simp [World.initial])
  exact fun w x act _ hw _ _ hnoted => retriesFresh_iff hw w.table.attempt_nodup hnoted

/-- Two lost hosts, the second of which is lost later. -/
def lostHosts : World :=
  started (retried ["1", "2"])
    (unreachable 0) [.scheduled (unreachable 1), .scheduled (unreachable 2)]

/-- When the second host is lost too, the retry of the first one is built again. -/
theorem lost_hosts_collide :
    ∃ w, Reachable (retried ["1", "2"]) w ∧ ∃ e ∈ w.log, ¬ RetriesFresh e := by
  refine ⟨lostHosts, started_reachable _ _ _ rfl, ?_⟩
  have hcollide : ∃ e ∈ lostHosts.log, ∃ p ∈ e.act.retried?, ∃ r ∈ p.2, ∃ y ∈ e.before,
      y.attempt_key = r.attempt_key := by decide +kernel
  obtain ⟨e, he, p, hp, r, hr, y, hy, hkey⟩ := hcollide
  exact ⟨e, he, fun hfresh => hfresh p.1 p.2 (by simpa using hp) r hr y hy hkey⟩

/-- The attempts after the loss of the first host. -/
theorem lost_hosts_attempts :
    AttemptsExact (retried ["1", "2"]).dag lostHosts.rows ∧
      ∀ e ∈ lostHosts.log, RetriesFresh e ↔ NoneSuperseded (retried ["1", "2"]).dag e :=
  retry_attempts (started_reachable _ _ _ rfl)

end taurus.engine.runner
