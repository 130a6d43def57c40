import Taurus.Engine.Concurrent.Obedience

namespace taurus.engine.concurrent

open taurus.lib taurus.lib.transition taurus.python taurus.engine.executor taurus.engine.runner

variable {ver : DagVersion} {d d' : Database} {i : Nat} {h' : Standing} {hs : Nat → Standing}

/-- The answer for a row that was handed over is stored, and no rollback of another
session's transaction makes the row pending again. -/
def Settled (d : Database) (p : Nat × NodeExec) : Prop :=
  ∃ x ∈ d.rows, x.pk = p.2.pk ∧ x.dispatch_id = p.2.dispatch_id ∧ x.status ≠ .PENDING ∧
    ∀ l ∈ d.locks, l.pk = x.pk → l.owner = p.1 ∨ ∃ b, l.before = some b ∧ b.status ≠ .PENDING

/-- No row was handed over twice; a row that was is settled, unless its answer is on the
way or lost, and is none of those created for a dispatch. -/
structure Once (d : Database) (hs : Nat → Standing) : Prop where
  once : (d.handed.map (·.2.dispatch_id)).Nodup
  new : ∀ i, ∀ c ∈ (hs i).created, ∀ p ∈ d.handed, p.2.dispatch_id = c.dispatch_id → p ∈ d.lost
  settled : ∀ p ∈ d.handed, p ∈ d.lost ∨ (hs p.1).flight = some p.2 ∨ Settled d p

/-- The row a statement hands to its adapter. -/
def Stmt.dispatched? : Stmt → Option NodeExec
  | dispatch row => some row
  | _ => none

/-- A row may be handed over: it was not handed over before for an answer that a rollback
has undone, and if it is a loop child, it is still pending and no call that has handed it
over has still to save the answer. -/
def Free (d : Database) (row : NodeExec) : Prop :=
  (∀ p ∈ d.lost, p.2.dispatch_id ≠ row.dispatch_id) ∧
    (is_loop_child row = true → (∀ p ∈ d.unsaved, p.2.dispatch_id ≠ row.dispatch_id) ∧
      ∀ x ∈ d.rows, x.dispatch_id = row.dispatch_id → x.status = .PENDING)

instance (d : Database) (row : NodeExec) : Decidable (Free d row) := by unfold Free; infer_instance

/-- If the statement of the `i`-th call hands a row over, the row is free. -/
def Careful (s : Sessions) (i : Nat) : Prop :=
  ∀ row ∈ (s.current i).bind Stmt.dispatched?, Free s.shared row

instance (s : Sessions) (i : Nat) : Decidable (Careful s i) := by unfold Careful; infer_instance

/-- A change that hands nothing over keeps what was settled so. -/
theorem Once.keep (honce : Once d hs) (hhanded : d'.handed = d.handed) (hlost : d.lost ⊆ d'.lost)
    (hnew : ∀ c ∈ h'.created, c ∈ (hs i).created ∨
      ∀ p ∈ d.handed, p.2.dispatch_id = c.dispatch_id → p ∈ d.lost)
    (hsettled : ∀ p, Settled d p → p ∈ d.handed → p ∈ d'.lost ∨ Settled d' p)
    (hflight : ∀ f, (i, f) ∈ d.handed → (hs i).flight = some f → (i, f) ∈ d'.lost ∨
      Settled d' (i, f)) :
    Once d' (Function.update hs i h') where
  once := hhanded ▸ honce.once
  new j c hc p hp hid := by
    rw [hhanded] at hp
    refine hlost ?_
    by_cases hj : j = i
    · subst hj
      rw [Function.update_self] at hc
      obtain hc | hnew := hnew c hc
      · exact honce.new j c hc p hp hid
      · exact hnew p hp hid
    · rw [Function.update_of_ne hj] at hc
      exact honce.new j c hc p hp hid
  settled p hp := by
    rw [hhanded] at hp
    obtain h | h | h := honce.settled p hp
    · exact Or.inl (hlost h)
    · by_cases hj : p.1 = i
      · subst hj
        exact (hflight p.2 hp h).imp_right Or.inr
      · rw [Function.update_of_ne hj]
        exact Or.inr (Or.inl h)
    · exact (hsettled p h hp).imp_right Or.inr

/-- What is settled stays settled when rows keep their keys and stay not pending, and new
locks remember rows that were not. -/
theorem Settled.mono {p : Nat × NodeExec} (hp : Settled d p)
    (hrows : ∀ x ∈ d.rows, x.status ≠ .PENDING →
      ∃ x' ∈ d'.rows, x'.SameIdentity x ∧ x'.status ≠ .PENDING)
    (hlocks : ∀ l ∈ d'.locks, l ∈ d.locks ∨ ∀ x ∈ d.rows, x.pk = l.pk → x.status ≠ .PENDING →
      ∃ b, l.before = some b ∧ b.status ≠ .PENDING) : Settled d' p := by
  obtain ⟨x, hx, hpk, hid, hstatus, hx_locks⟩ := hp
  obtain ⟨x', hx', hsame, hstatus'⟩ := hrows x hx hstatus
  refine ⟨x', hx', hsame.pk.trans hpk, hsame.dispatch_id.trans hid, hstatus', fun l hl hlpk => ?_⟩
  rw [hsame.pk] at hlpk
  obtain hl | hnew := hlocks l hl
  · exact hx_locks l hl hlpk
  · exact Or.inr (hnew x hx hlpk.symm hstatus)

/-- The key of a row that was handed over and not lost is stored. -/
theorem Once.stored (honce : Once d hs) (hsound : Sound d hs) {p : Nat × NodeExec}
    (hp : p ∈ d.handed) :
    p ∈ d.lost ∨ ∃ x ∈ d.rows, x.dispatch_id = p.2.dispatch_id := by
  obtain h | h | ⟨x, hx, _, hid, _⟩ := honce.settled p hp
  · exact Or.inl h
  · obtain ⟨_, x, hx, hid, _⟩ := (hsound.fits p.1).flight p.2 h
    exact Or.inr ⟨x, hx, hid.dispatch_id⟩
  · exact Or.inr ⟨x, hx, hid⟩

/-- A commit keeps the rows handed out once. -/
theorem once_commit (honce : Once d hs) (hflight : (hs i).flight = none) :
    Once (d.commit i) (Function.update hs i {}) := by
  refine honce.keep rfl (fun _ h => h) (by simp) (fun p hp _ => Or.inr (hp.mono ?_ ?_))
    fun f _ hf => ?_
  · exact fun x hx hstatus => ⟨x, hx, .refl x, hstatus⟩
  · exact fun l hl => Or.inl (mem_others.mp hl).1
  · rw [hflight] at hf
    cases hf

theorem once_rollback (honce : Once d hs) (hsound : Sound d hs) :
    Once (d.rollback i) (Function.update hs i {}) := by
  refine honce.keep rfl (List.subset_append_left _ _) (by simp) (fun p hp hhanded => ?_)
    fun f hhanded hf => ?_
  · by_cases hundone : p ∈ d.undone i
    · exact Or.inl (List.mem_append_right _ hundone)
    obtain ⟨x, hx, hpk, hid, hstatus, hlocks⟩ := hp
    have hkept : ∀ l ∈ d.own i, l.pk = x.pk → ∃ b, l.before = some b ∧ b.status ≠ .PENDING := by
      intro l hl hlpk
      obtain ⟨hin, howner⟩ := mem_own.mp hl
      refine (hlocks l hin hlpk).resolve_left fun hp => hundone ?_
      refine List.mem_filter.mpr ⟨hhanded, decide_eq_true ⟨hp.symm.trans howner, Or.inl ?_⟩⟩
      exact List.any_eq_true.mpr ⟨l, hl, decide_eq_true (hlpk.trans hpk)⟩
    obtain ⟨x', hx', hsame, hcases⟩ :=
      mem_rollback hsound.locked (i := i) hx fun l hl hlpk hbefore howner => by
      obtain ⟨b, hb, _⟩ := hkept l (mem_own.mpr ⟨hl, howner⟩) hlpk
      rw [hbefore] at hb
      cases hb
    refine Or.inr ⟨x', hx', hsame.pk.trans hpk, hsame.dispatch_id.trans hid, ?_,
      fun l hl hlpk => ?_⟩
    · obtain rfl | ⟨l, hl, hlpk, b, hb, rfl⟩ := hcases
      · exact hstatus
      · obtain ⟨b', hb', hnot⟩ := hkept l hl hlpk
        rw [hb] at hb'
        obtain rfl := Option.some.inj hb'
        exact hnot
    · exact hlocks l (mem_others.mp hl).1 (hlpk.trans hsame.pk)
  · refine Or.inl (List.mem_append_right _ (List.mem_filter.mpr
      ⟨hhanded, decide_eq_true ⟨rfl, Or.inr ?_⟩⟩))
    exact List.any_eq_true.mpr ⟨(i, f), ((hsound.fits i).flight f hf).1, by simp⟩

theorem once_update {source : Source} {row : NodeExec} {now : Time} {fields : List Field}
    (honce : Once d hs) (hsound : Sound d hs)
    (hallowed : discipline.allowed (hs i) (.update source row now fields))
    (hupdate : d.update i row now fields = some d') : Once d' (Function.update hs i
      { hs i with created := (hs i).created.filter (·.pk ≠ row.pk), flight := none }) := by
  obtain ⟨_, hpending, hflight⟩ := hallowed
  unfold Database.update at hupdate
  split_ifs at hupdate with hheld
  rw [Bool.not_eq_true] at hheld
  obtain rfl := Option.some.inj hupdate
  have hwrite : ∀ x : NodeExec, x.status ≠ .PENDING →
      (x.write row now fields).status ≠ .PENDING := by
    intro x hx
    by_cases hfield : Field.status ∈ fields
    · simpa only [NodeExec.write, if_pos hfield] using hpending hfield
    · simpa only [NodeExec.write, if_neg hfield] using hx
  refine honce.keep rfl (fun _ h => h) (fun c hc => Or.inl (List.mem_filter.mp hc).1)
    (fun p hp _ => Or.inr ?_)
    fun f _ hf => Or.inr ?_
  · refine hp.mono (fun x hx hstatus => ⟨_, List.mem_map_of_mem hx, ?_, ?_⟩) fun l hl => ?_
    · split_ifs
      · exact x.write_sameIdentity _ _ _
      · exact .refl x
    · split_ifs
      · exact hwrite x hstatus
      · exact hstatus
    · refine (mem_lock.mp hl).imp_right ?_
      rintro ⟨_, r, hr, _, rfl⟩ x hx hpk hstatus
      obtain rfl := d.table.eq_of_pk hx (List.mem_filter.mp hr).1 hpk
      exact ⟨x, rfl, hstatus⟩
  · obtain ⟨hpk, hfield⟩ := hflight f hf
    obtain ⟨_, x, hx, hid, _⟩ := (hsound.fits i).flight f hf
    have hxpk : x.pk = row.pk := hid.pk.trans hpk.symm
    refine ⟨x.write row now fields, List.mem_map.mpr ⟨x, hx, if_pos hxpk⟩, hid.pk,
      hid.dispatch_id, ?_, ?_⟩
    · simpa only [NodeExec.write, if_pos hfield] using hpending hfield
    · intro l hl hlpk
      obtain hl | ⟨_, r, _, _, rfl⟩ := mem_lock.mp hl
      · exact Or.inl (held_eq_false.mp hheld l hl (hlpk.trans hxpk))
      · exact Or.inl rfl

theorem once_select_for_update {p : NodeExec → Bool} {rows : List NodeExec} (honce : Once d hs)
    (hflight : (hs i).flight = none) (hselect : d.select_for_update i p = some (rows, d')) :
    Once d' (Function.update hs i (hs i)) := by
  unfold Database.select_for_update at hselect
  split_ifs at hselect with hwaits
  obtain ⟨rfl, rfl⟩ := Prod.mk.inj (Option.some.inj hselect)
  rw [Bool.not_eq_true, List.any_eq_false] at hwaits
  refine honce.keep rfl (fun _ h => h) (fun c hc => Or.inl hc) (fun q hq _ => Or.inr ?_)
    fun f _ hf => ?_
  · refine hq.mono (fun x hx hstatus => ⟨x, hx, .refl x, hstatus⟩) fun l hl =>
      (mem_lock.mp hl).imp_right ?_
    rintro ⟨_, r, hr, _, rfl⟩ x hx hpk hstatus
    obtain ⟨hvisible, hp⟩ := List.mem_filter.mp hr
    obtain ⟨y, hy, hrow⟩ := List.mem_filterMap.mp hvisible
    obtain rfl := d.table.eq_of_pk hx hy (hpk.trans (undo_row_sameIdentity hrow).pk)
    -- a matching row that another session holds would have made the read wait
    have hfree : d.held i x.pk = false := by
      by_contra hheld
      rw [Bool.not_eq_false] at hheld
      exact hwaits x hx (by simp [hheld, hrow, hp])
    rw [undo_row_unlocked fun l hl hlpk =>
      (mem_others.mp hl).2 (held_eq_false.mp hfree l (mem_others.mp hl).1 hlpk)] at hrow
    obtain rfl := Option.some.inj hrow
    exact ⟨x, rfl, hstatus⟩
  · rw [hflight] at hf
    cases hf

theorem once_inserted {table : Table} {rows created : List NodeExec} (honce : Once d hs)
    (hsound : Sound d hs) (hflight : (hs i).flight = none)
    (hins : Table.Created d.table table rows created)
    (hcreates : (hs i).Creates (some created) h') :
    Once (inserted d i table created) (Function.update hs i h') := by
  obtain ⟨held, rfl, hheld⟩ := hcreates
  refine honce.keep rfl (fun _ h => h) (fun c hc => ?_) (fun p hp _ => Or.inr ?_) fun f _ hf => ?_
  · refine (hheld c hc).imp_right ?_
    rintro ⟨_, _, heq, hc⟩ p hp hid
    obtain rfl := Option.some.inj heq
    refine (honce.stored hsound hp).resolve_right ?_
    rintro ⟨x, hx, hxid⟩
    exact (created_apart_from hins hc hx).2 (hxid.trans hid)
  · refine hp.mono (fun x hx hstatus => ⟨x, (hins.mem x).mpr (Or.inr hx), .refl x, hstatus⟩)
      fun l hl => ?_
    refine (mem_inserted_locks hl).imp_right ?_
    rintro ⟨c, hc, rfl⟩ x hx hpk
    have hlt := hins.pk_lt hc hx
    simp only at hpk
    omega
  · rw [hflight] at hf
    cases hf

/-- A careful dispatch hands a row over for the first time. -/
theorem once_dispatch {row : NodeExec} (honce : Once d hs) (hsound : Sound d hs)
    (hallowed : discipline.allowed (hs i) (.dispatch row))
    (hfree : Free d row) :
    Once { d with handed := d.handed ++ [(i, row)], unsaved := d.unsaved ++ [(i, row)] }
      (Function.update hs i
        { hs i with created := (hs i).created.filter (·.dispatch_id ≠ row.dispatch_id), flight := some row }) where
  once := by
    rw [List.map_append, List.nodup_append]
    refine ⟨honce.once, by simp, ?_⟩
    rintro _ hid _ hrow rfl
    obtain ⟨p, hp, hpid⟩ := List.mem_map.mp hid
    have hsame : p.2.dispatch_id = row.dispatch_id := by simpa [hpid] using hrow
    obtain ⟨hlost, hchild⟩ := hfree
    obtain ⟨_, hcases⟩ := hallowed
    split_ifs at hcases with hkind
    · obtain ⟨hunsaved, hpending⟩ := hchild hkind
      obtain h | h | ⟨x, hx, _, hxid, hstatus, _⟩ := honce.settled p hp
      · exact hlost p h hsame
      · exact hunsaved _ ((hsound.fits p.1).flight p.2 h).1 hsame
      · exact hstatus (hpending x hx (hxid.trans hsame))
    · obtain ⟨r, hr, hrid⟩ := hcases
      exact hlost p (honce.new i r hr p hp (hsame.trans hrid.dispatch_id)) hsame
  new j c hc p hp hid := by
    obtain hold | hlast := List.mem_append.mp hp
    · by_cases hj : j = i
      · subst hj
        rw [Function.update_self] at hc
        exact honce.new j c (List.mem_filter.mp hc).1 p hold hid
      · rw [Function.update_of_ne hj] at hc
        exact honce.new j c hc p hold hid
    · exfalso
      obtain rfl := List.mem_singleton.mp hlast
      by_cases hj : j = i
      · subst hj
        rw [Function.update_self] at hc
        have hne := of_decide_eq_true (List.mem_filter.mp hc).2
        exact hne hid.symm
      · -- the row would be one that another session has inserted
        rw [Function.update_of_ne hj] at hc
        obtain ⟨_, hrow, hl⟩ := (hsound.fits j).created c hc
        obtain ⟨r, hr, x, hx, hxid, hinserted⟩ := seen_of_dispatch hsound hallowed
        have heq : x.dispatch_id = c.dispatch_id := (hxid.trans hr.symm).dispatch_id.trans hid
        obtain rfl := List.inj_on_of_nodup_map d.table.dispatch_nodup hx hrow heq
        exact hj (hinserted _ hl rfl rfl)
  settled p hp := by
    obtain hp | hp := List.mem_append.mp hp
    · obtain h | h | h := honce.settled p hp
      · exact Or.inl h
      · have hne : p.1 ≠ i := by
          rintro rfl
          rw [hallowed.1] at h
          cases h
        rw [Function.update_of_ne hne]
        exact Or.inr (Or.inl h)
      · exact Or.inr (Or.inr h)
    · obtain rfl := List.mem_singleton.mp hp
      rw [Function.update_self]
      exact Or.inr (Or.inl rfl)

/-- A careful statement of a session that keeps to the discipline hands no row over twice. -/
theorem once_exec {s : Sessions} {c : Stmt} {answer : c.Answer} (hcareful : Careful s i)
    (hcurrent : s.current i = some c) (honce : Once s.shared hs) (hsound : Sound s.shared hs)
    (hallowed : discipline.allowed (hs i) c) (hexec : exec i c s.shared = some (answer, d'))
    (h' : Standing) (hnext : discipline.next (hs i) c answer h') :
    Once d' (Function.update hs i h') := by
  have hsame : ∀ h', h'.created = (hs i).created → h'.flight = (hs i).flight →
      Once s.shared (Function.update hs i h') := by
    intro h' hcreated hflight
    refine ⟨honce.once, fun j c hc => ?_, fun p hp => ?_⟩
    · by_cases hj : j = i
      · subst hj
        rw [Function.update_self, hcreated] at hc
        exact honce.new j c hc
      · rw [Function.update_of_ne hj] at hc
        exact honce.new j c hc
    · by_cases hj : p.1 = i
      · rw [hj, Function.update_self, hflight, ← hj]
        exact honce.settled p hp
      · rw [Function.update_of_ne hj]
        exact honce.settled p hp
  cases c with
  | begin =>
    obtain ⟨_, rfl⟩ := Prod.mk.inj (Option.some.inj hexec)
    obtain rfl : h' = { active := true } := hnext
    refine honce.keep rfl (fun _ h => h) (by simp) (fun p hp _ => Or.inr hp) fun f _ hf => ?_
    rw [show (hs i).flight = none from hallowed] at hf
    cases hf
  | commit =>
    obtain ⟨_, rfl⟩ := Prod.mk.inj (Option.some.inj hexec)
    exact hnext ▸ once_commit honce hallowed
  | rollback =>
    obtain ⟨_, rfl⟩ := Prod.mk.inj (Option.some.inj hexec)
    exact hnext ▸ once_rollback honce hsound
  | select_execution =>
    obtain ⟨_, rfl⟩ := Prod.mk.inj (Option.some.inj hexec)
    obtain rfl : h' = hs i := hnext
    exact hsame _ rfl rfl
  | select =>
    obtain ⟨rfl, rfl⟩ := Prod.mk.inj (Option.some.inj hexec)
    obtain ⟨children, rfl, _⟩ := hnext
    exact hsame _ rfl rfl
  | select_for_update p =>
    obtain rfl : h' = hs i := hnext
    exact once_select_for_update honce hallowed hexec
  | update source row now fields =>
    obtain ⟨d₁, hupdate, heq⟩ := Option.map_eq_some_iff.mp hexec
    obtain ⟨_, rfl⟩ := Prod.mk.inj heq
    exact hnext ▸ once_update honce hsound hallowed hupdate
  | update_execution change =>
    obtain ⟨d₁, hupdate, heq⟩ := Option.map_eq_some_iff.mp hexec
    obtain ⟨_, rfl⟩ := Prod.mk.inj heq
    obtain rfl : h' = hs i := hnext
    have hkept := hsame (hs i) rfl rfl
    unfold Database.update_execution at hupdate
    split at hupdate
    · split_ifs at hupdate
      obtain rfl := Option.some.inj hupdate
      exact ⟨hkept.once, hkept.new, hkept.settled⟩
    · obtain rfl := Option.some.inj hupdate
      exact ⟨hkept.once, hkept.new, hkept.settled⟩
  | insert rows =>
    obtain ⟨rfl, rfl⟩ | ⟨table, created, hcreate, rfl, rfl⟩ := insert_eq_some hexec
    · obtain ⟨held, rfl, hheld⟩ := hnext
      refine honce.keep rfl (fun _ h => h) (fun c hc => ?_) (fun p hp _ => Or.inr hp)
        fun f _ hf => ?_
      · exact (hheld c hc).imp_right fun ⟨_, _, heq, _⟩ => by cases heq
      · rw [hallowed.2] at hf
        cases hf
    · exact once_inserted honce hsound hallowed.2 (Table.bulk_create_created hcreate) hnext
  | dispatch row =>
    have hfree : Free s.shared row := hcareful row (by rw [hcurrent]; rfl)
    obtain ⟨_, rfl⟩ := Prod.mk.inj (Option.some.inj hexec)
    exact hnext ▸ once_dispatch honce hsound hallowed hfree

/-- No row is handed to its adapter twice. -/
def DispatchedOnce (d : Database) : Prop := (d.handed.map (·.2.dispatch_id)).Nodup

instance (d : Database) : Decidable (DispatchedOnce d) := inferInstanceAs (Decidable (List.Nodup _))

/-- In every interleaving of any number of calls in which rows are handed over with care, no
row is handed to its adapter twice. -/
theorem dispatched_once {w : World} {clients : List Client} {s : Sessions}
    (hrun : Runs Sessions.step Careful (Sessions.start ver w clients) s) :
    DispatchedOnce s.shared := by
  have hstart : Threads.Obeying discipline (fun d hs => Sound d hs ∧ Once d hs)
      (Sessions.start ver w clients) := by
    obtain ⟨hs, hsound, hobeys⟩ := obeying_start ver w clients
    refine ⟨hs, ⟨hsound, ?_⟩, hobeys⟩
    exact ⟨List.nodup_nil, fun _ _ _ _ hp => (List.not_mem_nil hp).elim,
      fun _ hp => (List.not_mem_nil hp).elim⟩
  obtain ⟨hs, ⟨_, honce⟩, _⟩ := Threads.obeying_of_runs (J := fun d hs => Sound d hs ∧ Once d hs)
    (fun s i hs c answer x hcareful hJ hcurrent hallowed hexec => by
      obtain ⟨hanswer, hsound⟩ := sound_exec hJ.1 hallowed hexec
      exact ⟨hanswer, fun h' hnext =>
        ⟨hsound h' hnext, once_exec hcareful hcurrent hJ.2 hJ.1 hallowed hexec h' hnext⟩⟩) hrun hstart
  exact honce.once

/-- A loop of one iteration. -/
def oneLoop : DagVersion where
  dag :=
    { nodes := [{ node_key := "start", node_type := "start" },
        { node_key := "each", node_type := "loop", node_name := "each" }]
      edges := [{ from_key := "start", to_key := "each" }]
      keys_nodup := by decide
      edges_closed := by decide }
  workflow := { pk := 1, name := "one loop", fail_strategy := "continue" }

/-- The loop brings a command that runs on. -/
def loopRuns (minute : Int) : Env :=
  scripted minute (fun key _ => if key = "each" then forEachAnswer [.int 1] "command" else running)
    fun _ _ => running

/-- The loop is expanded and its child is still to be dispatched. -/
def expanded : World := started oneLoop (loopRuns 0) []

/-- The scheduler's tick beside one on behalf of a request. -/
def twoTicks : Sessions :=
  Sessions.start oneLoop expanded [.scheduled (loopRuns 1), .advance (loopRuns 1) (some 7)]

/-- Both ticks read the pending child, and both hand it to its adapter. -/
theorem child_dispatched_twice :
    ∃ s, Reachable oneLoop expanded ∧ Runs Sessions.step (fun _ _ => True) twoTicks s ∧
      ¬ DispatchedOnce s.shared := by
  obtain ⟨s, hrun, htwice⟩ : ∃ s, Runs Sessions.step (fun _ _ => True) twoTicks s ∧
      decide (¬ DispatchedOnce s.shared) = true :=
    exists_run_of_exec (List.replicate 11 0 ++ List.replicate 10 1) (by decide +kernel)
  exact ⟨s, started_reachable _ _ _ rfl, hrun, of_decide_eq_true htwice⟩

/-- When the second tick begins after the first one has ended, the child is dispatched once. -/
theorem child_dispatched_once :
    ∃ s, Runs Sessions.step Careful twoTicks s ∧ s.shared.handed.length = 1 ∧
      DispatchedOnce s.shared := by
  obtain ⟨s, hrun, hone⟩ : ∃ s, Runs Sessions.step Careful twoTicks s ∧
      decide (s.shared.handed.length = 1) = true :=
    exists_run_of_exec (List.replicate 17 0 ++ List.replicate 13 1) (by decide +kernel)
  exact ⟨s, hrun, of_decide_eq_true hone, dispatched_once hrun⟩

end taurus.engine.concurrent
