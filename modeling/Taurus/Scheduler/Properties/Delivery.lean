import Mathlib.Algebra.Order.Group.Multiset
import Taurus.Lib.Line
import Taurus.Scheduler.Queue

namespace taurus.scheduler

open taurus.lib.line

variable {α : Type} {key key' : String} {lists : Lists α} {t : Traffic α} {w : Worker}
  {fault : Option Nat}

/-- The messages of a key. -/
def at_key (key : String) (messages : List (String × α)) : List α :=
  messages.filterMap fun m => if m.1 = key then some m.2 else none

@[simp] theorem at_key_nil : at_key key ([] : List (String × α)) = [] := rfl

@[simp] theorem at_key_append (xs ys : List (String × α)) :
    at_key key (xs ++ ys) = at_key key xs ++ at_key key ys :=
  List.filterMap_append

/-- The messages at a key, one at a time. -/
theorem at_key_cons (k : String) (m : α) (xs : List (String × α)) :
    at_key key ((k, m) :: xs) = if k = key then m :: at_key key xs else at_key key xs := by
  unfold at_key
  by_cases hk : k = key
  · rw [List.filterMap_cons_some (by simp only [if_pos hk]; rfl), if_pos hk]
  · rw [List.filterMap_cons_none (by simp only [if_neg hk]), if_neg hk]

theorem at_key_map (k : String) (ms : List α) :
    at_key key (ms.map fun m => (k, m)) = if k = key then ms else [] := by
  induction ms with
  | nil => simp
  | cons m ms ih =>
    rw [List.map_cons, at_key_cons, ih]
    split <;> rfl

section pops

theorem queues_nodup (w : Worker) : w.queues.Nodup := by
  have hadd : ∀ (queues : List String) (k : String), queues.Nodup → (k ≠ "" ∧ k ∉ queues) →
      (queues ++ [k]).Nodup :=
    fun queues k hqueues hk => List.nodup_append.mpr ⟨hqueues, List.nodup_singleton k, by
      rintro a ha b hb rfl
      obtain rfl := List.mem_singleton.mp hb
      exact hk.2 ha⟩
  have hfirst : [w.queue_key].Nodup := List.nodup_singleton _
  unfold Worker.queues
  dsimp only
  split
  · rename_i hworkflow
    have hsecond := hadd _ _ hfirst ⟨hworkflow.1, by simpa using hworkflow.2⟩
    split
    · exact hadd _ _ hsecond ‹_›
    · exact hsecond
  · split
    · exact hadd _ _ hfirst ‹_›
    · exact hfirst

/-- `BRPOP` takes at most one message, from the right end of its list. -/
theorem brpop_spec (keys : List String) (lists : Lists α) (key : String) :
    lists key = (brpop keys lists).2 key ++ at_key key (brpop keys lists).1 ∧
      (at_key key (brpop keys lists).1).length ≤ if key ∈ keys then 1 else 0 := by
  induction keys with
  | nil => simp [brpop]
  | cons k keys ih =>
    rw [brpop]
    split
    · rename_i raw hlast
      dsimp only
      by_cases hk : k = key
      · subst hk
        rw [Function.update_self, at_key_cons, if_pos rfl]
        exact ⟨(List.dropLast_append_getLast? raw hlast).symm, by simp⟩
      · rw [Function.update_of_ne (Ne.symm hk), at_key_cons, if_neg hk]
        simp
    · refine ⟨ih.1, ih.2.trans ?_⟩
      by_cases hkey : key ∈ keys
      · rw [if_pos hkey, if_pos (List.mem_cons_of_mem _ hkey)]
      · rw [if_neg hkey]
        exact Nat.zero_le _

/-- `LPOP` takes from the left end, as often as the key is asked for at most. -/
theorem lpops_spec (keys : List String) (lists : Lists α) (key : String) :
    lists key = at_key key (lpops keys lists).1 ++ (lpops keys lists).2 key ∧
      (at_key key (lpops keys lists).1).length ≤ keys.count key := by
  induction keys generalizing lists with
  | nil => simp [lpops]
  | cons k keys ih =>
    rw [lpops]
    split
    · obtain ⟨hsplit, hcount⟩ := ih lists
      refine ⟨hsplit, hcount.trans ?_⟩
      rw [List.count_cons]
      omega
    · rename_i raw rest hlist
      dsimp only
      obtain ⟨hsplit, hcount⟩ := ih (Function.update lists k rest)
      by_cases hk : k = key
      · subst hk
        rw [Function.update_self] at hsplit
        rw [at_key_cons, if_pos rfl, hlist, List.cons_append, ← hsplit]
        refine ⟨rfl, ?_⟩
        rw [List.length_cons, List.count_cons_self]
        omega
      · rw [Function.update_of_ne (Ne.symm hk)] at hsplit
        rw [at_key_cons, if_neg hk]
        refine ⟨hsplit, hcount.trans ?_⟩
        rw [List.count_cons]
        omega

/-- A worker pops a queue of its own as often as it has credit, and no other. -/
theorem count_pops {queues : List String} (hqueues : queues.Nodup) (n : Nat) (key : String) :
    (queues.flatMap (List.replicate n)).count key ≤ if key ∈ queues then n else 0 := by
  induction queues with
  | nil => simp
  | cons k queues ih =>
    obtain ⟨hk, hqueues⟩ := List.nodup_cons.mp hqueues
    have ih := ih hqueues
    rw [List.flatMap_cons, List.count_append, List.count_replicate]
    by_cases hkey : k = key
    · subst hkey
      rw [if_neg hk] at ih
      simp
      omega
    · simpa [hkey, Ne.symm hkey] using ih

/-- The most messages of a key that a worker takes in one turn. -/
def Worker.most (w : Worker) (key : String) : Nat := if key ∈ w.queues then w.prefetch else 0

/-- The messages of a list in the order in which they are taken: from the right with one at a time
(`single`), and otherwise from the left. -/
def line (single : Bool) (messages : List α) : List α :=
  if single then messages.reverse else messages

theorem reverse_of_length {xs : List α} (h : xs.length ≤ 1) : xs.reverse = xs := by
  cases xs with
  | nil => rfl
  | cons x xs =>
    obtain rfl : xs = [] := List.length_eq_zero_iff.mp (by simpa using h)
    rfl

/-- A line has the messages of the list. -/
theorem line_perm (single : Bool) (messages : List α) : (line single messages).Perm messages := by
  unfold line
  split
  · exact List.reverse_perm messages
  · exact List.Perm.refl messages

/-- What is taken was the front of the line. -/
theorem take_line {single : Bool} (hw : w.prefetch = 1 ↔ single = true) (fault : Option Nat)
    (lists : Lists α) (key : String) :
    line single (lists key) = at_key key (w.take fault lists).1 ++ line single
      ((w.take fault lists).2 key) ∧
      (at_key key (w.take fault lists).1).length ≤ w.most key := by
  unfold Worker.take Worker.most
  cases single with
  | true =>
    have hone := hw.mpr rfl
    rw [if_pos hone, hone]
    split
    · simp
    · obtain ⟨hsplit, hcount⟩ := brpop_spec w.queues lists key
      refine ⟨?_, hcount⟩
      have hlength : (at_key key (brpop w.queues lists).1).length ≤ 1 :=
        hcount.trans (by split <;> omega)
      unfold line
      rw [if_pos rfl, if_pos rfl, hsplit, List.reverse_append, reverse_of_length hlength]
  | false =>
    have hmany : ¬w.prefetch = 1 := fun hc => Bool.noConfusion (hw.mp hc)
    rw [if_neg hmany]
    dsimp only
    have hcount := count_pops (queues_nodup w) w.prefetch key
    cases fault with
    | none =>
      obtain ⟨hsplit, hlength⟩ :=
        lpops_spec (w.queues.flatMap (List.replicate w.prefetch)) lists key
      exact ⟨hsplit, hlength.trans hcount⟩
    | some pops =>
      obtain ⟨hsplit, hlength⟩ :=
        lpops_spec ((w.queues.flatMap (List.replicate w.prefetch)).take pops) lists key
      exact ⟨hsplit, hlength.trans
        ((List.Sublist.count_le key (List.take_sublist _ _)).trans hcount)⟩

end pops

section accounts

/-- Each message that was pushed is in exactly one place. -/
def Balanced (t : Traffic α) : Prop :=
  ∀ key, (at_key key t.pushed : Multiset α) =
    t.lists key + (at_key key t.handled + (at_key key t.lost + at_key key t.trimmed))

/-- No worker loses its connection. -/
def QueueEvent.Connected : QueueEvent α → Prop
  | .turn _ fault => fault = none
  | _ => True

/-- Nothing is lost between the lists and the worker. -/
theorem take_perm (w : Worker) (fault : Option Nat) (lists : Lists α) (key : String) :
    (lists key : Multiset α) = (w.take fault lists).2 key + at_key key (w.take fault lists).1 := by
  obtain ⟨single, hw⟩ : ∃ single, w.prefetch = 1 ↔ single = true :=
    ⟨decide (w.prefetch = 1), by simp⟩
  have hline := (take_line hw fault lists key).1
  rw [← Multiset.coe_eq_coe.mpr (line_perm single (lists key)), hline, ← Multiset.coe_add, add_comm,
    Multiset.coe_eq_coe.mpr (line_perm single _)]

/-- Pushing on the left keeps the account. -/
theorem balanced_lpush (h : Balanced t) (k : String) (m : α) (trims : Bool) :
    Balanced (t.lpush k m trims) := by
  intro key
  have h := h key
  unfold Traffic.lpush
  dsimp only
  generalize (if trims then queue_limit else (t.lists k).length + 1) = limit
  rw [at_key_append, at_key_append, at_key_map, at_key_cons, at_key_nil, ← Multiset.coe_add,
    ← Multiset.coe_add, h]
  by_cases hk : k = key
  · subst hk
    have hcut : (((m :: t.lists k).take limit : List α) : Multiset α) +
      ((m :: t.lists k).drop limit : List α) =
        [m] + t.lists k := by
      rw [Multiset.coe_add, Multiset.coe_add, List.take_append_drop]
      rfl
    rw [if_pos rfl, if_pos rfl, Function.update_self]
    calc _ = ([m] + t.lists k : Multiset α) +
      (at_key k t.handled + (at_key k t.lost + at_key k t.trimmed)) := by ac_rfl
      _ = _ := by
        rw [← hcut]
        ac_rfl
  · rw [if_neg hk, if_neg hk, Function.update_of_ne (Ne.symm hk), Multiset.coe_nil,
      add_zero, add_zero]

theorem balanced_rpush (h : Balanced t) (k : String) (m : α) : Balanced (t.rpush k m) := by
  intro key
  have h := h key
  unfold Traffic.rpush
  dsimp only
  rw [at_key_append, at_key_cons, at_key_nil, ← Multiset.coe_add, h]
  by_cases hk : k = key
  · subst hk
    rw [if_pos rfl, Function.update_self, ← Multiset.coe_add]
    ac_rfl
  · rw [if_neg hk, Function.update_of_ne (Ne.symm hk), Multiset.coe_nil, add_zero]

theorem balanced_turn (h : Balanced t) (w : Worker) (fault : Option Nat) :
    Balanced (t.turn w fault) := by
  intro key
  have h := h key
  have htake := take_perm w fault t.lists key
  unfold Traffic.turn
  dsimp only
  split
  · rw [at_key_append, ← Multiset.coe_add, h, htake]
    ac_rfl
  · rw [at_key_append, ← Multiset.coe_add, h, htake]
    ac_rfl

/-- The account holds along every run. -/
theorem balanced_run (h : Balanced t) (events : List (QueueEvent α)) : Balanced (t.run events) := by
  induction events generalizing t with
  | nil => exact h
  | cons event events ih =>
    apply ih
    cases event with
    | execute_now k m trims => exact balanced_lpush h k m trims
    | run_st_now k m => exact balanced_rpush h k m
    | turn w fault => exact balanced_turn h w fault

/-- Connected workers lose nothing. -/
theorem lost_run {events : List (QueueEvent α)} (h : ∀ event ∈ events, event.Connected) :
    (t.run events).lost = t.lost := by
  induction events generalizing t with
  | nil => rfl
  | cons event events ih =>
    rw [Traffic.run_cons, ih fun e he => h e (List.mem_cons_of_mem _ he)]
    cases event with
    | execute_now k m trims => rfl
    | run_st_now k m => rfl
    | turn w fault => exact if_pos (h _ List.mem_cons_self)

theorem length_at_key_le (key : String) (xs : List (String × α)) :
    (at_key key xs).length ≤ xs.length :=
  List.length_filterMap_le _ _

/-- A list is no longer than what was pushed. -/
theorem Balanced.length_le (h : Balanced t) (key : String) :
    (t.lists key).length ≤ t.pushed.length := by
  have hcard := congrArg Multiset.card (h key)
  simp only [Multiset.card_add, Multiset.coe_card] at hcard
  have hle := length_at_key_le key t.pushed
  omega

theorem pushed_run_le (t : Traffic α) (events : List (QueueEvent α)) :
    t.pushed.length ≤ (t.run events).pushed.length := by
  induction events generalizing t with
  | nil => exact Nat.le_refl _
  | cons event events ih =>
    refine Nat.le_trans ?_ (ih (t.step event))
    cases event with
    | execute_now k m trims =>
      change t.pushed.length ≤ (t.pushed ++ [(k, m)]).length
      rw [List.length_append]
      omega
    | run_st_now k m =>
      change t.pushed.length ≤ (t.pushed ++ [(k, m)]).length
      rw [List.length_append]
      omega
    | turn w fault => exact Nat.le_refl _

/-- Nothing is cut off as long as no more was pushed than a list may hold. -/
theorem trimmed_run {events : List (QueueEvent α)} (h : Balanced t)
    (hfew : (t.run events).pushed.length ≤ queue_limit) :
    (t.run events).trimmed = t.trimmed := by
  induction events generalizing t with
  | nil => rfl
  | cons event events ih =>
    rw [Traffic.run_cons] at hfew ⊢
    have hbalanced : Balanced (t.step event) := balanced_run h [event]
    rw [ih hbalanced hfew]
    have hle := (pushed_run_le (t.step event) events).trans hfew
    cases event with
    | execute_now k m trims =>
      have hpushed : (t.pushed ++ [(k, m)]).length ≤ queue_limit := hle
      rw [List.length_append, List.length_singleton] at hpushed
      have hlength := h.length_le k
      change t.trimmed ++ ((m :: t.lists k).drop (if trims then queue_limit
        else (t.lists k).length + 1)).map _ = t.trimmed
      rw [List.drop_eq_nil_of_le, List.map_nil, List.append_nil]
      rw [List.length_cons]
      split <;> omega
    | run_st_now k m => rfl
    | turn w fault => rfl

/-- Whatever producers and workers do, each message is in exactly one place: in its list, handed to
the worker's handler, lost, or cut off. None is handed over twice; one is lost only where a worker's
connection fails after the pop, and cut off only when more than the limit were pushed. -/
theorem messages_accounted (events : List (QueueEvent α)) : let t := ({} : Traffic α).run events
    (∀ key, (at_key key t.pushed).Perm
      (t.lists key ++ at_key key t.handled ++ at_key key t.lost ++ at_key key t.trimmed)) ∧
    ((∀ event ∈ events, event.Connected) → t.lost = []) ∧
    (t.pushed.length ≤ queue_limit → t.trimmed = []) := by
  have hempty : Balanced ({} : Traffic α) := fun key => rfl
  refine ⟨fun key => ?_, lost_run, trimmed_run hempty⟩
  apply Multiset.coe_eq_coe.mp
  rw [balanced_run hempty events key, ← Multiset.coe_add, ← Multiset.coe_add, ← Multiset.coe_add,
    add_assoc, add_assoc]

end accounts

section order

variable {single : Bool} {events : List (QueueEvent α)}

/-- A list as the line of those who wait in it. -/
def view (single : Bool) (key : String) (t : Traffic α) : Line α where
  waiting := line single (t.lists key)
  served := at_key key t.taken

def moves (single : Bool) (key : String) (t : Traffic α) : QueueEvent α → List (Move α)
  | .execute_now k m _ => if k = key then [if single then .join m else .jump m] else []
  | .run_st_now k m => if k = key then [if single then .jump m else .join m] else []
  | .turn w fault => [.serve (at_key key (w.take fault t.lists).1).length]

end order

/-! The queue of script tasks, with workers of either kind. -/

def script_tasks : String := "taurus:scheduler:queue:script_task"

end taurus.scheduler
