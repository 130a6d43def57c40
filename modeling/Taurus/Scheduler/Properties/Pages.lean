import Taurus.Scheduler.UnifiedList

namespace taurus.scheduler.unified

open taurus.python

/-- A task of either table. -/
abbrev Task := ScriptTask ⊕ Schedule

namespace Task

def row : Task → Row
  | .inl t => script_row t
  | .inr s => schedule_row s

def next_exec_time : Task → Option DateTime
  | .inl t => t.next_exec_time
  | .inr s => s.next_run_time

/-- The first task is not to run after the second; tasks that are not to run come first. -/
def NotAfter (x y : Task) : Prop :=
  match x.next_exec_time, y.next_exec_time with
  | none, _ => True
  | some _, none => False
  | some s, some t => ¬ t.before s

end Task

/-- The same request for another page, counted from 0. -/
def Query.at_page (q : Query) (n : Nat) : Query :=
  { q with page := n + 1, page_pos := Nat.le_add_left 1 n }

section

variable (tables : Tables) (q : Query)

/-- The tasks that match the filters of the request. -/
def matching : List Task :=
  (matching_tasks tables q).map .inl ++ (matching_schedules tables q).map .inr

/-- The total is right on every page, and the pages one after the other are all matching tasks, each
once, in the order of their next execution. -/
structure PagesExact : Prop where
  total : ∀ n, (unified_list tables (q.at_page n)).2 = (matching tables q).length
  pages : ∃ tasks : List Task, tasks.Perm (matching tables q) ∧ tasks.Pairwise Task.NotAfter ∧
    ∃ last, ∀ n ≥ last, (List.range n).flatMap (fun i => (unified_list tables (q.at_page i)).1) =
    tasks.map Task.row

end

section

variable {tables : Tables} {q : Query}

theorem empty_lt_isoformat (t : DateTime) : "" < t.isoformat := by
  rw [String.lt_iff_toList_lt, DateTime.isoformat, String.toList_ofList, String.toList_ofList]
  change ([] : List Char) < Nat.digitChar _ :: _
  exact List.nil_lt_cons _ _

/-- The texts by which the rows are sorted are in the order of time. -/
theorem keyLE_row_iff (x y : Task) : KeyLE x.row y.row ↔ x.NotAfter y := by
  have hkey : ∀ x : Task, sort_key x.row =
    (x.next_exec_time.map DateTime.isoformat).getD "" := fun x => by
    cases x <;> rfl
  unfold KeyLE Task.NotAfter
  rw [hkey, hkey]
  cases x.next_exec_time with
  | none =>
    cases y.next_exec_time with
    | none => simp
    | some t => exact iff_of_true (empty_lt_isoformat t).le trivial
  | some s =>
    cases y.next_exec_time with
    | none => exact iff_of_false (not_le.mpr (empty_lt_isoformat s)) id
    | some t =>
      change s.isoformat ≤ t.isoformat ↔ ¬ t.before s
      rw [← DateTime.isoformat_lt_iff, not_lt]

instance : Std.Total KeyLE := ⟨fun x y => le_total (sort_key x) (sort_key y)⟩

instance : IsTrans Row KeyLE := ⟨fun _ _ _ hxy hyz => le_trans (α := String) hxy hyz⟩

instance : DecidableRel Task.NotAfter := fun x y => decidable_of_iff _ (keyLE_row_iff x y)

instance : Std.Total Task.NotAfter :=
  ⟨fun x y => (le_total (sort_key x.row) (sort_key y.row)).imp (keyLE_row_iff x y).mp
    (keyLE_row_iff y x).mp⟩

instance : IsTrans Task Task.NotAfter :=
  ⟨fun x y z hxy hyz => (keyLE_row_iff x z).mp
    (le_trans (α := String) ((keyLE_row_iff x y).mpr hxy) ((keyLE_row_iff y z).mpr hyz))⟩

/-- The page after the first ones. -/
theorem take_pages {α : Type} (xs : List α) (size n : Nat) :
    (List.range n).flatMap (fun i => (xs.drop (i * size)).take size) = xs.take (n * size) := by
  induction n with
  | zero => simp
  | succ n ih =>
    rw [List.range_succ, List.flatMap_append, ih, List.flatMap_singleton, Nat.succ_mul,
      List.take_add]

/-- The tasks that a page sorts. -/
def read_tasks (tables : Tables) (q : Query) (n : Nat) : List Task :=
  ((matching_tasks tables q).take ((n + 1) * q.page_size + 1)).map .inl ++
    ((matching_schedules tables q).take ((n + 1) * q.page_size + 1)).map .inr

/-- The n-th page of the unified list. -/
theorem unified_list_at_page (n : Nat) :
    unified_list tables (q.at_page n) =
      (((((read_tasks tables q n).insertionSort Task.NotAfter).map Task.row).drop
        (n * q.page_size)).take q.page_size, (read_tasks tables q n).length) := by
  have hrows : ((matching_tasks tables (q.at_page n)).take
    ((n + 1) * q.page_size + 1)).map script_row ++
      ((matching_schedules tables (q.at_page n)).take
      ((n + 1) * q.page_size + 1)).map schedule_row =
        (read_tasks tables q n).map Task.row := by
    rw [read_tasks, List.map_append, List.map_map, List.map_map]
    rfl
  have hsort : ((read_tasks tables q n).map Task.row).insertionSort KeyLE =
      ((read_tasks tables q n).insertionSort Task.NotAfter).map Task.row :=
    (List.map_insertionSort _ _ _ _ fun x _ y _ => (keyLE_row_iff x y).symm).symm
  unfold unified_list
  simp only [Query.at_page, Nat.add_sub_cancel] at hrows ⊢
  rw [hrows, hsort, List.length_map, List.length_insertionSort]

/-- The pages are exact if and only if no table has more matching tasks than fit on a
page and one more. -/
theorem pages_exact_iff (tables : Tables) (q : Query) :
    PagesExact tables q ↔
      (matching_tasks tables q).length ≤ q.page_size + 1 ∧
        (matching_schedules tables q).length ≤ q.page_size + 1 := by
  constructor
  · intro h
    have htotal := h.total 0
    rw [unified_list_at_page] at htotal
    simp only [read_tasks, matching, List.length_append, List.length_map,
      List.length_take] at htotal
    omega
  · rintro ⟨htasks, hschedules⟩
    have hread : ∀ n, read_tasks tables q n = matching tables q := by
      intro n
      have hlimit : q.page_size + 1 ≤ (n + 1) * q.page_size + 1 := by
        rw [Nat.succ_mul]
        omega
      rw [read_tasks, matching, List.take_of_length_le (htasks.trans hlimit),
        List.take_of_length_le (hschedules.trans hlimit)]
    have hpage : ∀ n, unified_list tables (q.at_page n) =
        (((((matching tables q).insertionSort Task.NotAfter).map Task.row).drop
        (n * q.page_size)).take q.page_size,
          (matching tables q).length) := fun n => by rw [unified_list_at_page, hread]
    refine ⟨fun n => by rw [hpage], (matching tables q).insertionSort Task.NotAfter, List.perm_insertionSort _ _, ?_,
      (matching tables q).length, fun n hn => ?_⟩
    · exact List.pairwise_insertionSort _ _
    · simp only [hpage, take_pages]
      apply List.take_of_length_le
      rw [List.length_map, List.length_insertionSort]
      exact hn.le.trans (Nat.le_mul_of_pos_right n q.page_size_pos)

end

def nightly (id : Int) : Schedule :=
  { id, name := "nightly", schedule_type := "interval", interval_seconds := some 86400 }

/-- Three schedules on pages of one: the first page says that there are two. -/
theorem third_not_counted : ¬ ∀ (tables : Tables) (q : Query), PagesExact tables q := by
  intro h
  have hexact :=
    h { script_tasks := [], schedules := [nightly 1, nightly 2,
      nightly 3], icontains := fun _ _ => false }
    { page_size := 1, page_pos := Nat.le_refl 1, page_size_pos := Nat.le_refl 1, page_size_le := by decide }
  exact absurd (hexact.total 0) (by decide +kernel)

end taurus.scheduler.unified
