import Mathlib.Data.List.Sort
import Taurus.Python.Datetime
import Taurus.Python.Text

namespace taurus.scheduler.unified

open taurus.python

structure ScriptTask where
  id : Int
  name : String
  description : Option String := none
  schedule_type : String := "cron"
  cron_expression : Option String := none
  interval_seconds : Option Int := none
  run_once_at : Option DateTime := none
  enabled : Bool := true
  creator : Option String := none
  last_exec_time : Option DateTime := none
  last_exec_result : Option String := none
  next_exec_time : Option DateTime := none
  create_datetime : Option DateTime := none
  /-- The executions of the task that are pending or running. -/
  run_cnt : Nat := 0

structure Schedule where
  id : Int
  name : String
  description : Option String := none
  schedule_type : String
  cron_expression : Option String := none
  interval_seconds : Option Int := none
  run_once_at : Option DateTime := none
  status : Int := 1
  creator : Option String := none
  last_run_time : Option DateTime := none
  next_run_time : Option DateTime := none
  create_datetime : Option DateTime := none

inductive Source where
  | script_task
  | schedule
  | all
  deriving DecidableEq

inductive Target where
  | success
  | failed
  | running
  | pending
  | all

/-- The validated parameters of a request. -/
structure Query where
  source : Source := .all
  status : Target := .all
  keyword : String := ""
  page : Nat := 1
  page_size : Nat := 20
  page_pos : 1 ≤ page
  page_size_pos : 1 ≤ page_size
  page_size_le : page_size ≤ 200

/-- The tables in the order in which they are read, with what the database takes for
containing a text. -/
structure Tables where
  script_tasks : List ScriptTask
  schedules : List Schedule
  icontains : String → String → Bool

/-- A line of the list. -/
structure Row where
  id : Int
  source : String
  name : String
  enabled : Bool
  schedule_type : String
  cron_or_interval : Option String
  owner : String
  last_exec_time : Option String
  last_exec_result : Option String
  next_exec_time : Option String
  create_datetime : Option String

def cron_or_interval (schedule_type : String) (cron_expression : Option String)
    (interval_seconds : Option Int) (run_once_at : Option DateTime) : Option String :=
  if schedule_type = "cron" then cron_expression
  else match interval_seconds.filter (· ≠ 0) with
    | some n => some s!"每 {n}s"
    | none => some ((run_once_at.map DateTime.isoformat).getD "")

def script_row (t : ScriptTask) : Row where
  id := t.id
  source := "script_task"
  name := t.name
  enabled := t.enabled
  schedule_type := t.schedule_type
  cron_or_interval :=
    cron_or_interval t.schedule_type t.cron_expression t.interval_seconds t.run_once_at
  owner := t.creator.getD ""
  last_exec_time := t.last_exec_time.map DateTime.isoformat
  last_exec_result := t.last_exec_result
  next_exec_time := t.next_exec_time.map DateTime.isoformat
  create_datetime := t.create_datetime.map DateTime.isoformat

/-- A schedule has no `last_result`. -/
def schedule_row (s : Schedule) : Row where
  id := s.id
  source := "schedule"
  name := s.name
  enabled := s.status = 1
  schedule_type := s.schedule_type
  cron_or_interval :=
    cron_or_interval s.schedule_type s.cron_expression s.interval_seconds s.run_once_at
  owner := s.creator.getD ""
  last_exec_time := s.last_run_time.map DateTime.isoformat
  last_exec_result := none
  next_exec_time := s.next_run_time.map DateTime.isoformat
  create_datetime := s.create_datetime.map DateTime.isoformat

/-- A text column is compared with the text of a number. -/
def _st_status_filter (target : Target) (t : ScriptTask) : Bool :=
  match target with
  | .all => true
  | .success => t.last_exec_result = some "0"
  | .failed => t.last_exec_result = some "1"
  | .running => 0 < t.run_cnt
  | .pending => t.last_exec_result = none

def _sc_status_filter (target : Target) (s : Schedule) : Bool :=
  match target with
  | .all => true
  | .success => s.status = 1
  | .failed => s.status = -1
  | .running => s.status = 2
  | .pending => s.status = 0

section

variable (tables : Tables) (q : Query)

/-- `not keyword` or one of the columns contains it. -/
def keyword_hit (columns : List (Option String)) : Bool :=
  let keyword := String.ofList (strip q.keyword.toList)
  keyword = "" ∨ columns.any fun column => column.any (tables.icontains keyword)

def matching_tasks : List ScriptTask :=
  if q.source ≠ .schedule then
    tables.script_tasks.filter fun t =>
      keyword_hit tables q [some t.name, t.description,
        t.cron_expression] && _st_status_filter q.status t
  else []

def matching_schedules : List Schedule :=
  if q.source ≠ .script_task then
    tables.schedules.filter fun s =>
      keyword_hit tables q [some s.name, s.description] && _sc_status_filter q.status s
  else []

/-- `x["next_exec_time"] or ""` -/
def sort_key (x : Row) : String := x.next_exec_time.getD ""

def KeyLE (x y : Row) : Prop := sort_key x ≤ sort_key y

instance : DecidableRel KeyLE := fun x y => inferInstanceAs (Decidable (sort_key x ≤ sort_key y))

/-- The items of a page and the total. -/
def unified_list : List Row × Nat :=
  let limit := q.page * q.page_size + 1
  let rows :=
    ((matching_tasks tables q).take limit).map script_row ++
      ((matching_schedules tables q).take limit).map schedule_row
  let merged := rows.insertionSort KeyLE
  let total := merged.length
  let start := (q.page - 1) * q.page_size
  ((merged.drop start).take q.page_size, total)

end

end taurus.scheduler.unified
