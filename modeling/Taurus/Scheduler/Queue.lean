import Mathlib.Data.List.Basic
import Mathlib.Logic.Function.Basic
import Taurus.Scheduler.ScriptTasks

namespace taurus.scheduler

/-! The Redis lists between those who ask for a task and the workers. Messages stay what they are
until a worker hands them to `_process_single_payload_sync`. -/

variable {α : Type}

/-- The lists by their keys, each from its left end. -/
abbrev Lists (α : Type) : Type := String → List α

/-- The length that `execute_now` trims a list to. -/
def queue_limit : Nat := 10000

/-- The options of a `run_scheduler_worker` process. -/
structure Worker where
  queue_key : String
  workflow_queue_key : String := ""
  maintenance_queue_key : String := ""
  prefetch_option : Int := 1

namespace Worker

def prefetch (w : Worker) : Nat := (max 1 w.prefetch_option).toNat

/-- The keys that a worker reads, in this order. -/
def queues (w : Worker) : List String :=
  let queues := [w.queue_key]
  let queues :=
    if w.workflow_queue_key ≠ "" ∧ w.workflow_queue_key ≠ w.queue_key then
      queues ++ [w.workflow_queue_key]
    else queues
  if w.maintenance_queue_key ≠ "" ∧ w.maintenance_queue_key ∉ queues then
    queues ++ [w.maintenance_queue_key]
  else queues

end Worker

/-- `BRPOP` on several keys: the right end of the first list that is not empty. -/
def brpop : List String → Lists α → List (String × α) × Lists α
  | [], lists => ([], lists)
  | key :: keys, lists =>
    match (lists key).getLast? with
    | some raw => ([(key, raw)], Function.update lists key (lists key).dropLast)
    | none => brpop keys lists

/-- `LPOP` of each key in turn. -/
def lpops : List String → Lists α → List (String × α) × Lists α
  | [], lists => ([], lists)
  | key :: keys, lists =>
    match lists key with
    | [] => lpops keys lists
    | raw :: rest =>
      let popped := lpops keys (Function.update lists key rest)
      ((key, raw) :: popped.1, popped.2)

/-- What one turn of the main loop takes off the lists. `fault` is the number of pops that the
server has made when the connection fails. -/
def Worker.take (w : Worker) (fault : Option Nat) (lists : Lists α) : List (String × α) × Lists α :=
  if w.prefetch = 1 then
    if fault = some 0 then ([], lists) else brpop w.queues lists
  else
    let keys := w.queues.flatMap (List.replicate w.prefetch)
    lpops (match fault with
      | some pops => keys.take pops
      | none => keys) lists

/-- The lists, and what has happened to the messages so far, in order: all that were pushed, taken
by a worker, handed to `_handle_one`, lost with the connection of the worker that had taken them,
or cut off by `LTRIM`. -/
structure Traffic (α : Type) where
  lists : Lists α := fun _ => []
  pushed : List (String × α) := []
  taken : List (String × α) := []
  handled : List (String × α) := []
  lost : List (String × α) := []
  trimmed : List (String × α) := []

/-- A push by `execute_now` or by the scheduler, whose `LTRIM` may fail; a push by `_run_st_now`; a
turn of the main loop of a worker. -/
inductive QueueEvent (α : Type) where
  | execute_now (key : String) (message : α) (trims : Bool)
  | run_st_now (key : String) (message : α)
  | turn (worker : Worker) (fault : Option Nat)

namespace Traffic

/-- `LPUSH`, then `LTRIM`. -/
def lpush (t : Traffic α) (key : String) (message : α) (trims : Bool) : Traffic α :=
  let limit := if trims then queue_limit else (t.lists key).length + 1
  { t with
    lists := Function.update t.lists key ((message :: t.lists key).take limit)
    pushed := t.pushed ++ [(key, message)]
    trimmed := t.trimmed ++ ((message :: t.lists key).drop limit).map fun m => (key, m) }

def rpush (t : Traffic α) (key : String) (message : α) : Traffic α :=
  { t with
    lists := Function.update t.lists key (t.lists key ++ [message])
    pushed := t.pushed ++ [(key, message)] }

/-- A turn: messages taken while the connection fails reach nobody. -/
def turn (t : Traffic α) (worker : Worker) (fault : Option Nat) : Traffic α :=
  let popped := worker.take fault t.lists
  { t with
    lists := popped.2
    taken := t.taken ++ popped.1
    handled := if fault = none then t.handled ++ popped.1 else t.handled
    lost := if fault = none then t.lost else t.lost ++ popped.1 }

def step (t : Traffic α) : QueueEvent α → Traffic α
  | .execute_now key message trims => t.lpush key message trims
  | .run_st_now key message => t.rpush key message
  | .turn worker fault => t.turn worker fault

def run (t : Traffic α) (events : List (QueueEvent α)) : Traffic α := events.foldl step t

@[simp] theorem run_cons (t : Traffic α) (event : QueueEvent α) (events : List (QueueEvent α)) :
    t.run (event :: events) = (t.step event).run events := rfl

end Traffic

end taurus.scheduler
