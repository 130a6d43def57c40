import Mathlib.Data.List.TakeWhile
import Taurus.Lib.Dict
import Taurus.Python.Text

namespace taurus.python

open taurus.lib

/-- A JSON value as Python holds it. A float is kept as its exact decimal value. -/
inductive Json where
  | null
  | bool (b : Bool)
  | int (n : Int)
  | float (q : Rat)
  | str (s : String)
  | arr (xs : List Json)
  | obj (kvs : List (String × Json))
  deriving Inhabited

namespace Json

/-- `bool(v)` -/
def truthy : Json → Bool
  | null => false
  | bool b => b
  | int n => n != 0
  | float q => q != 0
  | str s => s != ""
  | arr xs => !xs.isEmpty
  | obj kvs => !kvs.isEmpty

/-- The numeric value of `v`; a bool is an int. -/
def number? : Json → Option Rat
  | bool b => some (if b then 1 else 0)
  | int n => some n
  | float q => some q
  | _ => none

def str? : Json → Option String
  | str s => some s
  | _ => none

def obj? : Json → Option (Dict String Json)
  | obj kvs => some kvs
  | _ => none

/-- `a == b` where `b` is a literal of a condition: None, bool, number or string. -/
def eqLiteral (a b : Json) : Bool :=
  match a.number?, b.number? with
  | some x, some y => x == y
  | some _, none => false
  | none, some _ => false
  | none, none =>
    match a, b with
    | null, null => true
    | str s, str t => s == t
    | _, _ => false

/-- `a < b`: `none` is the TypeError of operands without an order. -/
def lt? (a b : Json) : Option Bool :=
  match a.number?, b.number? with
  | some x, some y => some (decide (x < y))
  | _, _ =>
    match a, b with
    | str s, str t => some (decide (s < t))
    | _, _ => none

/-- `a <= b` -/
def le? (a b : Json) : Option Bool :=
  match a.number?, b.number? with
  | some x, some y => some (decide (x ≤ y))
  | _, _ =>
    match a, b with
    | str s, str t => some (decide (s ≤ t))
    | _, _ => none

end Json

/-- `d.get(k)`, with None for a missing key. -/
def getJson (d : Dict String Json) (k : String) : Json := (Dict.get? d k).getD .null

/-- A text that begins with a visible character is not blank. -/
theorem strip_cons_ne_nil {c : Char} (hc : isspace c = false) (cs : List Char) :
    strip (c :: cs) ≠ [] := by
  unfold strip
  rw [List.dropWhile_cons_of_neg (by simp [hc]), Ne, List.reverse_eq_nil_iff,
    List.dropWhile_eq_nil_iff]
  intro hall
  have hspace := hall c (by simp)
  simp [hc] at hspace

/-- `repr` of a JSON value, which is never blank. -/
structure Reprs where
  repr : Json → String
  not_blank : ∀ v, strip (repr v).toList ≠ []

namespace Reprs

/-- `str(v)`: a text is itself. -/
def str (py : Reprs) : Json → String
  | .str s => s
  | v => py.repr v

@[simp] theorem str_str (py : Reprs) (s : String) : py.str (.str s) = s := rfl

/-- Only a blank text has a blank `str`. -/
theorem str_blank_iff (py : Reprs) (v : Json) :
    strip (py.str v).toList = [] ↔ ∃ s, v = .str s ∧ strip s.toList = [] := by
  cases v with
  | str s => simp
  | _ => simp [str, py.not_blank]

/-- `repr` without escapes, and with the elements of a container left out. -/
def short : Reprs where
  repr v := match v with
    | .null => "None"
    | .bool b => if b then "True" else "False"
    | .int _ => "0"
    | .float _ => "0.0"
    | .str s => "'" ++ s ++ "'"
    | .arr _ => "[...]"
    | .obj _ => "\x7b...\x7d"
  not_blank v := by
    cases v with
    | str s =>
      simp only [String.toList_append]
      exact strip_cons_ne_nil (by decide) _
    | null => exact (by decide : strip "None".toList ≠ [])
    | bool b =>
      cases b; exacts [(by decide : strip "False".toList ≠ []),
        (by decide : strip "True".toList ≠ [])]
    | int n => exact (by decide : strip "0".toList ≠ [])
    | float q => exact (by decide : strip "0.0".toList ≠ [])
    | arr xs => exact (by decide : strip "[...]".toList ≠ [])
    | obj kvs => exact (by decide : strip "\x7b...\x7d".toList ≠ [])

end Reprs

/-- `v is None or v == ""` -/
def missing : Json → Bool
  | .null => true
  | .str s => s == ""
  | _ => false

/-- `v == s` for a text `s`. -/
def isText (v : Json) (s : String) : Bool :=
  match v with
  | .str t => t == s
  | _ => false

@[simp] theorem isText_iff {v : Json} {s : String} : isText v s = true ↔ v = .str s := by
  cases v <;> simp [isText]

/-- A value other than None is stored. -/
theorem get?_of_getJson {d : Dict String Json} {k : String} {v : Json} (h : getJson d k = v)
    (hv : v ≠ .null) :
    Dict.get? d k = some v := by
  unfold getJson at h
  cases hget : Dict.get? d k with
  | none => exact absurd (by simpa [hget] using h.symm) hv
  | some w => simpa [hget] using h

theorem getJson_set (d : Dict String Json) (k k₂ : String) (v : Json) :
    getJson (Dict.set d k v) k₂ = if k = k₂ then v else getJson d k₂ := by
  unfold getJson
  rw [Dict.get?_set]
  split_ifs <;> rfl

/-- Python lists and dicts, the values without a hash. -/
def unhashable : Json → Option String
  | .arr _ => some "unhashable type: 'list'"
  | .obj _ => some "unhashable type: 'dict'"
  | _ => none

end taurus.python
