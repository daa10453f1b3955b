/-!
# JSON values in Python

What `json.loads` returns, over floats `K`, and what Python does with such a value where the code takes
it for something else.
-/

namespace FxTracker

/-- The built-in exceptions that reading a value can raise. -/
inductive PyError
  | key
  | type
  | value
  | overflow
  deriving DecidableEq, Repr

/-- A value of `json.loads`. The keys of a `dict` are distinct. -/
inductive Json (K : Type)
  | null
  | bool (b : Bool)
  | int (i : Int)
  | float (x : K)
  | str (s : String)
  | list (items : List (Json K))
  | dict (entries : List (String × Json K))

namespace Json

variable {K : Type}

/-- `value.get(key)` of a `dict`. -/
def get? (entries : List (String × Json K)) (key : String) : Option (Json K) := entries.lookup key

/-- `value[key]`. -/
def item (value : Json K) (key : String) : Except PyError (Json K) :=
  match value with
  | .dict entries =>
    match get? entries key with
    | some found => .ok found
    | none => .error .key
  | _ => .error .type

/-- Whether `if value:` takes the branch. -/
def truthy [Zero K] [DecidableEq K] : Json K → Bool
  | .null => false
  | .bool b => b
  | .int i => i ≠ 0
  | .float x => x ≠ 0
  | .str s => s ≠ ""
  | .list items => !items.isEmpty
  | .dict entries => !entries.isEmpty

/-- `list(value)`, where there is one. `len(value)` is the length of it. -/
def toList : Json K → Except PyError (List (Json K))
  | .str s => .ok (s.toList.map fun c => .str (String.singleton c))
  | .list items => .ok items
  | .dict entries => .ok (entries.map fun e => .str e.1)
  | _ => .error .type

end Json

end FxTracker
