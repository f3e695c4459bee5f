import PlanFold.Value.Number

/-!
# Values and field maps

A value is null, a truth value, a number, a text, a list or a mapping. A
mapping is a list of fields in order. Writing a field that is there keeps its
place, a new field goes last, and removing one keeps the order of the others.

Reading looks at the first field of a name. That no name occurs twice is said
separately, by `Fields.Distinct` for one mapping and `Value.WellFormed` for a
value at every depth.
-/

set_option autoImplicit false

namespace PlanFold

inductive Value where
  | null
  | bool (b : Bool)
  | number (n : Number)
  | string (s : String)
  | list (items : List Value)
  | mapping (fields : List (String × Value))

abbrev Fields := List (String × Value)

namespace Fields

def get? (name : String) : Fields → Option Value
  | [] => none
  | (key, value) :: rest => if key = name then some value else get? name rest

def contains (name : String) (fields : Fields) : Bool := (get? name fields).isSome

def keys (fields : Fields) : List String := fields.map Prod.fst

def insert (name : String) (value : Value) : Fields → Fields
  | [] => [(name, value)]
  | (key, old) :: rest =>
    if key = name then (name, value) :: rest else (key, old) :: insert name value rest

def erase (name : String) (fields : Fields) : Fields :=
  fields.filter fun field => field.1 ≠ name

def merge (fields : Fields) (others : Fields) : Fields :=
  others.foldl (fun into field => into.insert field.1 field.2) fields

def ofList (entries : List (String × Value)) : Fields := merge [] entries

def Distinct (fields : Fields) : Prop := fields.keys.Nodup

end Fields

namespace Value

def isNull : Value → Bool
  | .null => true
  | _ => false

def fields? : Value → Option Fields
  | .mapping fields => some fields
  | _ => none

def string? : Value → Option String
  | .string s => some s
  | _ => none

def field? (name : String) : Value → Option Value
  | .mapping fields => Fields.get? name fields
  | _ => none

def ofWhole (n : Int) : Value := .number (.whole (.saturated n))

def kind : Value → String
  | .null => "null"
  | .bool _ => "boolean"
  | .number _ => "number"
  | .string _ => "string"
  | .list _ => "list"
  | .mapping _ => "mapping"

/- Equality of values: mappings compare without order, numbers by `Number.same`. -/
mutual

def same : Value → Value → Bool
  | .null, .null => true
  | .bool a, .bool b => a = b
  | .number m, .number n => m.same n
  | .string s, .string t => s = t
  | .list xs, .list ys => sameItems xs ys
  | .mapping fs, .mapping gs => fs.length = gs.length && sameFields fs gs
  | _, _ => false

def sameItems : List Value → List Value → Bool
  | [], [] => true
  | x :: xs, y :: ys => same x y && sameItems xs ys
  | _, _ => false

def sameFields : List (String × Value) → Fields → Bool
  | [], _ => true
  | (name, x) :: rest, gs =>
    (match Fields.get? name gs with
      | some y => same x y
      | none => false) && sameFields rest gs

end

/- No mapping in a value has a field twice. -/
mutual

def WellFormed : Value → Prop
  | .list items => WellFormedItems items
  | .mapping fields => Fields.Distinct fields ∧ WellFormedFields fields
  | _ => True

def WellFormedItems : List Value → Prop
  | [] => True
  | x :: xs => WellFormed x ∧ WellFormedItems xs

def WellFormedFields : List (String × Value) → Prop
  | [] => True
  | (_, x) :: rest => WellFormed x ∧ WellFormedFields rest

end

end Value

end PlanFold
