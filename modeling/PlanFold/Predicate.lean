import PlanFold.Text
import PlanFold.Value.Basic

/-!
# Predicates, and what a first scope selects by them

Tests on one value. Six have names of their own; any other test is custom.

A list is split by an optional predicate into the elements that satisfy it and
the residual ones, both in list order. The first primary element is chosen;
when there is none but something remains, a fallback may run instead.
-/

set_option autoImplicit false

namespace PlanFold

inductive Predicate where
  | nonEmpty
  | empty
  | null
  | present
  | truthy
  | falsy
  | custom (test : Value → Bool)

def Value.isEmpty : Value → Bool
  | .list items => items.isEmpty
  | .mapping fields => fields.isEmpty
  | .string s => s = ""
  | _ => false

def Value.isFalsy : Value → Bool
  | .null => true
  | .bool b => !b
  | _ => false

namespace Predicate

def holds : Predicate → Value → Bool
  | .nonEmpty, value => !value.isEmpty && !value.isNull
  | .empty, value => value.isEmpty || value.isNull
  | .null, value => value.isNull
  | .present, value => !value.isNull && !value.isEmpty
  | .truthy, value => !value.isFalsy
  | .falsy, value => value.isFalsy
  | .custom test, value => test value

def fieldEquals (field : String) (expected : Value) : Predicate :=
  .custom fun value =>
    match value.field? field with
    | some found => found.same expected
    | none => false

def name : Predicate → String
  | .nonEmpty => "non_empty"
  | .empty => "empty"
  | .null => "null"
  | .present => "present"
  | .truthy => "truthy"
  | .falsy => "falsy"
  | .custom _ => "<custom>"

def ofName? (name : String) : Option Predicate :=
  if name = "non_empty" ∨ name = "any?" then some .nonEmpty
  else if name = "empty" ∨ name = "empty?" then some .empty
  else if name = "null" ∨ name = "nil?" then some .null
  else if name = "present" ∨ name = "present?" then some .present
  else if name = "truthy" then some .truthy
  else if name = "falsy" then some .falsy
  else none

def unknownName (name : String) : String := "unknown predicate name: " ++ Text.quote name

def description (predicate : Predicate) : String := "Predicate(" ++ predicate.name ++ ")"

end Predicate

inductive Selection where
  | primary (element : Value)
  | fallback
  | nothing

namespace Selection

def isPrimary (predicate : Option Predicate) (element : Value) : Bool :=
  match predicate with
  | some p => p.holds element
  | none => true

def partition (predicate : Option Predicate) (items : List Value) : List Value × List Value :=
  items.partition (isPrimary predicate)

def select (predicate : Option Predicate) (items : List Value) (hasFallback : Bool) : Selection :=
  match partition predicate items with
  | (element :: _, _) => .primary element
  | ([], []) => .nothing
  | ([], _ :: _) => if hasFallback then .fallback else .nothing

end Selection

end PlanFold
