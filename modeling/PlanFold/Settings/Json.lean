import PlanFold.Json.Text
import PlanFold.Text

/-!
# Settings

Three lists of names: the fields every plan needs, the counters that children
add to their parents, and the counters that are zeroed when pages are skipped.

As JSON text they are a mapping with some of the three names, each given once,
or a list of up to three lists in their order. Names that are not settings are
passed over, whatever stands there.
-/

set_option autoImplicit false

namespace PlanFold

structure Settings where
  requiredFields : List String
  effortCounters : List String
  pageCountFields : List String
deriving DecidableEq

namespace Settings

def standard : Settings where
  requiredFields := ["as", "attach"]
  effortCounters :=
    ["page_count_delivered", "page_count_live", "page_count_from_cache", "request_count"]
  pageCountFields := ["page_count_delivered", "page_count_live", "page_count_from_cache"]

structure Given where
  requiredFields : Option (List String)
  effortCounters : Option (List String)
  pageCountFields : Option (List String)

def ofGiven (given : Given) : Settings where
  requiredFields := given.requiredFields.getD standard.requiredFields
  effortCounters := given.effortCounters.getD standard.effortCounters
  pageCountFields := given.pageCountFields.getD standard.pageCountFields

def nameList (names : List String) : Value := .list (names.map .string)

def toValue (settings : Settings) : Value :=
  .mapping
    [("required_fields", nameList settings.requiredFields),
      ("effort_counters", nameList settings.effortCounters),
      ("page_count_fields", nameList settings.pageCountFields)]

def description (settings : Settings) : String :=
  "InterpreterSettings \x7b required_fields: " ++ Text.quoteAll settings.requiredFields ++
    ", effort_counters: " ++ Text.quoteAll settings.effortCounters ++
    ", page_count_fields: " ++ Text.quoteAll settings.pageCountFields ++ " \x7d"

end Settings

end PlanFold

namespace PlanFold.Settings

open Json

def name? : Tree → Option String
  | .string pieces => (text? pieces).map String.ofList
  | _ => none

def names? : Tree → Option (List String)
  | .list items => items.mapM name?
  | _ => none

def readEntry (given : Given) (entry : List Piece × Tree) : Option Given := do
  let name := String.ofList (← text? entry.1)
  if name = "required_fields" then
    guard given.requiredFields.isNone
    return { given with requiredFields := some (← names? entry.2) }
  else if name = "effort_counters" then
    guard given.effortCounters.isNone
    return { given with effortCounters := some (← names? entry.2) }
  else if name = "page_count_fields" then
    guard given.pageCountFields.isNone
    return { given with pageCountFields := some (← names? entry.2) }
  else return given

def ofTree? : Tree → Option Settings
  | .mapping entries => (entries.foldlM readEntry ⟨none, none, none⟩).map ofGiven
  | .list items => do
    let lists ← items.mapM names?
    guard (lists.length ≤ 3)
    return ofGiven ⟨lists[0]?, lists[1]?, lists[2]?⟩
  | _ => none

def ofJson? (text : String) : Option Settings := (tree? text.toList).bind ofTree?

end PlanFold.Settings
