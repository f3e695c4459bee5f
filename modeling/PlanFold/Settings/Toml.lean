import PlanFold.Settings.Json
import PlanFold.Toml.Scalar
import PlanFold.Toml.Table

/-!
# Settings from TOML text

A document is read line by line: headers open tables, entries write into the
table that is open. Lists may run over several lines, inline tables may not.
Fewer than eighty brackets may be open at once, and a dotted key has fewer
than eighty parts.

The document may give each of the names of the settings a list of texts. Names
that are not settings are passed over.
-/

set_option autoImplicit false

namespace PlanFold.Toml

def isBareKeyChar (c : Char) : Bool := c.isAlphanum || c = '_' || c = '-'

def keyPart? : List Char → Option (String × List Char)
  | '"' :: rest => (quoted? rest).map fun read => (String.ofList read.1, read.2)
  | '\'' :: rest => (literal? rest).map fun read => (String.ofList read.1, read.2)
  | cs =>
    let part := cs.takeWhile isBareKeyChar
    if part.isEmpty then none else some (String.ofList part, cs.dropWhile isBareKeyChar)

def key? : Nat → List Char → Option ((List String × String) × List Char)
  | 0, _ => none
  | more + 1, cs => do
    let (part, rest) ← keyPart? (skipBlanks cs)
    match skipBlanks rest with
    | '.' :: rest => do
      let ((path, last), rest) ← key? more rest
      some ((part :: path, last), rest)
    | rest => some (([], part), rest)

/-- One less than the number of brackets and key parts that is too many. -/
def nestingLimit : Nat := 79

def items? (item? : List Char → Option (Item × List Char)) :
    Nat → List Char → Option (List Item × List Char)
  | 0, _ => none
  | more + 1, cs => do
    match ← skipFiller false cs with
    | ']' :: rest => some ([], rest)
    | cs => do
      let (item, rest) ← item? cs
      match ← skipFiller false rest with
      | ',' :: rest => do
        let (others, rest) ← items? item? more rest
        some (item :: others, rest)
      | ']' :: rest => some ([item], rest)
      | _ => none

def entry? (item? : List Char → Option (Item × List Char)) (cs : List Char) :
    Option (((List String × String) × Item) × List Char) := do
  let (key, rest) ← key? nestingLimit cs
  match rest with
  | '=' :: rest => do
    let (item, rest) ← item? (skipBlanks rest)
    some ((key, item), rest)
  | _ => none

def entries? (item? : List Char → Option (Item × List Char)) :
    Nat → Table → List Char → Option (Table × List Char)
  | 0, _, _ => none
  | more + 1, table, cs => do
    let (((path, key), item), rest) ← entry? item? cs
    let table ← table.enter key item true path
    match skipBlanks rest with
    | ',' :: rest => entries? item? more table rest
    | '\x7d' :: rest => some (table, rest)
    | _ => none

def plainItem? (cs : List Char) : Option (Item × List Char) :=
  match text? cs with
  | some (text, rest) => some (.text (String.ofList text), rest)
  | none => (afterScalar? cs).map fun rest => (.other, rest)

def item? : Nat → List Char → Option (Item × List Char)
  | 0, cs => plainItem? cs
  | room + 1, '[' :: rest =>
    (items? (item? room) (rest.length + 1) rest).map fun read => (.list read.1, read.2)
  | room + 1, '\x7b' :: rest =>
    match skipBlanks rest with
    | '\x7d' :: rest => some (.other, rest)
    | rest => (entries? (item? room) (rest.length + 1) [] rest).map fun read => (.other, read.2)
  | _ + 1, cs => plainItem? cs

structure Reading where
  root : Table
  path : List String

def header? (reading : Reading) (cs : List Char) : Option (Reading × List Char) :=
  match cs with
  | '[' :: cs => do
    let ((path, key), rest) ← key? nestingLimit cs
    match rest with
    | ']' :: ']' :: rest => do
      let root ← reading.root.change (Table.openNext key) path
      some (⟨root, path ++ [key]⟩, rest)
    | _ => none
  | cs => do
    let ((path, key), rest) ← key? nestingLimit cs
    match rest with
    | ']' :: rest => do
      let root ← reading.root.change (Table.openTable key) path
      some (⟨root, path ++ [key]⟩, rest)
    | _ => none

def statement? (reading : Reading) (cs : List Char) : Option (Reading × List Char) :=
  match cs with
  | '[' :: rest => header? reading rest
  | cs => do
    let (((path, key), item), rest) ← entry? (item? nestingLimit) cs
    let root ← reading.root.change (Table.enter key item true path) reading.path
    some (⟨root, reading.path⟩, rest)

def lines? : Nat → Reading → List Char → Option Table
  | 0, _, _ => none
  | more + 1, reading, cs =>
    match endLine? cs, skipBlanks cs with
    | _, [] => some reading.root
    | some rest, _ => lines? more reading rest
    | none, cs => do
      let (reading, rest) ← statement? reading cs
      let rest ← endLine? rest
      lines? more reading rest

def document? (cs : List Char) : Option Table :=
  let cs :=
    match cs with
    | '\ufeff' :: rest => rest
    | _ => cs
  lines? (cs.length + 1) ⟨[], []⟩ cs

end PlanFold.Toml

namespace PlanFold.Settings

open Toml

def itemName? : Item → Option String
  | .text s => some s
  | _ => none

def givenNames? (table : Table) (name : String) : Option (Option (List String)) :=
  match table.get? name with
  | none => some none
  | some (.list items) => (items.mapM itemName?).map some
  | some _ => none

def ofToml? (text : String) : Option Settings := do
  let table ← document? text.toList
  let requiredFields ← givenNames? table "required_fields"
  let effortCounters ← givenNames? table "effort_counters"
  let pageCountFields ← givenNames? table "page_count_fields"
  some (ofGiven ⟨requiredFields, effortCounters, pageCountFields⟩)

end PlanFold.Settings
