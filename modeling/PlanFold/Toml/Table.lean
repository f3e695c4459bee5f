/-!
# Tables of TOML

A document is a table of tables, put together from headers and entries. What
may be written twice depends on how a table came about, so every table keeps
that: by a header of its own, by standing on the way to one, or by a dotted
key. Inline tables are closed when written and count as scalars here.

Nothing is claimed about values beyond what names are made of: texts and lists.
-/

set_option autoImplicit false

namespace PlanFold.Toml

inductive Origin where
  | header
  | onTheWay
  | dottedKey
deriving DecidableEq

inductive Item where
  | text (s : String)
  | list (items : List Item)
  | other
  | table (origin : Origin) (entries : List (String × Item))
  | tables (closed : List (List (String × Item))) (last : List (String × Item))

abbrev Table := List (String × Item)

namespace Table

def get? (key : String) (table : Table) : Option Item :=
  (table.find? fun entry => entry.1 = key).map Prod.snd

def put (key : String) (item : Item) : Table → Table
  | [] => [(key, item)]
  | (k, old) :: rest => if k = key then (key, item) :: rest else (k, old) :: put key item rest

def change (f : Table → Option Table) : List String → Table → Option Table
  | [], table => f table
  | key :: path, table =>
    match get? key table with
    | none => (change f path []).map fun inner => put key (.table .onTheWay inner) table
    | some (.table origin inner) =>
      (change f path inner).map fun inner => put key (.table origin inner) table
    | some (.tables closed last) =>
      (change f path last).map fun last => put key (.tables closed last) table
    | some _ => none

def openTable (key : String) (table : Table) : Option Table :=
  match get? key table with
  | none => some (put key (.table .header []) table)
  | some (.table .onTheWay inner) => some (put key (.table .header inner) table)
  | some _ => none

def openNext (key : String) (table : Table) : Option Table :=
  match get? key table with
  | none => some (put key (.tables [] []) table)
  | some (.tables closed last) => some (put key (.tables (closed ++ [last]) []) table)
  | some _ => none

/-- Write an entry under a dotted key. A dotted key may not enter a table with a
header, adds only to tables made by dotted keys, and no entry is written twice. -/
def enter (key : String) (item : Item) : Bool → List String → Table → Option Table
  | mayAdd, [], table =>
    if mayAdd && (get? key table).isNone then some (put key item table) else none
  | _, k :: path, table =>
    match get? k table with
    | none => (enter key item true path []).map fun inner => put k (.table .dottedKey inner) table
    | some (.table .header _) => none
    | some (.table origin inner) =>
      (enter key item (origin = .dottedKey) path inner).map fun inner =>
        put k (.table origin inner) table
    | some (.tables closed last) =>
      (enter key item false path last).map fun last => put k (.tables closed last) table
    | some _ => none

end Table

end PlanFold.Toml
