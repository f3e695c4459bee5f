import PlanFold.Json.Token

/-!
# Trees of JSON text

The grammar over tokens, read with a stack of open brackets by one step per
token. A tree keeps what was written: every field of a mapping, repeated names
included, and numbers and strings as they stand. There is no limit on depth.
-/

set_option autoImplicit false

namespace PlanFold.Json

inductive Tree where
  | null
  | bool (b : Bool)
  | number (n : NumberText)
  | string (pieces : List Piece)
  | list (items : List Tree)
  | mapping (entries : List (List Piece × Tree))

inductive Open where
  | list (items : List Tree)
  | mapping (entries : List (List Piece × Tree)) (name : List Piece)

inductive Phase where
  | value
  | firstItem
  | firstName
  | name (entries : List (List Piece × Tree))
  | colon (entries : List (List Piece × Tree)) (name : List Piece)
  | after (tree : Tree)

structure Reading where
  stack : List Open
  phase : Phase

namespace Reading

def begin (stack : List Open) : Token → Option Reading
  | .null => some ⟨stack, .after .null⟩
  | .bool b => some ⟨stack, .after (.bool b)⟩
  | .number n => some ⟨stack, .after (.number n)⟩
  | .string pieces => some ⟨stack, .after (.string pieces)⟩
  | .openList => some ⟨.list [] :: stack, .firstItem⟩
  | .openMapping => some ⟨stack, .firstName⟩
  | _ => none

def resume (tree : Tree) : List Open → Token → Option Reading
  | .list items :: stack, .comma => some ⟨.list (tree :: items) :: stack, .value⟩
  | .list items :: stack, .closeList => some ⟨stack, .after (.list (tree :: items).reverse)⟩
  | .mapping entries name :: stack, .comma => some ⟨stack, .name ((name, tree) :: entries)⟩
  | .mapping entries name :: stack, .closeMapping =>
    some ⟨stack, .after (.mapping ((name, tree) :: entries).reverse)⟩
  | _, _ => none

def step (reading : Reading) (token : Token) : Option Reading :=
  match reading.phase, token with
  | .value, _ => begin reading.stack token
  | .firstItem, .closeList => some ⟨reading.stack.drop 1, .after (.list [])⟩
  | .firstItem, _ => begin reading.stack token
  | .firstName, .closeMapping => some ⟨reading.stack, .after (.mapping [])⟩
  | .firstName, .string name => some ⟨reading.stack, .colon [] name⟩
  | .name entries, .string name => some ⟨reading.stack, .colon entries name⟩
  | .colon entries name, .colon => some ⟨.mapping entries name :: reading.stack, .value⟩
  | .after tree, _ => resume tree reading.stack token
  | _, _ => none

end Reading

def tree? (cs : List Char) : Option Tree := do
  let tokens ← tokens? cs
  let reading ← tokens.foldlM Reading.step ⟨[], .value⟩
  match reading.stack, reading.phase with
  | [], .after tree => some tree
  | _, _ => none

end PlanFold.Json
