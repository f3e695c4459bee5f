import PlanFold.Json.Tree
import PlanFold.Value.Basic

/-!
# JSON text of values

A tree means a value when no number overflows, every surrogate has its
partner and at most 127 brackets are open at once. A number without point and
exponent is a whole number if it is in range; `-0` and everything else is the
nearest double. A repeated name keeps its first place and its last value.

The text that is written has no blanks. In strings a quote, a backslash and the
characters below U+0020 are escaped, all others stand as they are.
-/

set_option autoImplicit false

namespace PlanFold.Json

open Numeric

def NumberText.number? (n : NumberText) : Option Number :=
  let fraction := n.fraction.getD []
  let digits := Nat.ofDigitChars 10 (n.whole ++ fraction) 0
  let double :=
    Number.ofBinary64? (Decimal.toBinary64 n.negative
      ⟨digits, n.exponent.getD 0 - fraction.length⟩)
  if n.fraction.isNone ∧ n.exponent.isNone ∧ ¬(n.negative ∧ digits = 0) then
    match Whole.ofInt? (if n.negative then -(digits : Int) else digits) with
    | some whole => some (.whole whole)
    | none => double
  else double

def depthLimit : Nat := 127

/- The value of a tree, with room for so many open brackets. -/
mutual

def Tree.value? : Nat → Tree → Option Value
  | _, .null => some .null
  | _, .bool b => some (.bool b)
  | _, .number n => n.number?.map .number
  | _, .string pieces => (text? pieces).map fun cs => .string (String.ofList cs)
  | 0, _ => none
  | room + 1, .list items => (itemValues? room items).map .list
  | room + 1, .mapping entries =>
    (entryValues? room entries).map fun fields => .mapping (Fields.ofList fields)

def itemValues? : Nat → List Tree → Option (List Value)
  | _, [] => some []
  | room, x :: xs => do
    let value ← Tree.value? room x
    let values ← itemValues? room xs
    some (value :: values)

def entryValues? : Nat → List (List Piece × Tree) → Option (List (String × Value))
  | _, [] => some []
  | room, (name, x) :: rest => do
    let name ← text? name
    let value ← Tree.value? room x
    let fields ← entryValues? room rest
    some ((String.ofList name, value) :: fields)

end

end PlanFold.Json

namespace PlanFold.Value

def ofText? (text : String) : Option Value := do
  let tree ← Json.tree? text.toList
  tree.value? Json.depthLimit

end PlanFold.Value

namespace PlanFold.Json

def stringChar (c : Char) : List Char :=
  if c = '"' || c = '\\' then ['\\', c]
  else if c = '\x08' then ['\\', 'b']
  else if c = '\x0c' then ['\\', 'f']
  else if c = '\n' then ['\\', 'n']
  else if c = '\r' then ['\\', 'r']
  else if c = '\t' then ['\\', 't']
  else if c.toNat < 0x20 then
    ['\\', 'u', '0', '0', Nat.digitChar (c.toNat / 16), Nat.digitChar (c.toNat % 16)]
  else [c]

def stringText (s : String) : List Char :=
  '"' :: s.toList.flatMap stringChar ++ ['"']

/- The characters of a value's text. -/
mutual

def chars : Value → List Char
  | .null => ['n', 'u', 'l', 'l']
  | .bool true => ['t', 'r', 'u', 'e']
  | .bool false => ['f', 'a', 'l', 's', 'e']
  | .number n => n.text
  | .string s => stringText s
  | .list items => '[' :: itemChars items ++ [']']
  | .mapping fields => '\x7b' :: fieldChars fields ++ ['\x7d']

def itemChars : List Value → List Char
  | [] => []
  | [x] => chars x
  | x :: xs => chars x ++ ',' :: itemChars xs

def fieldChars : List (String × Value) → List Char
  | [] => []
  | [(name, x)] => stringText name ++ ':' :: chars x
  | (name, x) :: rest => stringText name ++ ':' :: chars x ++ ',' :: fieldChars rest

end

end PlanFold.Json

namespace PlanFold.Value

def text (value : Value) : String := String.ofList (Json.chars value)

end PlanFold.Value
