import PlanFold.Timestamp.Text
import PlanFold.Toml.Text
import PlanFold.Value.Number

/-!
# Scalars of TOML that are not texts

Truth values, integers, floats, dates and times. Only their form matters here:
what is accepted, never what it is worth, since no scalar names anything.
-/

set_option autoImplicit false

namespace PlanFold.Toml

open Numeric

def ungroup (isDigit : Char → Bool) : Bool → List Char → Option (List Char)
  | afterDigit, [] => if afterDigit then some [] else none
  | afterDigit, c :: rest =>
    if isDigit c then (ungroup isDigit true rest).map (c :: ·)
    else if c = '_' && afterDigit then ungroup isDigit false rest
    else none

def decimalDigits? (cs : List Char) : Option (List Char) := do
  let digits ← ungroup Char.isDigit false cs
  guard (digits = ['0'] ∨ digits.head? ≠ some '0')
  some digits

def splitSign : List Char → Bool × List Char
  | '-' :: rest => (true, rest)
  | '+' :: rest => (false, rest)
  | cs => (false, cs)

def isInteger (cs : List Char) : Bool :=
  match decimalDigits? (splitSign cs).2 with
  | some digits =>
    let n : Int := Nat.ofDigitChars 10 digits 0
    if (splitSign cs).1 then leastSigned ≤ -n else n ≤ greatestSigned
  | none => false

def isBased (base : Nat) (cs : List Char) : Bool :=
  let isDigit (c : Char) : Bool :=
    match Json.Cutter.hexValue? c with
    | some digit => digit < base
    | none => false
  match ungroup isDigit false cs with
  | some digits =>
    let n : Int := digits.foldl (fun n c => n * base + (Json.Cutter.hexValue? c).getD 0) 0
    n ≤ greatestSigned
  | none => false

def splitFraction? : List Char → Option (List Char × List Char)
  | '.' :: rest => do
    let part := rest.takeWhile fun c => c.isDigit || c = '_'
    let digits ← ungroup Char.isDigit false part
    some (digits, rest.drop part.length)
  | cs => some ([], cs)

def exponent? : List Char → Option Int
  | [] => some 0
  | mark :: rest => do
    guard (mark = 'e' ∨ mark = 'E')
    let digits ← ungroup Char.isDigit false (splitSign rest).2
    let n : Int := Nat.ofDigitChars 10 digits 0
    some (if (splitSign rest).1 then -n else n)

def isFloat (cs : List Char) : Bool :=
  match splitSign cs with
  | (negative, cs) =>
    let whole := cs.takeWhile fun c => c.isDigit || c = '_'
    let behind := cs.drop whole.length
    match decimalDigits? whole, splitFraction? behind with
    | some digits, some (fraction, rest) =>
      match exponent? rest with
      | some exponent =>
        let d : Decimal := ⟨Nat.ofDigitChars 10 (digits ++ fraction) 0, exponent - fraction.length⟩
        !behind.isEmpty && (negative || (d.toBinary64 false).finite?.isSome)
      | none => false
    | _, _ => false

def isSpecialFloat (cs : List Char) : Bool :=
  (splitSign cs).2 = ['i', 'n', 'f'] || (splitSign cs).2 = ['n', 'a', 'n']

def isDate : List Char → Bool
  | [y₁, y₂, y₃, y₄, '-', m₁, m₂, '-', d₁, d₂] =>
    match Timestamp.fourDigits? y₁ y₂ y₃ y₄, Timestamp.twoDigits? m₁ m₂,
      Timestamp.twoDigits? d₁ d₂ with
    | some year, some month, some day => (Calendar.Date.mk year month day).isValid
    | _, _, _ => false
  | _ => false

def afterTime? : List Char → Option (List Char)
  | h₁ :: h₂ :: ':' :: n₁ :: n₂ :: ':' :: s₁ :: s₂ :: rest => do
    let hour ← Timestamp.twoDigits? h₁ h₂
    let minute ← Timestamp.twoDigits? n₁ n₂
    let second ← Timestamp.twoDigits? s₁ s₂
    guard (hour ≤ 23 ∧ minute ≤ 59 ∧ second ≤ 60)
    let (_, rest) ← Timestamp.fraction? rest
    some rest
  | _ => none

def isOffset (cs : List Char) : Bool :=
  cs.isEmpty || (cs.head? ≠ some '\u2212' && (Timestamp.offset? cs).isSome)

def isMoment (cs : List Char) : Bool :=
  isDate cs || afterTime? cs = some [] ||
    (isDate (cs.take 10) &&
      match cs.drop 10 with
      | separator :: time =>
        Timestamp.isSeparator separator && ((afterTime? time).map isOffset).getD false
      | [] => false)

def isScalar (cs : List Char) : Bool :=
  cs = ['t', 'r', 'u', 'e'] || cs = ['f', 'a', 'l', 's', 'e'] || isSpecialFloat cs ||
    isInteger cs || isFloat cs || isMoment cs ||
    match cs with
    | '0' :: 'x' :: digits => isBased 16 digits
    | '0' :: 'o' :: digits => isBased 8 digits
    | '0' :: 'b' :: digits => isBased 2 digits
    | _ => false

def isScalarChar (c : Char) : Bool :=
  c.isAlphanum || c = '_' || c = '+' || c = '-' || c = '.' || c = ':'

def hasTimeBehind : List Char → Bool
  | ' ' :: a :: b :: ':' :: _ => a.isDigit && b.isDigit
  | _ => false

def afterScalar? (cs : List Char) : Option (List Char) :=
  let run := cs.takeWhile isScalarChar
  let rest := cs.drop run.length
  if isDate run && hasTimeBehind rest then
    let time := (rest.drop 1).takeWhile isScalarChar
    if isMoment (run ++ ' ' :: time) then some (rest.drop (time.length + 1)) else none
  else if isScalar run then some rest
  else none

end PlanFold.Toml
