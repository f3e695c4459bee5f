import PlanFold.Numeric.Decimal

/-!
# Durations

A duration is a number of seconds, written in units: years, months, weeks and
days, then behind a `T` hours, minutes and seconds. Each unit is given at most
once and in this order, and a leading `-` negates the whole. Years and months
have no fixed length and count with their mean in the calendar.

The seconds are a double, summed from the largest unit to the smallest, and
so may be rounded or infinite.
-/

set_option autoImplicit false

namespace PlanFold

open Numeric

structure Duration where
  seconds : Binary64
deriving DecidableEq

namespace Duration

structure Amount where
  whole : List Char
  fraction : List Char
deriving DecidableEq

namespace Amount

def decimal (a : Amount) : Decimal :=
  ⟨Nat.ofDigitChars 10 (a.whole ++ a.fraction) 0, -a.fraction.length⟩

def value (a : Amount) : Binary64 := a.decimal.toBinary64 false

def read? (cs : List Char) : Option (Amount × List Char) :=
  let whole := cs.takeWhile Char.isDigit
  let rest := cs.dropWhile Char.isDigit
  if whole.isEmpty then none
  else
    match rest with
    | mark :: behind =>
      if mark = '.' || mark = ',' then
        let fraction := behind.takeWhile Char.isDigit
        if fraction.isEmpty then none
        else some (⟨whole, fraction⟩, behind.dropWhile Char.isDigit)
      else some (⟨whole, []⟩, rest)
    | [] => some (⟨whole, []⟩, rest)

end Amount

def component (unit : Char) (cs : List Char) : Option Amount × List Char :=
  match Amount.read? cs with
  | some (amount, c :: rest) => if c = unit then (some amount, rest) else (none, cs)
  | _ => (none, cs)

structure Components where
  years : Option Amount
  months : Option Amount
  weeks : Option Amount
  days : Option Amount
  hours : Option Amount
  minutes : Option Amount
  seconds : Option Amount
deriving DecidableEq

namespace Components

def hasDate (c : Components) : Bool :=
  c.years.isSome || c.months.isSome || c.weeks.isSome || c.days.isSome

def hasTime (c : Components) : Bool :=
  c.hours.isSome || c.minutes.isSome || c.seconds.isSome

def year : Binary64 := .mul (.ofRatio false 3652425 10000) (.ofInt 86400)

def valueOf (amount : Option Amount) : Binary64 :=
  match amount with
  | some a => a.value
  | none => .ofInt 0

def total (c : Components) : Binary64 :=
  ((((((valueOf c.years).mul year).add
    ((valueOf c.months).mul (year.divNat 12))).add
    (((valueOf c.weeks).mul (.ofInt 7)).mul (.ofInt 86400))).add
    ((valueOf c.days).mul (.ofInt 86400))).add
    ((valueOf c.hours).mul (.ofInt 3600))).add
    ((valueOf c.minutes).mul (.ofInt 60)) |>.add (valueOf c.seconds)

def ofChars? (cs : List Char) : Option Components :=
  let (years, cs) := component 'Y' cs
  let (months, cs) := component 'M' cs
  let (weeks, cs) := component 'W' cs
  let (days, cs) := component 'D' cs
  match cs with
  | [] =>
    let c : Components := ⟨years, months, weeks, days, none, none, none⟩
    if c.hasDate then some c else none
  | 'T' :: cs =>
    let (hours, cs) := component 'H' cs
    let (minutes, cs) := component 'M' cs
    let (seconds, cs) := component 'S' cs
    let c : Components := ⟨years, months, weeks, days, hours, minutes, seconds⟩
    if c.hasTime && cs.isEmpty then some c else none
  | _ => none

end Components

def signed (negative : Bool) (seconds : Binary64) : Duration :=
  ⟨if negative then seconds.neg else seconds⟩

def ofChars? : List Char → Option Duration
  | '-' :: 'P' :: cs => (Components.ofChars? cs).map fun c => signed true c.total
  | 'P' :: cs => (Components.ofChars? cs).map fun c => signed false c.total
  | _ => none

def ofText? (text : String) : Option Duration := ofChars? text.toList

def layout : Layout := ⟨none, none, false, .upper⟩

def secondsChars : Binary64 → List Char
  | .finite x => layout.finite x
  | .infinite false => ['i', 'n', 'f']
  | .infinite true => ['-', 'i', 'n', 'f']
  | .undefined => ['N', 'a', 'N']

def text (d : Duration) : String :=
  String.ofList ('P' :: 'T' :: secondsChars d.seconds ++ ['S'])

end Duration

end PlanFold
