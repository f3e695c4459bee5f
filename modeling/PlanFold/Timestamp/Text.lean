import PlanFold.Timestamp.Basic

/-!
# Timestamps as text

The form is `2024-03-01T10:00:00.250+02:00`. Reading also takes a small `t` or
a space between date and time, a small `z`, the minus sign U+2212, any number
of digits behind the point (those after the ninth are dropped) and a sixtieth
second at any minute. Writing uses `T` and `Z`, and three, six or nine digits
behind the point, or none.
-/

set_option autoImplicit false

namespace PlanFold.Timestamp

def twoDigits? (a b : Char) : Option Nat :=
  if a.isDigit && b.isDigit then some (Nat.ofDigitChars 10 [a, b] 0) else none

def fourDigits? (a b c d : Char) : Option Nat :=
  if a.isDigit && b.isDigit && c.isDigit && d.isDigit then
    some (Nat.ofDigitChars 10 [a, b, c, d] 0)
  else none

def nanosOf (digits : List Char) : Nat :=
  let kept := digits.take 9
  Nat.ofDigitChars 10 kept 0 * Nat.pow 10 (9 - kept.length)

def fraction? : List Char → Option (Nat × List Char)
  | '.' :: rest =>
    let digits := rest.takeWhile Char.isDigit
    if digits.isEmpty then none else some (nanosOf digits, rest.dropWhile Char.isDigit)
  | cs => some (0, cs)

def offset? : List Char → Option Int
  | ['Z'] => some 0
  | ['z'] => some 0
  | [sign, a, b, ':', c, d] => do
    let hours ← twoDigits? a b
    let minutes ← twoDigits? c d
    if 23 < hours ∨ 59 < minutes then none
    else if sign = '+' then some (hours * 60 + minutes)
    else if sign = '-' ∨ sign = '\u2212' then some (-(hours * 60 + minutes))
    else none
  | _ => none

def isSeparator (c : Char) : Bool := c = 'T' || c = 't' || c = ' '

def ofClock (date : Calendar.Date) (hour minute second : Nat) (nano : Nat) (offset : Int) :
    Timestamp :=
  let shown := if second = 60 then 59 else second
  let leap := if second = 60 then nanosInSecond else 0
  ⟨date.dayNumber * secondsInDay + hour * 3600 + minute * 60 + shown - offset * 60,
    nano + leap, offset⟩

def ofChars? : List Char → Option Timestamp
  | y₁ :: y₂ :: y₃ :: y₄ :: '-' :: m₁ :: m₂ :: '-' :: d₁ :: d₂ :: separator ::
      h₁ :: h₂ :: ':' :: n₁ :: n₂ :: ':' :: s₁ :: s₂ :: rest => do
    let year ← fourDigits? y₁ y₂ y₃ y₄
    let month ← twoDigits? m₁ m₂
    let day ← twoDigits? d₁ d₂
    let hour ← twoDigits? h₁ h₂
    let minute ← twoDigits? n₁ n₂
    let second ← twoDigits? s₁ s₂
    let date : Calendar.Date := ⟨year, month, day⟩
    guard (isSeparator separator && date.isValid && hour ≤ 23 && minute ≤ 59 && second ≤ 60)
    let (nano, rest) ← fraction? rest
    let offset ← offset? rest
    some (ofClock date hour minute second nano offset)
  | _ => none

def ofText? (text : String) : Option Timestamp := ofChars? text.toList

def padded (width n : Nat) : List Char :=
  let digits := Nat.toDigits 10 n
  List.replicate (width - digits.length) '0' ++ digits

def yearChars (year : Int) : List Char :=
  if 0 ≤ year ∧ year ≤ 9999 then padded 4 year.toNat
  else (if year < 0 then '-' else '+') :: padded 4 year.natAbs

def fractionChars (nano : Nat) : List Char :=
  if nano = 0 then []
  else if nano % 1000000 = 0 then '.' :: padded 3 (nano / 1000000)
  else if nano % 1000 = 0 then '.' :: padded 6 (nano / 1000)
  else '.' :: padded 9 nano

def offsetChars (offset : Int) : List Char :=
  if offset = 0 then ['Z']
  else (if offset < 0 then '-' else '+') ::
    padded 2 (offset.natAbs / 60) ++ ':' :: padded 2 (offset.natAbs % 60)

def chars (t : Timestamp) : List Char :=
  let date := Calendar.Date.ofDayNumber (t.shownSecond / secondsInDay)
  let inDay := (t.shownSecond % secondsInDay).toNat
  let leap := if nanosInSecond ≤ t.nano then 1 else 0
  yearChars date.year ++ '-' :: padded 2 date.month ++ '-' :: padded 2 date.day ++
    'T' :: padded 2 (inDay / 3600) ++ ':' :: padded 2 (inDay / 60 % 60) ++
    ':' :: padded 2 (inDay % 60 + leap) ++
    fractionChars (t.nano % nanosInSecond).toNat ++ offsetChars t.offset

def text (t : Timestamp) : String := String.ofList t.chars

end PlanFold.Timestamp
