import PlanFold.Numeric.Decimal

/-!
# Tokens of JSON text

A text is cut into tokens by one step per character. Numbers must follow the
number grammar and escapes the escape grammar; whether a number is in range
and whether escaped surrogates pair up is asked later, when a token's meaning
is wanted.
-/

set_option autoImplicit false

namespace PlanFold.Json

open Numeric

inductive Piece where
  | char (c : Char)
  | unit (n : Nat)
deriving DecidableEq

structure NumberText where
  negative : Bool
  whole : List Char
  fraction : Option (List Char)
  exponent : Option Int

inductive Token where
  | openList
  | closeList
  | openMapping
  | closeMapping
  | comma
  | colon
  | null
  | bool (b : Bool)
  | number (n : NumberText)
  | string (pieces : List Piece)

def isBlank (c : Char) : Bool := c = ' ' || c = '\n' || c = '\t' || c = '\r'

def isWordChar (c : Char) : Bool := c.isLower

def isNumberChar (c : Char) : Bool :=
  c.isDigit || c = '-' || c = '+' || c = '.' || c = 'e' || c = 'E'

def exponentOf? (cs : List Char) : Option Int :=
  let (negative, digits) :=
    match cs with
    | '-' :: rest => (true, rest)
    | '+' :: rest => (false, rest)
    | _ => (false, cs)
  if digits.isEmpty || !digits.all Char.isDigit then none
  else
    let n : Int := Nat.ofDigitChars 10 digits 0
    some (if negative then -n else n)

def numberOf? (cs : List Char) : Option NumberText := do
  let (negative, cs) :=
    match cs with
    | '-' :: rest => (true, rest)
    | _ => (false, cs)
  let (whole, cs) := cs.span Char.isDigit
  guard (whole = ['0'] ∨ (whole ≠ [] ∧ whole.head? ≠ some '0'))
  let (fraction, cs) :=
    match cs with
    | '.' :: rest => (some (rest.span Char.isDigit).1, (rest.span Char.isDigit).2)
    | _ => (none, cs)
  guard (fraction ≠ some [])
  match cs with
  | [] => some ⟨negative, whole, fraction, none⟩
  | mark :: rest =>
    guard (mark = 'e' ∨ mark = 'E')
    let exponent ← exponentOf? rest
    some ⟨negative, whole, fraction, some exponent⟩

def wordOf? (cs : List Char) : Option Token :=
  match cs with
  | ['n', 'u', 'l', 'l'] => some .null
  | ['t', 'r', 'u', 'e'] => some (.bool true)
  | ['f', 'a', 'l', 's', 'e'] => some (.bool false)
  | _ => none

inductive Mode where
  | between
  | word (seen : List Char)
  | number (seen : List Char)
  | string (seen : List Piece)
  | escape (seen : List Piece)
  | hex (seen : List Piece) (missing : Nat) (value : Nat)

structure Cutter where
  mode : Mode
  tokens : List Token

namespace Cutter

def start (tokens : List Token) (c : Char) : Option Cutter :=
  if isBlank c then some ⟨.between, tokens⟩
  else if c = '[' then some ⟨.between, .openList :: tokens⟩
  else if c = ']' then some ⟨.between, .closeList :: tokens⟩
  else if c = '\x7b' then some ⟨.between, .openMapping :: tokens⟩
  else if c = '\x7d' then some ⟨.between, .closeMapping :: tokens⟩
  else if c = ',' then some ⟨.between, .comma :: tokens⟩
  else if c = ':' then some ⟨.between, .colon :: tokens⟩
  else if c = '"' then some ⟨.string [], tokens⟩
  else if isWordChar c then some ⟨.word [c], tokens⟩
  else if isNumberChar c then some ⟨.number [c], tokens⟩
  else none

def close (cutter : Cutter) : Option (List Token) :=
  match cutter.mode with
  | .between => some cutter.tokens
  | .word seen => (wordOf? seen.reverse).map (· :: cutter.tokens)
  | .number seen => (numberOf? seen.reverse).map fun n => .number n :: cutter.tokens
  | _ => none

def escaped? (c : Char) : Option Char :=
  if c = '"' || c = '\\' || c = '/' then some c
  else if c = 'b' then some '\x08'
  else if c = 'f' then some '\x0c'
  else if c = 'n' then some '\n'
  else if c = 'r' then some '\r'
  else if c = 't' then some '\t'
  else none

def hexValue? (c : Char) : Option Nat :=
  if c.isDigit then some (c.toNat - 48)
  else if 'a' ≤ c ∧ c ≤ 'f' then some (c.toNat - 87)
  else if 'A' ≤ c ∧ c ≤ 'F' then some (c.toNat - 55)
  else none

def step (cutter : Cutter) (c : Char) : Option Cutter :=
  match cutter.mode with
  | .between => start cutter.tokens c
  | .word seen =>
    if isWordChar c then some ⟨.word (c :: seen), cutter.tokens⟩
    else cutter.close.bind fun tokens => start tokens c
  | .number seen =>
    if isNumberChar c then some ⟨.number (c :: seen), cutter.tokens⟩
    else cutter.close.bind fun tokens => start tokens c
  | .string seen =>
    if c = '"' then some ⟨.between, .string seen.reverse :: cutter.tokens⟩
    else if c = '\\' then some ⟨.escape seen, cutter.tokens⟩
    else if c.toNat < 0x20 then none
    else some ⟨.string (.char c :: seen), cutter.tokens⟩
  | .escape seen =>
    if c = 'u' then some ⟨.hex seen 4 0, cutter.tokens⟩
    else (escaped? c).map fun char => ⟨.string (.char char :: seen), cutter.tokens⟩
  | .hex seen missing value =>
    (hexValue? c).map fun digit =>
      let value := value * 16 + digit
      if missing ≤ 1 then ⟨.string (.unit value :: seen), cutter.tokens⟩
      else ⟨.hex seen (missing - 1) value, cutter.tokens⟩

end Cutter

def tokens? (cs : List Char) : Option (List Token) := do
  let cutter ← cs.foldlM Cutter.step ⟨.between, []⟩
  let tokens ← cutter.close
  some tokens.reverse

def text? : List Piece → Option (List Char)
  | [] => some []
  | .char c :: rest => (text? rest).map (c :: ·)
  | .unit high :: .unit low :: rest =>
    if 0xD800 ≤ high ∧ high < 0xDC00 ∧ 0xDC00 ≤ low ∧ low < 0xE000 then
      (text? rest).map (Char.ofNat (0x10000 + (high - 0xD800) * 0x400 + (low - 0xDC00)) :: ·)
    else if high < 0xD800 ∨ 0xE000 ≤ high then
      (text? (.unit low :: rest)).map (Char.ofNat high :: ·)
    else none
  | .unit n :: rest =>
    if n < 0xD800 ∨ 0xE000 ≤ n then (text? rest).map (Char.ofNat n :: ·) else none

end PlanFold.Json
