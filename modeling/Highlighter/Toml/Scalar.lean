import Highlighter.Toml.Value

/-! # TOML scalars — numbers, booleans, dates and times

    An unquoted scalar is a run of chars that is read as a whole.  Digits may be grouped by
    single underscores; decimal numbers have no leading zeros; integers fit into 64 bits;
    a positive float is finite; dates and times name a day and a moment that exist. -/

namespace Highlighter.Toml

/-- Digits with single underscores between them. -/
def isGrouped (isDigit : Char → Bool) : List Char → Bool
  | [] => false
  | [c] => isDigit c
  | c :: '_' :: rest => isDigit c && isGrouped isDigit rest
  | c :: rest => isDigit c && isGrouped isDigit rest

/-- Value of a digit of any base up to sixteen. -/
def digitValue (c : Char) : Nat :=
  if c.isDigit then c.toNat - '0'.toNat
  else if 'a' ≤ c ∧ c ≤ 'f' then c.toNat - 'a'.toNat + 10
  else if 'A' ≤ c ∧ c ≤ 'F' then c.toNat - 'A'.toNat + 10
  else 0

/-- The number that digits of a base stand for, underscores aside. -/
def digitsValue (base : Nat) (cs : List Char) : Nat :=
  (cs.filter (· != '_')).foldl (fun n c => n * base + digitValue c) 0

def isHexDigit (c : Char) : Bool :=
  c.isDigit || ('a' ≤ c && c ≤ 'f') || ('A' ≤ c && c ≤ 'F')

/-- A sign, perhaps, and what follows it. -/
def splitSign : List Char → Bool × List Char
  | '-' :: cs => (true, cs)
  | '+' :: cs => (false, cs)
  | cs => (false, cs)

/-- Decimal digits with no leading zero. -/
def isDecimal (cs : List Char) : Bool :=
  isGrouped Char.isDigit cs && (cs.length == 1 || cs.head? != some '0')

/-- Integers lie below this bound, and no further below zero: it is 2⁶³. -/
def integerBound : Nat := 0x8000000000000000

/-- An integer, decimal or with the mark of its base. -/
def integer? (cs : List Char) : Option Int :=
  let based := fun (base : Nat) (isDigit : Char → Bool) (ds : List Char) =>
    let n := digitsValue base ds
    if isGrouped isDigit ds && n < integerBound then some (n : Int) else none
  match cs with
  | '0' :: 'x' :: ds => based 16 isHexDigit ds
  | '0' :: 'o' :: ds => based 8 (fun c => '0' ≤ c && c ≤ '7') ds
  | '0' :: 'b' :: ds => based 2 (fun c => c == '0' || c == '1') ds
  | _ =>
    let (negative, ds) := splitSign cs
    let n := digitsValue 10 ds
    if !isDecimal ds then none
    else if negative then if n ≤ integerBound then some (-(n : Int)) else none
    else if n < integerBound then some (n : Int) else none

/-- The number `m · 10 ^ e` is too great for a double: it rounds to no finite one. -/
def overflows (m : Nat) (e : Int) : Bool :=
  let digits := (toString m).length
  if m = 0 then false
  else if 400 < (digits : Int) + e then true
  else if (digits : Int) + e < 300 then false
  else
    let bound := Nat.pow 2 1024 - Nat.pow 2 970
    if 0 ≤ e then bound ≤ m * Nat.pow 10 e.toNat else bound * Nat.pow 10 (-e).toNat ≤ m

/-- An exponent: a sign, perhaps, and digits. -/
def exponent? (cs : List Char) : Option Int :=
  let (negative, ds) := splitSign cs
  if isGrouped Char.isDigit ds then
    let n : Int := digitsValue 10 ds
    some (if negative then -n else n)
  else none

/-- A float: an integer with a fraction, an exponent or both, or one of the special ones. -/
def isFloat (cs : List Char) : Bool :=
  let (negative, body) := splitSign cs
  if body == "inf".toList || body == "nan".toList then true
  else
    let isMark := fun (c : Char) => c == 'e' || c == 'E'
    let mantissa := body.takeWhile (!isMark ·)
    let marked := body.drop mantissa.length
    let whole := mantissa.takeWhile (· != '.')
    let pointed := mantissa.drop whole.length
    let fraction := pointed.drop 1
    let scale := match marked with
      | [] => some 0
      | _ :: ds => exponent? ds
    match scale with
    | none => false
    | some scale =>
      let places := (fraction.filter (· != '_')).length
      isDecimal whole && (pointed.isEmpty || isGrouped Char.isDigit fraction) &&
        !(pointed.isEmpty && marked.isEmpty) &&
        (negative || !overflows (digitsValue 10 (whole ++ fraction)) (scale - places))

/-! ## Dates and times -/

/-- A number of exactly `n` digits. -/
def fixedDigits? (n : Nat) (cs : List Char) : Option Nat :=
  if cs.length == n && cs.all Char.isDigit then some (digitsValue 10 cs) else none

def daysInMonth (year month : Nat) : Nat :=
  if month = 2 then
    if year % 4 = 0 ∧ (year % 100 ≠ 0 ∨ year % 400 = 0) then 29 else 28
  else if month = 4 ∨ month = 6 ∨ month = 9 ∨ month = 11 then 30
  else 31

/-- A day of the calendar, as year, month and day with dashes. -/
def isDate (cs : List Char) : Bool :=
  let month := fixedDigits? 2 ((cs.drop 5).take 2)
  let day := fixedDigits? 2 (cs.drop 8)
  match fixedDigits? 4 (cs.take 4), month, day with
  | some year, some month, some day =>
    cs[4]? == some '-' && cs[7]? == some '-' && 1 ≤ month && month ≤ 12 &&
      1 ≤ day && day ≤ daysInMonth year month
  | _, _, _ => false

/-- Hours and minutes, with a colon between them. -/
def hourMinute? (cs : List Char) : Option (Nat × Nat) :=
  match fixedDigits? 2 (cs.take 2), fixedDigits? 2 (cs.drop 3) with
  | some hour, some minute => if cs[2]? == some ':' then some (hour, minute) else none
  | _, _ => none

/-- A time of day to the second or finer; a second may be a leap second.  A loose one may be in
    the hour after the last. -/
def isTime (loose : Bool) (cs : List Char) : Bool :=
  match hourMinute? (cs.take 5), fixedDigits? 2 ((cs.drop 6).take 2) with
  | some (hour, minute), some second =>
    hour ≤ (if loose then 24 else 23) && minute ≤ 59 && cs[5]? == some ':' && second ≤ 60 &&
      (match cs.drop 8 with
        | [] => true
        | '.' :: ds => !ds.isEmpty && ds.all Char.isDigit
        | _ => false)
  | _, _ => false

/-- A distance from universal time; a loose one may have any minutes up to a day in all. -/
def isZone (loose : Bool) : List Char → Bool
  | ['Z'] | ['z'] => true
  | '+' :: cs | '-' :: cs =>
    (hourMinute? cs).any fun (hour, minute) =>
      if loose then hour * 60 + minute ≤ 24 * 60 else hour ≤ 23 && minute ≤ 59
  | _ => false

/-- A date, a time, or both with or without a zone. -/
def isDatetime (loose : Bool) (cs : List Char) : Bool :=
  let date := cs.take 10
  match cs.drop 10 with
  | [] => isDate date || isTime loose cs
  | sep :: rest =>
    let isClock := fun (c : Char) => c.isDigit || c == ':' || c == '.'
    let time := rest.takeWhile isClock
    let zone := rest.drop time.length
    isTime loose cs ||
      (isDate date && (sep == 'T' || sep == 't' || sep == ' ') && isTime loose time &&
        (zone.isEmpty || isZone loose zone))

/-- The value of an unquoted scalar. -/
def scalar? (cs : List Char) : Option Value :=
  if cs == "true".toList then some (.boolean true)
  else if cs == "false".toList then some (.boolean false)
  else
    match integer? cs with
    | some n => some (.integer n)
    | none =>
      if isFloat cs then some (.float (String.ofList cs))
      else if isDatetime false cs then some (.datetime (String.ofList cs))
      else none

end Highlighter.Toml
