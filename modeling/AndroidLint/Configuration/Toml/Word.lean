/-
Word — numbers, dates and truth values in TOML.

What stands without quotes is one run of characters, and the whole run has
to be of one of these kinds.  Digits may be parted by single underscores.
Whole numbers have at most 128 bits; fractions and moments are told from
what is malformed, and that is all that is asked of them.
-/
import AndroidLint.Configuration.Datum
import AndroidLint.Text

namespace AndroidLint

namespace Configuration

namespace Toml

/-- Digits without the underscores between them. -/
def joined? (cs : List Char) : Option (List Char) :=
  let runs := Text.pieces (· == '_') cs
  if runs.any (·.isEmpty) then none else some runs.flatten

/-- Whether characters are digits, at least one, perhaps parted by
underscores. -/
def areDigits (cs : List Char) : Bool :=
  (joined? cs).any (·.all Char.isDigit)

/-- Whether characters are a number in base ten without a zero in front. -/
def isPlainNumber (cs : List Char) : Bool :=
  areDigits cs && (cs.length == 1 || cs.head? != some '0')

/-- The number that a word without a sign is. -/
def unsigned? (cs : List Char) : Option Nat :=
  let n? := match cs with
    | '0' :: 'x' :: r => (joined? r).bind (Datum.number? 16)
    | '0' :: 'o' :: r => (joined? r).bind (Datum.number? 8)
    | '0' :: 'b' :: r => (joined? r).bind (Datum.number? 2)
    | _ => if isPlainNumber cs then (joined? cs).bind (Datum.number? 10) else none
  n?.filter (· < Nat.pow 2 128)

/-- The whole number that a word is; only one in base ten has a sign. -/
def whole? : List Char → Option Int
  | '+' :: r => if isPlainNumber r then (unsigned? r).map (·) else none
  | '-' :: r =>
      if isPlainNumber r then ((unsigned? r).filter (· ≤ Nat.pow 2 127)).map (-·) else none
  | cs => (unsigned? cs).map (·)

/-- A word without its sign. -/
def withoutSign : List Char → List Char
  | '+' :: r => r
  | '-' :: r => r
  | cs => cs

/-- Whether a word without a sign is a number with a fraction, with an
exponent, or with both. -/
def isUnsignedFraction (cs : List Char) : Bool :=
  match Text.pieces (fun c => c == 'e' || c == 'E') cs with
  | [m] =>
      match Text.pieces (· == '.') m with
      | [w, f] => isPlainNumber w && areDigits f
      | _ => false
  | [m, e] =>
      areDigits (withoutSign e) &&
        match Text.pieces (· == '.') m with
        | [w] => isPlainNumber w
        | [w, f] => isPlainNumber w && areDigits f
        | _ => false
  | _ => false

/-- Whether a word is a fraction, or one of the two that are no number. -/
def isFraction (cs : List Char) : Bool :=
  isUnsignedFraction (withoutSign cs)
    || ["inf", "nan"].contains (String.ofList (withoutSign cs))

/-- The number that exactly `count` digits are. -/
def fixed? (count : Nat) (cs : List Char) : Option Nat :=
  if cs.length == count && cs.all Char.isDigit then some (Text.decimal cs) else none

/-- Whether a number of `count` digits lies between two bounds. -/
def isBetween (count low high : Nat) (cs : List Char) : Bool :=
  (fixed? count cs).any fun n => low ≤ n && n ≤ high

/-- The days of a month. -/
def daysOf (year month : Nat) : Nat :=
  if month == 2 then
    if year % 4 == 0 && (year % 100 != 0 || year % 400 == 0) then 29 else 28
  else if [4, 6, 9, 11].contains month then 30
  else 31

/-- Whether characters are a day: year, month and day. -/
def isDay (cs : List Char) : Bool :=
  match Text.pieces (· == '-') cs with
  | [y, m, d] =>
      match fixed? 4 y, fixed? 2 m with
      | some year, some month =>
          1 ≤ month && month ≤ 12 && isBetween 2 1 (daysOf year month) d
      | _, _ => false
  | _ => false

/-- Whether characters are seconds, perhaps with a fraction. -/
def isSecond (cs : List Char) : Bool :=
  match Text.pieces (· == '.') cs with
  | [s] => isBetween 2 0 60 s
  | [s, f] => isBetween 2 0 60 s && !f.isEmpty && f.all Char.isDigit
  | _ => false

/-- Whether characters are a time of day; seconds may be left out. -/
def isTime (cs : List Char) : Bool :=
  match Text.pieces (· == ':') cs with
  | [h, m] => isBetween 2 0 23 h && isBetween 2 0 59 m
  | [h, m, s] => isBetween 2 0 23 h && isBetween 2 0 59 m && isSecond s
  | _ => false

/-- Whether characters are hours and minutes. -/
def isShift (cs : List Char) : Bool :=
  match Text.pieces (· == ':') cs with
  | [h, m] => isBetween 2 0 23 h && isBetween 2 0 59 m
  | _ => false

/-- Whether characters are a time of day, perhaps with how far it is from
universal time. -/
def isZonedTime (cs : List Char) : Bool :=
  let time := cs.takeWhile fun c => c.isDigit || c == ':' || c == '.'
  match cs.drop time.length with
  | [] => isTime time
  | ['Z'] => isTime time
  | ['z'] => isTime time
  | '+' :: r => isTime time && isShift r
  | '-' :: r => isTime time && isShift r
  | _ => false

/-- Whether characters are a day, a time of day, or both. -/
def isMoment (cs : List Char) : Bool :=
  isDay cs || isTime cs ||
    (isDay (cs.take 10) &&
      match cs.drop 10 with
      | c :: r => (c == 'T' || c == 't' || c == ' ') && isZonedTime r
      | [] => false)

/-- The value that a word is. -/
def wordValue? (cs : List Char) : Option Datum :=
  if cs == "true".toList then some (.flag true)
  else if cs == "false".toList then some (.flag false)
  else match whole? cs with
    | some n => some (.whole n)
    | none => if isFraction cs || isMoment cs then some .other else none

/-- Whether a character can stand in a word. -/
def isWordChar (c : Char) : Bool :=
  c.isAlphanum || c == '_' || c == '-' || c == '+' || c == '.' || c == ':'

/-- The value of the word in front, and the rest.  The time of day may
stand a space behind its day. -/
def word? (cs : List Char) : Option (Datum × List Char) :=
  let w := cs.takeWhile isWordChar
  let rest := cs.drop w.length
  match isDay w, rest with
  | true, ' ' :: d :: r =>
      if d.isDigit then
        let t := (d :: r).takeWhile isWordChar
        (wordValue? (w ++ ' ' :: t)).map fun v => (v, (d :: r).drop t.length)
      else some (.other, rest)
  | _, _ => (wordValue? w).map fun v => (v, rest)

end Toml

end Configuration

end AndroidLint
