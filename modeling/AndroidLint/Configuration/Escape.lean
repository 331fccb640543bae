/-
Escape — characters written by their number.

Both notations that are read here let a character be given as two, four
or eight digits of base sixteen.  A number that no character has is
refused.
-/
import AndroidLint.Configuration.Datum

namespace AndroidLint

namespace Configuration

/-- The character with a number, if there is one. -/
def charOf? (n : Nat) : Option Char :=
  if n < 0xD800 || (0xE000 ≤ n && n < 0x110000) then some (Char.ofNat n) else none

/-- The character whose number is given by the first `count` digits, and
the rest. -/
def numbered? (count : Nat) (cs : List Char) : Option (Char × List Char) :=
  if cs.length < count then none
  else ((Datum.number? 16 (cs.take count)).bind charOf?).map fun c => (c, cs.drop count)

/-- How many digits follow the letter that announces a number. -/
def digitsAfter? : Char → Option Nat
  | 'x' => some 2
  | 'u' => some 4
  | 'U' => some 8
  | _ => none

end Configuration

end AndroidLint
