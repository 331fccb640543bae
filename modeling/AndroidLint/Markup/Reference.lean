/-
Reference — values with their entities and character references replaced.

Five entities are predefined.  A character reference gives its code in
decimal or, after an `x`, in hexadecimal digits.  `plain?` is one step:
the character that a reference stands for.
-/
import AndroidLint.Markup.Fault

namespace AndroidLint

namespace Markup

open Text (byteCount)

/-- The character a predefined entity stands for. -/
def entity? : String → Option Char
  | "lt" => some '<'
  | "gt" => some '>'
  | "amp" => some '&'
  | "apos" => some '\''
  | "quot" => some '"'
  | _ => none

/-- The value of a digit below sixteen. -/
def digit? (c : Char) : Option Nat :=
  if '0' ≤ c ∧ c ≤ '9' then some (c.toNat - 48)
  else if 'a' ≤ c ∧ c ≤ 'f' then some (c.toNat - 87)
  else if 'A' ≤ c ∧ c ≤ 'F' then some (c.toNat - 55)
  else none

/-- Reads digits of a base from left to right; the first digit that does
not belong to the base or takes the value to 2^32 is the fault. -/
def number (base : Nat) : Nat → List Char → Except ReferenceFault Nat
  | value, [] => .ok value
  | value, c :: r =>
      match digit? c with
      | none => .error .notADigit
      | some d =>
          if base ≤ d then .error .notADigit
          else if UInt32.size ≤ value * base + d then .error .tooLarge
          else number base (value * base + d) r

/-- The code that the text between `&#` and `;` gives. -/
def code (base : Nat) : List Char → Except ReferenceFault Nat
  | [] => .error .noDigits
  | '+' :: _ => .error .signed
  | '-' :: _ => .error .signed
  | cs => number base 0 cs

/-- The code in the base that its first letter chooses. -/
def writtenCode : List Char → Except ReferenceFault Nat
  | 'x' :: hex => code 16 hex
  | cs => code 10 cs

/-- The character that the text between `&#` and `;` stands for. -/
def character (cs : List Char) : Except ReferenceFault Char := do
  let n ← writtenCode cs
  if n = 0 then .error .zero
  else if n.isValidChar then .ok (Char.ofNat n)
  else .error (.notACharacter n)

/-- What the text between `&` and `;` stands for; `start` is where it
begins. -/
def referenced (start : Nat) : List Char → Except Fault Char
  | '#' :: cs => (character cs).mapError .reference
  | cs =>
      let name := String.ofList cs
      match entity? name with
      | some c => .ok c
      | none => .error (.entityUnknown start (start + byteCount cs) name)

/-- Whether a character can stand between `&` and `;`. -/
def isReferenceInner (c : Char) : Bool :=
  c != '&' && c != ';'

/-- The value whose raw form is given, `total` bytes long from its own
start. -/
def unescapeFrom (total : Nat) : List Char → Except Fault (List Char)
  | [] => .ok []
  | c :: r =>
      if c = '&' then
        let inner := r.takeWhile isReferenceInner
        let start := total - byteCount r
        match r.drop inner.length with
        | ';' :: _ => do
            let c ← referenced start inner
            let cs ← unescapeFrom total (r.drop (inner.length + 1))
            .ok (c :: cs)
        | _ => .error (.entityUnclosed (start - 1) total)
      else do
        let cs ← unescapeFrom total r
        .ok (c :: cs)
termination_by cs => cs.length
decreasing_by all_goals (simp only [List.length_drop, List.length_cons]; omega)

/-- The value whose raw form is given. -/
def unescape (raw : List Char) : Except Fault (List Char) :=
  unescapeFrom (byteCount raw) raw

end Markup

end AndroidLint
