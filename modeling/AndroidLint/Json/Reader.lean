/-
Reader — JSON values from their text.

Every value of a text is read to its end before the next begins, and
nothing may follow the last one but blanks.  Each step takes at least one
character, so a text of `n` characters is read in `n` steps.
-/
import AndroidLint.Json.Value

namespace AndroidLint

namespace Json

/-- A text without the blanks in front. -/
def skip (cs : List Char) : List Char :=
  cs.dropWhile fun c => c == ' ' || c == '\n' || c == '\t' || c == '\r'

/-- The value of a digit of base sixteen. -/
def hexValue? (c : Char) : Option Nat :=
  if c.isDigit then some (c.toNat - 48)
  else if 'a' ≤ c && c ≤ 'f' then some (c.toNat - 87)
  else if 'A' ≤ c && c ≤ 'F' then some (c.toNat - 55)
  else none

/-- The number that four digits of base sixteen are, and the rest. -/
def hex4? : List Char → Option (Nat × List Char)
  | a :: b :: c :: d :: r => do
      let a ← hexValue? a
      let b ← hexValue? b
      let c ← hexValue? c
      let d ← hexValue? d
      return (4096 * a + 256 * b + 16 * c + d, r)
  | _ => none

/-- The character behind a backslash and a `u`, and the rest: two halves
make one character beyond the first plane, and a half alone is none. -/
def escapedChar? (cs : List Char) : Option (Char × List Char) := do
  let (n, r) ← hex4? cs
  if n < 0xD800 || 0xE000 ≤ n then return (Char.ofNat n, r)
  else if 0xDC00 ≤ n then none
  else match r with
    | '\\' :: 'u' :: r => do
        let (m, r) ← hex4? r
        if 0xDC00 ≤ m && m < 0xE000 then
          return (Char.ofNat (0x10000 + 1024 * (n - 0xD800) + (m - 0xDC00)), r)
        else none
    | _ => none

/-- The character that a letter behind a backslash stands for. -/
def escape? (c : Char) : Option Char :=
  match c with
  | '"' => some '"'
  | '\\' => some '\\'
  | '/' => some '/'
  | 'b' => some '\x08'
  | 'f' => some '\x0c'
  | 'n' => some '\n'
  | 'r' => some '\r'
  | 't' => some '\t'
  | _ => none

/-- A string from behind its first quote, and the rest. -/
def stringRest? : Nat → List Char → Option (List Char × List Char)
  | 0, _ => none
  | _ + 1, [] => none
  | _ + 1, '"' :: r => some ([], r)
  | fuel + 1, '\\' :: 'u' :: r => do
      let (c, r) ← escapedChar? r
      let (s, r) ← stringRest? fuel r
      return (c :: s, r)
  | fuel + 1, '\\' :: c :: r => do
      let c ← escape? c
      let (s, r) ← stringRest? fuel r
      return (c :: s, r)
  | fuel + 1, c :: r =>
      if c.toNat < 32 then none
      else do
        let (s, r) ← stringRest? fuel r
        return (c :: s, r)

/-- The digits in front, at least one, and the rest. -/
def digits? (cs : List Char) : Option (List Char × List Char) :=
  match cs.takeWhile Char.isDigit with
  | [] => none
  | ds => some (ds, cs.dropWhile Char.isDigit)

/-- The fraction of a number, if there is one. -/
def fraction? : List Char → Option (List Char × List Char)
  | '.' :: r => (digits? r).map fun (ds, r) => ('.' :: ds, r)
  | cs => some ([], cs)

/-- The exponent of a number, if there is one. -/
def exponent? : List Char → Option (List Char × List Char)
  | e :: r =>
      if e == 'e' || e == 'E' then
        match r with
        | s :: r' =>
            if s == '+' || s == '-' then (digits? r').map fun (ds, r) => (e :: s :: ds, r)
            else (digits? r).map fun (ds, r) => (e :: ds, r)
        | [] => none
      else some ([], e :: r)
  | [] => some ([], [])

/-- A number without a sign, as written; a zero in front stands alone. -/
def unsigned? (cs : List Char) : Option (List Char × List Char) := do
  let (ds, r) ← digits? cs
  if 1 < ds.length && ds.head? == some '0' then none
  else do
    let (f, r) ← fraction? r
    let (e, r) ← exponent? r
    return (ds ++ f ++ e, r)

/-- A number as written. -/
def number? : List Char → Option (List Char × List Char)
  | '-' :: r => (unsigned? r).map fun (n, r) => ('-' :: n, r)
  | cs => unsigned? cs

/-- What is left behind a word. -/
def afterWord? (word : String) (cs : List Char) : Option (List Char) :=
  if word.toList.isPrefixOf cs then some (cs.drop word.length) else none

mutual

/-- The value in front, and the rest. -/
def value? : Nat → List Char → Option (Value × List Char)
  | 0, _ => none
  | fuel + 1, cs =>
      match skip cs with
      | [] => none
      | '"' :: r => (stringRest? fuel r).map fun (s, r) => (.string (String.ofList s), r)
      | '[' :: r =>
          match skip r with
          | ']' :: r => some (.array [], r)
          | r => (items? fuel r).map fun (vs, r) => (.array vs, r)
      | '\x7b' :: r =>
          match skip r with
          | '\x7d' :: r => some (.object [], r)
          | r => (members? fuel r).map fun (ms, r) => (.object ms, r)
      | 'n' :: r => (afterWord? "ull" r).map fun r => (.null, r)
      | 't' :: r => (afterWord? "rue" r).map fun r => (.bool true, r)
      | 'f' :: r => (afterWord? "alse" r).map fun r => (.bool false, r)
      | cs => (number? cs).map fun (n, r) => (.number (String.ofList n), r)

/-- The items of an array up to its end. -/
def items? : Nat → List Char → Option (List Value × List Char)
  | 0, _ => none
  | fuel + 1, cs => do
      let (v, r) ← value? fuel cs
      match skip r with
      | ',' :: r => do
          let (vs, r) ← items? fuel r
          return (v :: vs, r)
      | ']' :: r => return ([v], r)
      | _ => none

/-- The members of an object up to its end. -/
def members? : Nat → List Char → Option (List (String × Value) × List Char)
  | 0, _ => none
  | fuel + 1, cs =>
      match skip cs with
      | '"' :: r => do
          let (k, r) ← stringRest? fuel r
          match skip r with
          | ':' :: r => do
              let (v, r) ← value? fuel r
              match skip r with
              | ',' :: r => do
                  let (ms, r) ← members? fuel r
                  return ((String.ofList k, v) :: ms, r)
              | '\x7d' :: r => return ([(String.ofList k, v)], r)
              | _ => none
          | _ => none
      | _ => none

end

/-- The value that a text is. -/
def parse? (text : String) : Option Value :=
  match value? (text.length + 1) text.toList with
  | some (v, r) => if (skip r).isEmpty then some v else none
  | none => none

end Json

end AndroidLint
