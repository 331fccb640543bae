/-
Datum — what configuration files are made of.

Three notations for configurations share these values.  One of them writes
words without saying whether they are texts, numbers or truth values; such
a word is kept as it stands, and what it is depends on what is asked for.
-/
import AndroidLint.Json.Value

namespace AndroidLint

namespace Configuration

/-- A value of a configuration file. -/
inductive Datum where
  | null
  | flag (b : Bool)
  | whole (n : Int)
  | text (s : String)
  /-- A word without quotes, in a notation that has no other words. -/
  | plain (s : String)
  | list (items : List Datum)
  | table (members : List (Datum × Datum))
  /-- A fraction, a date, or what else no setting is. -/
  | other
deriving Inhabited

namespace Datum

/-- The value of a digit in a base. -/
def digit? (base : Nat) (c : Char) : Option Nat :=
  let n :=
    if c.isDigit then c.toNat - 48
    else if 'a' ≤ c && c ≤ 'z' then c.toNat - 87
    else if 'A' ≤ c && c ≤ 'Z' then c.toNat - 55
    else base
  if n < base then some n else none

/-- The number that digits in a base are; there has to be one. -/
def number? (base : Nat) (cs : List Char) : Option Nat :=
  if cs.isEmpty then none
  else cs.foldl (fun n? c => n?.bind fun n => (digit? base c).map (base * n + ·)) (some 0)

/-- The number that a plain word is: decimal without zeros in front, or in
base sixteen, eight or two behind a mark, with an optional plus sign. -/
def plainNumber? (word : String) : Option Nat :=
  match (Text.afterStart? word "+").getD word |>.toList with
  | '0' :: 'x' :: r => number? 16 r
  | '0' :: 'o' :: r => number? 8 r
  | '0' :: 'b' :: r => number? 2 r
  | ['0'] => some 0
  | '0' :: _ => none
  | cs => number? 10 cs

/-- Whether a plain word stands for nothing. -/
def isVoid (word : String) : Bool :=
  word.isEmpty || ["null", "Null", "NULL", "~"].contains word

/-- The text that a value is. -/
def text? : Datum → Option String
  | text s | plain s => some s
  | _ => none

/-- The truth value that a value is. -/
def flag? : Datum → Option Bool
  | flag b => some b
  | plain s =>
      if ["true", "True", "TRUE"].contains s then some true
      else if ["false", "False", "FALSE"].contains s then some false
      else none
  | _ => none

/-- The level that a value is: a number from 0 below 2^32. -/
def level? : Datum → Option Nat
  | whole n => if 0 ≤ n && n.toNat < Nat.pow 2 32 then some n.toNat else none
  | plain s => (plainNumber? s).filter (· < Nat.pow 2 32)
  | _ => none

/-- The level that a value is, or that there is none. -/
def optionalLevel? : Datum → Option (Option Nat)
  | null => some none
  | plain s => if isVoid s then some none else (level? (plain s)).map some
  | d => d.level?.map some

/-- The items of a list; an empty plain word is an empty list. -/
def items? : Datum → Option (List Datum)
  | list ds => some ds
  | plain "" => some []
  | _ => none

/-- The texts that a list holds. -/
def texts? (d : Datum) : Option (List String) :=
  d.items?.bind fun ds => ds.mapM text?

/-- The members of a table with their names; an empty plain word is an
empty table. -/
def members? : Datum → Option (List (String × Datum))
  | table ms => ms.mapM fun (k, v) => k.text?.map fun name => (name, v)
  | plain "" => some []
  | _ => none

/-- A JSON number as a value. -/
def ofNumber (written : String) : Datum :=
  match written.toList with
  | '-' :: r =>
      match number? 10 r with
      | some 0 | none => .other
      | some n => .whole (-n)
  | cs =>
      match number? 10 cs with
      | none => .other
      | some n => .whole n

mutual

/-- A JSON value as a value of a configuration file. -/
def ofJson : Json.Value → Datum
  | .null => .null
  | .bool b => .flag b
  | .number n => ofNumber n
  | .string s => .text s
  | .array vs => .list (ofItems vs)
  | .object ms => .table (ofMembers ms)

/-- JSON values in a row. -/
def ofItems : List Json.Value → List Datum
  | [] => []
  | v :: vs => ofJson v :: ofItems vs

/-- The members of a JSON object. -/
def ofMembers : List (String × Json.Value) → List (Datum × Datum)
  | [] => []
  | (k, v) :: ms => (.text k, ofJson v) :: ofMembers ms

end

end Datum

end Configuration

end AndroidLint
