/-
Value — JSON values and their written form.

A number is kept as it is written, so no precision is ever at stake.  The
written form is the indented one: two spaces a level, one item or member a
line, nothing between the brackets of an empty array or object.
-/
import AndroidLint.Text

namespace AndroidLint

namespace Json

/-- A JSON value; the members of an object keep their order. -/
inductive Value where
  | null
  | bool (b : Bool)
  | number (written : String)
  | string (s : String)
  | array (items : List Value)
  | object (members : List (String × Value))
deriving Inhabited

/-- A natural number as a value. -/
def Value.nat (n : Nat) : Value :=
  .number (toString n)

/-- A digit of base sixteen, letters small. -/
def hexDigit (n : Nat) : Char :=
  if n < 10 then Char.ofNat (48 + n) else Char.ofNat (87 + n)

/-- A character inside a string: quotes and backslashes are escaped, and
what comes before the space. -/
def escaped (c : Char) : List Char :=
  if c = '"' then ['\\', '"']
  else if c = '\\' then ['\\', '\\']
  else if c = '\n' then ['\\', 'n']
  else if c = '\r' then ['\\', 'r']
  else if c = '\t' then ['\\', 't']
  else if c.toNat = 8 then ['\\', 'b']
  else if c.toNat = 12 then ['\\', 'f']
  else if c.toNat < 32 then ['\\', 'u', '0', '0', hexDigit (c.toNat / 16), hexDigit (c.toNat % 16)]
  else [c]

/-- A string in quotes. -/
def quoted (s : String) : List Char :=
  '"' :: (s.toList.flatMap escaped ++ ['"'])

/-- A line break and the indentation of a level. -/
def newline (level : Nat) : List Char :=
  '\n' :: List.replicate (2 * level) ' '

mutual

/-- The written form of a value at a level. -/
def written (level : Nat) : Value → List Char
  | .null => "null".toList
  | .bool true => "true".toList
  | .bool false => "false".toList
  | .number n => n.toList
  | .string s => quoted s
  | .array [] => ['[', ']']
  | .array (v :: vs) =>
      '[' :: (newline (level + 1) ++ written (level + 1) v
        ++ writtenItems (level + 1) vs ++ newline level ++ [']'])
  | .object [] => ['\x7b', '\x7d']
  | .object ((k, v) :: ms) =>
      '\x7b' :: (newline (level + 1) ++ quoted k ++ [':', ' '] ++ written (level + 1) v
        ++ writtenMembers (level + 1) ms ++ newline level ++ ['\x7d'])

/-- The written form of the items after the first. -/
def writtenItems (level : Nat) : List Value → List Char
  | [] => []
  | v :: vs => ',' :: (newline level ++ written level v ++ writtenItems level vs)

/-- The written form of the members after the first. -/
def writtenMembers (level : Nat) : List (String × Value) → List Char
  | [] => []
  | (k, v) :: ms =>
      ',' :: (newline level ++ quoted k ++ [':', ' '] ++ written level v ++ writtenMembers level ms)

end

/-- The indented text of a value. -/
def pretty (v : Value) : String :=
  String.ofList (written 0 v)

end Json

end AndroidLint
