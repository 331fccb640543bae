/-
Reader — configurations in TOML.

A text is a row of lines: headers of tables, headers of tables in a row,
and keys with values, each with a comment behind it or none.  A value may
run over several lines.  What a header opens is where the keys below it
go; a key with dots leads through tables of its own.
-/
import AndroidLint.Configuration.Section
import AndroidLint.Configuration.Toml.Quoted
import AndroidLint.Configuration.Toml.Word

namespace AndroidLint

namespace Configuration

namespace Toml

/-- A text without the spaces and tabs in front. -/
def skip (cs : List Char) : List Char :=
  cs.dropWhile fun c => c == ' ' || c == '\t'

/-- A text without the blanks, line breaks and comments in front. -/
def gap : (inComment : Bool) → List Char → List Char
  | _, [] => []
  | inComment, c :: r =>
      if c == '\n' then gap false r
      else if c == '\r' then if r.head? == some '\n' then gap inComment r else c :: r
      else if inComment then if isInLine c then gap true r else c :: r
      else if c == ' ' || c == '\t' then gap false r
      else if c == '#' then gap true r
      else c :: r

/-- What is left behind the end of a line, where only blanks and a comment
may stand before it. -/
def afterLine? (cs : List Char) : Option (List Char) :=
  let rest := match skip cs with
    | '#' :: r => r.dropWhile isInLine
    | r => r
  match rest with
  | [] => some []
  | r => afterBreak? r

/-- A part of a key: a word, or a text between quotes. -/
def keyPart? (cs : List Char) : Option (String × List Char) :=
  let isKeyChar (c : Char) : Bool := c.isAlphanum || c == '_' || c == '-'
  match cs.takeWhile isKeyChar with
  | [] => quoted? cs
  | w => some (String.ofList w, cs.dropWhile isKeyChar)

/-- A key: parts with dots between them, and the rest. -/
def key? : Nat → List Char → Option (List String × List Char)
  | 0, _ => none
  | fuel + 1, cs => do
      let (part, r) ← keyPart? (skip cs)
      match skip r with
      | '.' :: r => (key? fuel r).map fun (parts, r) => (part :: parts, r)
      | r => return ([part], r)

/-- The way that a key leads and the name at its end. -/
def wayAndName? (parts : List String) : Option (List String × String) :=
  parts.getLast?.map fun name => (parts.dropLast, name)

mutual

/-- The value in front, and the rest. -/
def value? : Nat → List Char → Option (Datum × List Char)
  | 0, _ => none
  | fuel + 1, cs =>
      match cs with
      | '[' :: r => (items? fuel (gap false r)).map fun (ds, r) => (.list ds, r)
      | '\x7b' :: r => (pairs? fuel [] (gap false r)).map fun (s, r) =>
          (.table (membersToData s), r)
      | '"' :: _ => (text? cs).map fun (s, r) => (.text s, r)
      | '\'' :: _ => (text? cs).map fun (s, r) => (.text s, r)
      | _ => word? cs

/-- The items of a list up to its end. -/
def items? : Nat → List Char → Option (List Datum × List Char)
  | 0, _ => none
  | _ + 1, ']' :: r => some ([], r)
  | fuel + 1, cs => do
      let (d, r) ← value? fuel cs
      match gap false r with
      | ',' :: r => (items? fuel (gap false r)).map fun (ds, r) => (d :: ds, r)
      | ']' :: r => return ([d], r)
      | _ => none

/-- What a table within braces defines up to its end, beyond what it
defined before. -/
def pairs? : Nat → Section → List Char → Option (Section × List Char)
  | 0, _, _ => none
  | _ + 1, s, '\x7d' :: r => some (s, r)
  | fuel + 1, s, cs => do
      let (s, r) ← pair? fuel [] s cs
      match gap false r with
      | ',' :: r => pairs? fuel s (gap false r)
      | '\x7d' :: r => return (s, r)
      | _ => none

/-- What a key with its value adds to the table that the last header
opened, and the rest. -/
def pair? : Nat → List String → Section → List Char → Option (Section × List Char)
  | 0, _, _, _ => none
  | fuel + 1, current, s, cs => do
      let (parts, r) ← key? (cs.length + 1) cs
      let (way, name) ← wayAndName? parts
      match r with
      | '=' :: r => do
          let (d, r) ← value? fuel (skip r)
          let s ← s.defineBelow? current way name d
          return (s, r)
      | _ => none

end

/-- The header that begins behind its bracket, and the rest. -/
def header? (inRow : Bool) (cs : List Char) : Option (List String × List Char) := do
  let (parts, r) ← key? (cs.length + 1) cs
  match inRow, r with
  | false, ']' :: r => return (parts, r)
  | true, ']' :: ']' :: r => return (parts, r)
  | _, _ => none

/-- What the lines of a text define. -/
def lines? : Nat → List String → Section → List Char → Option Section
  | 0, _, _, _ => none
  | fuel + 1, current, s, cs =>
      match gap false cs with
      | [] => some s
      | '[' :: r => do
          let inRow := r.head? == some '['
          let (parts, r) ← header? inRow (if inRow then r.drop 1 else r)
          let (way, name) ← wayAndName? parts
          let s ← s.head? inRow way name
          let r ← afterLine? r
          lines? fuel parts s r
      | cs => do
          let (s, r) ← pair? (cs.length + 1) current s cs
          let r ← afterLine? r
          lines? fuel current s r

/-- The configuration that a text is; a byte order mark in front does not
count. -/
def parse? (text : String) : Option Datum :=
  let cs := ((Text.afterStart? text "\uFEFF").getD text).toList
  (lines? (cs.length + 1) [] [] cs).map fun s => .table (membersToData s)

end Toml

end Configuration

end AndroidLint
