/-
Reader — configurations in YAML.

Lists and tables are told by indentation or by brackets.  A table by
indentation begins at its first key, and all its keys stand in one column;
the dashes of a list do too, and those of a list that is the value of a
key may stand right below the key.  A value may be given a name, and the
name stands for it from there on.  A text holds one document.
-/
import AndroidLint.Configuration.Yaml.Scalar

namespace AndroidLint

namespace Configuration

namespace Yaml

/-- What stands where nothing is written. -/
def nothing : Datum := .plain ""

/-- Whether a key that began in a line has its colon here. -/
def isAfterKey (inFlow : Bool) (line : Nat) (c : Cursor) : Bool :=
  c.line == line && (if inFlow then c.rest.head? == some ':' else c.isAt ':')

/-- Whether what is within brackets goes on with another item, or ends. -/
def isPart (close : Char) (c : Cursor) : Bool :=
  c.rest.head? == some ',' || c.rest.head? == some close

mutual

/-- A text, or what stands within brackets, and the place behind it. -/
def inline? (inFlow : Bool) (least : Nat) : Nat → Cursor → Option (Datum × Cursor)
  | 0, _ => none
  | fuel + 1, c =>
      match c.rest with
      | '*' :: _ => c.meant?
      | '&' :: _ => do
          let (name, c') ← c.name?
          let content := c'.settle inFlow
          let found? :=
            if (inFlow || content.line == c.line) && !content.isName then
              inline? inFlow least fuel content
            else none
          return Cursor.naming name (found?.getD (nothing, c'))
      | '"' :: _ => (quoted? c).map fun (s, c) => (.text (String.ofList s), c)
      | '\'' :: _ => (quoted? c).map fun (s, c) => (.text (String.ofList s), c)
      | '[' :: _ => (flowItems? least fuel ((c.advance 1).settle true)).map fun (ds, c) =>
          (.list ds, c)
      | '\x7b' :: _ => (flowMembers? least fuel ((c.advance 1).settle true)).map fun (ms, c) =>
          (.table ms, c)
      | cs =>
          if beginsPlain inFlow cs then
            (plain? inFlow least (cs.length + 1) c).map fun (s, c) =>
              (.plain (String.ofList s), c)
          else none

/-- The value of a key within brackets that end with `close`. -/
def flowValue? (close : Char) (least : Nat) : Nat → Cursor → Option (Datum × Cursor)
  | 0, _ => none
  | fuel + 1, c =>
      if isPart close c then some (nothing, c)
      else (inline? true least fuel c).map fun (d, c) => (d, c.settle true)

/-- The items of a list within brackets; a pair there is a table. -/
def flowItems? (least : Nat) : Nat → Cursor → Option (List Datum × Cursor)
  | 0, _ => none
  | fuel + 1, c =>
      if c.isAtEnd then none
      else if c.rest.head? == some ']' then some ([], c.advance 1)
      else do
        let (d, c') ← inline? true least fuel c
        let c' := c'.settle true
        let (d, c') ←
          if isAfterKey true c.line c' then do
            let (v, c') ← flowValue? ']' least fuel ((c'.advance 1).settle true)
            pure (Datum.table [(d, v)], c')
          else pure (d, c')
        if c'.rest.head? == some ',' then do
          let (ds, c') ← flowItems? least fuel ((c'.advance 1).settle true)
          return (d :: ds, c')
        else if c'.rest.head? == some ']' then return ([d], c'.advance 1)
        else none

/-- The members of a table within braces. -/
def flowMembers? (least : Nat) : Nat → Cursor → Option (List (Datum × Datum) × Cursor)
  | 0, _ => none
  | fuel + 1, c =>
      if c.isAtEnd then none
      else if c.rest.head? == some '\x7d' then some ([], c.advance 1)
      else do
        let (k, c') ← inline? true least fuel c
        let c' := c'.settle true
        let (v, c') ←
          if isAfterKey true c.line c' then
            flowValue? '\x7d' least fuel ((c'.advance 1).settle true)
          else pure (nothing, c')
        if c'.rest.head? == some ',' then do
          let (ms, c') ← flowMembers? least fuel ((c'.advance 1).settle true)
          return ((k, v) :: ms, c')
        else if c'.rest.head? == some '\x7d' then return ([(k, v)], c'.advance 1)
        else none

end

mutual

/-- What stands at a place, indented by `least` columns at least, and the
place behind it; the dashes of a list may be allowed one column less. -/
def node? : Nat → (isBelowKey : Bool) → (least : Nat) → Cursor → Option (Datum × Cursor)
  | 0, _, _, _ => none
  | fuel + 1, isBelowKey, least, c =>
      if c.isAtEnd then some (nothing, c)
      else if c.mayBeKey && c.column < least
          && !(isBelowKey && c.column + 1 == least && c.isAt '-') then
        some (nothing, c)
      else if c.isAt '-' then
        if c.mayBeKey then (items? fuel c.column c).map fun (ds, c) => (.list ds, c) else none
      else if c.beginsLines then
        (block? least c).map fun (s, c) => (.text (String.ofList s), c)
      else if let some (name, c') := c.nameApart? then
        (node? fuel isBelowKey least c').map (Cursor.naming name)
      else do
        let (d, c') ← inline? false least (c.rest.length + 1) c
        let c' := c'.settle false
        if c'.isAt ':' && !c'.isAtEnd then
          if c.mayBeKey && c.line == c'.line then do
            let (ms, c') ← members? fuel c.column d (c'.advance 1)
            return (.table ms, c')
          else none
        else return (d, c')

/-- The items of a list whose dashes stand in a column. -/
def items? : Nat → (column : Nat) → Cursor → Option (List Datum × Cursor)
  | 0, _, _ => none
  | fuel + 1, column, c =>
      if c.isAt '-' && c.mayBeKey && c.column == column && !c.isAtEnd then do
        let c := { c.advance 1 with mayBeKey := true }
        let (d, c) ← node? fuel false (column + 1) (c.settle false)
        let (ds, c) ← items? fuel column (c.settle false)
        return (d :: ds, c)
      else some ([], c)

/-- The members of a table whose keys stand in a column, from behind the
colon of a key. -/
def members? : Nat → (column : Nat) → (key : Datum) → Cursor →
    Option (List (Datum × Datum) × Cursor)
  | 0, _, _, _ => none
  | fuel + 1, column, key, c => do
      let (d, c) ← node? fuel true (column + 1) (c.settle false)
      let c := c.settle false
      if c.isAtEnd || (c.mayBeKey && c.column < column) then return ([(key, d)], c)
      else if c.mayBeKey && c.column == column then do
        let (k, c') ← inline? false (column + 1) (c.rest.length + 1) c
        let c' := c'.settle false
        if isAfterKey false c.line c' then do
          let (ms, c') ← members? fuel column k (c'.advance 1)
          return ((key, d) :: ms, c')
        else none
      else none

end

/-- Whether nothing but marks of ends follows. -/
def isOver : Nat → Cursor → Bool
  | 0, _ => false
  | fuel + 1, c =>
      let c := c.settle false
      c.rest.isEmpty || (c.isAtMark "..." && isOver fuel (c.advance 3))

/-- The only document of a text. -/
def document? (cs : List Char) : Option Datum := do
  let c := Cursor.settle false ⟨cs, 0, 0, true, []⟩
  let c := if c.isAtMark "---" then (c.advance 3).settle false else c
  let (d, c) ← node? (cs.length + 1) false 0 c
  if isOver (cs.length + 1) c then return d else none

/-- Whether a character may stand in a text. -/
def isAllowed (c : Char) : Bool :=
  let n := c.toNat
  n == 9 || n == 10 || n == 13 || (0x20 ≤ n && n ≤ 0x7E) || n == 0x85
    || (0xA0 ≤ n && n ≤ 0xFFFD && n != 0xFEFF) || 0x10000 ≤ n

/-- A text with all its line breaks written in one way. -/
def withPlainBreaks : List Char → List Char
  | [] => []
  | '\r' :: '\n' :: r => '\n' :: withPlainBreaks r
  | c :: r => (if c == '\r' || c == '\u0085' then '\n' else c) :: withPlainBreaks r

/-- The configuration that a text is; a byte order mark in front does not
count. -/
def parse? (text : String) : Option Datum :=
  let cs := ((Text.afterStart? text "\uFEFF").getD text).toList
  if cs.all isAllowed then document? (withPlainBreaks cs) else none

end Yaml

end Configuration

end AndroidLint
