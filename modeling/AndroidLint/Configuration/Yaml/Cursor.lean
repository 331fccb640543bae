/-
Cursor — a place in a YAML text.

Where something stands in its line decides what it belongs to, so a place
knows its column and its line.  It also knows whether a key may begin
there: at the start of a line and behind a dash it may, behind a key in
the same line it may not.  Where a key may begin, a tab is no blank.  What
has been given a name so far comes along, for it may be meant again.
-/
import AndroidLint.Configuration.Datum

namespace AndroidLint

namespace Configuration

namespace Yaml

/-- A place in a text. -/
structure Cursor where
  rest : List Char
  column : Nat
  line : Nat
  mayBeKey : Bool
  /-- What names stand for, the last given first. -/
  named : List (String × Datum)

/-- Whether what follows is a blank, a line break or nothing. -/
def endsWord : List Char → Bool
  | [] => true
  | c :: _ => c == ' ' || c == '\t' || c == '\n'

namespace Cursor

/-- The place `n` characters further in the same line. -/
def advance (n : Nat) (c : Cursor) : Cursor :=
  { c with rest := c.rest.drop n, column := c.column + n, mayBeKey := false }

/-- Whether a mark with blanks behind it stands here at the start of a
line. -/
def isAtMark (mark : String) (c : Cursor) : Bool :=
  c.column == 0 && mark.toList.isPrefixOf c.rest && endsWord (c.rest.drop mark.length)

/-- Whether the document ends here. -/
def isAtEnd (c : Cursor) : Bool :=
  c.rest.isEmpty || c.isAtMark "---" || c.isAtMark "..."

/-- Whether an indicator with a blank behind it stands here. -/
def isAt (indicator : Char) (c : Cursor) : Bool :=
  match c.rest with
  | d :: r => d == indicator && endsWord r
  | [] => false

/-- The next place behind blanks, line breaks and comments, where `rest` is
what follows.  Within brackets a new line does not let a key begin. -/
def settleFrom (inFlow : Bool) : (inComment : Bool) → Cursor → List Char → Cursor
  | _, p, [] => { p with rest := [] }
  | inComment, p, c :: r =>
      let further := { p with column := p.column + 1 }
      if c == '\n' then
        settleFrom inFlow false
          { p with column := 0, line := p.line + 1, mayBeKey := !inFlow || p.mayBeKey } r
      else if inComment then settleFrom inFlow true further r
      else if c == ' ' || (c == '\t' && (inFlow || !p.mayBeKey)) then
        settleFrom inFlow false further r
      else if c == '#' then settleFrom inFlow true further r
      else { p with rest := c :: r }

/-- The next place behind blanks, line breaks and comments. -/
def settle (inFlow : Bool) (c : Cursor) : Cursor :=
  settleFrom inFlow false c c.rest

/-- Whether a character may stand in a name for a value. -/
def isNamePart (c : Char) : Bool :=
  c.isAlphanum || c == '_' || c == '-'

/-- The name behind the mark here, and the place behind the name. -/
def name? (c : Cursor) : Option (String × Cursor) :=
  let name := (c.rest.drop 1).takeWhile isNamePart
  let c := c.advance (name.length + 1)
  let closing := ['?', ':', ',', ']', '\x7d', '%', '@', '\x60']
  if name.isEmpty || !(endsWord c.rest || c.rest.head?.any closing.contains) then none
  else some (String.ofList name, c)

/-- The value that the name here stands for, and the place behind it. -/
def meant? (c : Cursor) : Option (Datum × Cursor) := do
  let (name, c) ← c.name?
  let d ← c.named.lookup name
  return (d, c)

/-- A value with the place behind it, where the value has the name that is
given. -/
def naming (name : String) (found : Datum × Cursor) : Datum × Cursor :=
  (found.1, { found.2 with named := (name, found.1) :: found.2.named })

/-- Whether a name is given or meant here. -/
def isName (c : Cursor) : Bool :=
  c.rest.head? == some '&' || c.rest.head? == some '*'

/-- Whether a text in lines of its own begins here. -/
def beginsLines (c : Cursor) : Bool :=
  c.rest.head? == some '|' || c.rest.head? == some '>'

/-- The name here and the place of what it is given to, if that is in
lines of its own. -/
def nameApart? (c : Cursor) : Option (String × Cursor) :=
  if c.rest.head? != some '&' then none
  else do
    let (name, c') ← c.name?
    let content := c'.settle false
    if content.rest.isEmpty || content.line != c.line || content.beginsLines then
      return (name, content)
    else none

end Cursor

/-- Blanks and line breaks within a text: the blanks before the first
break, the number of breaks, whether a tab stands too far left behind a
break, and what comes after. -/
structure Gap where
  blanks : List Char
  breaks : Nat
  hasEarlyTab : Bool
  after : Cursor

namespace Gap

/-- The gap before the next character that is no blank; tabs left of the
column `least` are too far left. -/
def read (least : Nat) : Gap → List Char → Gap
  | g, [] => { g with after := { g.after with rest := [] } }
  | g, c :: r =>
      let a := g.after
      if c == '\n' then
        read least
          { g with
            breaks := g.breaks + 1
            after := { a with rest := r, column := 0, line := a.line + 1, mayBeKey := true } } r
      else if c == ' ' || c == '\t' then
        read least
          ⟨if g.breaks == 0 then g.blanks ++ [c] else g.blanks, g.breaks,
            g.hasEarlyTab || (c == '\t' && g.breaks != 0 && a.column < least),
            { a with rest := r, column := a.column + 1 }⟩ r
      else { g with after := { a with rest := c :: r } }

/-- The gap at a place. -/
def here (least : Nat) (c : Cursor) : Gap :=
  read least ⟨[], 0, false, { c with mayBeKey := false }⟩ c.rest

/-- What a gap within a text amounts to: blanks in a line stay, one break
is a space, and more are one break less. -/
def folded (g : Gap) : List Char :=
  match g.breaks with
  | 0 => g.blanks
  | 1 => [' ']
  | n + 2 => List.replicate (n + 1) '\n'

end Gap

end Yaml

end Configuration

end AndroidLint
