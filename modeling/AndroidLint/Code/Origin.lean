/-
Origin — what a syntax tree says about the text it was read from.

A tree only knows ranges; the text and the path of its file give the words
of a node and its place.
-/
import AndroidLint.Code.SourceFile
import AndroidLint.Syntax.Tree

namespace AndroidLint

namespace Code

/-- A text with the path of its file. -/
structure Origin where
  path : FilePath
  text : List Char

namespace Origin

/-- The text in a range. -/
def excerpt (o : Origin) (s : Syntax.Span) : String :=
  String.ofList ((Text.slice? s.start s.stop o.text).getD [])

/-- The text of a tree. -/
def words (o : Origin) (t : Syntax.Tree) : String :=
  o.excerpt t.span

/-- The text of a tree without blanks, so that a name is one word however
it is broken over lines. -/
def compact (o : Origin) (t : Syntax.Tree) : String :=
  Text.compact (o.words t)

/-- The place of a range. -/
def place (o : Origin) (s : Syntax.Span) : Location :=
  let p := LineColumn.ofOffset o.text s.start
  ⟨o.path, p.line, p.column, s.start, s.stop⟩

/-- The place of a tree. -/
def location (o : Origin) (t : Syntax.Tree) : Location :=
  o.place t.span

end Origin

/-- A text without the groups of three quotes at its start. -/
def dropTripleQuotes : List Char → List Char
  | '"' :: '"' :: '"' :: r => dropTripleQuotes r
  | cs => cs

/-- A string literal without its quotes: groups of three quotes are taken
off the start, then off the end, then single quotes off both. -/
def unquote (literal : String) : String :=
  let inner := (dropTripleQuotes (dropTripleQuotes literal.toList).reverse).reverse
  String.ofList (Text.strip (· == '"') inner)

/-- What a node adds to what is read, and the scope in which each of its
parts is read; a part without a scope is left out. -/
structure Entry (σ : Type) where
  state : σ
  scope? : Syntax.Tree → Option Scope

/-- All parts of a node in one scope. -/
def Entry.within {σ : Type} (state : σ) (scope : Scope) : Entry σ :=
  ⟨state, fun _ => some scope⟩

/-- No part of a node. -/
def Entry.closed {σ : Type} (state : σ) : Entry σ :=
  ⟨state, fun _ => none⟩

section Walk

variable {σ : Type} (enter : Scope → List Syntax.Tree → σ → Syntax.Tree → Entry σ)

mutual

/-- What is read from a tree in a scope, below the trees `above`: first
what the node itself adds, then what its parts add, in order. -/
def walk (scope : Scope) (above : List Syntax.Tree) (state : σ) : Syntax.Tree → σ
  | .word .. => state
  | .node k r s ts =>
      let e := enter scope above state (.node k r s ts)
      walkAll e.scope? (.node k r s ts :: above) e.state ts

/-- What is read from trees in a row. -/
def walkAll (scope? : Syntax.Tree → Option Scope) (above : List Syntax.Tree) (state : σ) :
    List Syntax.Tree → σ
  | [] => state
  | t :: ts =>
      let next := match scope? t with
        | none => state
        | some scope => walk scope above state t
      walkAll scope? above next ts

end

end Walk

end Code

end AndroidLint
