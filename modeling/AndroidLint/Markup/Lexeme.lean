/-
Lexeme — the pieces a resource text is made of.

`scan` looks at the first character and the rest and says what begins
there and how many further characters belong to it, so the pieces of a
text, put together, are the text.  What is skipped by a reader (text,
comments, processing instructions, character data, the document type) is
told apart only as far as its end and its faults need.
-/
import AndroidLint.Markup.Reference

namespace AndroidLint

namespace Markup

open Text (byteCount)

/-- What a piece is.  The content of a tag is what stands between its
brackets, without the slash of an empty or closing tag. -/
inductive Kind where
  | passage
  | start (content : List Char)
  | empty (content : List Char)
  | close (name : List Char)

/-- A piece of a text: what it is, and the text itself. -/
structure Lexeme where
  kind : Kind
  raw : List Char

/-- Why no piece begins, and how many characters were read to see it. -/
structure Stop where
  fault : Fault
  read : Nat

/-- The four blanks that separate the parts of a tag. -/
def isSpace (c : Char) : Bool :=
  c == ' ' || c == '\t' || c == '\n' || c == '\r'

/-- The number of characters before the bracket that closes a tag: the
first that is not inside quotes. -/
def tagLength : Option Char → List Char → Option Nat
  | _, [] => none
  | none, c :: r =>
      if c == '>' then some 0
      else (tagLength (if c == '"' || c == '\'' then some c else none) r).map (· + 1)
  | some q, c :: r => (tagLength (if c == q then none else some q) r).map (· + 1)

/-- The number of characters before the first closing bracket for which
`ends` holds of what stands before it, last character first. -/
def lengthUntil (ends : List Char → Bool) : List Char → List Char → Option Nat
  | _, [] => none
  | before, c :: r =>
      if c == '>' && ends before then some before.length else lengthUntil ends (c :: before) r

/-- A comment ends after two hyphens that are not those it began with. -/
def endsComment (before : List Char) : Bool :=
  4 ≤ before.length && ['-', '-'].isPrefixOf before

/-- Character data ends after two brackets. -/
def endsCharacterData (before : List Char) : Bool :=
  [']', ']'].isPrefixOf before

/-- A document type ends where its brackets balance. -/
def endsDoctype (before : List Char) : Bool :=
  before.count '<' == before.count '>'

/-- A processing instruction ends after a question mark. -/
def endsInstruction (before : List Char) : Bool :=
  ['?'].isPrefixOf before

/-- The name a closing tag gives: blanks at its end do not count. -/
def closingName (content : List Char) : List Char :=
  match (content.reverse.dropWhile isSpace).reverse with
  | [] => content
  | name => name

/-- What a tag with the given content is. -/
def tagKind (content : List Char) : Kind :=
  match content.getLast? with
  | some '/' => .empty content.dropLast
  | _ => .start content

/-- Whether a text begins with a word, capitals and small letters alike. -/
def beginsWith (word : String) (cs : List Char) : Bool :=
  word.toList.isPrefixOf (cs.map Char.toUpper)

/-- A piece that is skipped, `n` characters and the closing bracket long,
provided its opening is `well`; `extra` characters stand before those. -/
def passage (well : Bool) (fault : Fault) (extra : Nat) (rest : List Char) :
    Option Nat → Except Stop (Kind × Nat)
  | none => .error ⟨fault, 1 + extra + rest.length⟩
  | some n => if well then .ok (.passage, extra + n + 1) else .error ⟨fault, 2 + extra + n⟩

/-- What begins with `<!`, by the character after it. -/
def scanDeclaration (r : List Char) : Except Stop (Kind × Nat) :=
  match r with
  | '-' :: _ =>
      passage (['-', '-'].isPrefixOf r) .unclosedComment 1 r (lengthUntil endsComment [] r)
  | '[' :: _ =>
      passage ("[CDATA[".toList.isPrefixOf r) .unclosedCharacterData 1 r
        (lengthUntil endsCharacterData [] r)
  | 'D' :: _ | 'd' :: _ =>
      let length := lengthUntil endsDoctype [] r
      let content := r.take (length.getD 0)
      if length.isSome && beginsWith "DOCTYPE" content && (content.drop 7).all isSpace then
        .error ⟨.namelessDoctype, 3 + length.getD 0⟩
      else passage (beginsWith "DOCTYPE" content) .unclosedDoctype 1 r length
  | _ => .error ⟨.unknownMarkup, 1⟩

/-- What begins with `<`, by the text after it. -/
def scanMarkup (r : List Char) : Except Stop (Kind × Nat) :=
  match r with
  | '!' :: r' => scanDeclaration r'
  | '?' :: _ =>
      let length := lengthUntil endsInstruction [] r
      passage (length != some 1) .unclosedInstruction 0 r length
  | '/' :: r' =>
      match tagLength none r' with
      | none => .error ⟨.unclosedTag, 1 + r.length⟩
      | some n => .ok (.close (closingName (r'.take n)), n + 2)
  | _ =>
      match tagLength none r with
      | none => .error ⟨.unclosedTag, 1 + r.length⟩
      | some n => .ok (tagKind (r.take n), n + 1)

/-- Whether a character can stand inside a reference in running text. -/
def isInReference (c : Char) : Bool :=
  c != ';' && c != '&' && c != '<'

/-- What begins with `&` in running text. -/
def scanReference (r : List Char) : Except Stop (Kind × Nat) :=
  let n := (r.takeWhile isInReference).length
  match r.drop n with
  | ';' :: _ => .ok (.passage, n + 1)
  | _ => .error ⟨.unclosedReference, 1 + n⟩

/-- Whether a character is part of running text. -/
def isText (c : Char) : Bool :=
  c != '<' && c != '&'

/-- What begins with `c`, and how many characters of `r` belong to it. -/
def scan (c : Char) (r : List Char) : Except Stop (Kind × Nat) :=
  if c == '<' then scanMarkup r
  else if c == '&' then scanReference r
  else .ok (.passage, (r.takeWhile isText).length)

/-- The pieces of a text up to its end or to where no piece begins; in
that case also why, and how many bytes from there were read to see it. -/
def lexemes : List Char → List Lexeme × Option Malformed
  | [] => ([], none)
  | c :: r =>
      match scan c r with
      | .error stop => ([], some ⟨byteCount ((c :: r).take stop.read), stop.fault⟩)
      | .ok (kind, n) =>
          let (ls, stop) := lexemes (r.drop n)
          (⟨kind, c :: r.take n⟩ :: ls, stop)
termination_by cs => cs.length
decreasing_by simp only [List.length_drop, List.length_cons]; omega

end Markup

end AndroidLint
