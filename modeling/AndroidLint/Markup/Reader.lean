/-
Reader — from the text of a resource file to its document.

The pieces of the text are taken one after another.  An opening tag adds
an element under the innermost open one, a closing tag must name that
element; whatever stands between tags is passed over.  Elements that are
still open at the end of the text are accepted.

An element's place is the range of its tag.  An attribute's place is found
by looking for its key in the tag, from the end of the key before it, so
it may lie inside an earlier value.  A mark of byte order at the start of
the text is not counted, though places are looked up in the text with it.
-/
import AndroidLint.Markup.Document
import AndroidLint.Markup.Tag

namespace AndroidLint

namespace Markup

open Text (byteCount)

/-- A resource text, and the path it stands at. -/
structure Source where
  path : FilePath
  text : List Char

/-- The range of bytes as a location. -/
def Source.location (s : Source) (start stop : Nat) : Location :=
  let at₀ := LineColumn.ofOffset s.text start
  ⟨s.path, at₀.line, at₀.column, start, stop⟩

/-- The length of `name="value"` at the start of a text, as the bytes up
to the second of its first kind of quote. -/
def writtenLength (rest : List Char) : Nat :=
  let isQuote := fun c : Char => c == '"' || c == '\''
  match rest.dropWhile (!isQuote ·) with
  | [] => 0
  | q :: r =>
      let value := r.takeWhile (· != q)
      if value.length < r.length then
        byteCount (rest.takeWhile (!isQuote ·)) + byteCount value + 2
      else byteCount rest

/-- The byte of the tag at which a key is found, looking from `start`; the
start of the tag if it is not. -/
def keyOffset (markup : List Char) (start : Nat) (key : List Char) : Nat :=
  let rest := (Text.dropBytes? start markup).getD []
  match (Text.find? (key ++ ['=']) rest).orElse fun _ => Text.find? key rest with
  | some found => start + found
  | none => 0

/-- The attributes of a tag that begins at `start`, with their places;
`search` is where in the tag the next key is looked for. -/
def placed (s : Source) (start : Nat) (markup : List Char) :
    Nat → List (String × String) → List Attribute
  | _, [] => []
  | search, (key, value) :: others =>
      let offset := keyOffset markup search key.toList
      let length := writtenLength ((Text.dropBytes? offset markup).getD [])
      ⟨key, value, s.location (start + offset) (start + offset + length)⟩
        :: placed s start markup (offset + key.utf8ByteSize) others

/-- The element that a tag with the given content opens, outside any tree. -/
def Source.element (s : Source) (start stop : Nat) (content : List Char) :
    Except Malformed Element :=
  match attributes content with
  | .error fault => .error ⟨start, fault⟩
  | .ok pairs =>
      let markup := (Text.slice? start stop s.text).getD []
      .ok {
        tag := String.ofList (tagName content)
        attributes := placed s start markup 0 pairs
        parent := none
        children := []
        location := s.location start stop }

/-- What has been read: the bytes, the elements, and those still open with
their tags, innermost first. -/
structure Progress where
  offset : Nat
  document : Document
  opened : List (Nat × List Char)

/-- The progress with the element of a tag added and `raw` passed. -/
def Progress.add (p : Progress) (s : Source) (raw content : List Char) (opens : Bool) :
    Except Malformed Progress := do
  let stop := p.offset + byteCount raw
  let e ← s.element p.offset stop content
  let index := p.document.elements.size
  let document := p.document.push e (p.opened.head?.map (·.1))
  .ok ⟨stop, document, if opens then (index, tagName content) :: p.opened else p.opened⟩

/-- The progress after one more piece. -/
def Progress.next (s : Source) (p : Progress) (l : Lexeme) : Except Malformed Progress :=
  let stop := p.offset + byteCount l.raw
  match l.kind with
  | .passage => .ok { p with offset := stop }
  | .start content => p.add s l.raw content true
  | .empty content => p.add s l.raw content false
  | .close name =>
      match p.opened with
      | [] => .error ⟨stop, .unmatchedEnd (String.ofList name)⟩
      | (_, expected) :: opened =>
          if name = expected then .ok { p with offset := stop, opened := opened }
          else .error ⟨stop, .mismatchedEnd (String.ofList expected) (String.ofList name)⟩

/-- A text without a mark of byte order at its start. -/
def unmarked : List Char → List Char
  | '\uFEFF' :: r => r
  | cs => cs

/-- What has been read of a text when it can be read to its end. -/
def Source.progress (s : Source) : Except Malformed Progress := do
  let (ls, stop?) := lexemes (unmarked s.text)
  let p ← ls.foldlM (Progress.next s) ⟨0, .empty s.path, []⟩
  match stop? with
  | none => .ok p
  | some stop => .error { stop with position := p.offset + stop.position }

/-- The document that a text holds. -/
def read (path : FilePath) (text : String) : Except Malformed Document :=
  (Source.progress ⟨path, text.toList⟩).map (·.document)

end Markup

end AndroidLint
