/-
Tag — the name and the attributes written in a tag.

An attribute is a key, an equals sign and a quoted value, with blanks
anywhere between them.  A key is whatever stands before the sign or a
blank; no key is given twice.  Positions in faults count bytes from the
start of the tag's content.
-/
import AndroidLint.Markup.Lexeme

namespace AndroidLint

namespace Markup

open Text (byteCount)

/-- A key with its value as written, and the rest of the tag. -/
structure RawAttribute where
  key : List Char
  raw : List Char
  rest : List Char

/-- Whether a character is part of a key after its first character. -/
def isKeyPart (c : Char) : Bool :=
  c != '=' && !isSpace c

/-- The byte of a content of `total` bytes at which a rest of it begins. -/
def offsetOf (total : Nat) (rest : List Char) : Nat :=
  total - byteCount rest

/-- The quoted value that `cs` begins with after blanks. -/
def quotedValue (total : Nat) (key cs : List Char) : Except Fault RawAttribute :=
  match cs.dropWhile isSpace with
  | [] => .error (.valueMissing total)
  | q :: r =>
      if q = '"' ∨ q = '\'' then
        let raw := r.takeWhile (· != q)
        if raw.length < r.length then .ok ⟨key, raw, r.drop (raw.length + 1)⟩
        else .error (.quoteMissing total q)
      else .error (.valueUnquoted (offsetOf total (q :: r)))

/-- A key must not have been given before; `seen` holds the keys so far and
where they begin. -/
def unrepeated (seen : List (List Char × Nat)) (key : List Char) (position : Nat) :
    Except Fault Unit :=
  match seen.find? (·.1 == key) with
  | some (_, previous) => .error (.keyRepeated position previous)
  | none => .ok ()

/-- The attribute whose key begins with `c`. -/
def attributeFrom (total : Nat) (seen : List (List Char × Nat)) (c : Char) (r : List Char) :
    Except Fault RawAttribute := do
  let key := c :: r.takeWhile isKeyPart
  match (r.dropWhile isKeyPart).dropWhile isSpace with
  | '=' :: r' =>
      unrepeated seen key (offsetOf total (c :: r))
      quotedValue total key r'
  | rest => .error (.keyAlone (offsetOf total rest))

/-- The attributes in the rest of a tag's content of `total` bytes, as keys
with the values their raw forms stand for. -/
def attributesFrom (total : Nat) (seen : List (List Char × Nat)) (cs : List Char) :
    Except Fault (List (String × String)) :=
  match cs.dropWhile isSpace with
  | [] => .ok []
  | c :: r => do
      let a ← attributeFrom total seen c r
      let value ← unescape a.raw
      let others ←
        if a.rest.length < cs.length then
          attributesFrom total (seen ++ [(a.key, offsetOf total (c :: r))]) a.rest
        else .ok []
      .ok ((String.ofList a.key, String.ofList value) :: others)
termination_by cs.length

/-- The name that begins a tag's content. -/
def tagName (content : List Char) : List Char :=
  content.takeWhile (!isSpace ·)

/-- The attributes of a tag with the given content. -/
def attributes (content : List Char) : Except Fault (List (String × String)) :=
  attributesFrom (byteCount content) [] (content.drop (tagName content).length)

end Markup

end AndroidLint
