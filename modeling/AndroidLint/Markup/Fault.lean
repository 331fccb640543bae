/-
Fault — why a text is not a resource file.

A fault is a cause; its wording stands in one place, `Fault.message`.
Positions are bytes: those of an attribute count from the start of the
tag's content, those of a reference from the start of the value.
-/
import AndroidLint.FilePath

namespace AndroidLint

namespace Markup

/-- Why a character reference names no character. -/
inductive ReferenceFault where
  | signed
  | noDigits
  | notADigit
  | tooLarge
  | zero
  | notACharacter (code : Nat)

/-- Why a text is not a resource file. -/
inductive Fault where
  | unclosedTag
  | unclosedComment
  | unclosedCharacterData
  | unclosedDoctype
  | unclosedInstruction
  | unknownMarkup
  | namelessDoctype
  | unclosedReference
  | unmatchedEnd (found : String)
  | mismatchedEnd (expected found : String)
  | keyAlone (position : Nat)
  | valueMissing (position : Nat)
  | valueUnquoted (position : Nat)
  | quoteMissing (position : Nat) (quote : Char)
  | keyRepeated (position previous : Nat)
  | entityUnknown (start stop : Nat) (name : String)
  | entityUnclosed (start stop : Nat)
  | reference (cause : ReferenceFault)

/-- The wording of a faulty character reference. -/
def ReferenceFault.message : ReferenceFault → String
  | signed => "unexpected number sign"
  | noDigits => "cannot parse integer from empty string"
  | notADigit => "invalid digit found in string"
  | tooLarge => "number too large to fit in target type"
  | zero => "0x0 character is not permitted in XML"
  | notACharacter code => s!"`{code}` is not a valid codepoint"

/-- What follows the words "not closed" when the input ends too early. -/
def unclosed (what closing : String) : String :=
  s!"{what} not closed: `{closing}` not found before end of input"

namespace Fault

/-- The wording of a fault. -/
def message : Fault → String
  | unclosedTag => "syntax error: " ++ unclosed "tag" ">"
  | unclosedComment => "syntax error: " ++ unclosed "comment" "-->"
  | unclosedCharacterData => "syntax error: " ++ unclosed "CDATA" "]]>"
  | unclosedDoctype => "syntax error: " ++ unclosed "DOCTYPE" ">"
  | unclosedInstruction =>
      "syntax error: " ++ unclosed "processing instruction or xml declaration" "?>"
  | unknownMarkup => "syntax error: unknown or missed symbol in markup"
  | namelessDoctype =>
      "ill-formed document: `<!DOCTYPE>` declaration does not contain a name of a document type"
  | unclosedReference =>
      "ill-formed document: " ++ unclosed "entity or character reference" ";"
  | unmatchedEnd found =>
      s!"ill-formed document: close tag `</{found}>` does not match any open tag"
  | mismatchedEnd expected found =>
      s!"ill-formed document: expected `</{expected}>`, but `</{found}>` was found"
  | keyAlone position =>
      s!"position {position}: attribute key must be directly followed by `=` or space"
  | valueMissing position =>
      s!"position {position}: `=` must be followed by an attribute value"
  | valueUnquoted position =>
      s!"position {position}: attribute value must be enclosed in `\"` or `'`"
  | quoteMissing position quote =>
      s!"position {position}: missing closing quote `{quote}` in attribute value"
  | keyRepeated position previous =>
      s!"position {position}: duplicated attribute, previous declaration at position {previous}"
  | entityUnknown start stop name => s!"at {start}..{stop}: unrecognized entity `{name}`"
  | entityUnclosed start stop =>
      s!"Error while escaping character at range {start}..{stop}: Cannot find ';' after '&'"
  | reference cause => "invalid character reference: " ++ cause.message

end Fault

/-- A fault and the byte at which reading stopped. -/
structure Malformed where
  position : Nat
  fault : Fault

/-- The complaint about the file at a path. -/
def Malformed.message (path : FilePath) (m : Malformed) : String :=
  s!"Malformed XML in {path.text} at byte {m.position}: {m.fault.message}"

end Markup

end AndroidLint
