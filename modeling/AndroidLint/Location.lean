/-
Location — where something stands in a file.

Lines and columns count from 1 and columns count bytes; the range is given
in bytes from the start of the text.
-/
import AndroidLint.FilePath

namespace AndroidLint

/-- A place in a file: its first line and column, and the range of bytes it
covers. -/
structure Location where
  file : FilePath
  line : Nat
  column : Nat
  startByte : Nat
  endByte : Nat
deriving DecidableEq, Inhabited

/-- A place without extent at the start of a file. -/
def Location.top (file : FilePath) : Location :=
  ⟨file, 1, 1, 0, 0⟩

/-- A line and a column, both from 1. -/
structure LineColumn where
  line : Nat
  column : Nat
deriving DecidableEq

namespace LineColumn

/-- The offsets at which the lines of a text begin, after the first. -/
def lineStarts (offset : Nat) : List Char → List Nat
  | [] => []
  | c :: r =>
      let next := offset + c.utf8Size
      if c == '\n' then next :: lineStarts next r else lineStarts next r

/-- The line that a byte offset falls on and its column there: of the
lines that begin no later, the last. -/
def locate (starts : List Nat) (offset : Nat) : LineColumn :=
  let reached := starts.takeWhile (· ≤ offset)
  ⟨reached.length + 1, offset - reached.getLast?.getD 0 + 1⟩

/-- The line and column of a byte offset in a text. -/
def ofOffset (text : List Char) (offset : Nat) : LineColumn :=
  locate (lineStarts 0 text) offset

end LineColumn

end AndroidLint
