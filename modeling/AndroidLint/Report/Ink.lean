/-
Ink — text with or without the color codes of a terminal.

A coloring is a list of codes, the weight before the color.  A text that
itself ends a coloring has the coloring put on again after it.
-/
import AndroidLint.Finding

namespace AndroidLint

namespace Report

/-- How a piece of a report is shown. -/
structure Ink where
  codes : List Nat

namespace Ink

def redBold : Ink := ⟨[1, 31]⟩

def red : Ink := ⟨[31]⟩

def greenBold : Ink := ⟨[1, 32]⟩

def green : Ink := ⟨[32]⟩

def yellow : Ink := ⟨[33]⟩

def blue : Ink := ⟨[34]⟩

def magenta : Ink := ⟨[35]⟩

def cyanBold : Ink := ⟨[1, 36]⟩

def whiteBold : Ink := ⟨[1, 37]⟩

def dimmed : Ink := ⟨[2]⟩

end Ink

/-- Ends every coloring. -/
def plainCode : List Char := "\x1b[0m".toList

/-- Starts a coloring. -/
def Ink.code (i : Ink) : List Char :=
  "\x1b[".toList ++ (";".intercalate (i.codes.map toString)).toList ++ ['m']

/-- A text in which `code` follows each end of a coloring; `skip` is the
number of characters of such an end still to be passed. -/
def resumed (code : List Char) : Nat → List Char → List Char
  | _, [] => []
  | 0, c :: r =>
      if plainCode.isPrefixOf (c :: r) then c :: resumed code (plainCode.length - 1) r
      else c :: resumed code 0 r
  | 1, c :: r => c :: (code ++ resumed code 0 r)
  | n + 2, c :: r => c :: resumed code (n + 1) r

/-- A text in an ink, if the report is colored. -/
def painted (colored : Bool) (i : Ink) (text : String) : String :=
  if colored then
    String.ofList (i.code ++ resumed i.code 0 text.toList ++ plainCode)
  else text

/-- The ink of a severity. -/
def severityInk : Severity → Ink
  | .error => .redBold
  | .warning => .yellow
  | .info => .blue

/-- The sign of a severity. -/
def severitySign : Severity → String
  | .error => "✖"
  | .warning => "⚠"
  | .info => "ℹ"

end Report

end AndroidLint
