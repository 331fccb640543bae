/-
Word — what the words of a command line say.

A word that begins with two hyphens is the long name of an option, one
that begins with one hyphen holds letters of options, and any other word
stands for itself; behind a bare pair of hyphens all words do.  The value
of an option follows an equals sign, or a letter directly, or is the next
word.  Reading ends at the first word that makes no sense.
-/
import AndroidLint.CommandLine.Switch
import AndroidLint.Text

namespace AndroidLint

namespace CommandLine

/-- What a word, or a part of it, says. -/
inductive Word where
  | switch (s : Switch)
  | setting (s : Switch) (value : String)
  | plain (text : String)
  | senseless

/-- Whether a word can be the value of the option before it. -/
def canBeValue (word : String) : Bool :=
  !Text.startsWith word "-" || word == "-"

/-- What letters behind a hyphen say, and the option that still needs a
value from the next word. -/
def letters : List Char → List Word × Option Switch
  | [] => ([], none)
  | c :: r =>
      match Switch.ofLetter? c with
      | none => ([.senseless], none)
      | some s =>
          if s.takesValue then
            match r with
            | [] => ([], some s)
            | '=' :: v => ([.setting s (String.ofList v)], none)
            | v => ([.setting s (String.ofList v)], none)
          else
            let (ws, open?) := letters r
            (.switch s :: ws, open?)

/-- What a long name says, perhaps with a value, and the option that still
needs one. -/
def longName (name : String) : List Word × Option Switch :=
  let (name, value?) := match Text.splitFirst? '=' name with
    | some (n, v) => (n, some v)
    | none => (name, none)
  match Switch.ofLong? name, value? with
  | none, _ => ([.senseless], none)
  | some s, some v => ([if s.takesValue then .setting s v else .senseless], none)
  | some s, none => if s.takesValue then ([], some s) else ([.switch s], none)

/-- What one word before any bare pair of hyphens says. -/
def wordParts (word : String) : List Word × Option Switch :=
  match word.toList with
  | '-' :: '-' :: r => longName (String.ofList r)
  | '-' :: c :: r => letters (c :: r)
  | _ => ([.plain word], none)

/-- What the words of a command line say, in order; `waiting?` is an
option that needs the next word for its value. -/
def words : (waiting? : Option Switch) → List String → List Word
  | none, [] => []
  | some _, [] => [.senseless]
  | some s, w :: ws => if canBeValue w then .setting s w :: words none ws else [.senseless]
  | none, w :: ws =>
      if w == "--" then ws.map .plain
      else
        let (said, waiting?) := wordParts w
        said ++ words waiting? ws

end CommandLine

end AndroidLint
