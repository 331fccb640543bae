/-
Main — the program.

The current folder with all that is below it is read into a storage, the
command line is answered, and what the answer says is printed and written.
Text is colored if the environment asks for it, or if it goes to a
terminal and the environment does not refuse it.
-/
import AndroidLint.CommandLine.Answer

namespace AndroidLint

namespace Main

/-- Whether a setting of the environment is there and not off. -/
def isOn (value? : Option String) : Bool :=
  value?.any (· != "0")

/-- Whether text is colored. -/
def isColored (forced noColor allowed : Option String) (toTerminal : Bool) : Bool :=
  isOn forced || (!isOn noColor && toTerminal && (allowed.isNone || isOn allowed))

/-- The files below the folder that lies at `path`, added to a storage
under their paths from the current folder. -/
partial def load (folder : IO.FS.DirEntry) (path : String) (s : Project.Storage) :
    IO Project.Storage := do
  if ← folder.path.isDir then
    let mut s := s.add (path ++ "/") none
    for e in ← folder.path.readDir do
      s ← load e (path ++ "/" ++ e.fileName) s
    return s
  else
    let bytes ← IO.FS.readBinFile folder.path
    return s.add path (String.fromUTF8? bytes)

/-- The current folder with all that is below it. -/
def storage : IO Project.Storage := do
  let mut s : Project.Storage := []
  for e in ← (← IO.currentDir).readDir do
    s ← load e e.fileName s
  return s

/-- Does what an answer says. -/
def perform (a : CommandLine.Answer) : IO UInt32 := do
  if let some (path, text) := a.written? then
    IO.FS.writeFile path.text text
  IO.print a.printed
  if let some complaint := a.complaint? then
    IO.eprintln complaint
  return UInt32.ofNat a.status

/-- Answers a command line. -/
def run (line : List String) : IO UInt32 := do
  let colored := isColored (← IO.getEnv "CLICOLOR_FORCE") (← IO.getEnv "NO_COLOR")
    (← IO.getEnv "CLICOLOR") (← (← IO.getStdout).isTty)
  perform (CommandLine.answer (← storage) colored line)

end Main

end AndroidLint

def main (line : List String) : IO UInt32 :=
  AndroidLint.Main.run line
