/-
Storage — files and folders, and what a path leads to.

A path is followed step by step from the current folder: an empty step and
`.` stay, `..` goes back, a name goes on to what has it.  Only a folder can
be left by a step, so a file does not even lead on to itself.  What is
above the current folder, and what an absolute path names, is not there.
-/
import AndroidLint.FilePath

namespace AndroidLint

namespace Project

/-- A file, with its text unless its bytes are no text; or a folder. -/
inductive Item where
  | file (text? : Option String)
  | folder (items : List (String × Item))
deriving Inhabited

/-- What is in the current folder. -/
abbrev Storage := List (String × Item)

/-- Why a file cannot be read. -/
inductive ReadFault where
  | missing
  | notAFolder
  | isAFolder
  | notText
deriving DecidableEq

/-- What is said when a file cannot be read. -/
def ReadFault.message : ReadFault → String
  | missing => "No such file or directory (os error 2)"
  | notAFolder => "Not a directory (os error 20)"
  | isAFolder => "Is a directory (os error 21)"
  | notText => "stream did not contain valid UTF-8"

namespace Item

/-- Whether an item is a folder. -/
def isFolder : Item → Bool
  | file _ => false
  | folder _ => true

/-- The items in a folder. -/
def items : Item → List (String × Item)
  | file _ => []
  | folder is => is

/-- The text of the file with a name in a folder. -/
def textOf? (i : Item) (name : String) : Option String :=
  match i.items.lookup name with
  | some (.file text?) => text?
  | _ => none

end Item

/-- Items with one replaced, or one more. -/
def set (name : String) (i : Item) : List (String × Item) → List (String × Item)
  | [] => [(name, i)]
  | (n, j) :: rest => if n == name then (n, i) :: rest else (n, j) :: set name i rest

namespace Storage

/-- The storage with an item at a path of names, in folders made for it
where there are none; a folder that is there already is kept. -/
def put (i : Item) : List String → Storage → Storage
  | [], s => s
  | [name], s =>
      match s.lookup name, i with
      | some (.folder _), .folder _ => s
      | _, _ => set name i s
  | name :: rest, s =>
      match s.lookup name with
      | some (.folder sub) => set name (.folder (put i rest sub)) s
      | _ => set name (.folder (put i rest [])) s

/-- The storage with a file, or with a folder if the path ends in a
slash. -/
def add (s : Storage) (path : String) (text? : Option String) : Storage :=
  let i : Item := if Text.endsWith path "/" then .folder [] else .file text?
  s.put i ((Text.splitAll '/' path).filter (!·.isEmpty))

/-- A folder or a file with its name, and those it lies in, innermost
first. -/
abbrev Trail := List (String × Item)

/-- Where steps lead from the head of a trail. -/
def follow : Trail → List String → Except ReadFault Trail
  | trail, [] => .ok trail
  | [], _ :: _ => .error .missing
  | (_, .file _) :: _, _ :: _ => .error .notAFolder
  | (n, .folder is) :: outer, step :: steps =>
      if step.isEmpty || step == "." then follow ((n, .folder is) :: outer) steps
      else if step == ".." then follow outer steps
      else match is.lookup step with
        | none => .error .missing
        | some i => follow ((step, i) :: (n, .folder is) :: outer) steps

/-- Where a path leads. -/
def trail? (s : Storage) (p : FilePath) : Except ReadFault Trail :=
  if p.text.isEmpty || p.isAbsolute then .error .missing
  else follow [("", .folder s)] (Text.splitAll '/' p.text)

/-- What a path names. -/
def item? (s : Storage) (p : FilePath) : Option Item :=
  match s.trail? p with
  | .ok ((_, i) :: _) => some i
  | _ => none

/-- Whether there is something at a path. -/
def has (s : Storage) (p : FilePath) : Bool :=
  (s.item? p).isSome

/-- Whether there is a file at a path. -/
def hasFile (s : Storage) (p : FilePath) : Bool :=
  (s.item? p).any (!·.isFolder)

/-- The text of the file at a path. -/
def read (s : Storage) (p : FilePath) : Except ReadFault String :=
  match s.trail? p with
  | .error e => .error e
  | .ok ((_, .file (some text)) :: _) => .ok text
  | .ok ((_, .file none) :: _) => .error .notText
  | .ok ((_, .folder _) :: _) => .error .isAFolder
  | .ok [] => .error .missing

/-- Whether a file can be written at a path: its folder is there, and it
is no folder itself. -/
def canWrite (s : Storage) (p : FilePath) : Bool :=
  match s.item? p with
  | some i => !i.isFolder
  | none =>
      match p.parent? with
      | none => false
      | some folder => !Text.endsWith p.text "/" &&
          (folder.text.isEmpty || (s.item? folder).any (·.isFolder))

/-- The names that lead to a path from the current folder. -/
def names (p : FilePath) : List String :=
  (Text.splitAll '/' p.text).foldl
    (fun names step =>
      if step.isEmpty || step == "." then names
      else if step == ".." then names.dropLast
      else names ++ [step]) []

/-- The storage with a text written to the file at a path. -/
def write (s : Storage) (p : FilePath) (text : String) : Storage :=
  s.put (.file (some text)) (names p)

end Storage

end Project

end AndroidLint
