/-
FilePath — paths as texts, read component by component.

A path is kept as it was written.  Two paths name the same place when
their components agree: doubled slashes, a closing slash and a `.` after
the first component do not count, a leading `.` and every `..` do.  The
parent and the part below a base are cut out of the text, so what is left
keeps the spelling it had.
-/
import AndroidLint.Text

namespace AndroidLint

/-- A path as written. -/
structure FilePath where
  text : String
deriving DecidableEq, Inhabited

namespace FilePath

/-- One step of a path. -/
inductive Component where
  | root
  | current
  | parent
  | named (name : String)
deriving DecidableEq

namespace Component

/-- The root comes first, then `.`, then `..`, then the names. -/
def rank : Component → Nat
  | root => 0
  | current => 1
  | parent => 2
  | named _ => 3

/-- Names are ordered by their characters. -/
def compare : Component → Component → Ordering
  | named a, named b => Ord.compare a b
  | a, b => Ord.compare a.rank b.rank

end Component

/-- A path divided into what it begins with (the root, `.` or neither) and
the pieces between the slashes after that. -/
structure Division where
  lead : Option Component
  body : List String

/-- The division of a path. -/
def division (p : FilePath) : Division :=
  match Text.splitAll '/' p.text with
  | "" :: r :: rest => ⟨some .root, r :: rest⟩
  | "." :: rest => ⟨some .current, rest⟩
  | pieces => ⟨none, pieces⟩

/-- The component a piece after the lead stands for, if it counts. -/
def component? : String → Option Component
  | "" => none
  | "." => none
  | ".." => some .parent
  | name => some (.named name)

/-- The steps of a path. -/
def components (p : FilePath) : List Component :=
  p.division.lead.toList ++ p.division.body.filterMap component?

/-- Whether a piece counts for nothing. -/
def isIdle (piece : String) : Bool :=
  (component? piece).isNone

/-- The pieces without idle ones at the end. -/
def trimEnd (pieces : List String) : List String :=
  (pieces.reverse.dropWhile isIdle).reverse

/-- The text of a division. -/
def Division.render (d : Division) : FilePath :=
  match d.lead, d.body with
  | some .root, body => ⟨"/" ++ "/".intercalate body⟩
  | some .current, [] => ⟨"."⟩
  | some .current, body => ⟨"./" ++ "/".intercalate body⟩
  | _, body => ⟨"/".intercalate body⟩

/-- The path without its last component; the root and the empty path have
no parent. -/
def parent? (p : FilePath) : Option FilePath :=
  match trimEnd p.division.body, p.division.lead with
  | [], some .current => some ⟨""⟩
  | [], _ => none
  | body, lead => some (Division.render ⟨lead, trimEnd body.dropLast⟩)

/-- The last component, if it is a name. -/
def fileName? (p : FilePath) : Option String :=
  match p.components.getLast? with
  | some (.named name) => some name
  | _ => none

/-- The last component's name, empty if it is not a name. -/
def fileName (p : FilePath) : String :=
  p.fileName?.getD ""

/-- The name before its last dot; a name whose only dot leads is all stem. -/
def stem? (p : FilePath) : Option String :=
  p.fileName?.map fun name =>
    match Text.beforeLast? '.' name with
    | none | some "" => name
    | some stem => stem

/-- The name after its last dot, unless that dot leads. -/
def extension? (p : FilePath) : Option String :=
  p.fileName?.bind fun name =>
    match Text.beforeLast? '.' name with
    | none | some "" => none
    | some _ => some (Text.afterLast '.' name)

/-- Whether the path starts at the root. -/
def isAbsolute (p : FilePath) : Bool :=
  Text.startsWith p.text "/"

/-- `q` as seen from `p`; an absolute `q` stands for itself. -/
def join (p : FilePath) (q : String) : FilePath :=
  if Text.startsWith q "/" then ⟨q⟩
  else if p.text.isEmpty || Text.endsWith p.text "/" then ⟨p.text ++ q⟩
  else ⟨p.text ++ "/" ++ q⟩

/-- The pieces after the first `n` components that they hold. -/
def dropComponents : Nat → List String → List String
  | 0, pieces => pieces
  | n + 1, pieces => dropComponents n ((pieces.dropWhile isIdle).drop 1)

/-- The part of `p` below `base`, when the components of `base` begin
those of `p`. -/
def below? (p base : FilePath) : Option FilePath :=
  if base.components.isPrefixOf p.components then
    match base.components.length, p.division with
    | 0, ⟨lead, body⟩ => some (Division.render ⟨lead, trimEnd body⟩)
    | n + 1, ⟨lead, body⟩ =>
        let rest := dropComponents (if lead.isSome then n else n + 1) body
        some (Division.render ⟨none, trimEnd (rest.dropWhile isIdle)⟩)
  else none

/-- The components of two paths in lexicographic order. -/
def compareComponents : List Component → List Component → Ordering
  | [], [] => .eq
  | [], _ :: _ => .lt
  | _ :: _, [] => .gt
  | a :: p, b :: q => (a.compare b).then (compareComponents p q)

/-- Paths are ordered component by component. -/
def compare (p q : FilePath) : Ordering :=
  compareComponents p.components q.components

/-- Whether `p` comes no later than `q`. -/
def le (p q : FilePath) : Bool :=
  (p.compare q).isLE

/-- Whether two paths name the same place. -/
def same (p q : FilePath) : Bool :=
  p.components == q.components

/-- Whether some path of the list names the same place. -/
def isAmong (p : FilePath) (paths : List FilePath) : Bool :=
  paths.any p.same

end FilePath

end AndroidLint
