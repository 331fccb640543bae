/-
Discovery — the files of a project.

Below each target every file is visited that is not excluded and, if the
lists that keep files out of version control count, not left out by one of
those.  Such a list lies in a folder under one of two names and holds for
what is below; those nearer to a file decide before those further out, and
all lists of the first name before those of the second.  Folders above the
target count too.  The result is sorted, each file once.
-/
import AndroidLint.Project.IgnoreRules
import AndroidLint.Project.Storage
import AndroidLint.Resource

namespace AndroidLint

namespace Project

/-- What tells which files belong to a project. -/
structure Scope where
  targets : List String
  exclude : List String
  respectsIgnoreFiles : Bool

/-- A file of a project. -/
structure Source where
  path : FilePath
  kind : FileKind

/-- Why no files can be given. -/
inductive DiscoveryFault where
  | missing (path : FilePath)
  | malformed (pattern : String)

/-- What is said when a path leads nowhere. -/
def missingMessage (path : FilePath) : String :=
  "Path does not exist: " ++ path.text

/-! ## Without lists -/

mutual

/-- The files at a path and below that are not excluded. -/
def filesBelow (excluded : IgnoreRules) (path : FilePath) : Item → List FilePath
  | .file _ => if excluded.isExcluded path.text false then [] else [path]
  | .folder is =>
      if excluded.isExcluded path.text true then [] else filesIn excluded path is

/-- The files in a folder and below that are not excluded. -/
def filesIn (excluded : IgnoreRules) (folder : FilePath) : List (String × Item) → List FilePath
  | [] => []
  | (name, i) :: rest =>
      filesBelow excluded (folder.join name) i ++ filesIn excluded folder rest

end

/-! ## With lists -/

/-- The lists of a folder, by their two names. -/
structure FolderRules where
  first : IgnoreRules
  second : IgnoreRules

/-- The lists that lie in a folder at a path. -/
def FolderRules.of (path : String) (folder : Item) : FolderRules :=
  let list (name : String) : IgnoreRules :=
    match folder.textOf? name with
    | none => ⟨path, []⟩
    | some text => .ofText path text
  ⟨list ".ignore", list ".gitignore"⟩

/-- The lists around an entry: of the folders from the target down, the
innermost first, and of those above the target, each with what leads from
it to the target. -/
structure Surrounding where
  inner : List FolderRules
  above : List (String × FolderRules)

/-- What the lists of one name say about the entry at a path, that is
reached from the target by `steps`. -/
def Surrounding.verdict? (s : Surrounding) (choose : FolderRules → IgnoreRules) (path : String)
    (steps : List String) (isFolder : Bool) : Option Verdict :=
  (s.inner.findSome? fun r => (choose r).verdict? path isFolder).orElse fun _ =>
    s.above.findSome? fun (way, r) =>
      (choose r).verdict? (way ++ "/" ++ "/".intercalate steps) isFolder

/-- Whether an entry is left out by the lists around it. -/
def Surrounding.leavesOut (s : Surrounding) (path : String) (steps : List String)
    (isFolder : Bool) : Bool :=
  ((s.verdict? FolderRules.first path steps isFolder).orElse fun _ =>
    s.verdict? FolderRules.second path steps isFolder) == some .leftOut

/-- Whether an entry below the target is skipped. -/
def isSkipped (excluded : IgnoreRules) (s : Surrounding) (path : FilePath) (steps : List String)
    (isFolder : Bool) : Bool :=
  excluded.isExcluded (withoutDot path.text) isFolder
    || s.leavesOut (withoutDot path.text) steps isFolder

mutual

/-- The files at a path and below that are not skipped; the entry itself
is not asked about. -/
def visited (excluded : IgnoreRules) (s : Surrounding) (path : FilePath) (steps : List String) :
    Item → List FilePath
  | .file _ => [path]
  | .folder is =>
      visitedIn excluded { s with inner := .of path.text (.folder is) :: s.inner } path steps is

/-- The files in a folder and below that are not skipped. -/
def visitedIn (excluded : IgnoreRules) (s : Surrounding) (folder : FilePath)
    (steps : List String) : List (String × Item) → List FilePath
  | [] => []
  | (name, i) :: rest =>
      let path := folder.join name
      let here := if isSkipped excluded s path (steps ++ [name]) i.isFolder then []
        else visited excluded s path (steps ++ [name]) i
      here ++ visitedIn excluded s folder steps rest

end

/-- The lists above the target that a trail leads to, innermost first, each
with the names that lead from its folder to the target. -/
def listsAbove : List String → Storage.Trail → List (String × FolderRules)
  | _, [] => []
  | way, (name, i) :: outer =>
      ("/".intercalate way, FolderRules.of "." i) :: listsAbove (name :: way) outer

/-- What surrounds the target that a trail leads to. -/
def Surrounding.ofTrail : Storage.Trail → Surrounding
  | (name, .folder _) :: outer => ⟨[], listsAbove [name] outer⟩
  | _ => ⟨[], []⟩

/-! ## All targets -/

/-- The files below a target. -/
def filesOfTarget (p : Scope) (excluded : IgnoreRules) (trail : Storage.Trail)
    (target : FilePath) : List FilePath :=
  match trail with
  | [] => []
  | (_, i) :: _ =>
      if p.respectsIgnoreFiles then visited excluded (.ofTrail trail) target [] i
      else filesBelow excluded target i

/-- The files below targets, in order, up to one that is missing. -/
def filesOfTargets (s : Storage) (p : Scope) (excluded : IgnoreRules) :
    List FilePath → Except DiscoveryFault (List FilePath)
  | [] => .ok []
  | t :: ts =>
      match s.trail? t with
      | .error _ => .error (.missing t)
      | .ok trail => (filesOfTargets s p excluded ts).map
          (filesOfTarget p excluded trail t ++ ·)

/-- Paths without those that name the same place as one before. -/
def withoutRepeats : List FilePath → List FilePath
  | [] => []
  | p :: ps => p :: (withoutRepeats ps).filter (!p.same ·)

/-- The targets of a project: the root, unless others are named. -/
def Scope.targetsBelow (p : Scope) (root : FilePath) : List FilePath :=
  if p.targets.isEmpty then [root] else p.targets.map root.join

/-- The files of a project below a root, by path. -/
def discover (s : Storage) (p : Scope) (root : FilePath) :
    Except DiscoveryFault (List Source) :=
  if !s.has root then .error (.missing root)
  else match excludes root p.exclude with
    | .error pattern => .error (.malformed pattern)
    | .ok excluded =>
        (filesOfTargets s p excluded (p.targetsBelow root)).map fun files =>
          ((withoutRepeats files).filterMap fun path =>
            (FileKind.classify? path).map fun kind => ⟨path, kind⟩).mergeSort
              fun a b => a.path.le b.path

/-- The paths of the files of one kind. -/
def ofKind (kind : FileKind) (files : List Source) : List FilePath :=
  (files.filter fun f => f.kind == kind).map (·.path)

end Project

end AndroidLint
