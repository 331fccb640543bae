/-
Lint — the whole way from a project's files to the reports on them.

The files are found, the level of the platform is settled, and each file
that is to be checked is parsed; one that cannot be read or parsed is
skipped, and the others are checked without it.  All source files together
make the index in which names are resolved.
-/
import AndroidLint.Analysis.Parse
import AndroidLint.Configuration.Basic
import AndroidLint.Project.MinSdk
import AndroidLint.Symbol.Index

namespace AndroidLint

namespace Project

/-- What came of checking a project. -/
structure Outcome where
  reports : List FileReport
  filesAnalyzed : Nat
  filesSkipped : Nat
  minSdk : Nat

/-- A file of a project as rules see it, if it can be read and parsed. -/
def Source.parse? (s : Storage) (f : Source) : Option ParsedFile :=
  match s.read f.path with
  | .error _ => none
  | .ok text => (ParsedFile.read f.kind f.path text).toOption

/-- What an analysis of parsed files depends on. -/
def analysisOf (s : Storage) (c : Configuration) (root : FilePath) (level : Nat)
    (parsed : List ParsedFile) : Analysis :=
  { catalog := c.catalog
    settings := c.ruleSettings root level
    resolver := (Symbol.Index.build (parsed.filterMap ParsedFile.source?)).resolver
    presence := s.has }

/-- The level of the platform that a project with some files supports. -/
def levelOf (s : Storage) (c : Configuration) (files : List Source) : Nat :=
  minSdk s c.minSdk? (ofKind .manifest files) (ofKind .buildScript files)

/-- What comes of checking some files of a project. -/
def outcomeOf (s : Storage) (c : Configuration) (root : FilePath) (files : List Source) :
    Outcome :=
  let level := levelOf s c files
  let checked := files.filter (·.kind.isChecked)
  let parsed := checked.filterMap (Source.parse? s)
  { reports := (analysisOf s c root level parsed).run parsed
    filesAnalyzed := parsed.length
    filesSkipped := checked.length - parsed.length
    minSdk := level }

/-- Checks the project at a root. -/
def lint (s : Storage) (c : Configuration) (root : FilePath) :
    Except DiscoveryFault Outcome :=
  (discover s c.scope root).map (outcomeOf s c root)

end Project

end AndroidLint
