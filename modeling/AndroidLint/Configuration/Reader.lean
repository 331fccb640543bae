/-
Reader — the configuration of a project from its file.

The extension of a file tells its format.  If no file is named, the first
of five names that has a file in the root counts, and without one nothing
is set.
-/
import AndroidLint.Configuration.Setting
import AndroidLint.Configuration.Toml.Reader
import AndroidLint.Configuration.Yaml.Reader
import AndroidLint.Json.Reader

namespace AndroidLint

namespace Configuration

/-- Why there is no configuration. -/
inductive Fault where
  | unreadable (path : FilePath) (why : Project.ReadFault)
  | malformed (f : Format)
  | unsound (u : Unsound)

/-- What is said about a file that cannot be read. -/
def unreadableMessage (path : FilePath) (why : Project.ReadFault) : String :=
  s!"Failed to read config file {path.text}: {why.message}"

namespace Format

/-- The format of the file at a path. -/
def ofPath (path : FilePath) : Format :=
  match path.extension?.map Text.lower with
  | some "yml" => yaml
  | some "yaml" => yaml
  | some "json" => json
  | _ => toml

/-- The value that a text of a format is. -/
def parse? (f : Format) (text : String) : Option Datum :=
  match f with
  | toml => Toml.parse? text
  | yaml => Yaml.parse? text
  | json => (Json.parse? text).map Datum.ofJson

end Format

/-- A configuration, if it is sound. -/
def checked (c : Configuration) : Except Fault Configuration :=
  match c.unsound? with
  | some u => .error (.unsound u)
  | none => .ok c

/-- The configuration that a text of a format is. -/
def ofText (f : Format) (text : String) : Except Fault Configuration :=
  match (f.parse? text).bind (ofDatum? f) with
  | none => .error (.malformed f)
  | some c => checked c

/-- The configuration in the file at a path. -/
def ofFile (s : Project.Storage) (path : FilePath) : Except Fault Configuration :=
  match s.read path with
  | .error why => .error (.unreadable path why)
  | .ok text => ofText (.ofPath path) text

/-- The names under which a configuration is looked for. -/
def fileNames : List String :=
  ["droidlint.toml", ".droidlint.toml", "droidlint.yml", "droidlint.yaml", "droidlint.json"]

/-- The configuration of the project at a root. -/
def ofProject (s : Project.Storage) (root : FilePath) : Except Fault Configuration :=
  match (fileNames.map root.join).find? s.hasFile with
  | none => .ok default
  | some path => ofFile s path

end Configuration

end AndroidLint
