/-
Resource — the folder a resource file lies in.

Resource files lie in `res/<type>[-<qualifier>...]/<name>.xml`.  What the
rules ask about a file is read off its path: the type of its folder, the
qualifiers, and where a copy for a later platform or a color selector
would lie.  Whether such a file exists is asked of a `Presence`.
-/
import AndroidLint.FilePath

namespace AndroidLint

namespace Resource

/-- Tells whether there is a file at a path. -/
def Presence : Type :=
  FilePath → Bool

/-- The presence of exactly the listed files. -/
def Presence.ofList (paths : List FilePath) : Presence :=
  fun p => p.isAmong paths

/-- The level of Android 5.0, the first with theme attributes in
drawables. -/
def lollipop : Nat := 21

/-- What a resource folder holds. -/
inductive FolderType where
  | anim
  | animator
  | color
  | drawable
  | font
  | interpolator
  | layout
  | menu
  | mipmap
  | navigation
  | raw
  | transition
  | values
  | xml
deriving DecidableEq

namespace FolderType

/-- The name of an unqualified folder of the type. -/
def name : FolderType → String
  | anim => "anim"
  | animator => "animator"
  | color => "color"
  | drawable => "drawable"
  | font => "font"
  | interpolator => "interpolator"
  | layout => "layout"
  | menu => "menu"
  | mipmap => "mipmap"
  | navigation => "navigation"
  | raw => "raw"
  | transition => "transition"
  | values => "values"
  | xml => "xml"

/-- All folder types. -/
def all : List FolderType :=
  [anim, animator, color, drawable, font, interpolator, layout, menu, mipmap, navigation, raw,
    transition, values, xml]

/-- The type that a folder's name gives: what stands before its first
hyphen. -/
def ofFolder? (folder : String) : Option FolderType :=
  all.find? (·.name == Text.beforeFirst '-' folder)

end FolderType

/-- The name of the folder a file lies in, empty if it lies in none. -/
def folderName (file : FilePath) : String :=
  (file.parent?.bind (·.fileName?)).getD ""

/-- The type of the folder a file lies in. -/
def folderType? (file : FilePath) : Option FolderType :=
  FolderType.ofFolder? (folderName file)

/-- The qualifiers of the folder a file lies in. -/
def qualifiers (file : FilePath) : List String :=
  (Text.splitAll '-' (folderName file)).drop 1

/-- The level a qualifier such as `v21` gives. -/
def versionOf? (qualifier : String) : Option Nat :=
  (Text.afterStart? qualifier "v").bind Text.level?

/-- The level of the first qualifier that gives one. -/
def platformVersion? (file : FilePath) : Option Nat :=
  (qualifiers file).findSome? versionOf?

/-- Whether the file's folder is for Android 5.0 or later only. -/
def isLollipopOnly (file : FilePath) : Bool :=
  match platformVersion? file with
  | some v => lollipop ≤ v
  | none => false

/-- The file of the same name in the folder with the qualifier added; a
file outside the unqualified folder is its own variant. -/
def qualifiedVariant (file : FilePath) (folder qualifier : String) : FilePath :=
  match file.parent?.bind (·.fileName?), file.parent?.bind (·.parent?), file.fileName? with
  | some parent, some res, some name =>
      if parent == folder then (res.join (folder ++ qualifier)).join name else file
  | _, _, _ => file

/-- Where the selector for a color lies, as seen from a resource file. -/
def colorSelector? (file : FilePath) (name : String) : Option FilePath :=
  (file.parent?.bind (·.parent?)).map fun res => (res.join "color").join (name ++ ".xml")

/-- Whether a copy of the file for Android 5.0 exists. -/
def hasLollipopVariant (file : FilePath) (presence : Presence) : Bool :=
  match folderType? file with
  | some type => presence (qualifiedVariant file type.name "-v21")
  | none => false

/-- Whether a color's name stands for a selector. -/
def isColorSelector (file : FilePath) (presence : Presence) (name : String) : Bool :=
  match colorSelector? file name with
  | some selector => presence selector
  | none => false

end Resource

/-- What a project's file is analyzed as. -/
inductive FileKind where
  | kotlin
  | java
  | resource
  | manifest
  | buildScript
deriving DecidableEq

namespace FileKind

/-- What an XML file is: the manifest by its name, a resource by the name
of the folder two above it. -/
def ofMarkup? (file : FilePath) : Option FileKind :=
  if file.fileName == "AndroidManifest.xml" then some manifest
  else if ((file.parent?.bind (·.parent?)).bind (·.fileName?)) == some "res" then some resource
  else none

/-- What a file is, by its path. -/
def classify? (file : FilePath) : Option FileKind :=
  if file.fileName == "build.gradle" || file.fileName == "build.gradle.kts" then some buildScript
  else
    match file.extension? with
    | some "kt" => some kotlin
    | some "java" => some java
    | some "xml" => ofMarkup? file
    | _ => none

/-- Whether files of the kind are parsed and checked. -/
def isChecked : FileKind → Bool
  | kotlin | java | resource => true
  | manifest | buildScript => false

end FileKind

end AndroidLint
