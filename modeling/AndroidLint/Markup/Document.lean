/-
Document — the elements of a resource file.

The elements are kept in one array in document order, each with the index
of its parent and the indexes of its children.  A parent always stands
before its children, so walking outwards from an element ends: the walk
goes on only to a smaller index.
-/
import AndroidLint.Location

namespace AndroidLint

namespace Markup

/-- A name with a value, where it stands. -/
structure Attribute where
  name : String
  value : String
  location : Location
deriving DecidableEq, Inhabited

namespace Attribute

/-- What stands before the first colon of the name. -/
def space? (a : Attribute) : Option String :=
  (Text.splitFirst? ':' a.name).map (·.1)

/-- What stands after the first colon of the name, the whole of it if
there is none. -/
def localName (a : Attribute) : String :=
  ((Text.splitFirst? ':' a.name).map (·.2)).getD a.name

end Attribute

/-- One element: its tag and attributes, and its place in the tree. -/
structure Element where
  tag : String
  attributes : List Attribute
  parent : Option Nat
  children : List Nat
  location : Location
deriving DecidableEq, Inhabited

/-- The first attribute of a given name. -/
def Element.attribute? (e : Element) (name : String) : Option Attribute :=
  e.attributes.find? (·.name == name)

/-- A resource file: its elements in document order. -/
structure Document where
  path : FilePath
  elements : Array Element
deriving DecidableEq

namespace Document

/-- A document without elements. -/
def empty (path : FilePath) : Document :=
  ⟨path, #[]⟩

/-- Registers `child` with one more element under it. -/
def adopt (child : Nat) (e : Element) : Element :=
  { e with children := e.children ++ [child] }

/-- The document with one more element, under `parent`. -/
def push (d : Document) (e : Element) (parent : Option Nat) : Document :=
  let known := match parent with
    | some p => d.elements.modify p (adopt d.elements.size)
    | none => d.elements
  { d with elements := known.push { e with parent } }

/-- The element at an index. -/
def element? (d : Document) (i : Nat) : Option Element :=
  d.elements[i]?

/-- The tag of the first element. -/
def rootTag? (d : Document) : Option String :=
  (d.element? 0).map (·.tag)

/-- The parent of an element, when it stands before the element. -/
def parentBefore? (d : Document) (i : Nat) : Option { p : Nat // p < i } :=
  match (d.element? i).bind (·.parent) with
  | some p => if h : p < i then some ⟨p, h⟩ else none
  | none => none

/-- An element's index followed by those of its ancestors, innermost
first. -/
def outward (d : Document) (i : Nat) : List Nat :=
  match d.parentBefore? i with
  | some ⟨p, _⟩ => i :: d.outward p
  | none => [i]
termination_by i

/-- The elements met on the way outwards from an element, itself first. -/
def ancestorsOrSelf (d : Document) (i : Nat) : List Element :=
  (d.outward i).filterMap d.element?

end Document

end Markup

end AndroidLint
