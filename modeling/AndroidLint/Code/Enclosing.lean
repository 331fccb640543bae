/-
Enclosing — the scopes around a place in a source file.

A method lies in a class, a class in a method or in a class, and so on
outwards.  The walk passes each class at most once, so it takes no more
steps than the file has classes; a class that encloses itself is met that
often and no further.
-/
import AndroidLint.Code.SourceFile

namespace AndroidLint

namespace Code

namespace SourceFile

/-- The class that a scope lies in directly: the one it names, or else
the one its method lies in. -/
def directClass? (f : SourceFile) (s : Scope) : Option ClassId :=
  s.class?.orElse fun _ => (s.method?.bind f.method?).bind (·.class?)

/-- The scope of a class declaration. -/
def scopeOf? (f : SourceFile) (c : ClassId) : Option Scope :=
  (f.class? c).map (·.scope)

/-- The owners from a scope outwards, in at most `fuel` classes. -/
def ownersWithin (f : SourceFile) : Nat → Scope → List Owner
  | 0, s => s.method?.toList.map .method
  | fuel + 1, s =>
      s.method?.toList.map .method ++
        match f.directClass? s with
        | none => []
        | some c => .type c ::
            match f.scopeOf? c with
            | none => []
            | some outer => f.ownersWithin fuel outer

/-- The owners that a place in a scope sees, the innermost first and the
file last. -/
def owners (f : SourceFile) (s : Scope) : List Owner :=
  f.ownersWithin (f.classes.size + 1) s ++ [.file]

/-- The type of the first declaration of a name by an owner. -/
def declaredBy? (f : SourceFile) (name : String) (o : Owner) : Option String :=
  (f.declarations.find? fun d => d.owner == o && d.name == name).map (·.type)

/-- The type a name is declared to have as seen from a scope: the first
declaration of the innermost owner that has one. -/
def declaredType? (f : SourceFile) (s : Scope) (name : String) : Option String :=
  (f.owners s).findSome? (f.declaredBy? name)

/-- A class and those around it, in at most `fuel` steps; classes inside
a method are left through the class around both. -/
def classesWithin (f : SourceFile) : Nat → Option ClassId → List ClassDecl
  | 0, _ => []
  | fuel + 1, c? =>
      match c?.bind f.class? with
      | none => []
      | some c => c :: f.classesWithin fuel c.scope.class?

/-- A class and those around it, the innermost first. -/
def enclosingClasses (f : SourceFile) (c? : Option ClassId) : List ClassDecl :=
  f.classesWithin f.classes.size c?

end SourceFile

end Code

end AndroidLint
