/-
Java — the source file that the tree of a Java file holds.

Every node is entered once, before what stands in it, so calls, lambdas and
references are listed with the outer ones first.  An anonymous class is
made where an object is created with a body; of such a creation only the
arguments and the body are looked into.
-/
import AndroidLint.Code.Origin

namespace AndroidLint

namespace Code

namespace Java

open Syntax (Tree)

mutual

/-- The expression that a tree is, met in a scope. -/
def expr (o : Origin) (s : Scope) : Tree → Expr
  | .word .. => .other
  | .node k _ p ts =>
      match k with
      | .identifier => .name (o.excerpt p)
      | .fieldAccess | .path => .qualified (Text.compact (o.excerpt p))
      | .string => .stringLiteral
      | .literal => .literal
      | .this => .this
      | .call =>
          match ts.find? fun u => u.role? == some .name with
          | none => .other
          | some name => .call ⟨o.words name, receiver? o s ts, arguments o s ts, s, o.place p⟩
      | .parenthesized => first o s ts
      | _ => .other

/-- The first node as an expression. -/
def first (o : Origin) (s : Scope) : List Tree → Expr
  | [] => .other
  | .word .. :: ts => first o s ts
  | .node k r p us :: _ => expr o s (.node k r p us)

/-- What a call is made on. -/
def receiver? (o : Origin) (s : Scope) : List Tree → Option Expr
  | [] => none
  | t :: ts => if t.role? == some .object then some (expr o s t) else receiver? o s ts

/-- What a call is given. -/
def arguments (o : Origin) (s : Scope) : List Tree → List Expr
  | [] => []
  | .word .. :: ts => arguments o s ts
  | .node _ r _ us :: ts => if r == some .arguments then exprs o s us else arguments o s ts

/-- The nodes in a row as expressions. -/
def exprs (o : Origin) (s : Scope) : List Tree → List Expr
  | [] => []
  | .word .. :: ts => exprs o s ts
  | .node k r p us :: ts => expr o s (.node k r p us) :: exprs o s ts

end

/-- The string that an annotation's argument gives as its value. -/
def value? (o : Origin) (argument : Tree) : Option String :=
  match argument.kind? with
  | some .string => some (unquote (o.words argument))
  | some .elementPair =>
      if (argument.part? .key).any (o.words · == "value") then
        ((argument.part? .value).filter (·.isKind .string)).map (unquote <| o.words ·)
      else none
  | _ => none

/-- The annotation that a node is. -/
def annotation? (o : Origin) (t : Tree) : Option Annotation :=
  if t.isKind .annotationUse then
    (t.part? .name).map fun name =>
      ⟨o.compact name,
        (t.part? .arguments).bind fun arguments => arguments.named.findSome? (value? o)⟩
  else none

/-- The annotations among the modifiers of a declaration. -/
def annotations (o : Origin) (t : Tree) : List Annotation :=
  match t.child? .modifiers with
  | none => []
  | some ms => ms.named.filterMap (annotation? o)

/-- Whether a node is a dotted or a single name. -/
def isPath (t : Tree) : Bool :=
  t.isKind .path || t.isKind .identifier

/-- The file with the package that a header names, and its annotations. -/
def addPackage (o : Origin) (f : SourceFile) (t : Tree) : SourceFile :=
  { f with
    package? := ((t.named.filter isPath).getLast?.map o.compact).orElse fun _ => f.package?
    packageAnnotations := f.packageAnnotations ++ t.named.filterMap (annotation? o) }

/-- The file with an import. -/
def addImport (o : Origin) (f : SourceFile) (t : Tree) : SourceFile :=
  match t.named.find? isPath with
  | none => f
  | some name =>
      let i : Import :=
        ⟨o.compact name, none, (t.child? .wildcard).isSome, t.hasWord "static", o.location t⟩
      { f with imports := f.imports.push i }

/-- What the kind of a declaration makes its class. -/
def classKind (t : Tree) : ClassKind :=
  match t.kind? with
  | some .interfaceDeclaration => .interface
  | some .enumDeclaration => .enum
  | some .markerDeclaration => .marker
  | _ => .plain

/-- The name of a class from outside its package: below the class it lies
in, unless that has no name. -/
def qualifiedName (f : SourceFile) (s : Scope) (name : String) : String :=
  match s.class?.bind f.class? with
  | some outer => if outer.isNamed then outer.qualifiedName ++ "." ++ name else f.qualify name
  | none => f.qualify name

/-- The class that a declaration makes. -/
def classOf (o : Origin) (f : SourceFile) (s : Scope) (t : Tree) : ClassDecl :=
  let name := ((t.part? .name).map o.words).getD ""
  { name := name
    qualifiedName := qualifiedName f s name
    kind := classKind t
    superClass? := ((t.part? .superclass).bind (·.named.head?)).map o.compact
    interfaces := (((t.part? .interfaces).bind (·.child? .typeList)).map
      (·.named.map o.compact)).getD []
    annotations := annotations o t
    scope := s
    inReturnPosition := false
    text := o.words t
    location := o.location t }

/-- Whether what stands below `above` is returned. -/
def isReturned (above : List Tree) : Bool :=
  above.head?.any (·.isKind .returnStatement)

/-- The class that an object is made of, if it is created with a body. -/
def anonymousOf (o : Origin) (s : Scope) (above : List Tree) (t : Tree) : ClassDecl :=
  { name := ""
    qualifiedName := ""
    kind := .anonymous
    superClass? := (t.part? .type).map o.compact
    interfaces := []
    annotations := []
    scope := s
    inReturnPosition := isReturned above
    text := o.words t
    location := o.location t }

/-- Whether a node counts as a parameter. -/
def isParameter (t : Tree) : Bool :=
  t.isKind .parameter || t.isKind .spreadParameter

/-- The method that a declaration makes. -/
def methodOf (o : Origin) (s : Scope) (t : Tree) : MethodDecl :=
  { name := ((t.part? .name).map o.words).getD ""
    class? := s.class?
    annotations := annotations o t
    modifiers := ((t.child? .modifiers).map o.words).getD ""
    parameterCount := ((t.part? .parameters).map (·.named.countP isParameter)).getD 0
    location := o.location t }

/-- The file with the name of `t` declared to have the type of `declaration`. -/
def declare (o : Origin) (s : Scope) (declaration : Tree) (f : SourceFile) (t : Tree) :
    SourceFile :=
  match t.part? .name, declaration.part? .type with
  | some name, some type => f.declare s (o.words name) (o.compact type)
  | _, _ => f

/-- The type that the variable below `above` is declared to have, for what
it is set to. -/
def targetType? (o : Origin) : List Tree → Option String
  | declarator :: declaration :: _ =>
      if declarator.isKind .declarator then (declaration.part? .type).map o.compact else none
  | _ => none

/-- The lambda that a node is. -/
def lambdaOf (o : Origin) (s : Scope) (above : List Tree) (t : Tree) : Lambda :=
  ⟨s, targetType? o above, isReturned above, o.location t⟩

/-- What a member reference refers to the member of. -/
def referred (o : Origin) (s : Scope) (t : Tree) : Expr :=
  match t.kind? with
  | some .typeName => .name (o.words t)
  | some .qualifiedTypeName => .qualified (o.compact t)
  | _ => expr o s t

/-- The member that a reference names, with a word of its own for a
constructor. -/
def memberName (o : Origin) (parts : List Tree) : String :=
  match parts.getLast? with
  | some last => if 1 < parts.length && last.isKind .identifier then o.words last else "new"
  | none => "new"

/-- The file with a member reference. -/
def addReference (o : Origin) (s : Scope) (f : SourceFile) (t : Tree) : SourceFile :=
  match t.named with
  | [] => f
  | target :: rest =>
      let r : MemberReference :=
        ⟨some (referred o s target), memberName o (target :: rest), s, o.location t⟩
      { f with references := f.references.push r }

/-- The file with a call. -/
def addCall (o : Origin) (s : Scope) (f : SourceFile) (t : Tree) : SourceFile :=
  match expr o s t with
  | .call c => { f with calls := f.calls.push c }
  | _ => f

/-- What a node of a Java file adds, and the scope of its parts. -/
def enter (o : Origin) (s : Scope) (above : List Tree) (f : SourceFile) (t : Tree) :
    Entry SourceFile :=
  match t.kind? with
  | some .packageHeader => .closed (addPackage o f t)
  | some .importHeader => .closed (addImport o f t)
  | some .classDeclaration | some .interfaceDeclaration | some .enumDeclaration
  | some .markerDeclaration | some .recordDeclaration =>
      .within (f.addClass (classOf o f s t)) (.ofClass f.classes.size)
  | some .method => .within (f.addMethod (methodOf o s t)) (s.inMethod f.methods.size)
  | some .parameter => .within (declare o s t f t) s
  | some .variables => .within ((t.childrenOf .declarator).foldl (declare o s t) f) s
  | some .call => .within (addCall o s f t) s
  | some .creation =>
      if (t.child? .classBody).isSome then
        ⟨f.addClass (anonymousOf o s above t), fun u =>
          if u.role? == some .arguments then some s
          else if u.isKind .classBody then some (.ofClass f.classes.size)
          else none⟩
      else .within f s
  | some .lambda =>
      .within { f with lambdas := f.lambdas.push (lambdaOf o s above t) } s
  | some .reference => .within (addReference o s f t) s
  | _ => .within f s

/-- The source file that the tree of a text holds. -/
def ofTree (o : Origin) (t : Tree) : SourceFile :=
  walk (enter o) .file [] (.empty o.path .java) t

end Java

end Code

end AndroidLint
