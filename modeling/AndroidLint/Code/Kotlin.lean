/-
Kotlin — the source file that the tree of a Kotlin file holds.

Functions and properties outside every class belong to a facade, a class
named after the file that is made where the first of them stands.  The type
a returned lambda is turned into is the one that its function is declared
to return, so these types are kept while reading.
-/
import AndroidLint.Code.Origin
import AndroidLint.Text.Capital

namespace AndroidLint

namespace Code

namespace Kotlin

open Syntax (Tree Kind)

/-- The file as far as it is read, its facade, and the types that its
functions are declared to return. -/
structure Draft where
  file : SourceFile
  facade? : Option ClassId
  returnTypes : List (MethodId × String)

/-- Whether a node is a type. -/
def isType (t : Tree) : Bool :=
  t.isKind .userType || t.isKind .nullableType || t.isKind .functionType || t.isKind .typeName

/-- Whether a capital of ASCII comes first. -/
def isCapitalized (name : String) : Bool :=
  name.toList.head?.any Char.isUpper

mutual

/-- Whether a tree is names with dots between. -/
def isDotted : Tree → Bool
  | .word .. => false
  | .node k _ _ ts =>
      match k with
      | .identifier => true
      | .navigation => allDotted ts
      | .navigationSuffix =>
          !ts.any (Tree.isWord "::") && ts.all fun t => !t.isNamed || t.isKind .identifier
      | _ => false

/-- Whether trees in a row are all names with dots between. -/
def allDotted : List Tree → Bool
  | [] => true
  | t :: ts => isDotted t && allDotted ts

end

/-- The name that a call calls: a name, or the last one of a member. -/
def calledName? (o : Origin) (t : Tree) : Option String :=
  match t.named.head? with
  | none => none
  | some callee =>
      match callee.kind? with
      | some .identifier => some (o.words callee)
      | some .navigation =>
          ((callee.child? .navigationSuffix).bind (·.child? .identifier)).map o.words
      | _ => none

mutual

/-- The expression that a tree is, met in a scope. -/
def expr (o : Origin) (s : Scope) : Tree → Expr
  | .word .. => .other
  | .node k r p ts =>
      match k with
      | .identifier => .name (o.excerpt p)
      | .navigation =>
          if isDotted (.node k r p ts) then .qualified (Text.compact (o.excerpt p)) else .other
      | .string => .stringLiteral
      | .literal => .literal
      | .this => .this
      | .call =>
          match calledName? o (.node k r p ts), ts.any (Tree.isKind .callSuffix) with
          | some name, true => .call ⟨name, receiver? o s ts, arguments o s ts, s, o.place p⟩
          | _, _ => .other
      | .parenthesized => first o s ts
      | _ => .other

/-- The first node as an expression. -/
def first (o : Origin) (s : Scope) : List Tree → Expr
  | [] => .other
  | .word .. :: ts => first o s ts
  | .node k r p us :: _ => expr o s (.node k r p us)

/-- What a call is made on. -/
def receiver? (o : Origin) (s : Scope) : List Tree → Option Expr
  | [] => none
  | .word .. :: ts => receiver? o s ts
  | .node k _ _ us :: _ => if k == .navigation then some (first o s us) else none

/-- What a call is given, a lambda behind it last. -/
def arguments (o : Origin) (s : Scope) : List Tree → List Expr
  | [] => []
  | .word .. :: ts => arguments o s ts
  | .node k _ _ us :: ts =>
      if k == .callSuffix then
        listed o s us ++ if us.any (Tree.isKind .annotatedLambda) then [.other] else []
      else arguments o s ts

/-- The arguments between the parentheses of a call. -/
def listed (o : Origin) (s : Scope) : List Tree → List Expr
  | [] => []
  | .word .. :: ts => listed o s ts
  | .node k _ _ us :: ts => if k == .arguments then values o s us else listed o s ts

/-- The values of arguments in a row. -/
def values (o : Origin) (s : Scope) : List Tree → List Expr
  | [] => []
  | .word .. :: ts => values o s ts
  | .node k _ _ us :: ts =>
      if k == .argument then (last? o s us).toList ++ values o s ts else values o s ts

/-- The last node as an expression. -/
def last? (o : Origin) (s : Scope) : List Tree → Option Expr
  | [] => none
  | .word .. :: ts => last? o s ts
  | .node k r p us :: ts =>
      (last? o s ts).orElse fun _ => some (expr o s (.node k r p us))

end

/-- The annotation that a node is. -/
def annotation? (o : Origin) (t : Tree) : Option Annotation :=
  (t.named.find? fun u => u.isKind .userType || u.isKind .constructorInvocation).bind fun target =>
    if target.isKind .userType then some ⟨o.compact target, none⟩
    else
      (target.child? .userType).map fun name =>
        let value := ((target.child? .arguments).bind (·.child? .argument)).bind
          (·.child? .string)
        ⟨o.compact name, value.map fun v => unquote (o.words v)⟩

/-- The annotations among the modifiers of a declaration. -/
def annotations (o : Origin) (t : Tree) : List Annotation :=
  match t.child? .modifiers with
  | none => []
  | some ms => (ms.childrenOf .annotationUse).filterMap (annotation? o)

/-- The draft with an import. -/
def addImport (o : Origin) (d : Draft) (t : Tree) : Draft :=
  match t.child? .path with
  | none => d
  | some name =>
      let alias? := ((t.child? .importAlias).bind (·.named.head?)).map o.words
      let i : Import :=
        ⟨o.compact name, alias?, (t.child? .wildcard).isSome, false, o.location t⟩
      { d with file := { d.file with imports := d.file.imports.push i } }

/-- Whether what stands below `above` is returned, by a word or as the
body of a function. -/
def isReturned (above : List Tree) : Bool :=
  match above.head? with
  | none => false
  | some parent =>
      (parent.isKind .jump && parent.children.head?.any (Tree.isWord "return"))
        || (parent.isKind .functionBody && parent.hasWord "=")

/-- What a declaration makes its class. -/
def classKind (o : Origin) (t : Tree) : ClassKind :=
  match t.kind? with
  | some .objectLiteral => .anonymous
  | some .objectDeclaration | some .companionObject => .object
  | _ =>
      let words := (((t.child? .modifiers).map (·.childrenOf .modifier)).getD []).map o.words
      if t.hasWord "interface" then .interface
      else if words.contains "enum" then .enum
      else if words.contains "annotation" then .marker
      else .plain

/-- The name of a class from outside its package: below the class it lies
in, unless that has no name or stands for the file. -/
def qualifiedName (f : SourceFile) (s : Scope) (kind : ClassKind) (name : String) : String :=
  if kind == .anonymous then ""
  else match s.class?.bind f.class? with
    | some outer =>
        if outer.kind == .anonymous || outer.kind == .facade then f.qualify name
        else outer.qualifiedName ++ "." ++ name
    | none => f.qualify name

/-- The types that a declaration extends through a constructor. -/
def constructed (o : Origin) (t : Tree) : List String :=
  (t.childrenOf .delegationSpecifier).filterMap fun u =>
    match u.named.head? with
    | some v =>
        if v.isKind .constructorInvocation then (v.child? .userType).map o.compact else none
    | none => none

/-- The types that a declaration extends by name alone. -/
def extended (o : Origin) (t : Tree) : List String :=
  (t.childrenOf .delegationSpecifier).filterMap fun u =>
    match u.named.head? with
    | some v =>
        if v.isKind .constructorInvocation then none
        else if v.isKind .explicitDelegation then (v.child? .userType).map o.compact
        else some (o.compact v)
    | none => none

/-- The class that a declaration makes.  The types of an anonymous class
are in one list; the others have as super class the first type whose
constructor is called. -/
def classOf (o : Origin) (f : SourceFile) (s : Scope) (above : List Tree) (t : Tree) :
    ClassDecl :=
  let kind := classKind o t
  let name := ((t.child? .typeName).map o.words).getD (if kind == .object then "Companion" else "")
  let called := constructed o t
  let plain := extended o t
  let supers :=
    if kind == .anonymous then
      ((called ++ plain).head?, (called ++ plain).tail)
    else (called.head?, plain)
  { name := name
    qualifiedName := qualifiedName f s kind name
    kind := kind
    superClass? := supers.1
    interfaces := supers.2
    annotations := annotations o t
    scope := s
    inReturnPosition := isReturned above
    text := o.words t
    location := o.location t }

/-- The name of the facade of a file. -/
def facadeName (path : FilePath) : String :=
  Text.capitalized (path.stem?.getD "") ++ "Kt"

/-- The facade of a file. -/
def facadeOf (f : SourceFile) : ClassDecl :=
  let name := facadeName f.path
  { name := name
    qualifiedName := f.qualify name
    kind := .facade
    superClass? := none
    interfaces := []
    annotations := []
    scope := .file
    inReturnPosition := false
    text := ""
    location := f.location }

/-- The draft and the scope for a function or a property met in a scope:
outside every class that is the scope of the facade. -/
def inFacade (d : Draft) (s : Scope) : Draft × Scope :=
  match s.class?, d.facade? with
  | some _, _ => (d, s)
  | none, some c => (d, { s with class? := some c })
  | none, none =>
      let c := d.file.classes.size
      ({ d with file := d.file.addClass (facadeOf d.file), facade? := some c },
        { s with class? := some c })

/-- The method that a function makes. -/
def methodOf (o : Origin) (s : Scope) (t : Tree) : MethodDecl :=
  { name := ((t.child? .identifier).map o.words).getD ""
    class? := s.class?
    annotations := annotations o t
    modifiers := ((t.child? .modifiers).map o.words).getD ""
    parameterCount := ((t.child? .parameters).map (·.childrenOf .parameter |>.length)).getD 0
    location := o.location t }

/-- The type that a function is declared to return: it stands behind the
parameters. -/
def returnType? (o : Origin) (t : Tree) : Option String :=
  ((t.named.dropWhile (!·.isKind .parameters)).find? isType).map o.compact

/-- The draft with a method. -/
def addMethod (o : Origin) (d : Draft) (s : Scope) (t : Tree) : Draft :=
  { d with
    file := d.file.addMethod (methodOf o s t)
    returnTypes := (((returnType? o t).map fun r => (d.file.methods.size, r)).toList)
      ++ d.returnTypes }

/-- The type that stands behind a name. -/
def writtenType? (o : Origin) (t : Tree) : Option String :=
  (t.named.find? isType).map o.compact

/-- The type of a value that shows it: a string, or what a call of a
capitalized name makes. -/
def shownType? (o : Origin) (t : Tree) : Option String :=
  match t.kind? with
  | some .string => some "String"
  | some .call =>
      ((t.named.head?.filter (·.isKind .identifier)).map o.words).filter isCapitalized
  | _ => none

/-- The draft with a name declared to have a type, if both are there. -/
def declare (o : Origin) (d : Draft) (s : Scope) (name? : Option Tree) (type? : Option String) :
    Draft :=
  match name?, type? with
  | some name, some type => { d with file := d.file.declare s (o.words name) type }
  | _, _ => d

/-- The draft with the variable of a property declared: by the type behind
it, or else by the value it is set to. -/
def declareProperty (o : Origin) (d : Draft) (s : Scope) (t : Tree) : Draft :=
  match t.child? .variable with
  | none => d
  | some v =>
      let value? := (t.named.dropWhile (!·.isKind .variable))[1]?
      declare o d s (v.child? .identifier)
        ((writtenType? o v).orElse fun _ => value?.bind (shownType? o))

/-- The type that a lambda behind a call is turned into: what is called, if
it is capitalized and takes nothing but the lambda. -/
def convertedType? (o : Origin) (suffix call : Tree) : Option String :=
  if suffix.isKind .callSuffix && (suffix.child? .arguments).isNone && call.isKind .call then
    ((call.named.head?.filter fun c => c.isKind .identifier || c.isKind .navigation).map
      o.compact).filter fun name => isCapitalized (simpleName name)
  else none

/-- The type that a lambda below `above` is turned into, if that is written
in the file. -/
def targetType? (o : Origin) (d : Draft) (s : Scope) (above : List Tree) : Option String :=
  match above with
  | [] => none
  | parent :: rest =>
      if parent.isKind .annotatedLambda then
        match rest with
        | suffix :: call :: _ => convertedType? o suffix call
        | _ => none
      else if parent.isKind .property then
        (parent.child? .variable).bind (writtenType? o)
      else if isReturned above then s.method?.bind fun m => d.returnTypes.lookup m
      else none

/-- The draft with a lambda. -/
def addLambda (o : Origin) (d : Draft) (s : Scope) (above : List Tree) (t : Tree) : Draft :=
  let l : Lambda := ⟨s, targetType? o d s above, isReturned above, o.location t⟩
  { d with file := { d.file with lambdas := d.file.lambdas.push l } }

/-- The draft with a call. -/
def addCall (o : Origin) (d : Draft) (s : Scope) (t : Tree) : Draft :=
  match expr o s t with
  | .call c => { d with file := { d.file with calls := d.file.calls.push c } }
  | _ => d

/-- The draft with a member reference. -/
def addReference (o : Origin) (d : Draft) (s : Scope) (t : Tree) (receiver? : Option Expr)
    (member : Tree) : Draft :=
  let r : MemberReference := ⟨receiver?, o.words member, s, o.location t⟩
  { d with file := { d.file with references := d.file.references.push r } }

/-- The draft with the reference that a node is, unless it names no
member. -/
def addPlainReference (o : Origin) (d : Draft) (s : Scope) (t : Tree) : Draft :=
  match (t.childrenOf .identifier).getLast? with
  | none => d
  | some member =>
      let receiver? := (t.named.find? isType).map fun u =>
        let name := o.compact u
        if name.contains '.' then Expr.qualified name else Expr.name name
      addReference o d s t receiver? member

/-- The draft with the reference that a navigation with two colons is. -/
def addMemberReference (o : Origin) (d : Draft) (s : Scope) (t : Tree) : Draft :=
  match (t.child? .navigationSuffix).filter (·.hasWord "::") with
  | none => d
  | some suffix =>
      match suffix.child? .identifier with
      | none => d
      | some member =>
          let target? := t.named.head?.filter (!·.isKind .navigationSuffix)
          addReference o d s t (target?.map (expr o s)) member

/-- What a node of a Kotlin file adds, and the scope of its parts. -/
def enter (o : Origin) (s : Scope) (above : List Tree) (d : Draft) (t : Tree) : Entry Draft :=
  match t.kind? with
  | some .packageHeader =>
      .closed { d with file := { d.file with
        package? := ((t.child? .path).map o.compact).orElse fun _ => d.file.package? } }
  | some .importHeader => .closed (addImport o d t)
  | some .classDeclaration | some .objectDeclaration | some .companionObject
  | some .objectLiteral =>
      .within { d with file := d.file.addClass (classOf o d.file s above t) }
        (.ofClass d.file.classes.size)
  | some .method =>
      let (d, s) := inFacade d s
      .within (addMethod o d s t) (s.inMethod d.file.methods.size)
  | some .property =>
      let (d, s) := inFacade d s
      .within (declareProperty o d s t) s
  | some .parameter => .within (declare o d s (t.child? .identifier) (writtenType? o t)) s
  | some .call => .within (addCall o d s t) s
  | some .reference => .within (addPlainReference o d s t) s
  | some .navigation => .within (addMemberReference o d s t) s
  | some .lambda | some .anonymousFunction => .within (addLambda o d s above t) s
  | _ => .within d s

/-- The source file that the tree of a text holds. -/
def ofTree (o : Origin) (t : Tree) : SourceFile :=
  (walk (enter o) .file [] ⟨.empty o.path .kotlin, none, []⟩ t).file

end Kotlin

end Code

end AndroidLint
