/-
Agreement — indexes that agree give the same answers.

Two tables are alike if they find the same type by every name; how their
entries are ordered, and what lies below an entry of the same name, does
not count.  Two indexes agree if their tables are alike, if each package
has the same annotations in both, and if its facades offer the same
members.  No more is asked of an index by any query, so resolvers of
indexes that agree answer alike: this is `agree_resolver`.

Expressions and calls are told apart by what they are made of, and the two
queries about them go through both at once.
-/
import AndroidLint.Proofs.Symbol.BreadthFirst
import AndroidLint.Symbol.Index

namespace AndroidLint

namespace Symbol

open Code (SourceFile Scope Expr Call MemberReference ClassDecl ClassId MethodDecl)

/-! ## Tables that are alike -/

namespace Walk

variable {table table' : TypeTable}

theorem turn_congr (alike : table.find? = table'.find?) (w : Walk) :
    w.turn table = w.turn table' := by
  rcases w with ⟨_ | ⟨name, queue⟩, seen⟩
  · rfl
  · rw [turn, turn, alike]

/-- A walk goes the same way in tables that are alike. -/
theorem run_congr (alike : table.find? = table'.find?) (w : Walk) :
    w.run table = w.run table' := by
  fun_induction run table w with
  | case1 w ended =>
      obtain ⟨queue, seen⟩ := w
      have hqueue : queue = [] := turn_eq_none ended
      rw [hqueue, run_nil]
  | case2 w t? next turned ih =>
      rw [turn_congr alike] at turned
      rw [run_of_turn turned, ih]

end Walk

namespace TypeTable

variable {table table' : TypeTable}

theorem knows_congr (alike : table.find? = table'.find?) : table.knows = table'.knows := by
  funext name
  rw [knows, knows, alike]

theorem walk_congr (alike : table.find? = table'.find?) : table.walk = table'.walk := by
  funext start
  exact Walk.run_congr alike (Walk.start start)

theorem member?_congr (alike : table.find? = table'.find?) : table.member? = table'.member? := by
  funext owner name
  rw [member?, member?, walk_congr alike]

end TypeTable

/-! ## The same answers -/

/-- Resolvers that cannot be told apart by what they are asked. -/
structure Resolver.SameAnswers (r r' : Resolver) : Prop where
  find? : ∀ name, r.types.find? name = r'.types.find? name
  typeName? : ∀ f written, r.typeName? f written = r'.typeName? f written
  typeOf? : ∀ f s e, r.typeOf? f s e = r'.typeOf? f s e
  call? : ∀ f c, r.call? f c = r'.call? f c
  reference? : ∀ f m, r.reference? f m = r'.reference? f m
  packageAnnotations : ∀ package, r.packageAnnotations package = r'.packageAnnotations package
  annotations : ∀ f as, r.annotations f as = r'.annotations f as
  superTypes : ∀ f c, r.superTypes f c = r'.superTypes f c
  superMember? : ∀ f m, r.superMember? f m = r'.superMember? f m

namespace Index

/-- Indexes of which the queries see the same. -/
structure Agree (x y : Index) : Prop where
  types : x.types.find? = y.types.find?
  packages : ∀ package, x.packageAnnotations package = y.packageAnnotations package
  facades : ∀ package name,
    x.memberAmong? (x.facadesIn package) name = y.memberAmong? (y.facadesIn package) name

namespace Agree

variable {x y : Index}

theorem typeName? (h : Agree x y) : x.typeName? = y.typeName? := by
  funext f written
  rw [Index.typeName?, Index.typeName?, TypeTable.knows_congr h.types]

theorem memberAmong? (h : Agree x y) : x.memberAmong? = y.memberAmong? := by
  funext owners name
  rw [Index.memberAmong?, Index.memberAmong?, TypeTable.member?_congr h.types]

theorem importedMember? (h : Agree x y) : x.importedMember? = y.importedMember? := by
  funext path
  rw [Index.importedMember?, Index.importedMember?, TypeTable.member?_congr h.types]

theorem scopeTypes (h : Agree x y) : x.scopeTypes = y.scopeTypes := by
  funext f c?
  have hscope : x.scopeType? f = y.scopeType? f := by
    funext c
    rw [scopeType?, scopeType?, h.typeName?]
  rw [Index.scopeTypes, Index.scopeTypes, hscope]

theorem unqualified? (h : Agree x y) : x.unqualified? = y.unqualified? := by
  funext f name c?
  rw [Index.unqualified?, Index.unqualified?, h.importedMember?, h.facades, h.memberAmong?,
    h.scopeTypes, TypeTable.knows_congr h.types]

theorem nameType? (h : Agree x y) : x.nameType? = y.nameType? := by
  funext f s name
  rw [Index.nameType?, Index.nameType?, h.typeName?]

mutual

theorem typeOf? (h : Agree x y) (f : SourceFile) (s : Scope) :
    ∀ e : Expr, x.typeOf? f s e = y.typeOf? f s e
  | .stringLiteral => by rw [Index.typeOf?, Index.typeOf?]
  | .name _ => by rw [Index.typeOf?, Index.typeOf?, h.nameType?]
  | .qualified _ => by
      rw [Index.typeOf?, Index.typeOf?, h.typeName?, TypeTable.knows_congr h.types]
  | .call c => by rw [Index.typeOf?, Index.typeOf?, h.call? f c]
  | .this => by rw [Index.typeOf?, Index.typeOf?]
  | .literal => by rw [Index.typeOf?, Index.typeOf?]
  | .other => by rw [Index.typeOf?, Index.typeOf?]

theorem call? (h : Agree x y) (f : SourceFile) : ∀ c : Call, x.call? f c = y.call? f c
  | ⟨name, none, _, s, _⟩ => by rw [Index.call?, Index.call?, h.unqualified?]
  | ⟨name, some receiver, arguments, s, place⟩ => by
      have htype := h.typeOf? f s receiver
      cases receiver with
      | this => rw [Index.call?, Index.call?, h.memberAmong?, h.scopeTypes]
      | _ => simp only [Index.call?, htype, TypeTable.member?_congr h.types]

end

theorem reference? (h : Agree x y) (f : SourceFile) (m : MemberReference) :
    x.reference? f m = y.reference? f m := by
  have hmembers : ∀ receiver : Expr,
      (x.typeOf? f m.scope receiver).bind (x.types.member? · m.memberName) =
        (y.typeOf? f m.scope receiver).bind (y.types.member? · m.memberName) := by
    intro receiver
    rw [h.typeOf? f m.scope receiver, TypeTable.member?_congr h.types]
  simp only [Index.reference?, h.unqualified?, hmembers]

theorem annotations (h : Agree x y) : x.resolver.annotations = y.resolver.annotations := by
  funext f as
  rw [Resolver.annotations, Resolver.annotations, resolver_typeName?, resolver_typeName?,
    h.typeName?]

theorem superTypes (h : Agree x y) : x.resolver.superTypes = y.resolver.superTypes := by
  funext f c
  rw [Resolver.superTypes, Resolver.superTypes, resolver_typeName?, resolver_typeName?,
    h.typeName?]

theorem superMember? (h : Agree x y) (f : SourceFile) (m : MethodDecl) :
    x.resolver.superMember? f m = y.resolver.superMember? f m := by
  have hfrom : x.resolver.overriddenFrom? m = y.resolver.overriddenFrom? m := by
    funext start
    rw [Resolver.overriddenFrom?, Resolver.overriddenFrom?, resolver_types, resolver_types,
      TypeTable.walk_congr h.types]
  rw [Resolver.superMember?, Resolver.superMember?, h.superTypes, hfrom]

end Agree

/-- Indexes that agree cannot be told apart by any query. -/
theorem agree_resolver {x y : Index} (h : Agree x y) :
    Resolver.SameAnswers x.resolver y.resolver where
  find? := by simp [h.types]
  typeName? := by simp [h.typeName?]
  typeOf? := by simpa using h.typeOf?
  call? := by simpa using h.call?
  reference? := by simpa using h.reference?
  packageAnnotations := by simpa using h.packages
  annotations := by simp [h.annotations]
  superTypes := by simp [h.superTypes]
  superMember? := h.superMember?

end Index

end Symbol

end AndroidLint
