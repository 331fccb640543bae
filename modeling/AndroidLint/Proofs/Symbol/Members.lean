/-
Members — where a member is looked for, and the names it is found by.

A name without a receiver is looked for in three places: among what is
imported in the file, in the classes around, and at the top level of the
package.  A name on an expression is looked for above the type of
the expression.

Each search asks types for a method of the name, so what is found has the
name it was looked for by; an import alone may give a member another name
than its own.  `name_of_call?` says this of calls.
-/
import AndroidLint.Symbol.Index

namespace AndroidLint

namespace Symbol

open Code (SourceFile ClassId Call Import simpleName)

namespace TypeTable

/-- What is found above a type has the name that was asked for. -/
theorem name_of_member? {table : TypeTable} {owner name : String} {m : Member}
    (found : table.member? owner name = some m) : m.name = name := by
  rw [member?] at found
  obtain ⟨t, -, ht⟩ := List.exists_of_findSome?_eq_some found
  obtain ⟨method, hmethod, rfl⟩ := Option.map_eq_some_iff.mp ht
  rw [TypeSymbol.method?] at hmethod
  simpa [TypeSymbol.member] using List.find?_some hmethod

end TypeTable

namespace Index

/-! ## Where a name without a receiver is looked for -/

/-- The member that an import makes visible by a name, spelled out or with a
star. -/
def imported? (x : Index) (f : SourceFile) (name : String) : Option Member :=
  ((importsOf f name).findSome? x.importedMember?).orElse fun _ =>
    x.memberAmong? ((wildcards f).filter x.types.knows) name

/-- The member of a name that the classes around have. -/
def around? (x : Index) (f : SourceFile) (name : String) (c? : Option ClassId) : Option Member :=
  x.memberAmong? (x.scopeTypes f c?) name

/-- The function of a name at the top level of the file's package. -/
def topLevel? (x : Index) (f : SourceFile) (name : String) : Option Member :=
  x.memberAmong? (x.facadesIn (f.package?.getD "")) name

theorem unqualified?_eq (x : Index) (f : SourceFile) (name : String) (c? : Option ClassId) :
    x.unqualified? f name c? =
      (x.imported? f name).orElse fun _ =>
        (x.around? f name c?).orElse fun _ => x.topLevel? f name := by
  rw [unqualified?, imported?]
  cases (importsOf f name).findSome? x.importedMember? with
  | some m => rfl
  | none => rfl

/-! ## The names of what is found -/

/-- `x.Aliased f name m`: an import of the file spells the member out and
calls it by the name. -/
def Aliased (x : Index) (f : SourceFile) (name : String) (m : Member) : Prop :=
  ∃ i ∈ f.imports, i.isWildcard = false ∧ i.alias? = some name ∧ x.importedMember? i.path = some m

section Names

variable {x : Index} {f : SourceFile} {name : String} {m : Member}

theorem name_of_memberAmong? {owners : List String}
    (found : x.memberAmong? owners name = some m) : m.name = name := by
  rw [memberAmong?] at found
  obtain ⟨owner, -, howner⟩ := List.exists_of_findSome?_eq_some found
  exact TypeTable.name_of_member? howner

/-- The member that an import spells out is called as the path ends. -/
theorem name_of_importedMember? {path : String} (found : x.importedMember? path = some m) :
    m.name = simpleName path := by
  rw [importedMember?] at found
  obtain ⟨owner, -, howner⟩ := Option.bind_eq_some_iff.mp found
  exact TypeTable.name_of_member? howner

theorem mem_importsOf {path : String} :
    path ∈ importsOf f name ↔
      ∃ i ∈ f.imports, i.isWildcard = false ∧ i.visibleName = name ∧ i.path = path := by
  simp [importsOf, and_assoc]

/-- An import that makes a member visible by a name other than its own gives
it that name. -/
theorem name_of_imported? (found : x.imported? f name = some m) :
    m.name = name ∨ x.Aliased f name m := by
  rw [imported?, Option.orElse_eq_or, Option.or_eq_some_iff] at found
  rcases found with spelled | ⟨-, starred⟩
  · obtain ⟨path, mem, hpath⟩ := List.exists_of_findSome?_eq_some spelled
    obtain ⟨i, hi, single, visible, rfl⟩ := mem_importsOf.mp mem
    cases given : i.alias? with
    | none =>
        rw [Import.visibleName, given, Option.getD_none] at visible
        exact .inl ((name_of_importedMember? hpath).trans visible)
    | some other =>
        rw [Import.visibleName, given, Option.getD_some] at visible
        exact .inr ⟨i, hi, single, visible ▸ given, hpath⟩
  · exact .inl (name_of_memberAmong? starred)

theorem name_of_unqualified? {c? : Option ClassId} (found : x.unqualified? f name c? = some m) :
    m.name = name ∨ x.Aliased f name m := by
  rw [unqualified?_eq] at found
  simp only [Option.orElse_eq_or, Option.or_eq_some_iff] at found
  rcases found with imported | ⟨-, around | ⟨-, topLevel⟩⟩
  · exact name_of_imported? imported
  · exact .inl (name_of_memberAmong? around)
  · exact .inl (name_of_memberAmong? topLevel)

/-- A call goes to a member of the name that is called, unless the name is
one that an import gave it; then the call is made on nothing. -/
theorem name_of_call? {c : Call} (found : x.call? f c = some m) :
    m.name = c.methodName ∨ (c.receiver? = none ∧ x.Aliased f c.methodName m) := by
  obtain ⟨name, receiver?, arguments, s, place⟩ := c
  cases receiver? with
  | none =>
      rw [call?] at found
      exact (name_of_unqualified? found).imp_right fun aliased => ⟨rfl, aliased⟩
  | some receiver =>
      refine .inl ?_
      cases receiver with
      | this =>
          rw [call?] at found
          exact name_of_memberAmong? found
      | _ =>
          rw [call?] at found
          · obtain ⟨type, -, htype⟩ := Option.bind_eq_some_iff.mp found
            exact TypeTable.name_of_member? htype
          · rintro ⟨⟩

end Names

end Index

end Symbol

end AndroidLint
