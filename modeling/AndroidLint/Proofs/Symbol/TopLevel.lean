/-
TopLevel — functions at the top level of a package.

A facade stands for what a Kotlin file declares outside its classes.  The index
lists the facades of the files that say their package, each with the package
(`mem_facadesIn`), and a name that neither an import nor a class around
explains is looked for in the facades of the package, one after the other.  So
any function at the top level of a package is found from everywhere in it, or
one of the same name from another of its facades (`call?_topLevel`).

A file without a package has its facade in no list.  The files beside it look
in the list of the empty name and find nothing there, unless a file says that
its package is called so.
-/
import AndroidLint.Proofs.Code.Facade
import AndroidLint.Proofs.Symbol.Build
import AndroidLint.Proofs.Symbol.Members
import AndroidLint.Proofs.Symbol.Nearest

namespace AndroidLint

namespace Symbol

open Code (SourceFile ClassDecl ClassId MethodDecl Call Language plainFacades_read)

namespace Index

/-! ## The facades of a package -/

/-- `IsFacade files g id d`: the class `d` of the file `g` is its facade. -/
structure IsFacade (files : List SourceFile) (g : SourceFile) (id : ClassId)
    (d : ClassDecl) : Prop where
  file : g ∈ files
  found : g.class? id = some d
  kind : d.kind = .facade

section Facades

variable {files : List SourceFile} {g : SourceFile} {id : ClassId} {d : ClassDecl}

theorem IsFacade.isNamed (facade : IsFacade files g id d) : d.isNamed := by
  rw [ClassDecl.isNamed, facade.kind]
  rfl

theorem exists_isFacade (file : g ∈ files) (kind : (g.class? id).any (·.kind == .facade) = true) :
    ∃ d, IsFacade files g id d := by
  rw [Option.any_eq_true] at kind
  obtain ⟨d, found, kind⟩ := kind
  exact ⟨d, file, found, beq_iff_eq.mp kind⟩

theorem mem_facadeOf {package qualifiedName : String} :
    (package, qualifiedName) ∈ facadeOf g d ↔
      g.package? = some package ∧ d.kind = .facade ∧ d.qualifiedName = qualifiedName := by
  rw [facadeOf]
  split
  case h_1 own kind hpackage hkind =>
    rw [hpackage, hkind, List.mem_singleton, Prod.mk.injEq]
    simp [eq_comm]
  case h_2 other =>
    constructor
    · intro mem
      cases mem
    · rintro ⟨hpackage, hkind, -⟩
      exact absurd hkind (other package hpackage)

/-- The index lists a facade in its package, if its file says one. -/
theorem mem_facadesIn {package qualifiedName : String} :
    qualifiedName ∈ (build files).facadesIn package ↔
      ∃ g id d, IsFacade files g id d ∧ g.package? = some package
        ∧ d.qualifiedName = qualifiedName := by
  rw [facadesIn, facades_build]
  simp only [List.mem_map, List.mem_filter, beq_iff_eq, List.mem_flatMap, facadesOf, Prod.exists,
    exists_eq_right, exists_and_right]
  constructor
  · rintro ⟨g, hg, d, ⟨id, mem⟩, listed⟩
    obtain ⟨hpackage, kind, name⟩ := mem_facadeOf.mp listed
    exact ⟨g, id, d, ⟨hg, (mem_namedClasses.mp mem).1, kind⟩, hpackage, name⟩
  · rintro ⟨g, id, d, facade, hpackage, name⟩
    exact ⟨g, facade.file, d, ⟨id, mem_namedClasses.mpr ⟨facade.found, facade.isNamed⟩⟩,
      mem_facadeOf.mpr ⟨hpackage, facade.kind, name⟩⟩

end Facades

/-! ## What a facade declares -/

section Functions

variable {files : List SourceFile} {g : SourceFile} {id : ClassId} {d : ClassDecl} {name : String}

theorem IsFacade.find?_build (distinct : (declaredNames files).Nodup)
    (facade : IsFacade files g id d) :
    (build files).types.find? d.qualifiedName = some (symbol (knownIn files) g d id) := by
  have declared : d.qualifiedName ∈ declaredNames files := by
    refine List.mem_map.mpr ⟨(d, id), List.mem_flatMap.mpr ⟨g, facade.file, ?_⟩, rfl⟩
    exact mem_namedClasses.mpr ⟨facade.found, facade.isNamed⟩
  exact find?_build_of_once facade.file facade.found facade.isNamed
    (List.count_eq_one_of_mem distinct declared)

theorem declares_symbol {known : Known} :
    (symbol known g d id).Declares name ↔ ∃ m ∈ g.methods, m.class? = some id ∧ m.name = name := by
  simp [TypeSymbol.Declares, TypeSymbol.Has, symbol, methodsOf, and_assoc]

/-- A function of a facade can be found from the facade. -/
theorem IsFacade.isSome_member? (distinct : (declaredNames files).Nodup)
    (facade : IsFacade files g id d)
    (declares : ∃ m ∈ g.methods, m.class? = some id ∧ m.name = name) :
    ((build files).types.member? d.qualifiedName name).isSome :=
  TypeTable.isSome_member?_iff.mpr ⟨symbol (knownIn files) g d id,
    ⟨facade.find?_build distinct, 0, .self⟩, declares_symbol.mpr declares⟩

/-- What is found from a facade that extends nothing is the first of its own
functions with the name. -/
theorem IsFacade.exists_function (distinct : (declaredNames files).Nodup)
    (facade : IsFacade files g id d) (top : d.superTypes = []) {m : Member}
    (found : (build files).types.member? d.qualifiedName name = some m) :
    ∃ o, FirstOf (fun o : MethodDecl => o.class? = some id ∧ o.name = name) g.methods.toList o
      ∧ m = ⟨d.qualifiedName, name, (build files).resolver.annotations g o.annotations, none⟩ := by
  have alone : (symbol (knownIn files) g d id).superTypes = [] := by
    rw [superTypes_symbol, top, List.filterMap_nil]
  rw [TypeTable.member?, TypeTable.walk_eq_singleton (facade.find?_build distinct) alone,
    List.findSome?_singleton, Option.map_eq_some_iff] at found
  obtain ⟨method, hmethod, rfl⟩ := found
  rw [TypeSymbol.method?, symbol, methodsOf, List.find?_map, Option.map_eq_some_iff] at hmethod
  obtain ⟨o, ho, rfl⟩ := hmethod
  rw [List.find?_filter] at ho
  have first := (find?_eq_some_iff_firstOf (P := fun o : MethodDecl =>
    o.class? = some id ∧ o.name = name) (by simp)).mp ho
  have named : o.name = name := first.property.2
  refine ⟨o, first, ?_⟩
  rw [TypeSymbol.member, named, Resolver.annotations, resolver_typeName?,
    typeName?_eq _ (knows_build files)]
  rfl

end Functions

/-! ## Names that nothing else explains -/

/-- `x.Unexplained u c`: the call is made on nothing, and neither an import of
the file nor a class around it has a member of its name. -/
structure Unexplained (x : Index) (u : SourceFile) (c : Call) : Prop where
  bare : c.receiver? = none
  notImported : x.imported? u c.methodName = none
  notAround : x.around? u c.methodName c.scope.class? = none

theorem unexplained_iff {x : Index} {u : SourceFile} {c : Call} :
    x.Unexplained u c ↔ c.receiver?.isNone ∧ (x.imported? u c.methodName).isNone
      ∧ (x.around? u c.methodName c.scope.class?).isNone := by
  simp only [Option.isNone_iff_eq_none]
  exact ⟨fun h => ⟨h.bare, h.notImported, h.notAround⟩, fun ⟨bare, imported, around⟩ =>
    ⟨bare, imported, around⟩⟩

instance {x : Index} {u : SourceFile} {c : Call} : Decidable (x.Unexplained u c) :=
  decidable_of_iff _ unexplained_iff.symm

theorem Unexplained.call?_eq {x : Index} {u : SourceFile} {c : Call} (h : x.Unexplained u c) :
    x.call? u c = x.topLevel? u c.methodName := by
  obtain ⟨name, receiver?, arguments, s, place⟩ := c
  obtain rfl : receiver? = none := h.bare
  rw [call?, unqualified?_eq, h.notImported, h.notAround]
  rfl

/-- `IsOffered files package? name m`: a facade of the package, or of the files
without one, has the member `m` by the name. -/
def IsOffered (files : List SourceFile) (package? : Option String) (name : String)
    (m : Member) : Prop :=
  ∃ g id d, IsFacade files g id d ∧ g.package? = package?
    ∧ (build files).types.member? d.qualifiedName name = some m

/-- `IsFunction files package? name m`: a facade of the package, or of the
files without one, declares functions with the name, and `m` is the first of
them. -/
def IsFunction (files : List SourceFile) (package? : Option String) (name : String)
    (m : Member) : Prop :=
  ∃ g id d o, IsFacade files g id d ∧ g.package? = package?
    ∧ FirstOf (fun o : MethodDecl => o.class? = some id ∧ o.name = name) g.methods.toList o
    ∧ m = ⟨d.qualifiedName, name, (build files).resolver.annotations g o.annotations, none⟩

section TopLevel

variable {files : List SourceFile} {u : SourceFile} {package? : Option String} {name : String}
  {m : Member}

/-- Where facades extend nothing, what one of them has it declares. -/
theorem IsOffered.isFunction (distinct : (declaredNames files).Nodup)
    (plain : ∀ g ∈ files, g.PlainFacades) (offered : IsOffered files package? name m) :
    IsFunction files package? name m := by
  obtain ⟨g, id, d, facade, hpackage, found⟩ := offered
  have top : d.superTypes = [] :=
    plain g facade.file d (Array.mem_of_getElem? facade.found) facade.kind
  obtain ⟨o, first, same⟩ := facade.exists_function distinct top found
  exact ⟨g, id, d, o, facade, hpackage, first, same⟩

/-- What is found at the top level a facade of the package has. -/
theorem isOffered_of_topLevel? (found : (build files).topLevel? u name = some m) :
    IsOffered files (some (u.package?.getD "")) name m := by
  obtain ⟨owner, mem, hm⟩ := List.exists_of_findSome?_eq_some found
  obtain ⟨g, id, d, facade, hpackage, rfl⟩ := mem_facadesIn.mp mem
  exact ⟨g, id, d, facade, hpackage, hm⟩

/-- A function of a facade is found in its package, if that has a name. -/
theorem exists_topLevel? (distinct : (declaredNames files).Nodup) {f : SourceFile} {id : ClassId}
    {d : ClassDecl} (facade : IsFacade files f id d)
    (declares : ∃ m ∈ f.methods, m.class? = some id ∧ m.name = name)
    (named : f.package? = some (u.package?.getD "")) :
    ∃ m, (build files).topLevel? u name = some m := by
  have listed : d.qualifiedName ∈ (build files).facadesIn (u.package?.getD "") :=
    mem_facadesIn.mpr ⟨f, id, d, facade, named, rfl⟩
  rw [← Option.isSome_iff_exists, topLevel?, memberAmong?, List.findSome?_isSome_iff]
  exact ⟨d.qualifiedName, listed, facade.isSome_member? distinct declares⟩

/-- Without a package nothing is found at the top level. -/
theorem topLevel?_eq_none (unnamed : u.package? = none)
    (others : ∀ g ∈ files, g.package? ≠ some "") : (build files).topLevel? u name = none := by
  rw [topLevel?, memberAmong?, List.findSome?_eq_none_iff, unnamed]
  intro owner mem
  obtain ⟨g, id, d, facade, hpackage, -⟩ := mem_facadesIn.mp mem
  exact absurd hpackage (others g facade.file)

end TopLevel

/-- **The functions of a package are found in its files, if the package has a
name.**  Let the classes of the files have different full names, and let a
facade declare a function.  A call of its name in a file of the same package
that neither an import nor a class around explains then goes to what a facade
of the package has by that name; where facades extend nothing, as in files
that are read, that is a function of the facade.  If the two files say no
package, the call goes nowhere. -/
theorem call?_topLevel {files : List SourceFile} (distinct : (declaredNames files).Nodup)
    {f : SourceFile} {id : ClassId} {d : ClassDecl} (facade : IsFacade files f id d)
    {u : SourceFile} (together : u.package? = f.package?) {c : Call}
    (declares : ∃ m ∈ f.methods, m.class? = some id ∧ m.name = c.methodName)
    (unexplained : (build files).Unexplained u c) :
    (u.package? ≠ none →
        ∃ m, (build files).call? u c = some m ∧ IsOffered files u.package? c.methodName m
          ∧ ((∀ g ∈ files, g.PlainFacades) → IsFunction files u.package? c.methodName m))
      ∧ (u.package? = none → (∀ g ∈ files, g.package? ≠ some "") →
          (build files).call? u c = none) := by
  rw [unexplained.call?_eq]
  refine ⟨fun named => ?_, topLevel?_eq_none⟩
  obtain ⟨package, hpackage⟩ := Option.ne_none_iff_exists'.mp named
  have own : some (u.package?.getD "") = u.package? := by
    rw [hpackage, Option.getD_some]
  obtain ⟨m, found⟩ := exists_topLevel? distinct facade declares (own.trans together).symm
  have offered : IsOffered files u.package? c.methodName m := own ▸ isOffered_of_topLevel? found
  exact ⟨m, found, offered, fun plain => offered.isFunction distinct plain⟩

/-! ## A function and a call of it -/

/-- A Kotlin file with a function, behind `header`. -/
def greeting (header : String) : SourceFile :=
  Language.kotlin.read ⟨"src/Greeting.kt"⟩ (header ++ "fun greet() \x7b\x7d\n")

/-- A Kotlin file that calls the function, behind `header`. -/
def start (header : String) : SourceFile :=
  Language.kotlin.read ⟨"src/Start.kt"⟩ (header ++ "fun main() \x7b\n  greet()\n\x7d\n")

/-- In a package the call goes to the function. -/
theorem call?_topLevel_greet :
    let f := greeting "package app\n\n"
    let u := start "package app\n\n"
    ∃ d, IsFacade [f, u] f 0 d ∧ ∃ c ∈ u.calls, (build [f, u]).Unexplained u c
      ∧ (∃ m ∈ f.methods, m.class? = some 0 ∧ m.name = c.methodName)
      ∧ ∃ m, (build [f, u]).call? u c = some m ∧ IsFunction [f, u] u.package? c.methodName m := by
  intro f u
  have facts : (declaredNames [f, u]).Nodup ∧ u.package? = f.package? ∧ u.package? ≠ none
      ∧ (f.class? 0).any (·.kind == .facade) = true
      ∧ ∃ c ∈ u.calls, (build [f, u]).Unexplained u c
        ∧ ∃ m ∈ f.methods, m.class? = some 0 ∧ m.name = c.methodName := by
    decide +kernel
  obtain ⟨distinct, together, named, kind, c, mem, unexplained, declares⟩ := facts
  obtain ⟨d, facade⟩ := exists_isFacade (List.mem_cons_self (a := f) (l := [u])) kind
  obtain ⟨m, found, -, function⟩ :=
    (call?_topLevel distinct facade together declares unexplained).1 named
  have plain : ∀ g ∈ [f, u], g.PlainFacades := by
    rw [List.forall_mem_cons, List.forall_mem_singleton]
    exact ⟨plainFacades_read .kotlin _ _, plainFacades_read .kotlin _ _⟩
  exact ⟨d, facade, c, mem, unexplained, declares, m, found, function plain⟩

/-- Without a package the same call goes nowhere. -/
theorem call?_greet_eq_none :
    let f := greeting ""
    let u := start ""
    (declaredNames [f, u]).Nodup ∧ u.package? = f.package?
      ∧ ∃ d, IsFacade [f, u] f 0 d ∧ ∃ c ∈ u.calls, (build [f, u]).Unexplained u c
      ∧ (∃ m ∈ f.methods, m.class? = some 0 ∧ m.name = c.methodName)
      ∧ (build [f, u]).call? u c = none := by
  intro f u
  have facts : (declaredNames [f, u]).Nodup ∧ u.package? = f.package?
      ∧ (f.class? 0).any (·.kind == .facade) = true
      ∧ ∃ c ∈ u.calls, (build [f, u]).Unexplained u c
        ∧ (∃ m ∈ f.methods, m.class? = some 0 ∧ m.name = c.methodName)
        ∧ ((build [f, u]).call? u c).isNone := by
    decide +kernel
  obtain ⟨distinct, together, kind, c, mem, unexplained, declares, nowhere⟩ := facts
  obtain ⟨d, facade⟩ := exists_isFacade (List.mem_cons_self (a := f) (l := [u])) kind
  exact ⟨distinct, together, d, facade, c, mem, unexplained, declares,
    Option.isNone_iff_eq_none.mp nowhere⟩

end Index

end Symbol

end AndroidLint
