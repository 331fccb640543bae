/-
Restriction — two ways to tell that a method is restricted to Java.

A method of a Kotlin file is met in two places.  Where something is returned
from it, the rule reads the method, its class and the package off the file.
Where it is called, the rule reads the method and its type off the index, and
finds the package by taking names off the full name of the type for as long
as what is left is a known type.

The second way comes to the package of the file if the names of the classes
around are what the full name is made of, which asks two things of the file.
Its header has to come before its declarations (`Kotlin.Named`), and the names
must hold no dots: what is left of such a name is the name of nothing, and is
taken for the package.
-/
import AndroidLint.Proofs.Code.Naming
import AndroidLint.Proofs.Rule.Calls
import AndroidLint.Proofs.Symbol.Build

namespace AndroidLint

open Code (SourceFile ClassDecl ClassId MethodDecl Language)
open Code.Kotlin (Named)
open AndroidLint.Symbol (Index Resolver TypeSymbol)

namespace Rule

namespace Boundary

/-! ## The names around a name -/

theorem namesAround_of_dotless {n : List Char} (dotless : '.' ∉ n) : namesAround n = [] := by
  induction n with
  | nil => rfl
  | cons c n ih =>
      rw [List.mem_cons, not_or] at dotless
      rw [namesAround.eq_3 _ _ (Ne.symm dotless.1)]
      exact ih dotless.2

/-- Around a name that ends in one without dots there is what stands before
that, and what is around it. -/
theorem namesAround_append {n : List Char} (dotless : '.' ∉ n) (r : List Char) :
    namesAround (n ++ '.' :: r) = String.ofList r.reverse :: namesAround r := by
  induction n with
  | nil => rw [List.nil_append, namesAround]
  | cons c n ih =>
      rw [List.mem_cons, not_or] at dotless
      rw [List.cons_append, namesAround.eq_3 _ _ (Ne.symm dotless.1)]
      exact ih dotless.2

section Packages

variable (r : Resolver) {outer name : String} (dotless : '.' ∉ name.toList)
include dotless

theorem packageOf?_of_dotless : packageOf? r name = none := by
  have hreverse : '.' ∉ name.toList.reverse := by simpa using dotless
  rw [packageOf?, namesAround_of_dotless hreverse, List.find?_nil]

/-- A type is in the package of the type it lies in, or in what stands before
it if that is no type. -/
theorem packageOf?_within :
    packageOf? r (outer ++ "." ++ name) =
      if r.types.knows outer then packageOf? r outer else some outer := by
  have hreverse : '.' ∉ name.toList.reverse := by simpa using dotless
  have hname : (outer ++ "." ++ name).toList.reverse =
      name.toList.reverse ++ '.' :: outer.toList.reverse := by
    simp
  rw [packageOf?, hname, namesAround_append hreverse, List.reverse_reverse, String.ofList_toList,
    List.find?_cons]
  cases r.types.knows outer with
  | true => rfl
  | false => rfl

/-- What lies in a file directly is in its package, if that is no type. -/
theorem packageOf?_qualify {f : SourceFile} (given : f.package? ≠ some "")
    (foreign : ∀ p ∈ f.package?, r.types.knows p = false) :
    packageOf? r (f.qualify name) = f.package? := by
  rw [SourceFile.qualify]
  split
  case h_1 none => rw [none, packageOf?_of_dotless r dotless]
  case h_2 empty => exact absurd empty given
  case h_3 p _ hp =>
    rw [packageOf?_within r dotless, foreign p hp, hp]
    rfl

end Packages

/-- The names that a class is made of hold no dots, so that taking names off
the full name of the class leads outwards from class to class, and from the
last to the package. -/
theorem packageOf?_qualifiedName {r : Resolver} {f : SourceFile} (named : Named f)
    (well : f.WellScoped) (given : f.package? ≠ some "")
    (foreign : ∀ p ∈ f.package?, r.types.knows p = false)
    (known : ∀ i c, f.class? i = some c → c.isNamed → r.types.knows c.qualifiedName = true)
    {i : ClassId} {c : ClassDecl} (found : f.class? i = some c) (isNamed : c.isNamed)
    (dotless : ∀ d ∈ f.enclosingClasses (some i), '.' ∉ d.name.toList) :
    packageOf? r c.qualifiedName = f.package? := by
  -- the class around has the smaller number
  induction i using Nat.strongRecOn generalizing c with
  | ind i ih =>
      rw [well.enclosingClasses_of_class? found, List.forall_mem_cons] at dotless
      obtain ⟨own, around⟩ := dotless
      have top : packageOf? r (f.qualify c.name) = f.package? :=
        packageOf?_qualify r own given foreign
      have kind : (c.kind == .anonymous) = false := by
        simpa [ClassDecl.isNamed] using isNamed
      rw [named i c found, Code.Kotlin.qualifiedName, kind, if_neg Bool.false_ne_true]
      cases houter : c.scope.class? with
      | none => exact top
      | some k =>
          obtain ⟨outer, foundOuter⟩ := (well.nested.holds_scope found).class? k houter
          rw [Option.bind_some, foundOuter]
          dsimp only
          split
          case isTrue => exact top
          case isFalse below =>
            rw [Bool.or_eq_true, not_or] at below
            have outerNamed : outer.isNamed = true := by simpa [ClassDecl.isNamed] using below.1
            rw [packageOf?_within r own, known k outer foundOuter outerNamed, if_pos rfl]
            rw [houter] at around
            exact ih k (well.outward i c found k houter) foundOuter outerNamed around

/-! ## The package of a file in an index -/

section Index

variable {files : List SourceFile}

theorem knows_of_class? {f : SourceFile} (mem : f ∈ files) {i : ClassId} {c : ClassDecl}
    (found : f.class? i = some c) (isNamed : c.isNamed) :
    (Index.build files).types.knows c.qualifiedName = true := by
  rw [Index.knows_build]
  exact Index.knownIn_of_mem
    (List.mem_flatMap.mpr ⟨f, mem, Index.mem_namedClasses.mpr ⟨found, isNamed⟩⟩)

/-- The files give annotations to the packages that they name. -/
theorem packageAnnotations_empty (given : ∀ g ∈ files, g.package? ≠ some "") :
    (Index.build files).packageAnnotations "" = [] := by
  rw [Index.packageAnnotations, Index.packages_build, List.map_eq_nil_iff, List.filter_eq_nil_iff]
  rintro ⟨package, a⟩ mem
  obtain ⟨g, hg, hpackage⟩ := List.mem_flatMap.mp mem
  rw [Index.packagesOf] at hpackage
  split at hpackage
  case h_1 => cases hpackage
  case h_2 p hp =>
    obtain ⟨b, -, hb⟩ := List.mem_map.mp hpackage
    obtain rfl := (Prod.mk.inj hb).1
    intro empty
    have hp' : p = "" := beq_iff_eq.mp empty
    exact given g hg (hp' ▸ hp)

/-- The package is asked for in the same way on both sides. -/
theorem bind_packageRestriction? {x : Context}
    (answers : x.resolver = (Index.build files).resolver)
    (given : ∀ g ∈ files, g.package? ≠ some "") (package? : Option String) :
    package?.bind (packageRestriction? x) = packageRestriction? x (package?.getD "") := by
  cases package? with
  | some p => rfl
  | none =>
      rw [Option.bind_none, Option.getD_none, packageRestriction?, answers,
        Index.resolver_packageAnnotations, packageAnnotations_empty given]
      rfl

end Index

/-- **The two ways agree.**  Take files that all name their packages if they
give any, and a named class in a Kotlin file among them, the only one of its
full name.  If the header of the file comes first, its package is no type,
and no name of the class or of the classes around has a dot, then the package
of the class by its full name is that of the file.  And whatever the settings
are, each method of the class is restricted by what stands in the file exactly
if it is by what the index says, and for the same reason. -/
theorem methodRestriction?_eq_memberRestriction? {files : List SourceFile} {path : FilePath}
    {text : String} {f : SourceFile} (kotlin : f = Language.kotlin.read path text)
    (headed : ∀ t ∈ Language.kotlin.grammar.parse? text.toList, Code.Kotlin.isHeaded t = true)
    (mem : f ∈ files) (given : ∀ g ∈ files, g.package? ≠ some "")
    (foreign : ∀ p ∈ f.package?, (Index.build files).types.knows p = false)
    {i : ClassId} {c : ClassDecl} (found : f.class? i = some c) (isNamed : c.isNamed)
    (once : (Index.declaredNames files).count c.qualifiedName = 1)
    (dotless : ∀ d ∈ f.enclosingClasses (some i), '.' ∉ d.name.toList) :
    packageOf? (Index.build files).resolver c.qualifiedName = f.package?
      ∧ ∃ t : TypeSymbol, (Index.build files).types.find? c.qualifiedName = some t
        ∧ ∀ x : Context, x.resolver = (Index.build files).resolver →
          ∀ (j : Nat) (m : MethodDecl),
            (f.methods.toList.filter (·.class? == some i))[j]? = some m →
            ∃ s, t.methods[j]? = some s ∧ s.name = m.name
              ∧ methodRestriction? x f m = memberRestriction? x (t.member s) := by
  have named : Named f := kotlin ▸ Code.Kotlin.named_read path headed
  have well : f.WellScoped := kotlin ▸ Code.Kotlin.wellScoped_read path text
  have package : packageOf? (Index.build files).resolver c.qualifiedName = f.package? :=
    packageOf?_qualifiedName named well (given f mem) foreign (fun k d => knows_of_class? mem)
      found isNamed dotless
  have hfind := Index.find?_build_of_once mem found isNamed once
  have reflects := Index.reflects_symbol (Index.knows_build files) f i c
  refine ⟨package, _, hfind, fun x answers j m hm => ?_⟩
  have hclass : m.class? = some i := by
    simpa using (List.mem_filter.mp (List.mem_of_getElem? hm)).2
  have hmethods := congrArg (·[j]?) reflects.methods
  simp only [List.getElem?_map, hm, Option.map_some] at hmethods
  obtain ⟨s, hs, same⟩ := Option.map_eq_some_iff.mp hmethods
  simp only [Prod.mk.injEq] at same
  obtain ⟨name, -, annotations⟩ := same
  refine ⟨s, hs, name, ?_⟩
  have declaring : ((Index.symbol (Index.knownIn files) f c i).member s).declaringType =
      c.qualifiedName := rfl
  have own : ((Index.symbol (Index.knownIn files) f c i).member s).annotations = s.annotations := rfl
  rw [methodRestriction?, memberRestriction?, declaring, own, answers, annotations, hclass,
    Option.bind_some, found, Option.bind_some, Index.resolver_types, hfind, Option.bind_some,
    reflects.annotations, package, bind_packageRestriction? answers given]

/-- A package that is restricted to Java. -/
def packageText : String :=
  "@com.uber.lintchecks.recipes.guardrails.JavaOnly\npackage p;\n"

/-- A file of that package with what a text declares. -/
def inPackage (name text : String) : List SourceFile :=
  [Language.java.read ⟨"src/p/package-info.java"⟩ packageText,
    Language.kotlin.read ⟨"src/p/" ++ name⟩ text]

/-- An object in a class, with a method. -/
def nestedText : String :=
  "package p\n\nclass A \x7b\n  object B \x7b\n    fun reset() \x7b\x7d\n  \x7d\n\x7d\n"

theorem restriction_nested :
    let f := Language.kotlin.read ⟨"src/p/" ++ "A.kt"⟩ nestedText
    let y := Index.build (inPackage "A.kt" nestedText)
    let x := contextIn (inPackage "A.kt" nestedText) f
    ∃ c t m s, f.class? 1 = some c ∧ y.types.find? c.qualifiedName = some t
      ∧ f.methods.toList.filter (·.class? == some 1) = [m] ∧ t.methods[0]? = some s
      ∧ packageOf? y.resolver c.qualifiedName = f.package?
      ∧ methodRestriction? x f m = memberRestriction? x (t.member s) := by
  intro f y x
  -- in one go, so that the texts are read once
  obtain ⟨headed, given, foreign, dotless, methods, conditions⟩ :
      (∀ t ∈ Language.kotlin.grammar.parse? nestedText.toList, Code.Kotlin.isHeaded t = true)
        ∧ (∀ g ∈ inPackage "A.kt" nestedText, g.package? ≠ some "")
        ∧ (∀ p ∈ f.package?, y.types.knows p = false)
        ∧ (∀ d ∈ f.enclosingClasses (some 1), '.' ∉ d.name.toList)
        ∧ (f.methods.toList.filter (·.class? == some 1)).length = 1
        ∧ (f.class? 1).map (fun c => (c.isNamed,
            (Index.declaredNames (inPackage "A.kt" nestedText)).count c.qualifiedName)) =
          some (true, 1) := by
    decide +kernel
  obtain ⟨c, found, hc⟩ := Option.map_eq_some_iff.mp conditions
  obtain ⟨isNamed, once⟩ := Prod.mk.inj hc
  obtain ⟨m, hm⟩ := List.length_eq_one_iff.mp methods
  have mem : f ∈ inPackage "A.kt" nestedText := List.mem_cons_of_mem _ List.mem_cons_self
  obtain ⟨package, t, ht, agree⟩ := methodRestriction?_eq_memberRestriction? rfl headed mem given
    foreign found isNamed once dotless
  obtain ⟨s, hs, -, same⟩ := agree x rfl 0 m (by rw [hm]; rfl)
  exact ⟨c, t, m, s, found, ht, hm, hs, package, same⟩

/-- Functions of a file whose name has a dot in it. -/
def utilsText : String :=
  "package p\n\nfun reset() \x7b\x7d\n\nfun start() \x7b\n  reset()\n\x7d\n"

/-- The name of the facade has the dot too, and what stands before it is taken
for the package: read off the file both functions are restricted, and the one
that is called is not restricted by what the index says. -/
theorem restriction_dotted :
    let f := Language.kotlin.read ⟨"src/p/" ++ "my.utils.kt"⟩ utilsText
    let y := Index.build (inPackage "my.utils.kt" utilsText)
    let x := contextIn (inPackage "my.utils.kt" utilsText) f
    (Index.declaredNames (inPackage "my.utils.kt" utilsText)).Nodup
      ∧ f.package? = some "p" ∧ y.types.knows "p" = false
      ∧ f.classes.toList.map (fun c => (c.qualifiedName, packageOf? y.resolver c.qualifiedName)) =
        [("p.My.utilsKt", some "p.My")]
      ∧ f.methods.toList.map (fun m => (m.name, methodRestriction? x f m)) =
        [("reset", some ""), ("start", some "")]
      ∧ f.calls.toList.map (fun c =>
          (y.call? f c).map fun m => (m.declaringType, m.name, memberRestriction? x m)) =
        [some ("p.My.utilsKt", "reset", none)] := by
  decide +kernel

end Boundary

end Rule

end AndroidLint
