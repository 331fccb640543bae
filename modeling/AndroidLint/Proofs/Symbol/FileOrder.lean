/-
FileOrder — an index does not depend on the order of its files.

An index is filled file by file, and where two files say something about
one name the order decides: of two classes the later counts, annotations
of a package are lined up, and the first facade that has a member is
asked.  Files are independent if none of this happens.  Then each thing an
index is asked about comes from one file at most, and every order of the
files builds indexes that agree.
-/
import AndroidLint.Proofs.Symbol.Agreement
import AndroidLint.Proofs.Symbol.Build

namespace AndroidLint

namespace Symbol

open Code (SourceFile)

/-! ## Lists of which one element counts -/

section Lists

variable {α β : Type} {l l' : List α}

/-- Lists made of one element at most do not depend on the order of the
elements. -/
theorem flatMap_eq_of_perm {g : α → List β} (perm : l.Perm l')
    (alone : l.Pairwise fun a b => g a = [] ∨ g b = []) : l.flatMap g = l'.flatMap g := by
  induction perm with
  | nil => rfl
  | cons a _ ih => rw [List.flatMap_cons, List.flatMap_cons, ih (List.pairwise_cons.mp alone).2]
  | swap a b l =>
      have hab : g b = [] ∨ g a = [] := (List.pairwise_cons.mp alone).1 a List.mem_cons_self
      rcases hab with h | h <;> simp [List.flatMap_cons, h]
  | trans h _ ih ih' =>
      have alone' := (h.pairwise_iff Or.symm).mp alone
      exact (ih alone).trans (ih' alone')

theorem findSome?_eq_of_perm {g : α → Option β} (perm : l.Perm l')
    (alone : l.Pairwise fun a b => g a = none ∨ g b = none) : l.findSome? g = l'.findSome? g := by
  have hlists : l.filterMap g = l'.filterMap g := by
    rw [List.filterMap_eq_flatMap_toList, List.filterMap_eq_flatMap_toList]
    refine flatMap_eq_of_perm perm (alone.imp ?_)
    rintro a b (h | h)
    · exact Or.inl (by rw [h, Option.toList_none])
    · exact Or.inr (by rw [h, Option.toList_none])
  rw [← List.head?_filterMap, ← List.head?_filterMap, hlists]

end Lists

namespace TypeTable

/-- A table without two entries of one name may be listed in any order. -/
theorem find?_eq_of_perm {table table' : TypeTable} (perm : table.Perm table')
    (distinct : (table.map (·.qualifiedName)).Nodup) : table.find? = table'.find? := by
  funext name
  have distinct' : (table'.map (·.qualifiedName)).Nodup := ((perm.map _).nodup_iff).mp distinct
  cases h : table.find? name with
  | none =>
      have hnone := find?_eq_none.mp h
      exact (find?_eq_none.mpr fun t ht => hnone t (perm.mem_iff.mpr ht)).symm
  | some t =>
      have hmem : t ∈ table' := perm.mem_iff.mp (mem_of_find? h)
      exact (find?_of_count_le hmem (find?_name h) (List.nodup_iff_count_le_one.mp distinct' _)).symm

/-- `Offers table owner name`: a method of the name can be called on the
type `owner`. -/
def Offers (table : TypeTable) (owner name : String) : Prop :=
  ∃ t ∈ table.walk owner, ∃ m ∈ t.methods, m.name = name

theorem member?_eq_none {table : TypeTable} {owner name : String} :
    table.member? owner name = none ↔ ¬ table.Offers owner name := by
  simp [member?, Offers, TypeSymbol.method?]

end TypeTable

namespace Index

/-- Two files do not both annotate one package. -/
def AnnotateApart (f g : SourceFile) : Prop :=
  ∀ package, f.package? = some package → g.package? = some package →
    f.packageAnnotations = [] ∨ g.packageAnnotations = []

/-- Files of which no two say something about one name: their classes have
different names, one file of a package annotates it, and of its facades
one offers a method of a name. -/
structure Independent (files : List SourceFile) : Prop where
  names : (declaredNames files).Nodup
  packages : files.Pairwise AnnotateApart
  facades : ∀ package, ((build files).facadesIn package).Pairwise fun a b => ∀ name,
    ¬ ((build files).types.Offers a name ∧ (build files).types.Offers b name)

section Permuted

variable {files files' : List SourceFile}

theorem knownIn_eq_of_perm (perm : files.Perm files') : knownIn files = knownIn files' := by
  funext name
  have hnames : (declaredNames files).Perm (declaredNames files') :=
    (perm.flatMap_right _).map _
  rw [knownIn, knownIn, hnames.contains_eq]

theorem types_eq_of_perm (distinct : (declaredNames files).Nodup) (perm : files.Perm files') :
    (build files).types.find? = (build files').types.find? := by
  have hperm : (files.flatMap (symbols (knownIn files'))).reverse.Perm
      (files'.flatMap (symbols (knownIn files'))).reverse :=
    (List.reverse_perm _).trans ((perm.flatMap_right _).trans (List.reverse_perm _).symm)
  have hdistinct : ((files.flatMap (symbols (knownIn files'))).reverse.map
      (·.qualifiedName)).Nodup := by
    rw [List.map_reverse, List.nodup_reverse, names_symbols]
    exact distinct
  funext name
  rw [find?_build, find?_build, knownIn_eq_of_perm perm, TypeTable.find?_eq_of_perm hperm hdistinct]

/-- A file says nothing about a package that is not its own or that it
does not annotate. -/
theorem filter_packagesOf_eq_nil {known : Known} {f : SourceFile} {package : String}
    (h : f.package? = some package → f.packageAnnotations = []) :
    (packagesOf known f).filter (·.1 == package) = [] := by
  rw [packagesOf]
  cases hp : f.package? with
  | none => rfl
  | some own =>
      by_cases heq : own = package
      · simp [h (heq ▸ hp), annotationsBy]
      · simp [heq]

theorem packageAnnotations_eq_of_perm (perm : files.Perm files')
    (apart : files.Pairwise AnnotateApart) (package : String) :
    (build files).packageAnnotations package = (build files').packageAnnotations package := by
  rw [packageAnnotations, packageAnnotations, packages_build, packages_build,
    knownIn_eq_of_perm perm, List.filter_flatMap, List.filter_flatMap]
  congr 1
  refine flatMap_eq_of_perm perm (apart.imp ?_)
  intro f g h
  by_cases hf : f.package? = some package ∧ f.packageAnnotations ≠ []
  · refine Or.inr (filter_packagesOf_eq_nil fun hg => ?_)
    exact (h package hf.1 hg).resolve_left hf.2
  · refine Or.inl (filter_packagesOf_eq_nil fun hp => ?_)
    by_contra hne
    exact hf ⟨hp, hne⟩

theorem facadesIn_perm (perm : files.Perm files') (package : String) :
    ((build files).facadesIn package).Perm ((build files').facadesIn package) := by
  rw [facadesIn, facadesIn, facades_build, facades_build]
  exact ((perm.flatMap_right _).filter _).map _

theorem facades_eq_of_perm (independent : Independent files) (perm : files.Perm files')
    (package name : String) :
    (build files).memberAmong? ((build files).facadesIn package) name =
      (build files').memberAmong? ((build files').facadesIn package) name := by
  rw [memberAmong?, memberAmong?,
    ← TypeTable.member?_congr (types_eq_of_perm independent.names perm)]
  refine findSome?_eq_of_perm (facadesIn_perm perm package) ((independent.facades package).imp ?_)
  intro a b h
  by_cases ha : (build files).types.Offers a name
  · exact Or.inr (TypeTable.member?_eq_none.mpr fun hb => h name ⟨ha, hb⟩)
  · exact Or.inl (TypeTable.member?_eq_none.mpr ha)

end Permuted

/-- **The order of independent files does not matter.**  The resolver of
an index gives the same answers however its files were ordered, whatever
it is asked and about whichever file. -/
theorem sameAnswers_of_perm {files files' : List SourceFile} (independent : Independent files)
    (perm : files.Perm files') :
    Resolver.SameAnswers (build files).resolver (build files').resolver := by
  apply agree_resolver
  constructor
  · exact types_eq_of_perm independent.names perm
  · exact packageAnnotations_eq_of_perm perm independent.packages
  · exact facades_eq_of_perm independent perm

/-- The two files of a circle, one with functions at the top level of their
package, and one that annotates it. -/
def project : List SourceFile :=
  fileOf { child "ToolsKt" "app.ToolsKt" "" with kind := .facade, superClass? := none } ::
  { SourceFile.empty ⟨"package-info.java"⟩ .java with
    package? := some "app"
    packageAnnotations := [⟨"CheckReturnValue", none⟩] } ::
  circle

theorem project_independent : Independent project where
  names := by decide
  packages := by simp [project, circle, fileOf, SourceFile.empty, AnnotateApart]
  facades := by
    intro package
    have hfacades : (build project).facades = [("app", "app.ToolsKt")] := by
      rw [facades_build]
      rfl
    rw [facadesIn, hfacades, List.filter_singleton]
    cases ("app", "app.ToolsKt").1 == package with
    | true => exact List.pairwise_singleton _ _
    | false => exact List.Pairwise.nil

theorem sameAnswers_project : Independent project
    ∧ Resolver.SameAnswers (build project).resolver (build project.reverse).resolver :=
  ⟨project_independent,
    sameAnswers_of_perm project_independent (List.reverse_perm project).symm⟩

end Index

end Symbol

end AndroidLint
