/-
Declarations — declared types are lexically scoped.

Names are declared one after another, each in the innermost method or class
of a scope, or in the file.  What an owner declares is decided by the first
declaration of a name that is made in it: one more declaration counts only
where there is none before it (`declaredBy?_declare`).  What a place sees is
decided by the first owner on the way outwards that declares the name.  So
nothing else can change an answer: a declaration in an owner off that way,
one of another name, and one that repeats a name are without effect.
-/
import Mathlib.Data.List.Induction
import AndroidLint.Proofs.Code.Chain

namespace AndroidLint

namespace Code

/-- A name that is to be declared in a scope, with the type it gets. -/
structure Declaring where
  scope : Scope
  name : String
  type : String

/-- `d.IsOf name o`: the declaration is one of `name`, made in `o`. -/
def Declaring.IsOf (d : Declaring) (name : String) (o : Owner) : Prop :=
  d.scope.owner = o ∧ d.name = name

instance (d : Declaring) (name : String) (o : Owner) : Decidable (d.IsOf name o) :=
  inferInstanceAs (Decidable (_ ∧ _))

/-- `IsFirst ds name o type`: of the declarations among `ds` of `name` made
in `o`, the first gives `type`. -/
def IsFirst (ds : List Declaring) (name : String) (o : Owner) (type : String) : Prop :=
  ∃ before d after, ds = before ++ d :: after ∧ d.IsOf name o ∧ d.type = type ∧
    ∀ e ∈ before, ¬ e.IsOf name o

namespace SourceFile

/-- The file in which just these names are declared, one after another. -/
def declaring (f : SourceFile) (ds : List Declaring) : SourceFile :=
  ds.foldl (fun g d => g.declare d.scope d.name d.type) { f with declarations := #[] }

variable {f g : SourceFile} {s : Scope} {ds : List Declaring} {name type : String} {o : Owner}

/-! ## What an owner declares -/

/-- A declaration counts in its owner if none of its name is there yet. -/
theorem declaredBy?_declare (g : SourceFile) (d : Declaring) (name : String) (o : Owner) :
    (g.declare d.scope d.name d.type).declaredBy? name o =
      (g.declaredBy? name o).or (if d.IsOf name o then some d.type else none) := by
  have hnew : (d.scope.owner == o && d.name == name) = decide (d.IsOf name o) := by
    rw [Bool.eq_iff_iff, Bool.and_eq_true, beq_iff_eq, beq_iff_eq, decide_eq_true_iff,
      Declaring.IsOf]
  rw [declaredBy?, declaredBy?, declare, Array.find?_push, hnew]
  cases g.declarations.find? fun d => d.owner == o && d.name == name with
  | some d => rfl
  | none =>
      by_cases own : d.IsOf name o
      · simp [own]
      · simp [own]

theorem declaring_append_singleton (f : SourceFile) (ds : List Declaring) (d : Declaring) :
    f.declaring (ds ++ [d]) = (f.declaring ds).declare d.scope d.name d.type := by
  rw [declaring, declaring, List.foldl_append, List.foldl_cons, List.foldl_nil]

/-- After a sequence of declarations an owner has the first of a name. -/
theorem declaredBy?_declaring (f : SourceFile) (ds : List Declaring) (name : String) (o : Owner) :
    (f.declaring ds).declaredBy? name o = (ds.find? (·.IsOf name o)).map (·.type) := by
  induction ds using List.reverseRecOn with
  | nil => simp [declaring, declaredBy?]
  | append_singleton ds d ih =>
      rw [declaring_append_singleton, declaredBy?_declare, ih, List.find?_append]
      cases ds.find? (·.IsOf name o) with
      | some e => rfl
      | none =>
          by_cases own : d.IsOf name o
          · simp [own]
          · simp [own]

theorem declaredBy?_eq_some_iff :
    (f.declaring ds).declaredBy? name o = some type ↔ IsFirst ds name o type := by
  simp only [declaredBy?_declaring, Option.map_eq_some_iff, List.find?_eq_some_iff_append,
    decide_eq_true_eq, Bool.not_eq_true', decide_eq_false_iff_not, IsFirst]
  constructor
  · rintro ⟨d, ⟨own, before, after, rfl, first⟩, rfl⟩
    exact ⟨before, d, after, rfl, own, rfl, first⟩
  · rintro ⟨before, d, after, rfl, own, rfl, first⟩
    exact ⟨d, ⟨own, before, after, rfl, first⟩, rfl⟩

theorem declaredBy?_eq_none_iff :
    (f.declaring ds).declaredBy? name o = none ↔ ∀ d ∈ ds, ¬ d.IsOf name o := by
  simp only [declaredBy?_declaring, Option.map_eq_none_iff, List.find?_eq_none,
    decide_eq_true_eq]

/-! ## What a place sees -/

/-- Only classes and methods decide what a walk through the owners meets. -/
theorem ownersWithin_congr (classes : g.classes = f.classes) (methods : g.methods = f.methods)
    (n : Nat) (s : Scope) : g.ownersWithin n s = f.ownersWithin n s := by
  have hclass : ∀ c, g.class? c = f.class? c := fun c => by rw [class?, class?, classes]
  have hmethod : g.method? = f.method? := funext fun m => by rw [method?, method?, methods]
  induction n generalizing s with
  | zero => rfl
  | succ n ih => simp only [ownersWithin, directClass?, scopeOf?, hclass, hmethod, ih]

theorem owners_declaring (f : SourceFile) (ds : List Declaring) (s : Scope) :
    (f.declaring ds).owners s = f.owners s := by
  have kept : (f.declaring ds).classes = f.classes ∧ (f.declaring ds).methods = f.methods := by
    induction ds using List.reverseRecOn with
    | nil => exact ⟨rfl, rfl⟩
    | append_singleton ds d ih =>
        rw [declaring_append_singleton]
        exact ih
  rw [owners, owners, kept.1, ownersWithin_congr kept.1 kept.2]

/-- A declaration is without effect on an owner if it is none of the name
there, or comes after one that is. -/
theorem declaredBy?_declaring_insert {before after : List Declaring} {d : Declaring}
    (idle : d.IsOf name o → ∃ e ∈ before, e.IsOf name o) :
    (f.declaring (before ++ d :: after)).declaredBy? name o =
      (f.declaring (before ++ after)).declaredBy? name o := by
  rw [declaredBy?_declaring, declaredBy?_declaring, List.find?_append, List.find?_append]
  cases found : before.find? (·.IsOf name o) with
  | some e => rfl
  | none =>
      have other : ¬ d.IsOf name o := by
        intro own
        obtain ⟨e, mem, repeated⟩ := idle own
        exact List.find?_eq_none.mp found e mem (decide_eq_true repeated)
      rw [List.find?_cons_of_neg (by simpa using other)]

end SourceFile

open SourceFile in
/-- **Declared types are lexically scoped.**  In a nested file, whatever
names are declared in whatever order, a place whose scope exists has a way
out to the file, and sees of a name the type that was first given to it by
the innermost owner on that way that declares it, and none if none does.  A
declaration of another name, in an owner off the way, or of a name that its
owner has already, changes nothing. -/
theorem declaredType?_declaring {f : SourceFile} (nested : f.Nested) {s : Scope}
    (admits : f.Admits s) (ds : List Declaring) (name : String) :
    ∃ os, f.Chain s os ∧
      (∀ type, (f.declaring ds).declaredType? s name = some type ↔
        ∃ inner o outer, os ++ [.file] = inner ++ o :: outer ∧ IsFirst ds name o type ∧
          ∀ i ∈ inner, ∀ d ∈ ds, ¬ d.IsOf name i) ∧
      ((f.declaring ds).declaredType? s name = none ↔
        ∀ o ∈ os ++ [.file], ∀ d ∈ ds, ¬ d.IsOf name o) ∧
      ∀ (before after : List Declaring) (d : Declaring), ds = before ++ d :: after →
        d.name ≠ name ∨ d.scope.owner ∉ os ++ [.file] ∨
          (∃ e ∈ before, e.IsOf d.name d.scope.owner) →
        (f.declaring ds).declaredType? s name =
          (f.declaring (before ++ after)).declaredType? s name := by
  obtain ⟨os, chain, howners⟩ := nested.owners_eq admits
  have hseen (ds : List Declaring) : (f.declaring ds).declaredType? s name =
      (os ++ [Owner.file]).findSome? ((f.declaring ds).declaredBy? name) := by
    rw [declaredType?, owners_declaring, howners]
  refine ⟨os, chain, fun type => ?first, ?none, ?idle⟩
  case first =>
    simp only [hseen, List.findSome?_eq_some_iff, declaredBy?_eq_some_iff,
      declaredBy?_eq_none_iff]
  case none =>
    simp only [hseen, List.findSome?_eq_none_iff, declaredBy?_eq_none_iff]
  case idle =>
    rintro before after d rfl idle
    rw [hseen, hseen, ← List.head?_filterMap, ← List.head?_filterMap]
    congr 1
    refine List.filterMap_congr fun o mem => declaredBy?_declaring_insert ?_
    rintro ⟨rfl, rfl⟩
    obtain other | off | repeated := idle
    · exact absurd rfl other
    · exact absurd mem off
    · exact repeated

/-- A name that the file, the class and, twice, its method declare; in the
method of the object it has the type that the method around it gave first. -/
theorem declaredType?_declaring_listenerFile :
    let ds : List Declaring := [⟨.file, "x", "long"⟩, ⟨.ofClass 0, "x", "int"⟩,
      ⟨⟨some 0, some 0⟩, "x", "String"⟩, ⟨⟨some 0, some 0⟩, "x", "Object"⟩]
    listenerFile.Nested ∧ listenerFile.Admits ⟨none, some 1⟩ ∧
      (listenerFile.declaring ds).declaredType? ⟨none, some 1⟩ "x" = some "String" ∧
      ∃ os, listenerFile.Chain ⟨none, some 1⟩ os ∧ os = [.method 1, .type 1, .method 0, .type 0] ∧
        ∃ inner o outer, os ++ [.file] = inner ++ o :: outer ∧ IsFirst ds "x" o "String" ∧
          ∀ i ∈ inner, ∀ d ∈ ds, ¬ d.IsOf "x" i := by
  intro ds
  have admits : listenerFile.Admits ⟨none, some 1⟩ := by decide
  have seen : (listenerFile.declaring ds).declaredType? ⟨none, some 1⟩ "x" = some "String" := by
    decide
  obtain ⟨os, chain, first, -, -⟩ := declaredType?_declaring nested_listenerFile admits ds "x"
  refine ⟨nested_listenerFile, admits, seen, os, chain, ?_, (first "String").mp seen⟩
  exact chain.unique chain_listenerFile

end Code

end AndroidLint
