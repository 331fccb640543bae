/-
Stray — lambdas outside every class.

A lambda is stray if, on the way from the top of its tree down to it, no
node opens a class or stands in a facade: in Kotlin neither a class nor a
function nor a property, in Java no class, and the parts that are looked
into are no class body.  The tree alone decides that.  What is read from a
tree has a lambda without a class for each stray one, at its place, and no
others (`loose_ofTree`).

The accessors of a property are not looked for in particular.  One that the
tree has beside its property, and not in it, stands outside every class, and
so do its lambdas.
-/
import AndroidLint.Proofs.Code.Scoping

namespace AndroidLint

namespace Code

open Syntax (Tree)

/-! ## Stray lambdas of a tree -/

namespace Language

/-- Whether a node is a lambda. -/
def isLambda (l : Language) (t : Tree) : Bool :=
  match l with
  | .kotlin => t.isKind .lambda || t.isKind .anonymousFunction
  | .java => t.isKind .lambda

/-- The nodes of which no part is looked into, or only in a class. -/
def sheltering : Language → List Syntax.Kind
  | .kotlin =>
      [.packageHeader, .importHeader, .classDeclaration, .objectDeclaration, .companionObject,
        .objectLiteral, .method, .property]
  | .java =>
      [.packageHeader, .importHeader, .classDeclaration, .interfaceDeclaration, .enumDeclaration,
        .markerDeclaration, .recordDeclaration]

/-- Whether a node is of a kind that shelters what stands in it. -/
def shelters (l : Language) (t : Tree) : Bool :=
  t.kind?.any l.sheltering.contains

/-- Whether a part of a node is looked into in no other class than the node
itself.  Where Java creates an object with a body, that is so for the
arguments alone. -/
def isOpen (l : Language) (t u : Tree) : Bool :=
  !l.shelters t &&
    match l with
    | .kotlin => true
    | .java => !(t.isKind .creation && (t.child? .classBody).isSome) || u.role? == some .arguments

/-- `l.Stray t u`: `u` is a lambda that no node from `t` down to it puts
into a class. -/
inductive Stray (l : Language) : Tree → Tree → Prop where
  | here {t : Tree} (lambda : l.isLambda t = true) : Stray l t t
  | inside {t u v : Tree} (mem : u ∈ t.children) (opened : l.isOpen t u = true)
      (stray : Stray l u v) : Stray l t v

variable {l : Language} {v : Tree}

theorem shelters_of_kind {t : Tree} {k : Syntax.Kind} (hkind : t.kind? = some k) :
    l.shelters t = l.sheltering.contains k := by
  rw [Language.shelters, hkind, Option.any_some]

theorem stray_iff {t : Tree} :
    l.Stray t v ↔
      (l.isLambda t = true ∧ v = t) ∨ ∃ u ∈ t.children, l.isOpen t u = true ∧ l.Stray u v := by
  constructor
  · intro stray
    cases stray with
    | here lambda => exact .inl ⟨lambda, rfl⟩
    | inside mem opened stray => exact .inr ⟨_, mem, opened, stray⟩
  · rintro (⟨lambda, rfl⟩ | ⟨u, mem, opened, stray⟩)
    · exact .here lambda
    · exact .inside mem opened stray

theorem exists_stray_iff {t : Tree} {P : Tree → Prop} :
    (∃ v, l.Stray t v ∧ P v) ↔
      (l.isLambda t = true ∧ P t) ∨
        ∃ u ∈ t.children, l.isOpen t u = true ∧ ∃ v, l.Stray u v ∧ P v := by
  constructor
  · rintro ⟨v, stray, holds⟩
    obtain ⟨lambda, rfl⟩ | ⟨u, mem, opened, stray⟩ := stray_iff.mp stray
    · exact .inl ⟨lambda, holds⟩
    · exact .inr ⟨u, mem, opened, v, stray, holds⟩
  · rintro (⟨lambda, holds⟩ | ⟨u, mem, opened, v, stray, holds⟩)
    · exact ⟨t, .here lambda, holds⟩
    · exact ⟨v, .inside mem opened stray, holds⟩

theorem isLambda_of_shelters {t : Tree} (shelter : l.shelters t = true) : l.isLambda t = false := by
  have other {k : Syntax.Kind} (hkind : t.kind? = some k) : l.sheltering.contains k = true :=
    shelters_of_kind hkind ▸ shelter
  cases l with
  | kotlin =>
      rw [isLambda, Tree.isKind, Tree.isKind, Bool.or_eq_false_iff, beq_eq_false_iff_ne,
        beq_eq_false_iff_ne]
      exact ⟨fun h => absurd (other h) (by decide), fun h => absurd (other h) (by decide)⟩
  | java =>
      rw [isLambda, Tree.isKind, beq_eq_false_iff_ne]
      exact fun h => absurd (other h) (by decide)

theorem isLambda_of_file {t : Tree} (file : t.isKind .file = true) : l.isLambda t = false := by
  rw [Tree.isKind, beq_iff_eq] at file
  cases l <;> simp [isLambda, Tree.isKind, file]

/-- A file has no stray lambdas if every part of it shelters what stands in
it, or holds nothing. -/
theorem not_stray_of_top {t : Tree} (file : t.isKind .file = true)
    (top : ∀ u ∈ t.children, l.shelters u = true ∨ (u.children = [] ∧ l.isLambda u = false)) :
    ¬ l.Stray t v := by
  rw [stray_iff, isLambda_of_file file]
  rintro (⟨⟨⟩, -⟩ | ⟨u, mem, -, stray⟩)
  obtain shelter | ⟨empty, other⟩ := top u mem
  · rw [stray_iff, isLambda_of_shelters shelter] at stray
    obtain ⟨⟨⟩, -⟩ | ⟨w, -, opened, -⟩ := stray
    simp [isOpen, shelter] at opened
  · rw [stray_iff, empty, other] at stray
    obtain ⟨⟨⟩, -⟩ | ⟨w, mem, -⟩ := stray
    cases mem

end Language

/-! ## Lambdas without a class -/

/-- `f.Loose p`: a lambda at the place `p` lies in no class. -/
def SourceFile.Loose (f : SourceFile) (p : Location) : Prop :=
  ∃ l ∈ f.lambdas, l.scope.class? = none ∧ l.location = p

/-- `Tracks l o file enter`: a node adds the lambda that it is, in its own
scope, and a part lies in no class if the node lies in none and the part is
open. -/
structure Tracks {σ : Type} (l : Language) (o : Origin) (file : σ → SourceFile)
    (enter : Scope → List Tree → σ → Tree → Entry σ) : Prop where
  lambda : ∀ s above d t p, (file (enter s above d t).state).Loose p ↔
    (file d).Loose p ∨ (s.class? = none ∧ l.isLambda t = true ∧ p = o.location t)
  part : ∀ s above d t u, (∃ s', (enter s above d t).scope? u = some s' ∧ s'.class? = none) ↔
    (s.class? = none ∧ l.isOpen t u = true)

section Walk

variable {σ : Type} {l : Language} {o : Origin} {file : σ → SourceFile}
  {enter : Scope → List Tree → σ → Tree → Entry σ}

mutual

theorem Tracks.walk (tracks : Tracks l o file enter) {s : Scope} {above : List Tree} {d : σ}
    {p : Location} : (t : Tree) →
    ((file (walk enter s above d t)).Loose p ↔
      (file d).Loose p ∨ (s.class? = none ∧ ∃ v, l.Stray t v ∧ p = o.location v))
  | .word text q => by
      have none : ∀ v, ¬ l.Stray (.word text q) v := by
        intro v
        rw [Language.stray_iff]
        rintro (⟨lambda, -⟩ | ⟨u, mem, -⟩)
        · cases l <;> cases lambda
        · cases mem
      simp [Code.walk, none]
  | .node k r q ts => by
      rw [Language.exists_stray_iff, Code.walk, tracks.walkAll ts, tracks.lambda]
      simp only [tracks.part, Tree.children]
      by_cases outside : s.class? = none
      · simp only [outside, true_and, or_assoc]
      · simp [outside]

theorem Tracks.walkAll (tracks : Tracks l o file enter) {scope? : Tree → Option Scope}
    {above : List Tree} {d : σ} {p : Location} : (ts : List Tree) →
    ((file (walkAll enter scope? above d ts)).Loose p ↔
      (file d).Loose p ∨ ∃ u ∈ ts, (∃ s, scope? u = some s ∧ s.class? = none) ∧
        ∃ v, l.Stray u v ∧ p = o.location v)
  | [] => by
      rw [Code.walkAll]
      simp
  | t :: ts => by
      rw [Code.walkAll]
      cases hscope : scope? t with
      | none =>
          simp only [tracks.walkAll ts, List.exists_mem_cons_iff, hscope]
          simp
      | some s =>
          simp only [tracks.walkAll ts, tracks.walk t, List.exists_mem_cons_iff, hscope,
            Option.some.injEq, exists_eq_left', or_assoc]

end

end Walk

section Loose

variable {f g : SourceFile} {p : Location}

theorem loose_congr (same : g.lambdas = f.lambdas) : g.Loose p ↔ f.Loose p := by
  rw [SourceFile.Loose, same, SourceFile.Loose]

/-- What is no lambda adds none. -/
theorem loose_of_same (same : g.lambdas = f.lambdas) {isLambda : Bool}
    (notLambda : isLambda = false) {outside here : Prop} :
    g.Loose p ↔ f.Loose p ∨ (outside ∧ isLambda = true ∧ here) := by
  simp [loose_congr same, notLambda]

theorem loose_push (l : Lambda) (same : g.lambdas = f.lambdas.push l) :
    g.Loose p ↔ f.Loose p ∨ (l.scope.class? = none ∧ p = l.location) := by
  simp only [SourceFile.Loose, same, Array.mem_push, or_and_right, exists_or, exists_eq_left,
    eq_comm (a := p)]

end Loose

namespace Java

variable (o : Origin) (s : Scope) (above : List Tree) (f : SourceFile) (t : Tree)

theorem lambdas_addReference : (addReference o s f t).lambdas = f.lambdas := by
  rw [addReference]
  split <;> rfl

theorem lambdas_addCall : (addCall o s f t).lambdas = f.lambdas := by
  rw [addCall]
  split <;> rfl

theorem loose_enter {p : Location} :
    (enter o s above f t).state.Loose p ↔
      f.Loose p ∨ (s.class? = none ∧ Language.java.isLambda t = true ∧ p = o.location t) := by
  have other {k : Syntax.Kind} (hkind : t.kind? = some k) :
      Language.java.isLambda t = (k == .lambda) := by
    simp [Language.isLambda, Tree.isKind, hkind]
  rw [enter.eq_def]
  split
  case h_2 hkind => exact loose_of_same (sameNodes_addImport o f t).lambdas (other hkind)
  case h_9 hkind => exact loose_of_same (sameNodes_declare o s f t t).lambdas (other hkind)
  case h_10 hkind => exact loose_of_same (sameNodes_declareAll o s f t _).lambdas (other hkind)
  case h_11 hkind => exact loose_of_same (lambdas_addCall o s f t) (other hkind)
  case h_12 hkind => split <;> exact loose_of_same rfl (other hkind)
  case h_13 hkind =>
    rw [other hkind]
    exact (loose_push (lambdaOf o s above t) rfl).trans (by simp [lambdaOf])
  case h_14 hkind => exact loose_of_same (lambdas_addReference o s f t) (other hkind)
  case h_15 notLambda _ =>
    exact loose_of_same rfl (by simpa [Language.isLambda, Tree.isKind] using notLambda)
  all_goals
    rename_i hkind
    exact loose_of_same rfl (other hkind)

theorem part_enter (u : Tree) :
    (∃ s', (enter o s above f t).scope? u = some s' ∧ s'.class? = none) ↔
      (s.class? = none ∧ Language.java.isOpen t u = true) := by
  rw [enter.eq_def]
  split
  case h_12 hkind =>
    split
    case isTrue body =>
      by_cases arguments : u.role? = some .arguments
      · simp [Language.isOpen, Language.shelters_of_kind hkind, Language.sheltering, arguments]
      · simp [Language.isOpen, Language.shelters_of_kind hkind, Language.sheltering, Tree.isKind,
          hkind, body, arguments, Scope.ofClass]
    case isFalse body =>
      simp [Language.isOpen, Language.shelters_of_kind hkind, Language.sheltering, body,
        Entry.within]
  case h_15 notCreation _ _ =>
    have shelterless : Language.java.shelters t = false := by
      cases hkind : t.kind? with
      | none => simp [Language.shelters, hkind]
      | some k =>
          rw [Language.shelters_of_kind hkind]
          simp_all [Language.sheltering]
    simp [Language.isOpen, shelterless, Entry.within, Tree.isKind,
      show t.kind? ≠ _ from notCreation]
  all_goals
    rename_i hkind
    simp [Language.isOpen, Language.shelters_of_kind hkind, Tree.isKind, hkind,
      Language.sheltering, Entry.within, Entry.closed, Scope.ofClass, Scope.inMethod]

/-- What a node of a Java file adds, as far as lambdas are concerned. -/
theorem tracks_enter : Tracks .java o id (enter o) where
  lambda s above f t _ := loose_enter o s above f t
  part := part_enter o

end Java

namespace Kotlin

section Entries

variable {o : Origin} {s : Scope} {above : List Tree} {d : Draft} {t : Tree}

theorem lambdas_addCall : (addCall o d s t).file.lambdas = d.file.lambdas := by
  rw [addCall]
  split <;> rfl

theorem loose_enter {p : Location} :
    (enter o s above d t).state.file.Loose p ↔
      d.file.Loose p ∨
        (s.class? = none ∧ Language.kotlin.isLambda t = true ∧ p = o.location t) := by
  have other {k : Syntax.Kind} (hkind : t.kind? = some k) :
      Language.kotlin.isLambda t = (k == .lambda || k == .anonymousFunction) := by
    simp [Language.isLambda, Tree.isKind, hkind]
  rw [enter.eq_def]
  split
  case h_2 hkind => exact loose_of_same sameLists_addImport.lambdas (other hkind)
  case h_7 hkind => exact loose_of_same sameLists_inFacade.lambdas (other hkind)
  case h_8 hkind =>
    exact loose_of_same (sameLists_inFacade.trans sameLists_declareProperty).lambdas (other hkind)
  case h_9 hkind => exact loose_of_same (sameLists_declare _ _).lambdas (other hkind)
  case h_10 hkind => exact loose_of_same lambdas_addCall (other hkind)
  case h_11 hkind => exact loose_of_same sameLists_addPlainReference.lambdas (other hkind)
  case h_12 hkind => exact loose_of_same sameLists_addMemberReference.lambdas (other hkind)
  case h_13 hkind =>
    rw [other hkind]
    exact (loose_push (f := d.file) _ rfl).trans (by simp)
  case h_14 hkind =>
    rw [other hkind]
    exact (loose_push (f := d.file) _ rfl).trans (by simp)
  case h_15 notLambda notAnonymous =>
    exact loose_of_same rfl
      (by simpa [Language.isLambda, Tree.isKind] using ⟨notLambda, notAnonymous⟩)
  all_goals
    rename_i hkind
    exact loose_of_same rfl (other hkind)

theorem part_enter (u : Tree) :
    (∃ s', (enter o s above d t).scope? u = some s' ∧ s'.class? = none) ↔
      (s.class? = none ∧ Language.kotlin.isOpen t u = true) := by
  rw [enter.eq_def]
  split
  case h_7 hkind | h_8 hkind =>
    have := class?_inFacade (d := d) (s := s)
    simp [Language.isOpen, Language.shelters_of_kind hkind, Language.sheltering, Entry.within,
      Scope.inMethod, this]
  case h_15 =>
    have shelterless : Language.kotlin.shelters t = false := by
      cases hkind : t.kind? with
      | none => simp [Language.shelters, hkind]
      | some k =>
          rw [Language.shelters_of_kind hkind]
          simp_all [Language.sheltering]
    simp [Language.isOpen, shelterless, Entry.within]
  all_goals
    rename_i hkind
    simp [Language.isOpen, Language.shelters_of_kind hkind, Language.sheltering, Entry.within,
      Entry.closed, Scope.ofClass]

/-- What a node of a Kotlin file adds, as far as lambdas are concerned. -/
theorem tracks_enter (o : Origin) : Tracks .kotlin o Draft.file (enter o) where
  lambda _ _ _ _ _ := loose_enter
  part _ _ _ _ := part_enter

end Entries

end Kotlin

/-- The lambdas without a class are the stray ones of the tree. -/
theorem loose_ofTree (l : Language) (o : Origin) (t : Tree) (p : Location) :
    (SourceFile.ofTree l o t).Loose p ↔ ∃ v, l.Stray t v ∧ p = o.location v := by
  have none (l' : Language) : ¬ (SourceFile.empty o.path l').Loose p := by
    rintro ⟨l, mem, -⟩
    exact absurd mem (Array.not_mem_empty l)
  cases l with
  | kotlin =>
      exact ((Kotlin.tracks_enter o).walk t).trans (by simp [none, Scope.file])
  | java =>
      exact ((Java.tracks_enter o).walk t).trans (by simp [none, Scope.file])

end Code

end AndroidLint
