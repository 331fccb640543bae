/-
Scoping — what is read from a tree is well-scoped.

Nothing is asked of the tree: whatever nodes it puts into one another, each
takes one step, and steps keep scopes in order.  So a file that is read can
be walked outwards from any of its nodes, and the walk ends.
-/
import AndroidLint.Code.Reader
import AndroidLint.Proofs.Code.Java
import AndroidLint.Proofs.Code.Kotlin

namespace AndroidLint

namespace Code

namespace SourceFile

/-- `f.Navigable`: an id is the position in the list, the file is
well-scoped, and from the scope of any node the walks outwards end: with
more steps allowed they meet nothing more. -/
structure Navigable (f : SourceFile) : Prop where
  classIds : ∀ c i, (c, i) ∈ f.classes.toList.zipIdx → f.class? i = some c
  methodIds : ∀ m i, (m, i) ∈ f.methods.toList.zipIdx → f.method? i = some m
  well : f.WellScoped
  owners : ∀ s ∈ f.scopes, ∀ n, f.classes.size ≤ n →
    f.owners s = f.ownersWithin n s ++ [.file]
  classes : ∀ s ∈ f.scopes, ∀ n, f.classes.size ≤ n →
    f.enclosingClasses s.class? = f.classesWithin n s.class?

theorem WellScoped.navigable {f : SourceFile} (well : f.WellScoped) : f.Navigable where
  classIds c i mem := by
    rw [SourceFile.class?, ← Array.getElem?_toList]
    exact List.mem_zipIdx_iff_getElem?.mp mem
  methodIds m i mem := by
    rw [SourceFile.method?, ← Array.getElem?_toList]
    exact List.mem_zipIdx_iff_getElem?.mp mem
  well := well
  owners s mem n enough := by
    rw [SourceFile.owners, well.ownersWithin_eq (well.holds s mem) enough]
  classes s mem n enough := (well.classesWithin_eq (well.holds s mem) enough).symm

theorem wellScoped_ofTree (l : Language) (o : Origin) (t : Syntax.Tree) :
    (SourceFile.ofTree l o t).WellScoped := by
  cases l with
  | kotlin => exact Kotlin.wellScoped_ofTree o t
  | java => exact Java.wellScoped_ofTree o t

end SourceFile

/-- **What is read is well-scoped.**  In the file that is made of any tree,
and so in the file that is read from any text, every class and method that
a node names exists, a method's class is the class next to it, classes come
after those around them, and the walks outwards end from every node. -/
theorem navigable_read (l : Language) :
    (∀ o t, (SourceFile.ofTree l o t).Navigable) ∧ ∀ path text, (l.read path text).Navigable := by
  have made : ∀ o t, (SourceFile.ofTree l o t).Navigable :=
    fun o t => (SourceFile.wellScoped_ofTree l o t).navigable
  refine ⟨made, fun path text => ?_⟩
  rw [Language.read]
  split
  case h_1 t _ => exact made _ t
  case h_2 => exact (SourceFile.WellScoped.empty path l).navigable

end Code

end AndroidLint
