/-
Facade — a facade extends nothing.

The facade of a Kotlin file stands for what lies outside every class, and it
is made without a type that it extends.  Every class that a node adds is of
another kind, so this holds of each facade of a file that is read
(`plainFacades_read`).
-/
import AndroidLint.Code.Reader
import AndroidLint.Proofs.Code.Java
import AndroidLint.Proofs.Code.Kotlin

namespace AndroidLint

namespace Code

namespace SourceFile

/-- `f.PlainFacades`: the facades of the file extend nothing. -/
def PlainFacades (f : SourceFile) : Prop :=
  ∀ c ∈ f.classes, c.kind = .facade → c.superTypes = []

variable {f g : SourceFile} {s s' : Scope}

theorem plainFacades_empty (path : FilePath) (l : Language) :
    (SourceFile.empty path l).PlainFacades := by
  intro c mem
  simp [SourceFile.empty] at mem

theorem PlainFacades.addClass (plain : f.PlainFacades) {d : ClassDecl}
    (facade : d.kind = .facade → d.superTypes = []) : (f.addClass d).PlainFacades := by
  intro c mem
  rcases Array.mem_push.mp mem with mem | rfl
  · exact plain c mem
  · exact facade

theorem Step.plainFacades (step : Step f s g s') (plain : f.PlainFacades) : g.PlainFacades := by
  cases step with
  | nothing same =>
      intro c mem
      exact plain c (same.classes ▸ mem)
  | type _ kind => exact plain.addClass fun facade => absurd facade kind
  | method | call | reference | lambda => exact plain

end SourceFile

/-! ## What is read -/

namespace Kotlin

open Syntax (Tree)

theorem plainFacades_inFacade {d : Draft} (s : Scope) (plain : d.file.PlainFacades) :
    (inFacade d s).1.file.PlainFacades := by
  rw [inFacade]
  split
  case h_1 | h_2 => exact plain
  case h_3 => exact plain.addClass fun _ => rfl

theorem keepsPlainFacades_enter (o : Origin) :
    Keeps (enter o) (·.file.PlainFacades) fun _ _ => True := by
  intro s above d t plain _
  refine ⟨?_, fun _ => id, fun _ _ _ => trivial⟩
  rcases isStepFrom_enter (o := o) (s := s) (d := d) (t := t) above with step | step
  · obtain ⟨_, taken, -⟩ := step.isStep
    exact taken.plainFacades plain
  · obtain ⟨_, taken, -⟩ := step.isStep
    exact taken.plainFacades (plainFacades_inFacade s plain)

theorem plainFacades_ofTree (o : Origin) (t : Tree) : (ofTree o t).PlainFacades :=
  ((keepsPlainFacades_enter o).walk (SourceFile.plainFacades_empty o.path .kotlin) trivial t).1

end Kotlin

namespace Java

open Syntax (Tree)

theorem keepsPlainFacades_enter (o : Origin) :
    Keeps (enter o) SourceFile.PlainFacades fun _ _ => True := by
  intro s above f t plain _
  obtain ⟨_, taken, -⟩ := isStep_enter o s f t above
  exact ⟨taken.plainFacades plain, fun _ => id, fun _ _ _ => trivial⟩

theorem plainFacades_ofTree (o : Origin) (t : Tree) : (ofTree o t).PlainFacades :=
  ((keepsPlainFacades_enter o).walk (SourceFile.plainFacades_empty o.path .java) trivial t).1

end Java

theorem plainFacades_read (l : Language) (path : FilePath) (text : String) :
    (l.read path text).PlainFacades := by
  rw [Language.read]
  split
  case h_1 t _ =>
    cases l with
    | kotlin => exact Kotlin.plainFacades_ofTree _ t
    | java => exact Java.plainFacades_ofTree _ t
  case h_2 => exact SourceFile.plainFacades_empty path l

end Code

end AndroidLint
