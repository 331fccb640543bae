/-
Place — where the nodes of a source file say that they lie.

Reading gives every node a place in the text that is read, and so names the
file at whose path it is read.  Together with the path of the file itself
this is kept by every entry (`SourceFile.LiesAt`), so it holds of what is
read in the end.
-/
import AndroidLint.Code.Reader
import AndroidLint.Proofs.Code.Java
import AndroidLint.Proofs.Code.Kotlin

namespace AndroidLint

namespace Code

open Syntax (Tree)

/-! ## Files at a path -/

namespace SourceFile

/-- `f.LiesAt path`: the file stands at the path, and so its nodes say. -/
structure LiesAt (f : SourceFile) (path : FilePath) : Prop where
  here : f.path = path
  imports : ∀ i ∈ f.imports, i.location.file = path
  classes : ∀ c ∈ f.classes, c.location.file = path
  methods : ∀ m ∈ f.methods, m.location.file = path
  calls : ∀ c ∈ f.calls, c.location.file = path
  references : ∀ r ∈ f.references, r.location.file = path
  lambdas : ∀ l ∈ f.lambdas, l.location.file = path

theorem liesAt_empty (path : FilePath) (l : Language) : (SourceFile.empty path l).LiesAt path := by
  constructor
  case here => rfl
  all_goals
    intro a mem
    cases Array.not_mem_empty a mem

theorem forall_mem_push {α : Type} {P : α → Prop} {as : Array α} {b : α} (all : ∀ a ∈ as, P a)
    (last : P b) : ∀ a ∈ as.push b, P a := by
  intro a mem
  obtain mem | rfl := Array.mem_push.mp mem
  · exact all a mem
  · exact last

section Adding

variable {f : SourceFile} {path : FilePath} (lies : f.LiesAt path)

include lies

theorem LiesAt.addClass {c : ClassDecl} (own : c.location.file = path) :
    (f.addClass c).LiesAt path :=
  ⟨lies.here, lies.imports, forall_mem_push lies.classes own, lies.methods, lies.calls,
    lies.references, lies.lambdas⟩

theorem LiesAt.addMethod {m : MethodDecl} (own : m.location.file = path) :
    (f.addMethod m).LiesAt path :=
  ⟨lies.here, lies.imports, lies.classes, forall_mem_push lies.methods own, lies.calls,
    lies.references, lies.lambdas⟩

theorem LiesAt.pushImport {i : Import} (own : i.location.file = path) :
    LiesAt { f with imports := f.imports.push i } path :=
  ⟨lies.here, forall_mem_push lies.imports own, lies.classes, lies.methods, lies.calls,
    lies.references, lies.lambdas⟩

theorem LiesAt.pushCall {c : Call} (own : c.location.file = path) :
    LiesAt { f with calls := f.calls.push c } path :=
  ⟨lies.here, lies.imports, lies.classes, lies.methods, forall_mem_push lies.calls own,
    lies.references, lies.lambdas⟩

theorem LiesAt.pushReference {r : MemberReference} (own : r.location.file = path) :
    LiesAt { f with references := f.references.push r } path :=
  ⟨lies.here, lies.imports, lies.classes, lies.methods, lies.calls,
    forall_mem_push lies.references own, lies.lambdas⟩

theorem LiesAt.pushLambda {l : Lambda} (own : l.location.file = path) :
    LiesAt { f with lambdas := f.lambdas.push l } path :=
  ⟨lies.here, lies.imports, lies.classes, lies.methods, lies.calls, lies.references,
    forall_mem_push lies.lambdas own⟩

theorem LiesAt.declare (s : Scope) (name type : String) : (f.declare s name type).LiesAt path :=
  ⟨lies.here, lies.imports, lies.classes, lies.methods, lies.calls, lies.references, lies.lambdas⟩

end Adding

end SourceFile

/-- Entries that keep a file at its path keep the walk there. -/
theorem liesAt_walk {σ : Type} (file : σ → SourceFile) {path : FilePath}
    {enter : Scope → List Tree → σ → Tree → Entry σ}
    (keeps : ∀ s above d t, (file d).LiesAt path → (file (enter s above d t).state).LiesAt path)
    {d : σ} (lies : (file d).LiesAt path) (s : Scope) (above : List Tree) (t : Tree) :
    (file (walk enter s above d t)).LiesAt path := by
  have all : Keeps enter (fun d => (file d).LiesAt path) fun _ _ => True :=
    fun s above d t lies _ => ⟨keeps s above d t lies, fun _ => id, fun _ _ _ => trivial⟩
  exact (all.walk lies trivial t).1

/-! ## Java -/

namespace Java

section Entries

variable (o : Origin) (s : Scope) {f : SourceFile} (t : Tree) (lies : f.LiesAt o.path)

include lies

theorem liesAt_addImport : (addImport o f t).LiesAt o.path := by
  rw [addImport]
  split
  · exact lies
  · exact lies.pushImport rfl

theorem liesAt_declare (declaration : Tree) : (declare o s declaration f t).LiesAt o.path := by
  rw [declare]
  split
  · exact lies.declare _ _ _
  · exact lies

theorem liesAt_declareAll (declaration : Tree) (ts : List Tree) :
    (ts.foldl (declare o s declaration) f).LiesAt o.path := by
  induction ts generalizing f with
  | nil => exact lies
  | cons t ts ih => exact ih (liesAt_declare o s t lies declaration)

theorem liesAt_addReference : (addReference o s f t).LiesAt o.path := by
  rw [addReference]
  split
  · exact lies
  · exact lies.pushReference rfl

theorem liesAt_addCall (kind : t.kind? = some .call) : (addCall o s f t).LiesAt o.path := by
  rw [addCall]
  split
  case h_1 c reads =>
    obtain ⟨name, -, rfl⟩ := (expr_eq_call_iff kind).mp reads
    exact lies.pushCall rfl
  case h_2 => exact lies

theorem liesAt_enter (above : List Tree) : (enter o s above f t).state.LiesAt o.path := by
  rw [enter.eq_def]
  split
  case h_1 => exact ⟨lies.here, lies.imports, lies.classes, lies.methods, lies.calls,
    lies.references, lies.lambdas⟩
  case h_2 => exact liesAt_addImport o t lies
  case h_8 => exact lies.addMethod rfl
  case h_9 => exact liesAt_declare o s t lies t
  case h_10 => exact liesAt_declareAll o s lies t _
  case h_11 kind => exact liesAt_addCall o s t lies kind
  case h_12 =>
    split
    · exact lies.addClass rfl
    · exact lies
  case h_13 => exact lies.pushLambda rfl
  case h_14 => exact liesAt_addReference o s t lies
  case h_15 => exact lies
  all_goals exact lies.addClass rfl

end Entries

theorem liesAt_ofTree (o : Origin) (t : Tree) : (ofTree o t).LiesAt o.path :=
  liesAt_walk id (fun s above _ t lies => liesAt_enter o s t lies above)
    (SourceFile.liesAt_empty o.path .java) .file [] t

end Java

/-! ## Kotlin -/

namespace Kotlin

section Entries

variable (o : Origin) (s : Scope) {d : Draft} (t : Tree) (lies : d.file.LiesAt o.path)

include lies

theorem liesAt_addImport : (addImport o d t).file.LiesAt o.path := by
  rw [addImport]
  split
  · exact lies
  · exact lies.pushImport rfl

theorem liesAt_inFacade : (inFacade d s).1.file.LiesAt o.path := by
  rw [inFacade]
  split
  · exact lies
  · exact lies
  · exact lies.addClass lies.here

theorem liesAt_declare (name? : Option Tree) (type? : Option String) :
    (declare o d s name? type?).file.LiesAt o.path := by
  rw [declare.eq_def]
  split
  · exact lies.declare _ _ _
  · exact lies

theorem liesAt_declareProperty : (declareProperty o d s t).file.LiesAt o.path := by
  rw [declareProperty]
  split
  · exact lies
  · exact liesAt_declare o s lies _ _

theorem liesAt_addCall (kind : t.kind? = some .call) : (addCall o d s t).file.LiesAt o.path := by
  rw [addCall]
  split
  case h_1 c reads =>
    obtain ⟨-, name, -, rfl⟩ := (expr_eq_call_iff kind).mp reads
    exact lies.pushCall rfl
  case h_2 => exact lies

theorem liesAt_addPlainReference : (addPlainReference o d s t).file.LiesAt o.path := by
  rw [addPlainReference]
  split
  · exact lies
  · exact lies.pushReference rfl

theorem liesAt_addMemberReference : (addMemberReference o d s t).file.LiesAt o.path := by
  rw [addMemberReference]
  split
  · exact lies
  · split
    · exact lies
    · exact lies.pushReference rfl

theorem liesAt_enter (above : List Tree) : (enter o s above d t).state.file.LiesAt o.path := by
  rw [enter.eq_def]
  split
  case h_1 => exact ⟨lies.here, lies.imports, lies.classes, lies.methods, lies.calls,
    lies.references, lies.lambdas⟩
  case h_2 => exact liesAt_addImport o t lies
  case h_7 => exact (liesAt_inFacade o s lies).addMethod rfl
  case h_8 => exact liesAt_declareProperty o _ t (liesAt_inFacade o s lies)
  case h_9 => exact liesAt_declare o s lies _ _
  case h_10 kind => exact liesAt_addCall o s t lies kind
  case h_11 => exact liesAt_addPlainReference o s t lies
  case h_12 => exact liesAt_addMemberReference o s t lies
  case h_13 | h_14 => exact lies.pushLambda rfl
  case h_15 => exact lies
  all_goals exact lies.addClass rfl

end Entries

theorem liesAt_ofTree (o : Origin) (t : Tree) : (ofTree o t).LiesAt o.path :=
  liesAt_walk Draft.file (fun s above _ t lies => liesAt_enter o s t lies above)
    (SourceFile.liesAt_empty o.path .kotlin) .file [] t

end Kotlin

/-- What is read at a path lies at the path. -/
theorem liesAt_read (l : Language) (path : FilePath) (text : String) :
    (l.read path text).LiesAt path := by
  rw [Language.read]
  split
  case h_1 t parsed =>
    cases l with
    | kotlin => exact Kotlin.liesAt_ofTree ⟨path, text.toList⟩ t
    | java => exact Java.liesAt_ofTree ⟨path, text.toList⟩ t
  case h_2 => exact SourceFile.liesAt_empty path l

end Code

end AndroidLint
