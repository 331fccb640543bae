/-
Methods — which methods a Kotlin file lists.

Every function of a Kotlin file is listed as a method, in the order of the text,
with its place and the text of its modifiers (`methods_ofTree`).  The walk only
leaves out what stands in headers.  What the grammar puts there is a name or part
of one, so no function is missed (`mem_headerKinds_of_header`).
-/
import AndroidLint.Proofs.Code.Kotlin
import AndroidLint.Proofs.Code.Listing
import AndroidLint.Proofs.Syntax.Parts

namespace AndroidLint

namespace Syntax

namespace Kotlin

/-- What the rules add that headers and modifiers refer to. -/
def faces : Rule → Option (List Face)
  | .path => some [(none, some .path)]
  | .annotationUse => some [(none, some .annotationUse)]
  | _ => none

/-- Headers hold names, and modifiers stand among annotations. -/
def wishes : Kind → Option Wish
  | .packageHeader => some ⟨none, [none, some .path, some .comment]⟩
  | .importHeader =>
      some ⟨none, [none, some .path, some .wildcard, some .importAlias, some .comment]⟩
  | .importAlias => some ⟨none, [none, some .typeName, some .comment]⟩
  | .path => some ⟨none, [none, some .identifier, some .comment]⟩
  | .wildcard | .typeName | .identifier | .comment => some ⟨none, [some .comment]⟩
  | .modifiers => some ⟨none, [some .annotationUse, some .modifier, some .comment]⟩
  | _ => none

theorem grants_of_parse? {text : List Char} {t : Tree} (parsed : grammar.parse? text = some t) :
    t.Grants wishes := by
  refine Grammar.grants_of_parse? (g := grammar) faces ?_ ?_ ?_ parsed
  · intro r
    cases r <;> rfl
  · intro r
    cases r <;> rfl
  · intro k w wish
    cases k <;> cases wish <;> rfl

/-- The kinds of nodes that headers are made of. -/
def headerKinds : List Kind :=
  [.packageHeader, .importHeader, .importAlias, .path, .wildcard, .typeName, .identifier, .comment]

theorem mem_headerKinds_of_header {t : Tree} (grants : t.Grants wishes)
    (header : t.isKind .packageHeader = true ∨ t.isKind .importHeader = true) :
    ∀ v ∈ t.nodes, ∀ k, v.kind? = some k → k ∈ headerKinds := by
  have closed : ∀ k ∈ headerKinds, ∃ w, wishes k = some w ∧ w.role? = none ∧
      ∀ l, some l ∈ w.kinds → l ∈ headerKinds := by
    simp [headerKinds, wishes]
  obtain kind | kind := header
  all_goals exact grants.kinds_of_closed closed (beq_iff_eq.mp kind) (by decide)

end Kotlin

end Syntax

namespace Code

open Syntax (Tree Kind)

namespace Kotlin

/-- Whether the parts of a node are left out. -/
def isClosed (t : Tree) : Bool :=
  t.isKind .packageHeader || t.isKind .importHeader

/-- The text of the modifiers of a declaration. -/
def modifierText (o : Origin) (t : Tree) : String :=
  ((t.child? .modifiers).map o.words).getD ""

/-- The place and the modifiers of the method that a node makes, if it makes
one. -/
def methodGain (o : Origin) (t : Tree) : List (Location × String) :=
  if t.isKind .method then [(o.location t, modifierText o t)] else []

/-- The places and the modifiers of the methods of a draft. -/
def methodTexts (d : Draft) : List (Location × String) :=
  d.file.methods.toList.map fun m => (m.location, m.modifiers)

/-- `SameMethods d d'`: the files of two drafts are in one language and have the
same methods. -/
structure SameMethods (d d' : Draft) : Prop where
  language : d'.file.language = d.file.language
  methods : d'.file.methods = d.file.methods

section Entries

variable {o : Origin} {s : Scope} {d d' : Draft} {t : Tree}

theorem sameMethods_of_lists (same : d.SameLists d') : SameMethods d d' :=
  ⟨same.language, same.methods⟩

theorem sameMethods_addCall : SameMethods d (addCall o d s t) := by
  rw [addCall]
  split <;> exact ⟨rfl, rfl⟩

/-- A node that is no function leaves the methods as they are; a function adds its
own. -/
theorem sameMethods_enter (above : List Tree) :
    t.isKind .method = false ∧ SameMethods d (enter o s above d t).state ∨
      t.isKind .method = true ∧
        (enter o s above d t).state = addMethod o (inFacade d s).1 (inFacade d s).2 t := by
  have other {k : Kind} (kind : t.kind? = some k) (differs : (k == .method) = false) :
      t.isKind .method = false := by
    rw [Tree.isKind, kind, Option.some_beq_some, differs]
  rw [enter.eq_def]
  -- one case a kind of nodes
  split
  case h_2 kind => exact .inl ⟨other kind rfl, sameMethods_of_lists sameLists_addImport⟩
  case h_7 kind => exact .inr ⟨beq_iff_eq.mpr kind, rfl⟩
  case h_8 kind =>
    exact .inl ⟨other kind rfl,
      sameMethods_of_lists (sameLists_inFacade.trans sameLists_declareProperty)⟩
  case h_9 kind => exact .inl ⟨other kind rfl, sameMethods_of_lists (sameLists_declare _ _)⟩
  case h_10 kind => exact .inl ⟨other kind rfl, sameMethods_addCall⟩
  case h_11 kind => exact .inl ⟨other kind rfl, sameMethods_of_lists sameLists_addPlainReference⟩
  case h_12 kind => exact .inl ⟨other kind rfl, sameMethods_of_lists sameLists_addMemberReference⟩
  case h_15 _ _ _ _ _ _ notMethod _ _ _ _ _ _ _ =>
    exact .inl ⟨by simpa [Tree.isKind] using notMethod, rfl, rfl⟩
  all_goals
    rename_i kind
    exact .inl ⟨other kind rfl, rfl, rfl⟩

theorem methodTexts_of_same (same : d'.file.methods = d.file.methods) :
    methodTexts d' = methodTexts d := by
  rw [methodTexts, same, methodTexts]

theorem methodTexts_addMethod :
    methodTexts (addMethod o d s t) = methodTexts d ++ [(o.location t, modifierText o t)] := by
  simp [methodTexts, addMethod, SourceFile.addMethod, methodOf, modifierText]

theorem methodTexts_enter (above : List Tree) :
    methodTexts (enter o s above d t).state = methodTexts d ++ methodGain o t := by
  rw [methodGain]
  obtain ⟨kind, same⟩ | ⟨kind, added⟩ := sameMethods_enter (o := o) (s := s) (d := d) (t := t) above
  · rw [methodTexts_of_same same.methods, kind]
    exact (List.append_nil _).symm
  · rw [added, methodTexts_addMethod, methodTexts_of_same sameLists_inFacade.methods, if_pos kind]

theorem language_enter (above : List Tree) :
    (enter o s above d t).state.file.language = d.file.language := by
  obtain ⟨-, same⟩ | ⟨-, added⟩ := sameMethods_enter (o := o) (s := s) (d := d) (t := t) above
  · exact same.language
  · rw [added]
    exact sameLists_inFacade.language

theorem isClosed_of_kind {k : Kind} (kind : t.kind? = some k) :
    isClosed t = (k == .packageHeader || k == .importHeader) := by
  rw [isClosed, Tree.isKind, Tree.isKind, kind, Option.some_beq_some, Option.some_beq_some]

/-- A node's parts are gone into unless it is a header. -/
theorem isSome_scope?_enter (above : List Tree) (u : Tree) :
    ((enter o s above d t).scope? u).isSome = !isClosed t := by
  rw [enter.eq_def]
  split
  case h_15 notPackage notImport _ _ _ _ _ _ _ _ _ _ _ _ =>
    simp [isClosed, Tree.isKind, Entry.within, show t.kind? ≠ _ from notPackage,
      show t.kind? ≠ _ from notImport]
  all_goals
    rename_i kind
    rw [isClosed_of_kind kind]
    rfl

end Entries

theorem flatMap_methodGain (o : Origin) (ts : List Tree) :
    ts.flatMap (methodGain o) =
      (ts.filter (·.isKind .method)).map fun w => (o.location w, modifierText o w) := by
  induction ts with
  | nil => rfl
  | cons t ts ih =>
      rw [List.flatMap_cons, ih, List.filter_cons, methodGain]
      split <;> rfl

/-- **Which methods a Kotlin file lists.**  They are those of its functions, in
the order of the text. -/
theorem methods_ofTree {t : Tree} (grants : t.Grants Syntax.Kotlin.wishes) (o : Origin) :
    (ofTree o t).methods.toList.map (fun m => (m.location, m.modifiers)) =
      (t.nodes.filter (·.isKind .method)).map fun w => (o.location w, modifierText o w) := by
  have collects : Collects (enter o) (fun t _ => !isClosed t) (fun _ => True) methodTexts
      (methodGain o) :=
    { gains := fun _ above _ _ _ => methodTexts_enter above
      parts := fun _ above _ _ u => isSome_scope?_enter above u }
  have listed := collects.list_walk (t := t) (fun _ _ => trivial) .file []
    ⟨.empty o.path .kotlin, none, []⟩
  rw [flatMap_methodGain, Tree.filter_reached] at listed
  · exact listed
  · intro w hw u part out v inner
    rw [Bool.not_eq_false', isClosed, Bool.or_eq_true] at out
    rw [← Bool.not_eq_true]
    intro kind
    have among := Syntax.Kotlin.mem_headerKinds_of_header (grants.of_mem_nodes hw) out v
      (Tree.mem_nodes_of_mem_children part inner) .method (beq_iff_eq.mp kind)
    exact absurd among (by decide)

/-- A Kotlin file says so. -/
theorem language_ofTree (o : Origin) (t : Tree) : (ofTree o t).language = .kotlin := by
  have keeps : Keeps (enter o) (fun d => d.file.language = .kotlin) fun _ _ => True := by
    intro s above d t language _
    exact ⟨(language_enter above).trans language, fun _ => id, fun _ _ _ => trivial⟩
  rw [ofTree]
  exact (keeps.walk rfl trivial t).1

end Kotlin

end Code

end AndroidLint
