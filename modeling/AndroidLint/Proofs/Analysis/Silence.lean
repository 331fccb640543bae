/-
Silence — what silences a rule in a source file.

An annotation silences the rules that it lists.  A rule is silent at a node
if such an annotation stands at the node itself, where the node is a class
or a method, or at a method or class around it, however many lie between.
That is said by `Encloses`, one step outwards at a time and without a bound;
that the walk meets just what encloses a node is `Nested.mem_chain_iff`.
-/
import AndroidLint.Analysis.Suppression
import AndroidLint.Proofs.Code.Chain
import AndroidLint.Proofs.Text.Parts
import AndroidLint.Symbol.Index

namespace AndroidLint

open Code (SourceFile Scope Owner Annotation)
open Rule (Node)

/-! ## Annotations -/

namespace Suppression

/-- `Lists list id`: the rule or `all` is one of the items that commas
separate, without the blanks around it and then without quotes. -/
def Lists (list id : String) : Prop :=
  ∃ piece ∈ list.toList.splitOn ',', ∃ quoted item,
    Text.Trimmed Text.isBlank piece quoted ∧ Text.Trimmed (· == '"') quoted item ∧
      (String.ofList item = id ∨ String.ofList item = "all")

/-- `Silences a id`: the annotation is one of those that silence rules, by
the last segment of its name, and lists the rule. -/
def Silences (a : Annotation) (id : String) : Prop :=
  (∃ name ∈ ["SuppressLint", "Suppress", "SuppressWarnings"],
    Text.IsLastSegment '.' a.name name) ∧
    ∃ list, a.value? = some list ∧ Lists list id

theorem names_iff (list id : String) : names list id = true ↔ Lists list id := by
  have hitem (piece : List Char) (i : String) : item piece = i ↔ ∃ quoted core,
      Text.Trimmed Text.isBlank piece quoted ∧ Text.Trimmed (· == '"') quoted core ∧
        String.ofList core = i := by
    simp only [item, ← Text.strip_eq_iff]
    exact ⟨fun h => ⟨_, _, rfl, rfl, h⟩, fun ⟨_, _, hquoted, hcore, h⟩ => hquoted ▸ hcore ▸ h⟩
  simp only [names, items, Text.pieces_eq_splitOnP, List.any_map, List.any_eq_true,
    Function.comp_apply, Bool.or_eq_true, beq_iff_eq, hitem, Lists, List.splitOn]
  refine exists_congr fun piece => and_congr_right fun _ => ?_
  constructor
  · rintro (⟨quoted, core, hquoted, hcore, h⟩ | ⟨quoted, core, hquoted, hcore, h⟩)
    · exact ⟨quoted, core, hquoted, hcore, .inl h⟩
    · exact ⟨quoted, core, hquoted, hcore, .inr h⟩
  · rintro ⟨quoted, core, hquoted, hcore, h | h⟩
    · exact .inl ⟨quoted, core, hquoted, hcore, h⟩
    · exact .inr ⟨quoted, core, hquoted, hcore, h⟩

theorem annotationSilences_iff (id : String) (a : Annotation) :
    annotationSilences id a = true ↔ Silences a id := by
  have hname (name : String) : a.simpleName = name ↔ Text.IsLastSegment '.' a.name name :=
    Text.afterLast_eq_iff
  simp only [annotationSilences, annotationNames, Silences, Bool.and_eq_true, List.contains_iff_mem,
    Option.any_eq_true, names_iff, ← hname, exists_eq_right']

/-! ## Methods and classes -/

/-- `Carries f o a`: the annotation stands at the method or class. -/
inductive Carries (f : SourceFile) : Owner → Annotation → Prop
  | method {m : Code.MethodId} {d : Code.MethodDecl} {a : Annotation}
      (found : f.method? m = some d) (mem : a ∈ d.annotations) : Carries f (.method m) a
  | type {c : Code.ClassId} {d : Code.ClassDecl} {a : Annotation}
      (found : f.class? c = some d) (mem : a ∈ d.annotations) : Carries f (.type c) a

variable {f : SourceFile} {s : Scope} {o : Owner} {a : Annotation} {id : String}

theorem mem_annotationsOf_iff : a ∈ annotationsOf f o ↔ Carries f o a := by
  constructor
  · intro mem
    cases o with
    | method m =>
        cases found : f.method? m with
        | none => simp [annotationsOf, found] at mem
        | some d => exact .method found (by simpa [annotationsOf, found] using mem)
    | type c =>
        cases found : f.class? c with
        | none => simp [annotationsOf, found] at mem
        | some d => exact .type found (by simpa [annotationsOf, found] using mem)
    | file => cases mem
  · rintro (⟨found, mem⟩ | ⟨found, mem⟩)
    · simpa [annotationsOf, found] using mem
    · simpa [annotationsOf, found] using mem

theorem ownerSilences_iff :
    ownerSilences f id o = true ↔ ∃ a, Carries f o a ∧ Silences a id := by
  simp only [ownerSilences, List.any_eq_true, mem_annotationsOf_iff, annotationSilences_iff]

/-- A scope is silent if something that encloses it is. -/
theorem silencedIn_iff (nested : f.Nested) (holds : f.Holds s) :
    silencedIn f s id = true ↔ ∃ o, f.Encloses s o ∧ ∃ a, Carries f o a ∧ Silences a id := by
  obtain ⟨os, chain, howners⟩ := nested.owners_eq holds.admits
  have hfile : ownerSilences f id .file = false := rfl
  simp only [silencedIn, howners, List.any_append, List.any_cons, List.any_nil, hfile,
    Bool.or_false, List.any_eq_true, nested.mem_chain_iff holds chain, ownerSilences_iff]

end Suppression

/-! ## Nodes -/

/-- `IsNode f n s as`: the file has the node `n`, a class, a method, a call, a
member reference or a lambda, which lies in the scope `s` and carries the
annotations `as`. -/
inductive IsNode (f : SourceFile) : Node → Scope → List Annotation → Prop
  | type {c : Code.ClassDecl} (mem : c ∈ f.classes) : IsNode f (.type c) c.scope c.annotations
  | method {m : Code.MethodDecl} (mem : m ∈ f.methods) :
      IsNode f (.method m) ⟨m.class?, none⟩ m.annotations
  | call {c : Code.Call} (mem : c ∈ f.calls) : IsNode f (.call c) c.scope []
  | reference {r : Code.MemberReference} (mem : r ∈ f.references) :
      IsNode f (.reference r) r.scope []
  | lambda {l : Code.Lambda} (mem : l ∈ f.lambdas) : IsNode f (.lambda l) l.scope []

theorem IsNode.mem_nodeScopes {f : SourceFile} {n : Node} {s : Scope} {as : List Annotation}
    (isNode : IsNode f n s as) : s ∈ f.nodeScopes := by
  simp only [SourceFile.nodeScopes, List.mem_append, List.mem_map, Array.mem_toList_iff]
  cases isNode with
  | type mem => exact .inl (.inl (.inl (.inl ⟨_, mem, rfl⟩)))
  | method mem => exact .inl (.inl (.inl (.inr ⟨_, mem, rfl⟩)))
  | call mem => exact .inl (.inl (.inr ⟨_, mem, rfl⟩))
  | reference mem => exact .inl (.inr ⟨_, mem, rfl⟩)
  | lambda mem => exact .inr ⟨_, mem, rfl⟩

theorem IsNode.isSilenced_eq {f : SourceFile} {n : Node} {s : Scope} {as : List Annotation}
    (isNode : IsNode f n s as) {x : Rule.Context} (source : x.source? = some f) (id : String) :
    Suppression.isSilenced x n id =
      (as.any (Suppression.annotationSilences id) || Suppression.silencedIn f s id) := by
  cases isNode <;> simp [Suppression.isSilenced, source]

/-- **A rule is silent just within what silences it.**  In a nested file the
way out from every class, method, call, member reference and lambda ends,
and a rule is silenced there exactly if the node, or some method or class
that encloses it, carries an annotation that lists the rule or all rules. -/
theorem isSilenced_iff_encloses {f : SourceFile} (nested : f.Nested) {n : Node} {s : Scope}
    {as : List Annotation} (isNode : IsNode f n s as) (settings : Rule.Settings)
    (resolver : Symbol.Resolver) (presence : Resource.Presence) (id : String) :
    (∃ os, f.Chain s os) ∧
      (Suppression.isSilenced ⟨settings, resolver, presence, .source f⟩ n id = true ↔
        (∃ a ∈ as, Suppression.Silences a id) ∨
          ∃ o, f.Encloses s o ∧ ∃ a, Suppression.Carries f o a ∧ Suppression.Silences a id) := by
  have holds := nested.holds s isNode.mem_nodeScopes
  obtain ⟨os, chain, -⟩ := nested.owners_eq holds.admits
  refine ⟨⟨os, chain⟩, ?_⟩
  rw [isNode.isSilenced_eq rfl, Bool.or_eq_true, List.any_eq_true,
    Suppression.silencedIn_iff nested holds]
  simp only [Suppression.annotationSilences_iff]

/-- A call two methods deep: the outer method silences a rule whose id is
written in quotes among others, and none that it does not list. -/
theorem isSilenced_iff_encloses_listenerFile :
    let silenced (n : Node) := Suppression.isSilenced
      ⟨.default, (Symbol.Index.build []).resolver, fun _ => false, .source Code.listenerFile⟩ n
    Code.listenerFile.Nested ∧ ∃ c, IsNode Code.listenerFile (.call c) ⟨some 1, some 1⟩ [] ∧
      silenced (.call c) "FrameworkPair" = true ∧ silenced (.call c) "RxJavaDistinct" = false ∧
      ∃ o, Code.listenerFile.Encloses ⟨some 1, some 1⟩ o ∧
        ∃ a, Suppression.Carries Code.listenerFile o a ∧
          Suppression.Silences a "FrameworkPair" := by
  intro silenced
  let call := Code.listenerFile.calls[0]
  have isNode : IsNode Code.listenerFile (.call call) ⟨some 1, some 1⟩ [] :=
    .call (Array.getElem_mem _)
  have found : silenced (.call call) "FrameworkPair" = true := by decide
  obtain ⟨-, silent⟩ := isSilenced_iff_encloses Code.nested_listenerFile isNode .default
    (Symbol.Index.build []).resolver (fun _ => false) "FrameworkPair"
  refine ⟨Code.nested_listenerFile, call, isNode, found, by decide, ?_⟩
  obtain ⟨a, mem, -⟩ | encloses := silent.mp found
  · cases mem
  · exact encloses

end AndroidLint
