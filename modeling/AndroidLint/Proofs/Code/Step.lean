/-
Step — what one node adds to a file.

A node adds one class, one method, one call, one member reference or one
lambda, or nothing that has a scope (`Step`).  That is said once for each
language, and what a reader keeps is read off the six cases.

A walk through a tree keeps a property of states if every entry does, as
long as it hands to the parts of a node only scopes that fit the state, and
scopes that once fit go on fitting (`Keeps.walk`).
-/
import AndroidLint.Code.Java
import AndroidLint.Code.Kotlin
import AndroidLint.Proofs.Code.WellScoped

namespace AndroidLint

namespace Code

open Syntax (Tree)

/-! ## Steps -/

namespace SourceFile

/-- The nodes of two files are the same. -/
structure SameNodes (f g : SourceFile) : Prop where
  classes : g.classes = f.classes
  methods : g.methods = f.methods
  calls : g.calls = f.calls
  references : g.references = f.references
  lambdas : g.lambdas = f.lambdas

theorem SameNodes.refl (f : SourceFile) : SameNodes f f :=
  ⟨rfl, rfl, rfl, rfl, rfl⟩

theorem SameNodes.trans {f g h : SourceFile} (first : SameNodes f g) (second : SameNodes g h) :
    SameNodes f h :=
  ⟨second.classes.trans first.classes, second.methods.trans first.methods,
    second.calls.trans first.calls, second.references.trans first.references,
    second.lambdas.trans first.lambdas⟩

/-- `f.Step s g s'`: a node in the scope `s` takes the file `f` to `g`, and
its parts lie in `s'`. -/
inductive Step (f : SourceFile) (s : Scope) : SourceFile → Scope → Prop where
  | nothing {g : SourceFile} (same : SameNodes f g) : Step f s g s
  | type {c : ClassDecl} (scope : c.scope = s) (kind : c.kind ≠ .facade) :
      Step f s (f.addClass c) (.ofClass f.classes.size)
  | method {m : MethodDecl} (class? : m.class? = s.class?) :
      Step f s (f.addMethod m) (s.inMethod f.methods.size)
  | call {c : Call} (scopes : ∀ s' ∈ c.scopes, s' = s) :
      Step f s { f with calls := f.calls.push c } s
  | reference {r : MemberReference} (scopes : ∀ s' ∈ r.scopes, s' = s) :
      Step f s { f with references := f.references.push r } s
  | lambda {l : Lambda} (scope : l.scope = s) :
      Step f s { f with lambdas := f.lambdas.push l } s

section Adding

variable {f g : SourceFile} {s s' : Scope}

theorem class?_addClass (f : SourceFile) (d : ClassDecl) (c : ClassId) :
    (f.addClass d).class? c = if c = f.classes.size then some d else f.class? c :=
  Array.getElem?_push

theorem method?_addMethod (f : SourceFile) (d : MethodDecl) (m : MethodId) :
    (f.addMethod d).method? m = if m = f.methods.size then some d else f.method? m :=
  Array.getElem?_push

/-- A class that is found stays where it is when another is added. -/
theorem class?_addClass_of_found {c : ClassId} {d : ClassDecl} (found : f.class? c = some d)
    (d' : ClassDecl) : (f.addClass d').class? c = some d := by
  rw [class?_addClass, if_neg (Nat.ne_of_lt (lt_size_of_class? found)), found]

theorem method?_addMethod_of_found {m : MethodId} {d : MethodDecl} (found : f.method? m = some d)
    (d' : MethodDecl) : (f.addMethod d').method? m = some d := by
  obtain ⟨bound, -⟩ := Array.getElem?_eq_some_iff.mp found
  rw [method?_addMethod, if_neg (Nat.ne_of_lt bound), found]

theorem Holds.addClass (holds : f.Holds s) (d : ClassDecl) : (f.addClass d).Holds s where
  class? c mem := by
    obtain ⟨d', found⟩ := holds.class? c mem
    exact ⟨d', class?_addClass_of_found found d⟩
  method? := holds.method?

theorem Holds.addMethod (holds : f.Holds s) (d : MethodDecl) : (f.addMethod d).Holds s where
  class? := holds.class?
  method? m mem := by
    obtain ⟨d', found, hclass⟩ := holds.method? m mem
    exact ⟨d', method?_addMethod_of_found found d, hclass⟩

/-- Only classes and methods decide which scopes a file holds. -/
theorem Holds.congr (holds : f.Holds s) (classes : g.classes = f.classes)
    (methods : g.methods = f.methods) : g.Holds s where
  class? c mem := by
    rw [SourceFile.class?, classes]
    exact holds.class? c mem
  method? m mem := by
    rw [SourceFile.method?, methods]
    exact holds.method? m mem

theorem holds_file (f : SourceFile) : f.Holds .file where
  class? _ mem := by cases mem
  method? _ mem := by cases mem

theorem holds_ofClass (f : SourceFile) (d : ClassDecl) :
    (f.addClass d).Holds (.ofClass f.classes.size) where
  class? c mem := by
    obtain rfl := Option.mem_some_iff.mp mem
    exact ⟨d, by rw [class?_addClass, if_pos rfl]⟩
  method? _ mem := by cases mem

theorem Holds.inMethod (holds : f.Holds s) {d : MethodDecl} (class? : d.class? = s.class?) :
    (f.addMethod d).Holds (s.inMethod f.methods.size) where
  class? := holds.class?
  method? m mem := by
    obtain rfl := Option.mem_some_iff.mp mem
    exact ⟨d, by rw [method?_addMethod, if_pos rfl], class?⟩

theorem Holds.ofClass? (holds : f.Holds s) : f.Holds ⟨s.class?, none⟩ where
  class? := holds.class?
  method? _ mem := by cases mem

theorem Step.holds (step : Step f s g s') {s'' : Scope} (holds : f.Holds s'') : g.Holds s'' := by
  cases step with
  | nothing same => exact holds.congr same.classes same.methods
  | type => exact holds.addClass _
  | method => exact holds.addMethod _
  | call | reference | lambda => exact holds.congr rfl rfl

theorem Step.holds_part (step : Step f s g s') (holds : f.Holds s) : g.Holds s' := by
  cases step with
  | nothing same => exact holds.congr same.classes same.methods
  | type => exact holds_ofClass f _
  | method class? => exact holds.inMethod class?
  | call | reference | lambda => exact holds.congr rfl rfl

theorem mem_scopes_addClass {d : ClassDecl} :
    s ∈ (f.addClass d).scopes ↔ s = d.scope ∨ s ∈ f.scopes := by
  simp only [scopes, addClass, Array.toList_push, List.map_append, List.map_cons, List.map_nil,
    List.mem_append, List.mem_singleton]
  tauto

/-- The scopes after a step are those before and that of the node, or for a
method the class of that. -/
theorem Step.scopes (step : Step f s g s') :
    ∀ s'' ∈ g.scopes, s'' ∈ f.scopes ∨ s'' = s ∨ s'' = ⟨s.class?, none⟩ := by
  intro s'' mem
  cases step with
  | nothing same =>
      rw [SourceFile.scopes, same.classes, same.methods, same.calls, same.references,
        same.lambdas] at mem
      exact .inl mem
  | type scope kind =>
      rw [mem_scopes_addClass, scope] at mem
      tauto
  | method class? =>
      simp only [SourceFile.scopes, addMethod, Array.toList_push, List.map_append, List.map_cons,
        List.map_nil, List.mem_append, List.mem_singleton, class?] at mem ⊢
      tauto
  | call scopes =>
      simp only [SourceFile.scopes, Array.toList_push, List.flatMap_append, List.flatMap_singleton,
        List.mem_append] at mem ⊢
      have := scopes s''
      tauto
  | reference scopes =>
      simp only [SourceFile.scopes, Array.toList_push, List.flatMap_append, List.flatMap_singleton,
        List.mem_append] at mem ⊢
      have := scopes s''
      tauto
  | lambda scope =>
      simp only [SourceFile.scopes, Array.toList_push, List.map_append, List.map_cons,
        List.map_nil, List.mem_append, List.mem_singleton, scope] at mem ⊢
      tauto

theorem facadeCount_addClass (f : SourceFile) (d : ClassDecl) :
    (f.addClass d).facadeCount = f.facadeCount + if d.kind = .facade then 1 else 0 := by
  simp [facadeCount, addClass, List.countP_append, List.countP_singleton]

theorem Step.facadeCount (step : Step f s g s') : g.facadeCount = f.facadeCount := by
  cases step with
  | nothing same => rw [SourceFile.facadeCount, same.classes, SourceFile.facadeCount]
  | type scope kind => rw [facadeCount_addClass, if_neg kind, Nat.add_zero]
  | method | call | reference | lambda => rfl

theorem WellScoped.empty (path : FilePath) (l : Language) :
    (SourceFile.empty path l).WellScoped where
  holds _ mem := by cases mem
  outward _ _ found := by cases found
  facade _ _ found := by cases found
  oneFacade := Nat.zero_le 1

theorem WellScoped.addClass (well : f.WellScoped) {d : ClassDecl} (holds : f.Holds d.scope)
    (facade : d.kind = .facade → d.scope = .file ∧ f.facadeCount = 0) :
    (f.addClass d).WellScoped where
  holds s mem := by
    obtain rfl | mem := mem_scopes_addClass.mp mem
    · exact holds.addClass d
    · exact (well.holds s mem).addClass d
  outward c d' found outer mem := by
    rw [class?_addClass] at found
    split at found
    case isTrue here =>
      obtain rfl := Option.some.inj found
      obtain ⟨_, foundOuter⟩ := holds.class? outer mem
      exact here ▸ lt_size_of_class? foundOuter
    case isFalse => exact well.outward c d' found outer mem
  facade c d' found kind := by
    rw [class?_addClass] at found
    split at found
    case isTrue =>
      obtain rfl := Option.some.inj found
      exact (facade kind).1
    case isFalse => exact well.facade c d' found kind
  oneFacade := by
    rw [facadeCount_addClass]
    split
    case isTrue kind => exact Nat.le_of_eq (by rw [(facade kind).2])
    case isFalse => exact well.oneFacade

/-- A step leaves a well-scoped file well-scoped. -/
theorem Step.wellScoped (step : Step f s g s') (well : f.WellScoped) (holds : f.Holds s) :
    g.WellScoped := by
  have held : ∀ s'' ∈ g.scopes, g.Holds s'' := by
    intro s'' mem
    obtain mem | rfl | rfl := step.scopes s'' mem
    · exact step.holds (well.holds s'' mem)
    · exact step.holds holds
    · exact step.holds holds.ofClass?
  have count : g.facadeCount ≤ 1 := step.facadeCount ▸ well.oneFacade
  cases step with
  | nothing same =>
      have hclass : ∀ c, g.class? c = f.class? c := fun c => by
        rw [SourceFile.class?, same.classes, SourceFile.class?]
      exact ⟨held, fun c d found => well.outward c d (hclass c ▸ found),
        fun c d found => well.facade c d (hclass c ▸ found), count⟩
  | type scope kind => exact well.addClass (scope ▸ holds) fun h => absurd h kind
  | method | call | reference | lambda => exact ⟨held, well.outward, well.facade, count⟩

end Adding

end SourceFile

/-! ## Entries -/

section Entries

variable {σ : Type} {file : σ → SourceFile} {s s' : Scope} {f : SourceFile} {d : σ}

/-- `e.IsStep file s f`: the entry takes one step from `f`, and each part
lies in the scope that the step gives or in that of the node. -/
def Entry.IsStep (e : Entry σ) (file : σ → SourceFile) (s : Scope) (f : SourceFile) : Prop :=
  ∃ s', f.Step s (file e.state) s' ∧ ∀ u s'', e.scope? u = some s'' → s'' = s' ∨ s'' = s

theorem Entry.isStep_within (step : f.Step s (file d) s') : (Entry.within d s').IsStep file s f :=
  ⟨s', step, fun _ _ h => .inl (Option.some.inj h).symm⟩

theorem Entry.isStep_closed (same : f.SameNodes (file d)) : (Entry.closed d).IsStep file s f :=
  ⟨s, .nothing same, fun _ _ h => by cases h⟩

end Entries

/-! ## Walks -/

section Walks

variable {σ : Type} {enter : Scope → List Tree → σ → Tree → Entry σ}

/-- `Keeps enter inv fits`: what a node in a scope that fits adds keeps `inv`
and scopes that fit, and the scopes of its parts fit. -/
def Keeps (enter : Scope → List Tree → σ → Tree → Entry σ) (inv : σ → Prop)
    (fits : σ → Scope → Prop) : Prop :=
  ∀ s above d t, inv d → fits d s →
    inv (enter s above d t).state ∧ (∀ s', fits d s' → fits (enter s above d t).state s') ∧
      ∀ u s', (enter s above d t).scope? u = some s' → fits (enter s above d t).state s'

variable {inv : σ → Prop} {fits : σ → Scope → Prop}

mutual

/-- A walk keeps what every entry keeps. -/
theorem Keeps.walk (keeps : Keeps enter inv fits) {s : Scope} {above : List Tree} {d : σ}
    (holds : inv d) (fit : fits d s) : (t : Tree) →
    inv (walk enter s above d t) ∧ ∀ s', fits d s' → fits (walk enter s above d t) s'
  | .word .. => ⟨holds, fun _ => id⟩
  | .node k r p ts => by
      obtain ⟨entered, still, parts⟩ := keeps s above d (.node k r p ts) holds fit
      obtain ⟨walked, still'⟩ := keeps.walkAll entered parts ts
      exact ⟨walked, fun s' fit' => still' s' (still s' fit')⟩

theorem Keeps.walkAll (keeps : Keeps enter inv fits) {scope? : Tree → Option Scope}
    {above : List Tree} {d : σ} (holds : inv d) (fit : ∀ u s, scope? u = some s → fits d s) :
    (ts : List Tree) →
    inv (walkAll enter scope? above d ts) ∧
      ∀ s', fits d s' → fits (walkAll enter scope? above d ts) s'
  | [] => ⟨holds, fun _ => id⟩
  | t :: ts => by
      rw [Code.walkAll]
      cases hscope : scope? t with
      | none => exact keeps.walkAll holds fit ts
      | some s =>
          obtain ⟨first, still⟩ := keeps.walk holds (fit t s hscope) t
          obtain ⟨others, still'⟩ :=
            keeps.walkAll first (fun u s' h => still s' (fit u s' h)) ts
          exact ⟨others, fun s' fit' => still' s' (still s' fit')⟩

end

end Walks

end Code

end AndroidLint
