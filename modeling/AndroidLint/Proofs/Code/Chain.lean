/-
Chain — what encloses a place in a source file.

A class lies in a method, in a class or in the file, and a method lies in
its class.  The chain of a scope lists what is met on the way from there
out to the file; it is said without a bound, so a scope has one only if the
way ends.  In a file whose scopes exist, and in which classes come after
those around them, every scope has exactly one chain, and the walk through
the owners lists it: the bound that the walk is given cuts nothing off
(`Nested.owners_eq`).
-/
import Mathlib.Data.List.Basic
import AndroidLint.Code.Enclosing

namespace AndroidLint

namespace Code

namespace SourceFile

/-! ## Scopes in order -/

/-- The scopes that the nodes of a file lie in; a method lies in a class
only. -/
def nodeScopes (f : SourceFile) : List Scope :=
  f.classes.toList.map (·.scope) ++ f.methods.toList.map (⟨·.class?, none⟩)
    ++ f.calls.toList.map (·.scope) ++ f.references.toList.map (·.scope)
    ++ f.lambdas.toList.map (·.scope)

/-- `f.Holds s`: the class and the method of `s` are in the file, and the
method lies in the class. -/
structure Holds (f : SourceFile) (s : Scope) : Prop where
  class? : ∀ c ∈ s.class?, ∃ d, f.class? c = some d
  method? : ∀ m ∈ s.method?, ∃ d, f.method? m = some d ∧ d.class? = s.class?

/-- `f.Admits s`: the class and the method of `s` are in the file, and if it
names both, the method lies in the class. -/
structure Admits (f : SourceFile) (s : Scope) : Prop where
  class? : ∀ c ∈ s.class?, ∃ d, f.class? c = some d
  method? : ∀ m ∈ s.method?, ∃ d, f.method? m = some d ∧ ∀ c ∈ s.class?, d.class? = some c

/-- `f.Nested`: the scopes that nodes lie in are held, and a class that lies
in another comes after it. -/
structure Nested (f : SourceFile) : Prop where
  holds : ∀ s ∈ f.nodeScopes, f.Holds s
  outward : ∀ c d, f.class? c = some d → ∀ outer ∈ d.scope.class?, outer < c

/-- `f.Chain s os`: the methods and classes around a place in the scope `s`
are `os`, the innermost first. -/
inductive Chain (f : SourceFile) : Scope → List Owner → Prop
  | file : Chain f .file []
  | type {c : ClassId} {d : ClassDecl} {os : List Owner} (found : f.class? c = some d)
      (outer : Chain f d.scope os) : Chain f (.ofClass c) (.type c :: os)
  | method {c? : Option ClassId} {m : MethodId} {d : MethodDecl} {os : List Owner}
      (found : f.method? m = some d) (outer : Chain f ⟨d.class?, none⟩ os) :
      Chain f ⟨c?, some m⟩ (.method m :: os)

/-- `f.Encloses s o`: the method or class `o` is the one that `s` names, or
encloses one that `s` names. -/
inductive Encloses (f : SourceFile) : Scope → Owner → Prop
  | method {c? : Option ClassId} {m : MethodId} : Encloses f ⟨c?, some m⟩ (.method m)
  | type {c : ClassId} {m? : Option MethodId} : Encloses f ⟨some c, m?⟩ (.type c)
  | aroundMethod {c? : Option ClassId} {m : MethodId} {d : MethodDecl} {o : Owner}
      (found : f.method? m = some d) (outer : Encloses f ⟨d.class?, none⟩ o) :
      Encloses f ⟨c?, some m⟩ o
  | aroundType {c : ClassId} {m? : Option MethodId} {d : ClassDecl} {o : Owner}
      (found : f.class? c = some d) (outer : Encloses f d.scope o) :
      Encloses f ⟨some c, m?⟩ o

section Chain

variable {f : SourceFile} {s : Scope} {os : List Owner} {o : Owner}

theorem Holds.admits (holds : f.Holds s) : f.Admits s where
  class? := holds.class?
  method? m mem := by
    obtain ⟨d, found, hclass⟩ := holds.method? m mem
    exact ⟨d, found, fun c named => hclass.trans named⟩

theorem Holds.directClass? (holds : f.Holds s) : f.directClass? s = s.class? := by
  obtain ⟨_ | c, _ | m⟩ := s
  · rfl
  · obtain ⟨d, found, hclass⟩ := holds.method? m rfl
    simp [SourceFile.directClass?, found, hclass]
  · rfl
  · rfl

theorem lt_size_of_class? {c : ClassId} {d : ClassDecl} (found : f.class? c = some d) :
    c < f.classes.size := by
  obtain ⟨bound, -⟩ := Array.getElem?_eq_some_iff.mp found
  exact bound

theorem Nested.holds_scope (nested : f.Nested) {c : ClassId} {d : ClassDecl}
    (found : f.class? c = some d) : f.Holds d.scope := by
  have mem : d ∈ f.classes.toList := Array.mem_toList_iff.mpr (Array.mem_of_getElem? found)
  refine nested.holds _ ?_
  simp only [nodeScopes, List.mem_append, List.mem_map]
  exact .inl (.inl (.inl (.inl ⟨d, mem, rfl⟩)))

theorem Nested.holds_class (nested : f.Nested) {m : MethodId} {d : MethodDecl}
    (found : f.method? m = some d) : f.Holds ⟨d.class?, none⟩ := by
  have mem : d ∈ f.methods.toList := Array.mem_toList_iff.mpr (Array.mem_of_getElem? found)
  refine nested.holds _ ?_
  simp only [nodeScopes, List.mem_append, List.mem_map]
  exact .inl (.inl (.inl (.inr ⟨d, mem, rfl⟩)))

instance (f : SourceFile) (s : Scope) : Decidable (f.Holds s) :=
  decidable_of_iff
    ((∀ c ∈ s.class?, (f.class? c).isSome) ∧ ∀ m ∈ s.method?, ∃ d ∈ f.method? m, d.class? = s.class?)
    <| by
    simp only [Option.isSome_iff_exists]
    exact ⟨fun ⟨classes, methods⟩ => ⟨classes, methods⟩, fun holds => ⟨holds.class?, holds.method?⟩⟩

instance (f : SourceFile) (s : Scope) : Decidable (f.Admits s) :=
  decidable_of_iff
    ((∀ c ∈ s.class?, (f.class? c).isSome) ∧
      ∀ m ∈ s.method?, ∃ d ∈ f.method? m, ∀ c ∈ s.class?, d.class? = some c) <| by
    simp only [Option.isSome_iff_exists]
    exact ⟨fun ⟨classes, methods⟩ => ⟨classes, methods⟩,
      fun admits => ⟨admits.class?, admits.method?⟩⟩

instance (f : SourceFile) : Decidable f.Nested :=
  decidable_of_iff
    ((∀ s ∈ f.nodeScopes, f.Holds s) ∧
      ∀ p ∈ f.classes.toList.zipIdx, ∀ outer ∈ p.1.scope.class?, outer < p.2) <| by
    have hplace : ∀ c d, (d, c) ∈ f.classes.toList.zipIdx ↔ f.class? c = some d := fun c d => by
      rw [List.mem_zipIdx_iff_getElem?, Array.getElem?_toList, SourceFile.class?]
    constructor
    · rintro ⟨holds, outward⟩
      exact ⟨holds, fun c d found => outward (d, c) ((hplace c d).mpr found)⟩
    · intro nested
      exact ⟨nested.holds, fun p mem => nested.outward p.2 p.1 ((hplace p.2 p.1).mp mem)⟩

/-! ## The walk lists the chain -/

@[simp] theorem directClass?_inClass (f : SourceFile) (c? : Option ClassId) :
    f.directClass? ⟨c?, none⟩ = c? := by
  cases c? <;> rfl

theorem directClass?_inMethod {c? : Option ClassId} {m : MethodId} {d : MethodDecl}
    (found : f.method? m = some d) (named : ∀ c ∈ c?, d.class? = some c) :
    f.directClass? ⟨c?, some m⟩ = d.class? := by
  cases c? with
  | none => simp [SourceFile.directClass?, found]
  | some c => simp [SourceFile.directClass?, named c rfl]

theorem ownersWithin_file (f : SourceFile) (n : Nat) : f.ownersWithin n .file = [] := by
  cases n <;> rfl

theorem ownersWithin_ofClass {c : ClassId} {d : ClassDecl} (found : f.class? c = some d)
    (n : Nat) : f.ownersWithin (n + 1) (.ofClass c) = .type c :: f.ownersWithin n d.scope := by
  simp [ownersWithin, SourceFile.directClass?, Scope.ofClass, scopeOf?, found]

theorem ownersWithin_inMethod {c? : Option ClassId} {m : MethodId} {d : MethodDecl}
    (found : f.method? m = some d) (named : ∀ c ∈ c?, d.class? = some c) (n : Nat) :
    f.ownersWithin n ⟨c?, some m⟩ = .method m :: f.ownersWithin n ⟨d.class?, none⟩ := by
  cases n with
  | zero => rfl
  | succ n => simp [ownersWithin, directClass?_inMethod found named]

/-- Behind its method, if it names one, a scope has the chain of the class
that it lies in. -/
theorem Admits.chain (admits : f.Admits s) {n : Nat}
    (chain : f.Chain ⟨f.directClass? s, none⟩ (f.ownersWithin n ⟨f.directClass? s, none⟩)) :
    f.Chain s (f.ownersWithin n s) := by
  obtain ⟨c?, _ | m⟩ := s
  · rwa [directClass?_inClass] at chain
  · obtain ⟨d, found, named⟩ := admits.method? m rfl
    rw [directClass?_inMethod found named] at chain
    rw [ownersWithin_inMethod found named]
    exact .method found chain

theorem Nested.chain_class (nested : f.Nested) {n : Nat} {c? : Option ClassId}
    (known : ∀ c ∈ c?, ∃ d, f.class? c = some d) (below : ∀ c ∈ c?, c < n) :
    f.Chain ⟨c?, none⟩ (f.ownersWithin n ⟨c?, none⟩) := by
  -- with each step outwards the bound goes down by one, and the class by at least one
  induction n generalizing c? with
  | zero =>
      cases c? with
      | none => exact .file
      | some c => exact absurd (below c rfl) (Nat.not_lt_zero c)
  | succ n ih =>
      cases c? with
      | none => exact ownersWithin_file f (n + 1) ▸ .file
      | some c =>
          obtain ⟨d, found⟩ := known c rfl
          have holds := nested.holds_scope found
          have outer : f.Chain d.scope (f.ownersWithin n d.scope) := by
            refine holds.admits.chain ?_
            rw [holds.directClass?]
            exact ih holds.class? fun outer mem =>
              Nat.lt_of_lt_of_le (nested.outward c d found outer mem)
                (Nat.lt_succ_iff.mp (below c rfl))
          exact ownersWithin_ofClass found n ▸ .type found outer

theorem Nested.chain_ownersWithin (nested : f.Nested) (admits : f.Admits s) {n : Nat}
    (enough : f.classes.size ≤ n) : f.Chain s (f.ownersWithin n s) := by
  have known : ∀ c ∈ f.directClass? s, ∃ d, f.class? c = some d := by
    obtain ⟨c?, _ | m⟩ := s
    · rw [directClass?_inClass]
      exact admits.class?
    · obtain ⟨d, found, named⟩ := admits.method? m rfl
      rw [directClass?_inMethod found named]
      exact (nested.holds_class found).class?
  refine admits.chain (nested.chain_class known fun c mem => ?_)
  obtain ⟨d, found⟩ := known c mem
  exact Nat.lt_of_lt_of_le (lt_size_of_class? found) enough

/-- A scope has one chain at most. -/
theorem Chain.unique {os' : List Owner} (chain : f.Chain s os) (other : f.Chain s os') :
    os = os' := by
  induction chain generalizing os' with
  | file =>
      cases other
      rfl
  | type found _ ih =>
      cases other with
      | type found' outer' =>
          obtain rfl := Option.some.inj (found.symm.trans found')
          rw [ih outer']
  | method found _ ih =>
      cases other with
      | method found' outer' =>
          obtain rfl := Option.some.inj (found.symm.trans found')
          rw [ih outer']

/-- The owners that a place sees are its chain and the file. -/
theorem Nested.owners_eq (nested : f.Nested) (admits : f.Admits s) :
    ∃ os, f.Chain s os ∧ f.owners s = os ++ [.file] :=
  ⟨_, nested.chain_ownersWithin admits (Nat.le_succ _), rfl⟩

/-! ## What encloses a place -/

theorem Chain.encloses (chain : f.Chain s os) (mem : o ∈ os) : f.Encloses s o := by
  induction chain with
  | file => cases mem
  | type found _ ih =>
      obtain rfl | mem := List.mem_cons.mp mem
      · exact .type
      · exact .aroundType found (ih mem)
  | method found _ ih =>
      obtain rfl | mem := List.mem_cons.mp mem
      · exact .method
      · exact .aroundMethod found (ih mem)

/-- The chain of a scope in a class has the class behind the method, if there
is one, and goes on from there. -/
theorem Chain.of_class {c : ClassId} {m? : Option MethodId} (chain : f.Chain ⟨some c, m?⟩ os)
    (holds : f.Holds ⟨some c, m?⟩) :
    ∃ d outer, f.class? c = some d ∧ f.Chain d.scope outer ∧
      os = m?.toList.map .method ++ .type c :: outer := by
  cases chain with
  | type found outer => exact ⟨_, _, found, outer, rfl⟩
  | method found outer =>
      obtain ⟨d, found', hclass⟩ := holds.method? _ rfl
      obtain rfl := Option.some.inj (found.symm.trans found')
      rw [hclass] at outer
      cases outer with
      | type found outer => exact ⟨_, _, found, outer, rfl⟩

theorem Nested.mem_chain_of_encloses (nested : f.Nested) (encloses : f.Encloses s o)
    (holds : f.Holds s) (chain : f.Chain s os) : o ∈ os := by
  induction encloses generalizing os with
  | method =>
      cases chain
      exact List.mem_cons_self
  | type =>
      obtain ⟨-, outer, -, -, rfl⟩ := chain.of_class holds
      exact List.mem_append_right _ List.mem_cons_self
  | aroundMethod found _ ih =>
      cases chain with
      | method found' outer =>
          obtain rfl := Option.some.inj (found.symm.trans found')
          exact List.mem_cons_of_mem _ (ih (nested.holds_class found) outer)
  | aroundType found _ ih =>
      obtain ⟨d, outer, found', chain, rfl⟩ := chain.of_class holds
      obtain rfl := Option.some.inj (found.symm.trans found')
      exact List.mem_append_right _
        (List.mem_cons_of_mem _ (ih (nested.holds_scope found) chain))

/-- The chain of a scope lists what encloses a place in it. -/
theorem Nested.mem_chain_iff (nested : f.Nested) (holds : f.Holds s) (chain : f.Chain s os) :
    o ∈ os ↔ f.Encloses s o :=
  ⟨chain.encloses, fun encloses => nested.mem_chain_of_encloses encloses holds chain⟩

end Chain

end SourceFile

/-! ## A file to look at -/

/-- A class with a method that makes an object, whose class has a method
too, with a call in it; the outer method silences two rules. -/
def listenerFile : SourceFile :=
  let path : FilePath := ⟨"src/A.java"⟩
  let silenced : Annotation := ⟨"android.annotation.SuppressLint", some "GetDrawable, \"FrameworkPair\""⟩
  { SourceFile.empty path .java with
    classes := #[
      ⟨"A", "A", .plain, none, [], [], .file, false, "", .top path⟩,
      ⟨"", "", .anonymous, some "Listener", [], [], ⟨some 0, some 0⟩, false, "", .top path⟩]
    methods := #[
      ⟨"start", some 0, [silenced], "", 1, .top path⟩,
      ⟨"heard", some 1, [], "", 0, .top path⟩]
    calls := #[⟨"getDrawable", none, [], ⟨some 1, some 1⟩, .top path⟩] }

theorem nested_listenerFile : listenerFile.Nested := by
  decide

theorem chain_listenerFile :
    listenerFile.Chain ⟨none, some 1⟩ [.method 1, .type 1, .method 0, .type 0] :=
  .method rfl (.type rfl (.method rfl (.type rfl .file)))

end Code

end AndroidLint
