/-
WellScoped — files in which every scope exists.

The nodes of a source file say where they lie by the positions of a class
and of a method.  In a well-scoped file these positions exist, and a method
that is named next to a class lies in that class.  Classes are listed after
those they lie in, so a walk outwards goes down the list and ends; this is
why the bounds that the walks are given cut nothing off
(`WellScoped.ownersWithin_eq`, `WellScoped.classesWithin_eq`).

The calls inside expressions name scopes too.  That is more than a walk
needs: a well-scoped file is nested (`WellScoped.nested`), and the walk
through the owners is settled for nested files.
-/
import AndroidLint.Proofs.Code.Chain

namespace AndroidLint

namespace Code

/-! ## The scopes in a file -/

mutual

/-- The scopes that the calls in an expression name. -/
def Expr.scopes : Expr → List Scope
  | .call c => c.scopes
  | _ => []

/-- The scopes that a call and the calls in it name. -/
def Call.scopes : Call → List Scope
  | ⟨_, receiver?, arguments, scope, _⟩ => scope :: (optionScopes receiver? ++ listScopes arguments)

/-- The scopes that the calls in an expression name, if there is one. -/
def optionScopes : Option Expr → List Scope
  | none => []
  | some e => e.scopes

/-- The scopes that the calls in expressions name. -/
def listScopes : List Expr → List Scope
  | [] => []
  | e :: es => e.scopes ++ listScopes es

end

/-- The scopes that a member reference and the calls in it name. -/
def MemberReference.scopes (r : MemberReference) : List Scope :=
  r.scope :: optionScopes r.receiver?

namespace SourceFile

/-- The scopes that the nodes of a file name; a method lies in a class
only. -/
def scopes (f : SourceFile) : List Scope :=
  f.classes.toList.map (·.scope) ++ f.methods.toList.map (⟨·.class?, none⟩)
    ++ f.calls.toList.flatMap Call.scopes ++ f.references.toList.flatMap MemberReference.scopes
    ++ f.lambdas.toList.map (·.scope)

/-- How many classes stand for the file. -/
def facadeCount (f : SourceFile) : Nat :=
  f.classes.toList.countP (·.kind == .facade)

/-- `f.WellScoped`: the scopes in a file exist, classes come after those they
lie in, and at most one stands for the file, outside all others. -/
structure WellScoped (f : SourceFile) : Prop where
  holds : ∀ s ∈ f.scopes, f.Holds s
  outward : ∀ c d, f.class? c = some d → ∀ outer ∈ d.scope.class?, outer < c
  facade : ∀ c d, f.class? c = some d → d.kind = .facade → d.scope = .file
  oneFacade : f.facadeCount ≤ 1

/-! ## Walks outwards -/

section Walks

variable {f : SourceFile} {s : Scope}

theorem mem_scopes_of_lambda {l : Lambda} (mem : l ∈ f.lambdas) : l.scope ∈ f.scopes := by
  simp only [scopes, List.mem_append, List.mem_map]
  exact .inr ⟨l, Array.mem_toList_iff.mpr mem, rfl⟩

theorem mem_scopes_of_mem_nodeScopes (mem : s ∈ f.nodeScopes) : s ∈ f.scopes := by
  have hcall : ∀ c : Call, c.scope ∈ c.scopes := by
    rintro ⟨name, receiver?, arguments, scope, location⟩
    exact List.mem_cons_self
  simp only [nodeScopes, scopes, List.mem_append, List.mem_map, List.mem_flatMap] at mem ⊢
  obtain (((mem | mem) | ⟨c, mem, rfl⟩) | ⟨r, mem, rfl⟩) | mem := mem
  · exact .inl (.inl (.inl (.inl mem)))
  · exact .inl (.inl (.inl (.inr mem)))
  · exact .inl (.inl (.inr ⟨c, mem, hcall c⟩))
  · exact .inl (.inr ⟨r, mem, List.mem_cons_self⟩)
  · exact .inr mem

theorem WellScoped.nested (well : f.WellScoped) : f.Nested where
  holds s mem := well.holds s (mem_scopes_of_mem_nodeScopes mem)
  outward := well.outward

/-- The walk through the owners ends before its bound. -/
theorem WellScoped.ownersWithin_eq (well : f.WellScoped) (holds : f.Holds s) {n : Nat}
    (enough : f.classes.size ≤ n) :
    f.ownersWithin n s = f.ownersWithin (f.classes.size + 1) s :=
  (well.nested.chain_ownersWithin holds.admits enough).unique
    (well.nested.chain_ownersWithin holds.admits (Nat.le_succ _))

theorem WellScoped.classesWithin_eq_of_lt (well : f.WellScoped) {n m : Nat}
    {c? : Option ClassId} (below : ∀ c ∈ c?, c < n ∧ c < m) :
    f.classesWithin n c? = f.classesWithin m c? := by
  induction n generalizing c? m with
  | zero =>
      cases c? with
      | none => cases m <;> rfl
      | some c => exact absurd (below c rfl).1 (Nat.not_lt_zero c)
  | succ n ih =>
      cases c? with
      | none => cases m <;> rfl
      | some c =>
          obtain ⟨hn, hm⟩ := below c rfl
          obtain ⟨m, rfl⟩ := Nat.exists_eq_succ_of_ne_zero (Nat.ne_zero_of_lt hm)
          rw [classesWithin, classesWithin, Option.bind_some]
          cases found : f.class? c with
          | none => rfl
          | some d =>
              have hsame : f.classesWithin n d.scope.class? = f.classesWithin m d.scope.class? :=
                ih fun c' mem =>
                  have smaller := well.outward c d found c' mem
                  ⟨Nat.lt_of_lt_of_le smaller (Nat.lt_succ_iff.mp hn),
                    Nat.lt_of_lt_of_le smaller (Nat.lt_succ_iff.mp hm)⟩
              simp only [hsame]

/-- The walk through the classes ends before its bound. -/
theorem WellScoped.classesWithin_eq (well : f.WellScoped) (holds : f.Holds s) {n : Nat}
    (enough : f.classes.size ≤ n) :
    f.classesWithin n s.class? = f.enclosingClasses s.class? := by
  refine well.classesWithin_eq_of_lt fun c mem => ?_
  obtain ⟨d, found⟩ := holds.class? c mem
  have bound := lt_size_of_class? found
  exact ⟨Nat.lt_of_lt_of_le bound enough, bound⟩

/-- The walk from a class goes on from the class around it. -/
theorem WellScoped.enclosingClasses_of_class? (well : f.WellScoped) {i : ClassId} {c : ClassDecl}
    (found : f.class? i = some c) :
    f.enclosingClasses (some i) = c :: f.enclosingClasses c.scope.class? := by
  have bound := lt_size_of_class? found
  obtain ⟨n, hn⟩ := Nat.exists_eq_succ_of_ne_zero (Nat.ne_zero_of_lt bound)
  have hrest : f.classesWithin n c.scope.class? = f.enclosingClasses c.scope.class? := by
    refine well.classesWithin_eq_of_lt fun outer mem => ?_
    have inner : outer < i := well.outward i c found outer mem
    exact ⟨Nat.lt_of_lt_of_le inner (Nat.lt_succ_iff.mp (hn ▸ bound)), Nat.lt_trans inner bound⟩
  rw [← hrest, enclosingClasses, hn, classesWithin, Option.bind_some, found]

end Walks

end SourceFile

end Code

end AndroidLint
