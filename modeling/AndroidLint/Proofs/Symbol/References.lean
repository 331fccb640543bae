/-
References — a member reference and the call that it stands for.

A reference names a member without calling it: `receiver::name` stands for
`receiver.name()`.  The two are resolved by separate searches.  Whatever they
are made on, the searches take the same way, with one exception: for `this`
the call is looked for in the classes around, and the reference as if it had
no receiver at all, so that imports come first and the functions of the
package last.

`reference?_eq_call?_iff` says how much that is: the searches part exactly
where an import names another member than the classes around have, or where
the classes around have none and a function of the package is found.
-/
import AndroidLint.Code.Reader
import AndroidLint.Proofs.Symbol.Members

namespace AndroidLint

namespace Code

/-- The call that a reference stands for: of the same member, on the same
expression and in the same scope, with no arguments. -/
def MemberReference.asCall (r : MemberReference) : Call :=
  ⟨r.memberName, r.receiver?, [], r.scope, r.location⟩

end Code

namespace Symbol

open Code (SourceFile Language MemberReference ClassId Expr)

namespace Index

/-- `x.Unhidden f r`: what the classes around have by the name of the
reference is hidden by no import, and where they have nothing, no function of
the package is found in its place. -/
structure Unhidden (x : Index) (f : SourceFile) (r : MemberReference) : Prop where
  imports : ∀ m ∈ x.imported? f r.memberName,
    x.around? f r.memberName r.scope.class? = some m
  topLevel : x.imported? f r.memberName = none →
    x.around? f r.memberName r.scope.class? = none → x.topLevel? f r.memberName = none

section Searches

variable (x : Index) (f : SourceFile) {r : MemberReference}

/-- On `this`, the reference is looked for like a name without a receiver. -/
theorem reference?_this (receiver : r.receiver? = some .this) :
    x.reference? f r = x.unqualified? f r.memberName r.scope.class? := by
  rw [reference?, receiver]

/-- On `this`, the call is looked for in the classes around only. -/
theorem call?_this (receiver : r.receiver? = some .this) :
    x.call? f r.asCall = x.around? f r.memberName r.scope.class? := by
  rw [MemberReference.asCall, receiver, call?, around?]

/-- On anything but `this` the two are the same search. -/
theorem reference?_eq_call?_of_ne_this (other : r.receiver? ≠ some .this) :
    x.reference? f r = x.call? f r.asCall := by
  rw [reference?, MemberReference.asCall]
  cases receiver : r.receiver? with
  | none => rw [call?]
  | some e =>
      cases e with
      | this => exact absurd receiver other
      | _ =>
          rw [call?]
          rintro ⟨⟩

/-- A search through imports, classes and the package finds what the classes
have exactly if nothing hides it. -/
theorem unqualified?_eq_around?_iff :
    x.unqualified? f r.memberName r.scope.class? = x.around? f r.memberName r.scope.class? ↔
      x.Unhidden f r := by
  rw [unqualified?_eq]
  constructor
  · intro same
    constructor
    · intro m imported
      rw [Option.mem_def.mp imported] at same
      exact same.symm
    · intro imported around
      rw [imported, around] at same
      exact same
  · intro unhidden
    cases imported : x.imported? f r.memberName with
    | some m => exact (unhidden.imports m imported).symm
    | none =>
        cases around : x.around? f r.memberName r.scope.class? with
        | some m => rfl
        | none => exact unhidden.topLevel imported around

end Searches

/-- **References and calls part on `this` alone.**  In every index, file and
scope a reference goes to the same member as the call that it stands for, or
to none if that goes to none, whatever it is made on; only if it is made on
`this`, what the classes around have must not be hidden by an import, nor
made up for by a function of the package. -/
theorem reference?_eq_call?_iff (x : Index) (f : SourceFile) (r : MemberReference) :
    x.reference? f r = x.call? f r.asCall ↔ (r.receiver? = some .this → x.Unhidden f r) := by
  by_cases receiver : r.receiver? = some .this
  · rw [reference?_this x f receiver, call?_this x f receiver, unqualified?_eq_around?_iff]
    exact ⟨fun unhidden _ => unhidden, fun unhidden => unhidden receiver⟩
  · exact ⟨fun _ h => absurd h receiver, fun _ => reference?_eq_call?_of_ne_this x f receiver⟩

/-- A class with a method, which imports a function of that name. -/
def resetText : String :=
  "package p\n\nimport q.Api.reset\n\nclass A \x7b\n  fun reset() \x7b\x7d\n\n"
    ++ "  fun start() \x7b\n    this.reset()\n    run(this::reset)\n  \x7d\n\x7d\n"

/-- The function that is imported. -/
def apiText : String :=
  "package q;\n\npublic class Api \x7b\n  public static void reset() \x7b\x7d\n\x7d\n"

/-- The method called on `this` is the one of the class, and the method
referred to on `this` the imported one. -/
theorem reset_parts :
    let f := Language.kotlin.read ⟨"src/p/A.kt"⟩ resetText
    let x := build [f, Language.java.read ⟨"src/q/Api.java"⟩ apiText]
    f.references.toList.map (fun r =>
        ((x.reference? f r).map (·.declaringType), (x.call? f r.asCall).map (·.declaringType))) =
      [(some "q.Api", some "p.A")] := by
  decide +kernel

end Index

end Symbol

end AndroidLint
