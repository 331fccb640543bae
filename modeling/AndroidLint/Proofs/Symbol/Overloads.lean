/-
Overloads — calls go by the name that is called.

Above the type of a receiver each type is asked for a method of the name, and
answers with the first that it declares.  Nothing on the way reads what a call
is made with (`call?_withArguments`), although the methods of a project's types
say how many parameters they have, and the search for an overridden method
goes by it.

Where a type declares several methods of one name, a call therefore gets what
the first of them is annotated with, even if another is the only one that takes
as many arguments.  `call?_fits_iff` says when that is the same, and when it is
the same in whatever order the methods are declared.
-/
import AndroidLint.Code.Reader
import AndroidLint.Proofs.Symbol.Nearest
import AndroidLint.Symbol.Index

namespace AndroidLint

namespace Symbol

open Code (SourceFile Call Expr Language)

/-! ## Methods of one name -/

namespace TypeSymbol

/-- `t.OnlyOverload name n o`: of the methods of the name that the type itself
has exactly one takes `n` arguments, and that is `o`. -/
def OnlyOverload (t : TypeSymbol) (name : String) (n : Nat) (o : Method) : Prop :=
  t.methods.filter (fun m => m.name == name && m.parameterCount? == some n) = [o]

/-- `t.Annotated name annotations`: the first method of the name has the
annotations. -/
def Annotated (t : TypeSymbol) (name : String) (annotations : List Annotation) : Prop :=
  (t.method? name).map (·.annotations) = some annotations

section Overloads

variable {t : TypeSymbol} {name : String} {n : Nat} {o : Method}

theorem OnlyOverload.iff (only : t.OnlyOverload name n o) {m : Method} :
    (m ∈ t.methods ∧ m.name = name ∧ m.parameterCount? = some n) ↔ m = o := by
  have mem : m ∈ t.methods.filter (fun m => m.name == name && m.parameterCount? == some n) ↔
      m = o := by
    rw [only, List.mem_singleton]
  simpa using mem

theorem OnlyOverload.declares (only : t.OnlyOverload name n o) : t.Declares name := by
  obtain ⟨mem, named, -⟩ := only.iff.mpr rfl
  exact ⟨o, mem, named⟩

/-- The annotations do not depend on the order of the methods exactly if all
methods of the name have them. -/
theorem annotated_perm_iff {annotations : List Annotation} (declares : t.Declares name) :
    (∀ methods, methods.Perm t.methods → { t with methods := methods }.Annotated name annotations) ↔
      ∀ m ∈ t.methods, m.name = name → m.annotations = annotations := by
  constructor
  · intro every m mem named
    obtain ⟨before, after, split⟩ := List.append_of_mem mem
    -- The order in which `m` is the first of all.
    have ahead := every (m :: (before ++ after)) (split ▸ List.perm_middle.symm)
    simpa [Annotated, method?, named] using ahead
  · intro alike methods perm
    have declares' : { t with methods := methods }.Declares name := by
      obtain ⟨m, mem, named⟩ := declares
      exact ⟨m, perm.mem_iff.mpr mem, named⟩
    obtain ⟨first, hfirst⟩ := declares'.exists_firstOf fun _ => beq_iff_eq
    have answered : methods.find? (·.name == name) = some first :=
      (find?_eq_some_iff_firstOf fun _ => beq_iff_eq).mpr hfirst
    rw [Annotated, method?, answered, Option.map_some,
      alike first (perm.mem_iff.mp hfirst.mem) hfirst.property]

end Overloads

end TypeSymbol

namespace Index

/-! ## Calls on a receiver -/

section Receivers

variable {x : Index} {f : SourceFile} {c : Call} {receiver : Expr} {type : String}

theorem call?_eq_member? (made : c.receiver? = some receiver)
    (typed : x.typeOf? f c.scope receiver = some type) :
    x.call? f c = x.types.member? type c.methodName := by
  obtain ⟨name, receiver?, arguments, s, place⟩ := c
  obtain rfl : receiver? = some receiver := made
  have other : receiver ≠ .this := by
    rintro rfl
    simp [typeOf?] at typed
  rw [call?]
  · rw [typed, Option.bind_some]
  · simpa using other

/-- A call goes to the same method whatever it is made with. -/
theorem call?_withArguments (arguments : List Expr) :
    x.call? f { c with arguments := arguments } = x.call? f c := by
  obtain ⟨name, receiver?, written, s, place⟩ := c
  cases receiver? with
  | none => rw [call?, call?]
  | some receiver =>
      cases receiver with
      | this => rw [call?, call?]
      | _ => rw [call?, call?] <;> rintro ⟨⟩

end Receivers

/-! ## The overload that a call fits -/

/-- `x.Fits f c t o`: the call is made on something of a known type, `t` is the
first type above it that declares the name, and of its methods of the name
exactly `o` takes as many arguments as the call has. -/
structure Fits (x : Index) (f : SourceFile) (c : Call) (t : TypeSymbol) (o : Method) : Prop where
  above : ∃ receiver type, c.receiver? = some receiver
    ∧ x.typeOf? f c.scope receiver = some type
    ∧ FirstOf (·.Declares c.methodName) (x.types.walk type) t
  only : t.OnlyOverload c.methodName c.arguments.length o

section Fits

variable {x : Index} {f : SourceFile} {c : Call} {t : TypeSymbol} {o : Method}

/-- The call goes to the method of the name that is declared first. -/
theorem Fits.exists_first (fits : x.Fits f c t o) :
    ∃ first, FirstOf (·.name = c.methodName) t.methods first
      ∧ x.call? f c = some (t.member first) := by
  obtain ⟨receiver, type, made, typed, declaring⟩ := fits.above
  obtain ⟨first, hfirst⟩ := fits.only.declares.exists_firstOf fun _ => beq_iff_eq
  refine ⟨first, hfirst, ?_⟩
  rw [call?_eq_member? made typed, TypeTable.member?_eq_search,
    TypeTable.search_eq_some_iff fun _ => beq_iff_eq]
  exact ⟨t, first, declaring, hfirst, rfl⟩

end Fits

/-- **A call gets the annotations of the overload that it fits if the first
overload is that one or annotated alike.**  In every index, let a call be made
on something of a known type, and let the first type above that declares the
name have exactly one method of it that takes as many arguments.  The call goes
to the first method of the name that the type declares, and so would the call
with any other arguments.  Its annotations are those of the method that it fits
if and only if the first one takes as many arguments, too, or has the same
annotations; and the first one has them in every order of the methods if and
only if all methods of the name do. -/
theorem call?_fits_iff (x : Index) (f : SourceFile) (c : Call) {t : TypeSymbol} {o : Method}
    (fits : x.Fits f c t o) :
    ∃ first, FirstOf (·.name = c.methodName) t.methods first
      ∧ (∀ arguments, x.call? f { c with arguments := arguments } = some (t.member first))
      ∧ ((x.call? f c).map (·.annotations) = some o.annotations ↔
          first.parameterCount? = some c.arguments.length ∨ first.annotations = o.annotations)
      ∧ ((∀ methods, methods.Perm t.methods →
            { t with methods := methods }.Annotated c.methodName o.annotations) ↔
          ∀ m ∈ t.methods, m.name = c.methodName → m.annotations = o.annotations) := by
  obtain ⟨first, hfirst, goes⟩ := fits.exists_first
  have own : first.parameterCount? = some c.arguments.length → first.annotations = o.annotations :=
    fun counts => congrArg Method.annotations
      (fits.only.iff.mp ⟨hfirst.mem, hfirst.property, counts⟩)
  refine ⟨first, hfirst, fun arguments => (call?_withArguments arguments).trans goes, ?_,
    TypeSymbol.annotated_perm_iff fits.only.declares⟩
  rw [goes, Option.map_some, Option.some_inj]
  exact ⟨.inr, fun alike => alike.elim own id⟩

/-! ## A class with two overloads -/

/-- A Java class with some methods. -/
def api (methods : String) : SourceFile :=
  Language.java.read ⟨"src/Api.java"⟩
    ("import guardrails.JavaOnly;\n\nclass Api \x7b\n" ++ methods ++ "\x7d\n")

/-- A method without parameters, which Kotlin is not to call. -/
def restrictedRun : String :=
  "  @JavaOnly void run() \x7b\x7d\n"

/-- A method of the same name with a parameter. -/
def run : String :=
  "  void run(int times) \x7b\x7d\n"

/-- A Kotlin file that calls the one with a parameter. -/
def caller : SourceFile :=
  Language.kotlin.read ⟨"src/Go.kt"⟩ "fun go(api: Api) \x7b\n  api.run(1)\n\x7d\n"

/-- `x.FitsPlain c`: the call is made on the class, which extends nothing, and
exactly one method of the name takes as many arguments as the call has; that
one is not annotated. -/
def FitsPlain (x : Index) (c : Call) : Prop :=
  ∃ receiver ∈ c.receiver?, x.typeOf? caller c.scope receiver = some "Api"
    ∧ ∃ t ∈ x.types.find? "Api", t.superTypes = []
      ∧ (t.methods.filter fun m => m.name == c.methodName
          && m.parameterCount? == some c.arguments.length).map (·.annotations) = [[]]

theorem FitsPlain.exists_fits {x : Index} {c : Call} (plain : x.FitsPlain c) :
    ∃ t o, x.Fits caller c t o ∧ o.annotations = [] := by
  obtain ⟨receiver, made, typed, t, known, top, alone⟩ := plain
  obtain ⟨o, only, bare⟩ := List.map_eq_singleton_iff.mp alone
  have only : t.OnlyOverload c.methodName c.arguments.length o := only
  have declaring : FirstOf (·.Declares c.methodName) (x.types.walk "Api") t := by
    rw [TypeTable.walk_eq_singleton known top]
    exact ⟨[], [], rfl, only.declares, fun _ h => absurd h List.not_mem_nil⟩
  exact ⟨t, o, ⟨⟨receiver, "Api", made, typed, declaring⟩, only⟩, bare⟩

theorem call?_fits_iff_caller :
    let x := build [api (run ++ restrictedRun), caller]
    ∃ c ∈ caller.calls, ∃ t o first, x.Fits caller c t o
      ∧ FirstOf (·.name = c.methodName) t.methods first
      ∧ (∀ arguments, x.call? caller { c with arguments := arguments } = some (t.member first))
      ∧ ((x.call? caller c).map (·.annotations) = some o.annotations ↔
          first.parameterCount? = some c.arguments.length
            ∨ first.annotations = o.annotations)
      ∧ ((∀ methods, methods.Perm t.methods →
            { t with methods := methods }.Annotated c.methodName o.annotations) ↔
          ∀ m ∈ t.methods, m.name = c.methodName → m.annotations = o.annotations) := by
  intro x
  have plain : ∃ c ∈ caller.calls, x.FitsPlain c := by
    unfold FitsPlain
    decide +kernel
  obtain ⟨c, mem, plain⟩ := plain
  obtain ⟨t, o, fits, -⟩ := plain.exists_fits
  obtain ⟨first, rest⟩ := call?_fits_iff x caller c fits
  exact ⟨c, mem, t, o, first, fits, rest⟩

/-- With the restricted method ahead the call gets that one's annotation, and
the method that it fits has none. -/
theorem call?_passes_overload :
    let x := build [api (restrictedRun ++ run), caller]
    ∃ c ∈ caller.calls, ∃ t o, x.Fits caller c t o ∧ o.annotations = []
      ∧ (x.call? caller c).map (·.annotations) = some [⟨"guardrails.JavaOnly", none⟩] := by
  intro x
  have facts : ∃ c ∈ caller.calls, x.FitsPlain c
      ∧ (x.call? caller c).map (·.annotations) = some [⟨"guardrails.JavaOnly", none⟩] := by
    unfold FitsPlain
    decide +kernel
  obtain ⟨c, mem, plain, restricted⟩ := facts
  obtain ⟨t, o, fits, bare⟩ := plain.exists_fits
  exact ⟨c, mem, t, o, fits, bare, restricted⟩

end Index

end Symbol

end AndroidLint
