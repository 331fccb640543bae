/-
Overriding — the method that is found for an overriding one.

The search goes up from each type that the class extends, from one after the
other, and the first search that finds something ends it.  Each of them ends
at the nearest type above its own start (`nearest_of_search`), so nothing is
found only if there is nothing to override.  But what is found high above the
first type comes before what the second type has itself: searching from each
type in turn is not searching level by level.

`superMember?_closest_iff` says how far the two are apart.  A search passes
over a closer type exactly if that stands above one of the types that were
left when it ended.
-/
import AndroidLint.Code.Reader
import AndroidLint.Proofs.Symbol.Nearest
import AndroidLint.Symbol.Index
import AndroidLint.Symbol.Resolver

namespace AndroidLint

namespace Symbol

open Code (SourceFile ClassDecl MethodDecl)

/-! ## Methods that can be overridden -/

/-- `o.Admits m`: the method `o` has the name of `m` and as many parameters, or
an unknown number of them. -/
def Method.Admits (o : Method) (m : MethodDecl) : Prop :=
  o.name = m.name ∧ ∀ n ∈ o.parameterCount?, n = m.parameterCount

theorem Method.accepts_iff {o : Method} {m : MethodDecl} : o.accepts m = true ↔ o.Admits m := by
  rw [accepts, Admits, Bool.and_eq_true, beq_iff_eq]
  cases o.parameterCount? <;> simp

/-- `t.Accepts m`: the type itself has a method that `m` could override. -/
def TypeSymbol.Accepts (t : TypeSymbol) (m : MethodDecl) : Prop :=
  t.Has (·.Admits m)

namespace Resolver

/-! ## Steps above a class -/

/-- `r.Above f c n name`: it takes `n` steps from the class `c` of `f` to
`name`, the first of them to a type that the class extends. -/
inductive Above (r : Resolver) (f : SourceFile) (c : ClassDecl) : Nat → String → Prop
  | step {up name : String} {n : Nat} : up ∈ r.superTypes f c → r.types.Above up n name →
      Above r f c (n + 1) name

/-- The least number of steps from a class to a name above it.  Where types
extend each other in a circle, a class may stand above itself. -/
noncomputable def distance (r : Resolver) (f : SourceFile) (c : ClassDecl) (name : String) : Nat :=
  sInf {n | r.Above f c n name}

/-- `r.Overridable f c m t`: the known type `t` stands above the class `c` of
`f`, and itself has a method that `m` could override. -/
structure Overridable (r : Resolver) (f : SourceFile) (c : ClassDecl) (m : MethodDecl)
    (t : TypeSymbol) : Prop where
  known : r.types.find? t.qualifiedName = some t
  above : ∃ n, r.Above f c n t.qualifiedName
  accepts : t.Accepts m

/-- `r.Closest f c m t`: no type with a method that `m` could override is
closer to the class than `t`. -/
def Closest (r : Resolver) (f : SourceFile) (c : ClassDecl) (m : MethodDecl)
    (t : TypeSymbol) : Prop :=
  ∀ u, r.Overridable f c m u →
    r.distance f c t.qualifiedName ≤ r.distance f c u.qualifiedName

section Distance

variable {r : Resolver} {f : SourceFile} {c : ClassDecl} {m : MethodDecl} {t : TypeSymbol}
  {up name : String} {n : Nat}

theorem distance_le_of_above (above : r.Above f c n name) : r.distance f c name ≤ n :=
  Nat.sInf_le above

theorem distance_le_succ (extended : up ∈ r.superTypes f c) (above : r.types.Above up n name) :
    r.distance f c name ≤ r.types.distance up name + 1 :=
  distance_le_of_above (.step extended (TypeTable.above_distance above))

/-- The shortest way up begins with one of the types that the class extends,
and is as short from there. -/
theorem exists_distance_eq (above : r.Above f c n name) :
    ∃ up ∈ r.superTypes f c, (∃ k, r.types.Above up k name) ∧
      r.distance f c name = r.types.distance up name + 1 := by
  have shortest : r.Above f c (r.distance f c name) name :=
    Nat.sInf_mem (s := {n | r.Above f c n name}) ⟨n, above⟩
  generalize steps : r.distance f c name = d at shortest
  cases shortest with
  | @step up _ k extended above' =>
      refine ⟨up, extended, ⟨k, above'⟩, Nat.le_antisymm ?_ ?_⟩
      · rw [← steps]
        exact distance_le_succ extended above'
      · exact Nat.succ_le_succ (TypeTable.distance_le above')

/-- What the class does not extend itself is at least two steps away. -/
theorem two_le_distance (above : r.Above f c n name) (indirect : name ∉ r.superTypes f c) :
    2 ≤ r.distance f c name := by
  obtain ⟨up, extended, ⟨k, above'⟩, shortest⟩ := exists_distance_eq above
  have away : r.types.distance up name ≠ 0 := by
    intro zero
    have here := TypeTable.above_distance above'
    rw [zero] at here
    cases here
    exact indirect extended
  omega

theorem overridable_iff :
    r.Overridable f c m t ↔ ∃ up ∈ r.superTypes f c, r.types.Reaches up t ∧ t.Accepts m := by
  constructor
  · rintro ⟨known, ⟨_, ⟨extended, above⟩⟩, accepts⟩
    exact ⟨_, extended, ⟨known, _, above⟩, accepts⟩
  · rintro ⟨up, extended, ⟨known, n, above⟩, accepts⟩
    exact ⟨known, ⟨n + 1, .step extended above⟩, accepts⟩

end Distance

/-! ## The search above each type in turn -/

/-- `r.Picks f c m up later t`: of the types that the class extends `up` is the
first with something to override above it, `later` are those behind it, and
`t` is nearest above `up`. -/
structure Picks (r : Resolver) (f : SourceFile) (c : ClassDecl) (m : MethodDecl) (up : String)
    (later : List String) (t : TypeSymbol) : Prop where
  first : ∃ before, r.superTypes f c = before ++ up :: later ∧
    ∀ v ∈ before, ∀ u, r.types.Reaches v u → ¬ u.Accepts m
  nearest : r.types.Nearest up (·.Accepts m) t

section Picks

variable {r : Resolver} {f : SourceFile} {c : ClassDecl} {m : MethodDecl} {t : TypeSymbol}
  {up : String} {later : List String}

theorem Picks.mem_superTypes (picks : r.Picks f c m up later t) : up ∈ r.superTypes f c := by
  obtain ⟨before, split, -⟩ := picks.first
  rw [split]
  exact List.mem_append_right _ List.mem_cons_self

theorem Picks.overridable (picks : r.Picks f c m up later t) : r.Overridable f c m t :=
  overridable_iff.mpr ⟨up, picks.mem_superTypes, picks.nearest.reached, picks.nearest.holds⟩

/-- A type can be closer to the class than the one that is picked only by a way
that begins with a later type. -/
theorem Picks.closest_iff (picks : r.Picks f c m up later t) :
    r.Closest f c m t ↔ ∀ v ∈ later, ∀ u, r.types.Reaches v u → u.Accepts m →
      r.distance f c t.qualifiedName ≤ r.types.distance v u.qualifiedName + 1 := by
  obtain ⟨before, split, nothing⟩ := picks.first
  constructor
  · intro closest v mem u reaches accepts
    have extended : v ∈ r.superTypes f c := by
      rw [split]
      exact List.mem_append_right _ (List.mem_cons_of_mem _ mem)
    obtain ⟨n, above⟩ := reaches.above
    calc r.distance f c t.qualifiedName
        ≤ r.distance f c u.qualifiedName :=
          closest u (overridable_iff.mpr ⟨v, extended, reaches, accepts⟩)
      _ ≤ r.types.distance v u.qualifiedName + 1 := distance_le_succ extended above
  · intro noLater u overridable
    obtain ⟨n, above⟩ := overridable.above
    obtain ⟨v, extended, reached, shortest⟩ := exists_distance_eq above
    have reaches : r.types.Reaches v u := ⟨overridable.known, reached⟩
    rw [shortest]
    rw [split, List.mem_append, List.mem_cons] at extended
    rcases extended with mem | rfl | mem
    · exact absurd overridable.accepts (nothing v mem u reaches)
    · obtain ⟨k, above'⟩ := picks.nearest.reached.above
      calc r.distance f c t.qualifiedName
          ≤ r.types.distance v t.qualifiedName + 1 := distance_le_succ picks.mem_superTypes above'
        _ ≤ r.types.distance v u.qualifiedName + 1 :=
          Nat.succ_le_succ (picks.nearest.least u reaches overridable.accepts)
    · exact noLater v mem u reaches overridable.accepts

end Picks

section Search

variable {r : Resolver} {f : SourceFile} {c : ClassDecl} {m : MethodDecl}

theorem overriddenFrom?_eq_search (up : String) :
    r.overriddenFrom? m up = r.types.search (·.accepts m) up :=
  rfl

theorem superMember?_eq (inside : m.class?.bind f.class? = some c)
    (may : f.language = .kotlin → m.isOverride = true) :
    r.superMember? f m = (r.superTypes f c).findSome? (r.overriddenFrom? m) := by
  have allowed : mayOverride f m = true := by
    rw [mayOverride, Bool.or_eq_true, bne_iff_ne, ← imp_iff_not_or]
    exact may
  rw [superMember?, if_pos allowed, inside]
  rfl

theorem superMember?_eq_none_iff (inside : m.class?.bind f.class? = some c)
    (may : f.language = .kotlin → m.isOverride = true) :
    r.superMember? f m = none ↔ ∀ t, ¬ r.Overridable f c m t := by
  rw [superMember?_eq inside may, List.findSome?_eq_none_iff]
  simp only [overriddenFrom?_eq_search, TypeTable.search_eq_none_iff fun _ => Method.accepts_iff,
    overridable_iff, not_exists, not_and]
  exact ⟨fun nothing t up mem => nothing up mem t, fun nothing up mem t => nothing t up mem⟩

theorem exists_picks_of_superMember? (inside : m.class?.bind f.class? = some c)
    (may : f.language = .kotlin → m.isOverride = true) {found : Member}
    (searched : r.superMember? f m = some found) :
    ∃ up later t o, r.Picks f c m up later t ∧ FirstOf (·.Admits m) t.methods o
      ∧ found = t.member o := by
  rw [superMember?_eq inside may] at searched
  obtain ⟨before, up, later, split, answered, earlier⟩ := List.findSome?_eq_some_iff.mp searched
  obtain ⟨t, o, nearest, first, rfl⟩ :=
    TypeTable.nearest_of_search (fun _ => Method.accepts_iff) answered
  refine ⟨up, later, t, o, ⟨⟨before, split, fun v mem => ?_⟩, nearest⟩, first, rfl⟩
  exact (TypeTable.search_eq_none_iff fun _ => Method.accepts_iff).mp (earlier v mem)

end Search

/-- **What is found for an overriding method is closest if no later type leads
to a closer one.**  In every file, and whatever a resolver knows, nothing is
found for a method of a class exactly if no known type above the class has a
method that it could override.  Otherwise the first such method of a type is
found that is nearest above the first type with one above it; and that type is
closest to the class if and only if none is closer above the types that the
class extends behind. -/
theorem superMember?_closest_iff (r : Resolver) (f : SourceFile) (m : MethodDecl) {c : ClassDecl}
    (inside : m.class?.bind f.class? = some c)
    (may : f.language = .kotlin → m.isOverride = true) :
    (r.superMember? f m = none ↔ ∀ t, ¬ r.Overridable f c m t)
      ∧ ∀ found, r.superMember? f m = some found →
          ∃ up later t o, r.Picks f c m up later t ∧ r.Overridable f c m t
            ∧ FirstOf (·.Admits m) t.methods o ∧ found = t.member o
            ∧ (r.Closest f c m t ↔
                ∀ v ∈ later, ∀ u, r.types.Reaches v u → u.Accepts m →
                  r.distance f c t.qualifiedName ≤ r.types.distance v u.qualifiedName + 1) := by
  refine ⟨superMember?_eq_none_iff inside may, fun found searched => ?_⟩
  obtain ⟨up, later, t, o, picks, first, rfl⟩ := exists_picks_of_superMember? inside may searched
  exact ⟨up, later, t, o, picks, picks.overridable, first, rfl, picks.closest_iff⟩

/-! ## A closer type that is passed over -/

section Layers

open Code (Language)

/-- A class that extends one type without the method that it overrides, and one
with it. -/
def workerFile : SourceFile :=
  Language.kotlin.read ⟨"src/app/Worker.kt"⟩
    "package app\n\nclass Worker : Base(), Timed \x7b\n  override fun run() \x7b\x7d\n\x7d\n"

/-- The first of the two types has the method from a type above it. -/
def layers : List SourceFile :=
  [
    Language.kotlin.read ⟨"src/app/Root.kt"⟩
      "package app\n\nopen class Root \x7b\n  open fun run() \x7b\x7d\n\x7d\n",
    Language.kotlin.read ⟨"src/app/Base.kt"⟩ "package app\n\nopen class Base : Root()\n",
    Language.kotlin.read ⟨"src/app/Timed.kt"⟩
      "package app\n\ninterface Timed \x7b\n  fun run()\n\x7d\n",
    workerFile
  ]

/-- What the files say of the method of the class, and of the second type. -/
theorem exists_worker :
    let r := (Index.build layers).resolver
    ∃ m c found t, workerFile.methods[0]? = some m ∧ m.class?.bind workerFile.class? = some c
      ∧ (workerFile.language = .kotlin → m.isOverride = true)
      ∧ r.superTypes workerFile c = ["app.Base", "app.Timed"]
      ∧ r.superMember? workerFile m = some found ∧ found.declaringType = "app.Root"
      ∧ r.types.find? "app.Timed" = some t ∧ t.qualifiedName = "app.Timed" ∧ t.Accepts m := by
  intro r
  -- in one go, so that the texts are read once
  have read : workerFile.methods[0]?.any (fun m => m.isOverride &&
      (m.class?.bind workerFile.class?).any (fun c =>
        r.superTypes workerFile c == ["app.Base", "app.Timed"]) &&
      (r.superMember? workerFile m).any (·.declaringType == "app.Root") &&
      (r.types.find? "app.Timed").any fun t =>
        t.qualifiedName == "app.Timed" && t.methods.any (·.accepts m)) = true := by
    decide +kernel
  clear_value r
  simp only [Option.any_eq_true, Bool.and_eq_true, beq_iff_eq, List.any_eq_true] at read
  obtain ⟨m, hm, ⟨⟨overrides, c, hc, extended⟩, found, searched, declared⟩, t, known, named,
    o, mem, accepts⟩ := read
  exact ⟨m, c, found, t, hm, hc, fun _ => overrides, extended, searched, declared, known, named,
    o, mem, Method.accepts_iff.mp accepts⟩

theorem superMember?_closest_iff_layers :
    let r := (Index.build layers).resolver
    ∃ m c, workerFile.methods[0]? = some m ∧ m.class?.bind workerFile.class? = some c
      ∧ (workerFile.language = .kotlin → m.isOverride = true)
      ∧ ∃ found up later t o, r.superMember? workerFile m = some found
          ∧ r.Picks workerFile c m up later t
          ∧ r.Overridable workerFile c m t
          ∧ FirstOf (·.Admits m) t.methods o ∧ found = t.member o
          ∧ (r.Closest workerFile c m t ↔
              ∀ v ∈ later, ∀ u, r.types.Reaches v u → u.Accepts m →
                r.distance workerFile c t.qualifiedName ≤
                  r.types.distance v u.qualifiedName + 1) := by
  intro r
  obtain ⟨m, c, found, -, hm, inside, may, -, searched, -⟩ := exists_worker
  obtain ⟨up, later, t, o, rest⟩ :=
    (superMember?_closest_iff r workerFile m inside may).2 found searched
  exact ⟨m, c, hm, inside, may, found, up, later, t, o, searched, rest⟩

/-- The method of the interface is one step above the class and that of the
root two, but the root's is found. -/
theorem superMember?_passes_closer :
    let r := (Index.build layers).resolver
    ∃ m c found t, workerFile.methods[0]? = some m ∧ m.class?.bind workerFile.class? = some c
      ∧ r.superMember? workerFile m = some found
      ∧ found.declaringType = "app.Root" ∧ t.qualifiedName = "app.Timed"
      ∧ r.Overridable workerFile c m t
      ∧ r.distance workerFile c t.qualifiedName < r.distance workerFile c found.declaringType := by
  intro r
  obtain ⟨m, c, found, timed, hm, inside, may, upward, searched, declared, known, named,
    accepts⟩ := exists_worker
  have above : r.Above workerFile c 1 timed.qualifiedName := by
    rw [named]
    exact .step (upward ▸ by decide) .self
  obtain ⟨up, later, root, o, picks, -, rfl⟩ := exists_picks_of_superMember? inside may searched
  obtain ⟨n, above'⟩ := picks.overridable.above
  have indirect : root.qualifiedName ∉ r.superTypes workerFile c := by
    rw [upward, show root.qualifiedName = "app.Root" from declared]
    decide
  refine ⟨m, c, _, timed, hm, inside, searched, declared, named,
    ⟨named ▸ known, ⟨1, above⟩, accepts⟩, ?_⟩
  calc r.distance workerFile c timed.qualifiedName
      ≤ 1 := distance_le_of_above above
    _ < 2 := Nat.lt_succ_self 1
    _ ≤ r.distance workerFile c root.qualifiedName :=
        two_le_distance above' indirect

end Layers

end Resolver

end Symbol

end AndroidLint
