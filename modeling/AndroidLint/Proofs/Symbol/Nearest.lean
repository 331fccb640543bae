/-
Nearest — a search along a walk ends at the nearest type that has an answer.

A member is looked for along the walk from the type it is called on, and so is
a method that another overrides: the types of the walk are asked one after the
other for a method that fits (`TypeTable.search`), and the first that has one
gives it.  A walk reaches every known type above its start, nearer ones first.
So a search finds nothing only if no known type above has a method that fits,
and what it finds is on a type that no other with one is nearer than
(`nearest_of_search`).  Circles, types that are reached in several ways and
names without a type are no cases here: the walk has dealt with them.

Of two types that are equally near the search takes the one that the walk
reaches first, so `Nearest` may hold of several types.
-/
import AndroidLint.Proofs.Symbol.BreadthFirst
import AndroidLint.Symbol.Platform

namespace AndroidLint

namespace Symbol

/-! ## First elements -/

/-- `FirstOf P l a`: of the elements of `l` that satisfy `P` the first is
`a`. -/
def FirstOf {α : Type} (P : α → Prop) (l : List α) (a : α) : Prop :=
  ∃ before after, l = before ++ a :: after ∧ P a ∧ ∀ b ∈ before, ¬ P b

theorem FirstOf.property {α : Type} {P : α → Prop} {l : List α} {a : α} (first : FirstOf P l a) :
    P a := by
  obtain ⟨-, -, -, holds, -⟩ := first
  exact holds

theorem FirstOf.mem {α : Type} {P : α → Prop} {l : List α} {a : α} (first : FirstOf P l a) :
    a ∈ l := by
  obtain ⟨before, after, rfl, -⟩ := first
  exact List.mem_append_right _ List.mem_cons_self

theorem find?_eq_some_iff_firstOf {α : Type} {P : α → Prop} {p : α → Bool} {l : List α} {a : α}
    (decides : ∀ b, p b = true ↔ P b) : l.find? p = some a ↔ FirstOf P l a := by
  rw [List.find?_eq_some_iff_append]
  constructor
  · rintro ⟨holds, before, after, rfl, earlier⟩
    refine ⟨before, after, rfl, (decides a).mp holds, fun b hb holds' => ?_⟩
    simpa [(decides b).mpr holds'] using earlier b hb
  · rintro ⟨before, after, rfl, holds, earlier⟩
    refine ⟨(decides a).mpr holds, before, after, rfl, fun b hb => ?_⟩
    have rejected : ¬ p b = true := fun accepted => earlier b hb ((decides b).mp accepted)
    simpa using rejected

/-! ## Types that have a method -/

namespace TypeSymbol

/-- `t.Has P`: the type itself has a method that satisfies `P`. -/
def Has (t : TypeSymbol) (P : Method → Prop) : Prop :=
  ∃ m ∈ t.methods, P m

/-- `t.Declares name`: the type itself has a method of the name. -/
def Declares (t : TypeSymbol) (name : String) : Prop :=
  t.Has (·.name = name)

theorem find?_methods_eq_none_iff {t : TypeSymbol} {P : Method → Prop} {p : Method → Bool}
    (decides : ∀ m, p m = true ↔ P m) : t.methods.find? p = none ↔ ¬ t.Has P := by
  simp [Has, decides]

theorem Has.exists_firstOf {t : TypeSymbol} {P : Method → Prop} {p : Method → Bool}
    (decides : ∀ m, p m = true ↔ P m) (has : t.Has P) : ∃ m, FirstOf P t.methods m := by
  obtain ⟨m, found⟩ := Option.ne_none_iff_exists'.mp
    (mt (find?_methods_eq_none_iff decides).mp (not_not_intro has))
  exact ⟨m, (find?_eq_some_iff_firstOf decides).mp found⟩

end TypeSymbol

theorem FirstOf.has {t : TypeSymbol} {P : Method → Prop} {m : Method}
    (first : FirstOf P t.methods m) : t.Has P :=
  ⟨m, first.mem, first.property⟩

namespace TypeTable

/-! ## Types that none is nearer than -/

/-- `table.Reaches start t`: `t` is a known type at the name `start` or above
it. -/
structure Reaches (table : TypeTable) (start : String) (t : TypeSymbol) : Prop where
  known : table.find? t.qualifiedName = some t
  above : ∃ n, table.Above start n t.qualifiedName

/-- `table.Nearest start P t`: of the known types above `start` that satisfy
`P` none is nearer than `t`, which is one of them. -/
structure Nearest (table : TypeTable) (start : String) (P : TypeSymbol → Prop)
    (t : TypeSymbol) : Prop where
  reached : table.Reaches start t
  holds : P t
  least : ∀ u, table.Reaches start u → P u →
    table.distance start t.qualifiedName ≤ table.distance start u.qualifiedName

section Searches

variable {table : TypeTable} {start : String} {t : TypeSymbol}

theorem mem_walk_iff_reaches : t ∈ table.walk start ↔ table.Reaches start t :=
  mem_walk.trans ⟨fun h => ⟨h.1, h.2⟩, fun h => ⟨h.known, h.above⟩⟩

/-- The first type of a walk that satisfies a property is a nearest one. -/
theorem nearest_of_firstOf {P : TypeSymbol → Prop} (first : FirstOf P (table.walk start) t) :
    table.Nearest start P t := by
  obtain ⟨before, after, split, holds, earlier⟩ := first
  have ordered := (swept_walk table start).nearer_first
  rw [split, List.map_append, List.map_cons, List.pairwise_append] at ordered
  refine ⟨mem_walk_iff_reaches.mp ?_, holds, fun u reached holds' => ?_⟩
  · rw [split]
    exact List.mem_append_right _ List.mem_cons_self
  · have mem : u ∈ before ++ t :: after := split ▸ mem_walk_iff_reaches.mpr reached
    rcases List.mem_append.mp mem with mem | mem
    · exact absurd holds' (earlier u mem)
    · rcases List.mem_cons.mp mem with rfl | mem
      · exact Nat.le_refl _
      · exact (List.pairwise_cons.mp ordered.2.1).1 _ (List.mem_map.mpr ⟨u, mem, rfl⟩)

/-! ## Searches -/

/-- The first method that fits on the first type of the walk that has one. -/
def search (table : TypeTable) (fits : Method → Bool) (start : String) : Option Member :=
  (table.walk start).findSome? fun t => (t.methods.find? fits).map t.member

theorem member?_eq_search (owner name : String) :
    table.member? owner name = table.search (·.name == name) owner :=
  rfl

variable {P : Method → Prop} {fits : Method → Bool}

/-- A search finds nothing exactly if no known type above has a method that
fits. -/
theorem search_eq_none_iff (decides : ∀ m, fits m = true ↔ P m) :
    table.search fits start = none ↔ ∀ t, table.Reaches start t → ¬ t.Has P := by
  simp only [search, List.findSome?_eq_none_iff, mem_walk_iff_reaches, Option.map_eq_none_iff,
    TypeSymbol.find?_methods_eq_none_iff decides]

/-- What a search finds is the first method that fits on the first type of the
walk that has one. -/
theorem search_eq_some_iff (decides : ∀ m, fits m = true ↔ P m) {found : Member} :
    table.search fits start = some found ↔
      ∃ t m, FirstOf (·.Has P) (table.walk start) t ∧ FirstOf P t.methods m
        ∧ found = t.member m := by
  rw [search, List.findSome?_eq_some_iff]
  simp only [Option.map_eq_some_iff, Option.map_eq_none_iff,
    TypeSymbol.find?_methods_eq_none_iff decides, find?_eq_some_iff_firstOf decides]
  constructor
  · rintro ⟨before, t, after, split, ⟨m, first, rfl⟩, earlier⟩
    exact ⟨t, m, ⟨before, after, split, first.has, earlier⟩, first, rfl⟩
  · rintro ⟨t, m, ⟨before, after, split, -, earlier⟩, first, rfl⟩
    exact ⟨before, t, after, split, ⟨m, first, rfl⟩, earlier⟩

/-- What a search finds is on a type that no other with a method that fits is
nearer than. -/
theorem nearest_of_search (decides : ∀ m, fits m = true ↔ P m) {found : Member}
    (searched : table.search fits start = some found) :
    ∃ t m, table.Nearest start (·.Has P) t ∧ FirstOf P t.methods m ∧ found = t.member m := by
  obtain ⟨t, m, first, rest⟩ := (search_eq_some_iff decides).mp searched
  exact ⟨t, m, nearest_of_firstOf first, rest⟩

end Searches

/-! ## Members -/

theorem isSome_member?_iff {table : TypeTable} {owner name : String} :
    (table.member? owner name).isSome ↔ ∃ t, table.Reaches owner t ∧ t.Declares name := by
  rw [← not_iff_not, Option.not_isSome_iff_eq_none, member?_eq_search,
    search_eq_none_iff fun _ => beq_iff_eq]
  simp only [TypeSymbol.Declares, not_exists, not_and]

/-- **A member is found on a nearest type that declares it.**  In every table,
and whatever its types extend, a member of a name is found from an owner
exactly if a known type declares a method of the name and is the owner or
stands above it.  What is found is then the first method of the name on such a
type, and no other such type is nearer to the owner. -/
theorem member?_nearest (table : TypeTable) (owner name : String) :
    ((table.member? owner name).isSome ↔ ∃ t, table.Reaches owner t ∧ t.Declares name)
      ∧ ∀ found, table.member? owner name = some found →
          ∃ t m, table.Nearest owner (·.Declares name) t
            ∧ FirstOf (·.name = name) t.methods m ∧ found = t.member m := by
  refine ⟨isSome_member?_iff, fun found searched => ?_⟩
  exact nearest_of_search (fun _ => beq_iff_eq) searched

/-- Two types in the middle extend the one at the top, which extends the leaf;
one of them extends a name without a type, too.  The other has the member
twice, and so has the top. -/
def diamond : TypeTable :=
  [
    Platform.entry "Leaf" .plain (some "Left") ["Right"] [],
    Platform.entry "Left" .plain (some "Top") ["Gone"] [],
    Platform.entry "Right" .interface none ["Top"] [("next", some "Right"), ("next", none)],
    Platform.entry "Top" .plain (some "Leaf") [] [("next", some "Top")]
  ]

theorem member?_nearest_diamond :
    ∃ found, diamond.member? "Leaf" "next" = some found
      ∧ found.declaringType = "Right" ∧ found.returnType? = some "Right"
      ∧ ∃ t m, diamond.Nearest "Leaf" (·.Declares "next") t
          ∧ FirstOf (·.name = "next") t.methods m ∧ found = t.member m := by
  have found : diamond.member? "Leaf" "next" = some ⟨"Right", "next", [], some "Right"⟩ := by cbv
  exact ⟨_, found, rfl, rfl, (member?_nearest diamond "Leaf" "next").2 _ found⟩

end TypeTable

end Symbol

end AndroidLint
