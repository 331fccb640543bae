/-
PathOrder — paths are in linear order by their components.

The order of paths is that of keys: a component has its rank and, if it is
a name, the name, and a path has the keys of its components
(`compare_eq_lt_iff`).  Paths of one key name the same place, and no
others do, so what is sorted by path and names no place twice increases
strictly.
-/
import Mathlib.Data.List.Lex
import Mathlib.Data.Prod.Lex
import Mathlib.Data.String.Basic
import AndroidLint.FilePath

namespace AndroidLint

namespace FilePath

/-! ## Components -/

namespace Component

/-- The name of a component, empty if it has none. -/
def name : Component → String
  | named s => s
  | _ => ""

/-- Where a component stands among components. -/
def key (c : Component) : Nat ×ₗ String :=
  toLex (c.rank, c.name)

theorem key_injective : Function.Injective key := by
  intro a b same
  rw [key, key, toLex_inj, Prod.mk.injEq] at same
  cases a <;> cases b <;> simp_all [rank, name]

theorem compare_eq_lt_iff (a b : Component) : a.compare b = .lt ↔ a.key < b.key := by
  rw [key, key, Prod.Lex.toLex_lt_toLex]
  cases a <;> cases b <;> simp [compare, rank, name, compare_lt_iff_lt]

theorem compare_eq_eq_iff (a b : Component) : a.compare b = .eq ↔ a = b := by
  cases a <;> cases b <;> simp [compare, rank]

end Component

/-! ## Paths -/

/-- Where a path stands among paths. -/
def key (p : FilePath) : List (Nat ×ₗ String) :=
  p.components.map Component.key

theorem compareComponents_eq_lt_iff (p q : List Component) :
    compareComponents p q = .lt ↔ p.map Component.key < q.map Component.key := by
  induction p generalizing q with
  | nil => cases q <;> simp [compareComponents]
  | cons a p ih =>
      cases q with
      | nil => simp [compareComponents]
      | cons b q =>
          rw [compareComponents, Ordering.then_eq_lt, Component.compare_eq_lt_iff,
            Component.compare_eq_eq_iff, ih, List.map_cons, List.map_cons, List.cons_lt_cons_iff,
            Component.key_injective.eq_iff]

theorem compareComponents_eq_eq_iff (p q : List Component) :
    compareComponents p q = .eq ↔ p = q := by
  induction p generalizing q with
  | nil => cases q <;> simp [compareComponents]
  | cons a p ih =>
      cases q with
      | nil => simp [compareComponents]
      | cons b q =>
          rw [compareComponents, Ordering.then_eq_eq, Component.compare_eq_eq_iff, ih,
            List.cons.injEq]

variable {p q : FilePath}

theorem compare_eq_lt_iff : p.compare q = .lt ↔ p.key < q.key :=
  compareComponents_eq_lt_iff _ _

theorem same_iff : p.same q = true ↔ p.key = q.key := by
  rw [same, beq_iff_eq, key, key, (List.map_injective_iff.mpr Component.key_injective).eq_iff]

theorem compare_eq_eq_iff : p.compare q = .eq ↔ p.key = q.key := by
  rw [← same_iff, same, beq_iff_eq]
  exact compareComponents_eq_eq_iff _ _

theorem le_iff : p.le q = true ↔ p.key ≤ q.key := by
  rw [le, Ordering.isLE_iff_eq_lt_or_eq_eq, compare_eq_lt_iff, compare_eq_eq_iff,
    le_iff_lt_or_eq]

end FilePath

end AndroidLint
