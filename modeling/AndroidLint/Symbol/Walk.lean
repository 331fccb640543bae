/-
Walk — a type and everything above it.

A walk keeps a queue of names and the names it has seen.  Each turn visits
the next name of the queue; a known type that was not seen is reached, and
the types it extends are queued.  A walk ends in any table, also in one
where types extend each other in a circle: every turn takes a name off the
queue, and what an entry extends is queued at most once.
-/
import AndroidLint.Symbol.Type

namespace AndroidLint

namespace Symbol

namespace TypeTable

/-- The entries whose names have not been seen. -/
def unseen (table : TypeTable) (seen : List String) : TypeTable :=
  table.filter fun t => !seen.contains t.qualifiedName

/-- How many types the entries extend, counted for each entry. -/
def links (table : TypeTable) : Nat :=
  table.foldr (fun t n => t.superTypes.length + n) 0

theorem links_cons (t : TypeSymbol) (table : TypeTable) :
    links (t :: table) = t.superTypes.length + table.links :=
  rfl

theorem links_filter_le (table : TypeTable) (p : TypeSymbol → Bool) :
    links (table.filter p) ≤ table.links := by
  induction table with
  | nil => exact Nat.le_refl _
  | cons t table ih =>
      rw [List.filter_cons, links_cons]
      split
      · rw [links_cons]
        omega
      · omega

/-- Leaving an entry out takes what it extends from the count. -/
theorem links_filter_add_le {table : TypeTable} {p : TypeSymbol → Bool} {t : TypeSymbol}
    (mem : t ∈ table) (out : p t = false) :
    links (table.filter p) + t.superTypes.length ≤ table.links := by
  induction table with
  | nil => exact absurd mem List.not_mem_nil
  | cons u table ih =>
      rw [List.filter_cons, links_cons]
      rcases List.mem_cons.mp mem with rfl | h
      · have := links_filter_le table p
        rw [out, if_neg Bool.false_ne_true]
        omega
      · have := ih h
        split
        · rw [links_cons]
          omega
        · omega

theorem find?_name {table : TypeTable} {name : String} {t : TypeSymbol}
    (found : table.find? name = some t) : t.qualifiedName = name := by
  simpa using List.find?_some found

theorem mem_of_find? {table : TypeTable} {name : String} {t : TypeSymbol}
    (found : table.find? name = some t) : t ∈ table :=
  List.mem_of_find?_eq_some found

theorem unseen_cons (table : TypeTable) (name : String) (seen : List String) :
    table.unseen (name :: seen) = (table.unseen seen).filter (·.qualifiedName != name) := by
  simp only [unseen, List.filter_filter]
  congr 1
  funext t
  by_cases h : t.qualifiedName = name <;> simp [h]

theorem links_unseen_add_le {table : TypeTable} {seen : List String} {name : String}
    {t : TypeSymbol} (new : name ∉ seen) (found : table.find? name = some t) :
    (table.unseen (name :: seen)).links + t.superTypes.length ≤ (table.unseen seen).links := by
  have hn : t.qualifiedName = name := find?_name found
  have hm : t ∈ table.unseen seen :=
    List.mem_filter.mpr ⟨mem_of_find? found, by simpa [hn] using new⟩
  rw [unseen_cons]
  exact links_filter_add_le hm (by simp [hn])

end TypeTable

/-- A walk on its way: the names it has still to visit, and those it has
seen. -/
structure Walk where
  queue : List String
  seen : List String

namespace Walk

/-- A walk that has one name to visit. -/
def start (name : String) : Walk :=
  ⟨[name], []⟩

/-- One turn of a walk: the type it reaches, if any, and where it stands
then; none if nothing is left to visit. -/
def turn (table : TypeTable) : Walk → Option (Option TypeSymbol × Walk)
  | ⟨[], _⟩ => none
  | ⟨name :: queue, seen⟩ =>
      if seen.contains name then some (none, ⟨queue, seen⟩)
      else
        match table.find? name with
        | none => some (none, ⟨queue, name :: seen⟩)
        | some t => some (some t, ⟨queue ++ t.superTypes, name :: seen⟩)

/-- The turns of a walk, one case for each thing that can happen to the
name that is visited. -/
inductive Turn (table : TypeTable) : Walk → Option TypeSymbol → Walk → Prop
  | again {name : String} {queue seen : List String} : name ∈ seen →
      Turn table ⟨name :: queue, seen⟩ none ⟨queue, seen⟩
  | unknown {name : String} {queue seen : List String} : name ∉ seen →
      table.find? name = none →
      Turn table ⟨name :: queue, seen⟩ none ⟨queue, name :: seen⟩
  | reached {name : String} {queue seen : List String} {t : TypeSymbol} : name ∉ seen →
      table.find? name = some t →
      Turn table ⟨name :: queue, seen⟩ (some t) ⟨queue ++ t.superTypes, name :: seen⟩

theorem turn_eq_some {table : TypeTable} {w next : Walk} {t? : Option TypeSymbol}
    (h : w.turn table = some (t?, next)) : Turn table w t? next := by
  match w, h with
  | ⟨name :: queue, seen⟩, h =>
      simp only [turn, List.contains_eq_mem, decide_eq_true_eq] at h
      split at h
      · cases h
        exact .again ‹_›
      · split at h
        · cases h
          exact .unknown ‹_› ‹_›
        · cases h
          exact .reached ‹_› ‹_›

theorem turn_eq_none {table : TypeTable} {w : Walk} (h : w.turn table = none) : w.queue = [] := by
  match w, h with
  | ⟨[], _⟩, _ => rfl
  | ⟨name :: queue, seen⟩, h =>
      simp only [turn] at h
      split at h
      · cases h
      · split at h <;> cases h

/-- The turns that are left at most: one for each name in the queue, and
one for each type that an entry not seen extends. -/
def work (table : TypeTable) (w : Walk) : Nat :=
  w.queue.length + (table.unseen w.seen).links

theorem Turn.work_lt {table : TypeTable} {w next : Walk} {t? : Option TypeSymbol}
    (h : Turn table w t? next) : next.work table < w.work table := by
  cases h with
  | again _ => simp [work]
  | @unknown name queue seen _ _ =>
      have := TypeTable.links_filter_le (table.unseen seen) (·.qualifiedName != name)
      simp only [work, TypeTable.unseen_cons, List.length_cons]
      omega
  | reached new found =>
      have := TypeTable.links_unseen_add_le new found
      simp only [work, List.length_append, List.length_cons]
      omega

/-- The types a walk reaches from where it stands, in order. -/
def run (table : TypeTable) (w : Walk) : List TypeSymbol :=
  match _h : w.turn table with
  | none => []
  | some (t?, next) => t?.toList ++ next.run table
termination_by w.work table
decreasing_by exact (turn_eq_some _h).work_lt

end Walk

namespace TypeTable

/-- A type and the types above it, nearer ones first. -/
def walk (table : TypeTable) (start : String) : List TypeSymbol :=
  (Walk.start start).run table

/-- The member of a name on the nearest type of the walk that declares
one. -/
def member? (table : TypeTable) (owner name : String) : Option Member :=
  (table.walk owner).findSome? fun t => (t.method? name).map t.member

end TypeTable

end Symbol

end AndroidLint
