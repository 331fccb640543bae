/-
BreadthFirst — the walk of a type table goes up level by level.

A name stands `n` steps above another if it is got to by naming `n` times a
type that the last one extends, where every name that is left is that of a
known type.  The walk from a name ends, reaches exactly the known types
above it, each once, and reaches none before a nearer one.

The invariant is `Level`: the queue is a rest of names of one level, then
names of the next one, and everything on lower levels has been seen.  It
says nothing about order inside a level and lets both parts of the queue
repeat names that have been seen, as the queue of a walk does.
-/
import Mathlib.Order.Lattice.Nat
import AndroidLint.Symbol.Walk

namespace AndroidLint

namespace Symbol

/-! ## Steps above a name -/

/-- `Above table start n name`: it takes `n` steps from `start` to `name`,
each from a known type to one that it extends. -/
inductive TypeTable.Above (table : TypeTable) (start : String) : Nat → String → Prop
  | self : Above table start 0 start
  | step {n : Nat} {name up : String} {t : TypeSymbol} : Above table start n name →
      table.find? name = some t → up ∈ t.superTypes → Above table start (n + 1) up

namespace TypeTable

/-- The least number of steps from one name to another above it. -/
noncomputable def distance (table : TypeTable) (start name : String) : Nat :=
  sInf {n | table.Above start n name}

variable {table : TypeTable} {start : String}

theorem distance_le {n : Nat} {name : String} (above : table.Above start n name) :
    table.distance start name ≤ n :=
  Nat.sInf_le above

theorem above_distance {n : Nat} {name : String} (above : table.Above start n name) :
    table.Above start (table.distance start name) name :=
  Nat.sInf_mem (s := {n | table.Above start n name}) ⟨n, above⟩

theorem distance_eq {n : Nat} {name : String} (above : table.Above start n name)
    (least : ∀ m < n, ¬ table.Above start m name) : table.distance start name = n := by
  rcases Nat.lt_or_eq_of_le (distance_le above) with hlt | heq
  · exact absurd (above_distance above) (least _ hlt)
  · exact heq

end TypeTable

namespace Walk

open TypeTable

/-! ## A walk in turns -/

/-- `Ends table n w ts`: after `n` turns the walk has nothing left to
visit, and `ts` are the types it has reached. -/
inductive Ends (table : TypeTable) : Nat → Walk → List TypeSymbol → Prop
  | ended {seen : List String} : Ends table 0 ⟨[], seen⟩ []
  | turn {n : Nat} {w next : Walk} {t? : Option TypeSymbol} {ts : List TypeSymbol} :
      Turn table w t? next → Ends table n next ts → Ends table (n + 1) w (t?.toList ++ ts)

/-- A walk ends within the turns that `work` allows. -/
theorem ends_run (table : TypeTable) (w : Walk) :
    ∃ n ≤ w.work table, Ends table n w (w.run table) := by
  fun_induction run table w with
  | case1 w ended =>
      obtain ⟨queue, seen⟩ := w
      have hq : queue = [] := turn_eq_none ended
      subst hq
      exact ⟨0, Nat.zero_le _, .ended⟩
  | case2 w t? next turned ih =>
      obtain ⟨n, hn, hends⟩ := ih
      have hturn := turn_eq_some turned
      exact ⟨n + 1, Nat.lt_of_le_of_lt hn hturn.work_lt, .turn hturn hends⟩

theorem work_start (table : TypeTable) (start : String) :
    (Walk.start start).work table = 1 + table.links := by
  have : table.unseen [] = table := by simp [unseen]
  simp [work, Walk.start, this]

theorem run_of_turn {table : TypeTable} {w next : Walk} {t? : Option TypeSymbol}
    (h : w.turn table = some (t?, next)) : w.run table = t?.toList ++ next.run table := by
  rw [run]
  split
  · rename_i hnone
    rw [hnone] at h
    cases h
  · rename_i hsome
    rw [hsome] at h
    cases h
    rfl

theorem run_nil (table : TypeTable) (seen : List String) :
    run table ⟨[], seen⟩ = [] := by
  rw [run]
  rfl

/-! ## The invariant -/

/-- `Level table start n now later seen`: a walk from `start` that has seen
`seen` still has to visit `now`, all `n` steps above `start`, and then
`later`, all `n + 1` steps above it. -/
structure Level (table : TypeTable) (start : String) (n : Nat) (now later seen : List String) :
    Prop where
  now_above : ∀ name ∈ now, table.Above start n name
  later_above : ∀ name ∈ later, table.Above start (n + 1) name
  /-- Lower levels are done with. -/
  lower : ∀ m < n, ∀ name, table.Above start m name → name ∈ seen
  /-- Of this level what is not in the queue is done with. -/
  same : ∀ name, table.Above start n name → name ∈ now ∨ name ∈ seen
  /-- What a type that was seen extends has been queued. -/
  closed : ∀ name ∈ seen, ∀ t, table.find? name = some t → ∀ up ∈ t.superTypes,
    up ∈ now ∨ up ∈ later ∨ up ∈ seen

section Level

variable {table : TypeTable} {start : String} {n : Nat} {now later seen : List String}

theorem level_start (table : TypeTable) (start : String) : Level table start 0 [start] [] [] where
  now_above := by
    intro name h
    rw [List.mem_singleton.mp h]
    exact .self
  later_above := fun _ h => absurd h List.not_mem_nil
  lower := fun m h => absurd h (Nat.not_lt_zero m)
  same := by
    intro name h
    cases h with
    | self => exact Or.inl List.mem_cons_self
  closed := fun _ h => absurd h List.not_mem_nil

/-- When a level is done the walk stands at the next one. -/
theorem Level.rise (h : Level table start n [] later seen) :
    Level table start (n + 1) later [] seen where
  now_above := h.later_above
  later_above := fun _ h => absurd h List.not_mem_nil
  lower := by
    intro m hm name above
    rcases Nat.lt_or_eq_of_le (Nat.le_of_lt_succ hm) with hlt | rfl
    · exact h.lower m hlt name above
    · exact (h.same name above).resolve_left List.not_mem_nil
  same := by
    intro name above
    cases above with
    | step below found up =>
        have hseen := (h.same _ below).resolve_left List.not_mem_nil
        exact (h.closed _ hseen _ found _ up).resolve_left List.not_mem_nil
  closed := by
    intro name hseen t found up hup
    rcases h.closed name hseen t found up hup with h' | h' | h'
    · exact absurd h' List.not_mem_nil
    · exact Or.inl h'
    · exact Or.inr (Or.inr h')

/-- A name that was seen can be left out of the queue. -/
theorem Level.again {name : String} (h : Level table start n (name :: now) later seen)
    (old : name ∈ seen) : Level table start n now later seen where
  now_above := fun s hs => h.now_above s (List.mem_cons_of_mem _ hs)
  later_above := h.later_above
  lower := h.lower
  same := by
    intro s above
    rcases h.same s above with h' | h'
    · rcases List.mem_cons.mp h' with rfl | h''
      · exact Or.inr old
      · exact Or.inl h''
    · exact Or.inr h'
  closed := by
    intro s hs t found up hup
    rcases h.closed s hs t found up hup with h' | h' | h'
    · rcases List.mem_cons.mp h' with rfl | h''
      · exact Or.inr (Or.inr old)
      · exact Or.inl h''
    · exact Or.inr (Or.inl h')
    · exact Or.inr (Or.inr h')

/-- Visiting the first name of the queue queues what its type extends, if
it has a type. -/
theorem Level.visit {name : String} {more : List String}
    (h : Level table start n (name :: now) later seen)
    (ups : ∀ up, up ∈ more ↔ ∃ t, table.find? name = some t ∧ up ∈ t.superTypes) :
    Level table start n now (later ++ more) (name :: seen) where
  now_above := fun s hs => h.now_above s (List.mem_cons_of_mem _ hs)
  later_above := by
    intro s hs
    rcases List.mem_append.mp hs with h' | h'
    · exact h.later_above s h'
    · obtain ⟨t, found, hup⟩ := (ups s).mp h'
      exact .step (h.now_above name List.mem_cons_self) found hup
  lower := fun m hm s above => List.mem_cons_of_mem _ (h.lower m hm s above)
  same := by
    intro s above
    rcases h.same s above with h' | h'
    · rcases List.mem_cons.mp h' with rfl | h''
      · exact Or.inr List.mem_cons_self
      · exact Or.inl h''
    · exact Or.inr (List.mem_cons_of_mem _ h')
  closed := by
    intro s hs t found up hup
    rcases List.mem_cons.mp hs with rfl | hs'
    · exact Or.inr (Or.inl (List.mem_append_right _ ((ups up).mpr ⟨t, found, hup⟩)))
    · rcases h.closed s hs' t found up hup with h' | h' | h'
      · rcases List.mem_cons.mp h' with rfl | h''
        · exact Or.inr (Or.inr List.mem_cons_self)
        · exact Or.inl h''
      · exact Or.inr (Or.inl (List.mem_append_left _ h'))
      · exact Or.inr (Or.inr (List.mem_cons_of_mem _ h'))

/-- The first name of the queue, if it is new, is no nearer than its
level. -/
theorem Level.distance_head {name : String} (h : Level table start n (name :: now) later seen)
    (new : name ∉ seen) : table.distance start name = n :=
  distance_eq (h.now_above name List.mem_cons_self) fun m hm above => new (h.lower m hm name above)

/-- Once nothing is queued everything above the start has been seen. -/
theorem Level.mem_seen (h : Level table start n [] [] seen) {m : Nat} {name : String}
    (above : table.Above start m name) : name ∈ seen := by
  induction above with
  | self =>
      cases n with
      | zero => exact (h.same start .self).resolve_left List.not_mem_nil
      | succ n => exact h.lower 0 (Nat.succ_pos n) start .self
  | step _ found up ih =>
      rcases h.closed _ ih _ found _ up with h' | h' | h'
      · exact absurd h' List.not_mem_nil
      · exact absurd h' List.not_mem_nil
      · exact h'

end Level

/-! ## What a walk reaches -/

/-- `Swept table start n seen ts`: `ts` are the known types above `start`
whose names are not among `seen`, in order; they stand at least `n` steps
above it. -/
structure Swept (table : TypeTable) (start : String) (n : Nat) (seen : List String)
    (ts : List TypeSymbol) : Prop where
  known : ∀ t ∈ ts, table.find? t.qualifiedName = some t
  above : ∀ t ∈ ts, ∃ m, table.Above start m t.qualifiedName
  far : ∀ t ∈ ts, n ≤ table.distance start t.qualifiedName
  new : ∀ t ∈ ts, t.qualifiedName ∉ seen
  once : (ts.map (·.qualifiedName)).Nodup
  nearer_first : (ts.map fun t => table.distance start t.qualifiedName).Pairwise (· ≤ ·)
  all : ∀ {m : Nat} {name : String} {t : TypeSymbol}, table.Above start m name →
    table.find? name = some t → name ∈ seen ∨ t ∈ ts

section Swept

variable {table : TypeTable} {start : String} {n : Nat} {now later seen : List String}
  {ts : List TypeSymbol}

theorem Swept.mono {m : Nat} (h : Swept table start n seen ts) (le : m ≤ n) :
    Swept table start m seen ts :=
  { h with far := fun t ht => Nat.le_trans le (h.far t ht) }

theorem Level.swept_nil (h : Level table start n [] [] seen) : Swept table start n seen [] where
  known := fun _ h => absurd h List.not_mem_nil
  above := fun _ h => absurd h List.not_mem_nil
  far := fun _ h => absurd h List.not_mem_nil
  new := fun _ h => absurd h List.not_mem_nil
  once := List.nodup_nil
  nearer_first := List.Pairwise.nil
  all := fun above _ => Or.inl (h.mem_seen above)

/-- A name without a type adds nothing. -/
theorem Swept.unknown {name : String} (h : Swept table start n (name :: seen) ts)
    (none : table.find? name = none) : Swept table start n seen ts :=
  { h with
    new := fun t ht hseen => h.new t ht (List.mem_cons_of_mem _ hseen)
    all := by
      intro m s t above found
      rcases h.all above found with hs | ht
      · rcases List.mem_cons.mp hs with rfl | hs'
        · rw [none] at found
          cases found
        · exact Or.inl hs'
      · exact Or.inr ht }

/-- A new type at the level of the walk comes before what is reached after
it. -/
theorem Swept.reached {name : String} {t : TypeSymbol}
    (h : Swept table start n (name :: seen) ts)
    (level : Level table start n (name :: now) later seen) (new : name ∉ seen)
    (found : table.find? name = some t) : Swept table start n seen (t :: ts) := by
  have hname : t.qualifiedName = name := find?_name found
  have hdist : table.distance start t.qualifiedName = n := by
    rw [hname]
    exact level.distance_head new
  have habove : table.Above start n t.qualifiedName := by
    rw [hname]
    exact level.now_above name List.mem_cons_self
  constructor
  · exact List.forall_mem_cons.mpr ⟨by rw [hname]; exact found, h.known⟩
  · exact List.forall_mem_cons.mpr ⟨⟨n, habove⟩, h.above⟩
  · exact List.forall_mem_cons.mpr ⟨Nat.le_of_eq hdist.symm, h.far⟩
  · refine List.forall_mem_cons.mpr ⟨by rw [hname]; exact new, ?_⟩
    intro u hu hseen
    exact h.new u hu (List.mem_cons_of_mem _ hseen)
  · refine List.nodup_cons.mpr ⟨?_, h.once⟩
    intro hmem
    obtain ⟨u, hu, heq⟩ := List.mem_map.mp hmem
    have hu' : u.qualifiedName = name := heq.trans hname
    exact h.new u hu (by rw [hu']; exact List.mem_cons_self)
  · refine List.pairwise_cons.mpr ⟨?_, h.nearer_first⟩
    intro d hd
    obtain ⟨u, hu, rfl⟩ := List.mem_map.mp hd
    show table.distance start t.qualifiedName ≤ _
    rw [hdist]
    exact h.far u hu
  · intro m s u above hu
    rcases h.all above hu with hs | hts
    · rcases List.mem_cons.mp hs with rfl | hs'
      · rw [found] at hu
        cases hu
        exact Or.inr List.mem_cons_self
      · exact Or.inl hs'
    · exact Or.inr (List.mem_cons_of_mem _ hts)

/-- From any state that the invariant allows a walk reaches what is left,
nearer types first. -/
theorem swept_run (w : Walk) : ∀ {n : Nat} {now later : List String}, w.queue = now ++ later →
    Level table start n now later w.seen → Swept table start n w.seen (w.run table) := by
  fun_induction run table w with
  | case1 w ended =>
      intro n now later hq level
      rw [turn_eq_none ended] at hq
      obtain ⟨rfl, rfl⟩ := List.append_eq_nil_iff.mp hq.symm
      exact level.swept_nil
  | case2 w t? next turned ih =>
      -- it is enough to treat a level that is not done yet: above a finished one stands the next
      have visit : ∀ {n : Nat} {name : String} {now later : List String},
          w.queue = name :: (now ++ later) → Level table start n (name :: now) later w.seen →
          Swept table start n w.seen (t?.toList ++ next.run table) := by
        intro n name now later hq level
        cases turn_eq_some turned with
        | again old =>
            cases hq
            exact ih rfl (level.again old)
        | @unknown _ _ seen new none =>
            cases hq
            have level' : Level table start n now (later ++ []) (name :: seen) :=
              level.visit (by simp [none])
            rw [List.append_nil] at level'
            exact (ih rfl level').unknown none
        | @reached _ _ seen t new found =>
            cases hq
            have level' : Level table start n now (later ++ t.superTypes) (name :: seen) :=
              level.visit (by simp [found])
            exact (ih (List.append_assoc ..) level').reached level new found
      intro n now later hq level
      cases now with
      | cons name now => exact visit hq level
      | nil =>
          cases later with
          | nil =>
              cases turn_eq_some turned <;> cases hq
          | cons name later =>
              exact (visit (by simpa using hq) level.rise).mono (Nat.le_succ n)

end Swept

end Walk

namespace TypeTable

open Walk

theorem swept_walk (table : TypeTable) (start : String) :
    Swept table start 0 [] (table.walk start) :=
  swept_run (Walk.start start) (List.append_nil [start]).symm (level_start table start)

theorem head?_walk (table : TypeTable) (start : String) :
    (table.walk start).head? = table.find? start := by
  cases hfind : table.find? start with
  | none =>
      have hturn : (Walk.start start).turn table = some (none, ⟨[], [start]⟩) := by
        simp [Walk.start, turn, hfind]
      rw [walk, run_of_turn hturn, run_nil]
      rfl
  | some t =>
      have hturn : (Walk.start start).turn table = some (some t, ⟨t.superTypes, [start]⟩) := by
        simp [Walk.start, turn, hfind]
      rw [walk, run_of_turn hturn]
      rfl

/-- The walk from a type that extends nothing reaches that type alone. -/
theorem walk_eq_singleton {table : TypeTable} {start : String} {t : TypeSymbol}
    (found : table.find? start = some t) (top : t.superTypes = []) : table.walk start = [t] := by
  have hturn : (Walk.start start).turn table = some (some t, ⟨[], [start]⟩) := by
    simp [Walk.start, turn, found, top]
  rw [walk, run_of_turn hturn, run_nil]
  rfl

theorem mem_walk {table : TypeTable} {start : String} {t : TypeSymbol} :
    t ∈ table.walk start ↔
      table.find? t.qualifiedName = some t ∧ ∃ n, table.Above start n t.qualifiedName := by
  have h := swept_walk table start
  constructor
  · intro ht
    exact ⟨h.known t ht, h.above t ht⟩
  · rintro ⟨found, n, above⟩
    exact (h.all above found).resolve_left List.not_mem_nil

theorem walk_eq_nil_iff {table : TypeTable} {start : String} :
    table.walk start = [] ↔ table.find? start = none := by
  rw [← head?_walk, List.head?_eq_none_iff]

/-- **The walk from a name ends and is breadth-first.**  It begins with the
type of the name, is empty if the name has none, and holds each known type
above the name once, nearer ones first.  A table may have circles in it,
and names that no entry has. -/
theorem walk_breadthFirst (table : TypeTable) (start : String) :
    (∃ n ≤ 1 + table.links, Ends table n (Walk.start start) (table.walk start))
      ∧ (table.walk start).head? = table.find? start
      ∧ (table.walk start = [] ↔ table.find? start = none)
      ∧ (∀ t, t ∈ table.walk start ↔
          table.find? t.qualifiedName = some t ∧ ∃ n, table.Above start n t.qualifiedName)
      ∧ ((table.walk start).map (·.qualifiedName)).Nodup
      ∧ ((table.walk start).map fun t => table.distance start t.qualifiedName).Pairwise
          (· ≤ ·) := by
  refine ⟨?_, head?_walk table start, walk_eq_nil_iff, fun t => mem_walk, ?_, ?_⟩
  · rw [← work_start table start]
    exact ends_run table (Walk.start start)
  · exact (swept_walk table start).once
  · exact (swept_walk table start).nearer_first

end TypeTable

end Symbol

end AndroidLint
