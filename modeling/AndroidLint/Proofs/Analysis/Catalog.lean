/-
Catalog — what is looked up in a catalog.

The rules for a kind of nodes are found by their subscriptions, which name
them by their places.  As no rule subscribes twice to a kind, what is
found are the rules that ask for it, in catalog order.
-/
import Mathlib.Data.List.Basic
import Mathlib.Data.List.Nodup
import AndroidLint.Analysis.Catalog

namespace AndroidLint

theorem Rule.nodup_ids : (Rule.all.map Rule.id).Nodup := by
  decide

/-- No rule asks twice for a kind of nodes. -/
theorem Rule.nodup_kinds_of_mem_all {r : Rule} (mem : r ∈ Rule.all) : r.kinds.Nodup := by
  have h : ∀ kinds ∈ Rule.all.map (·.kinds), kinds.Nodup := by decide
  exact h _ (List.mem_map.mpr ⟨r, mem, rfl⟩)

theorem Rule.eq_of_id_eq {r r' : Rule} (mem : r ∈ Rule.all) (mem' : r' ∈ Rule.all)
    (same : r.id = r'.id) : r = r' :=
  List.inj_on_of_nodup_map Rule.nodup_ids mem mem' same

namespace Catalog

/-- A rule that asks once for each kind has one subscription to a kind that
it asks for. -/
theorem filter_kinds {r : Rule} (once : r.kinds.Nodup) (k : Rule.NodeKind) :
    r.kinds.filter (· == k) = if r.asksFor k then [k] else [] := by
  rw [List.filter_beq]
  by_cases h : k ∈ r.kinds
  · rw [List.count_eq_one_of_mem once h, if_pos (by simpa [Rule.asksFor] using h)]
    rfl
  · rw [List.count_eq_zero_of_not_mem h, if_neg (by simpa [Rule.asksFor] using h)]
    rfl

/-- The rules that are looked up for a kind are those that ask for it. -/
theorem rulesFor_eq_filter {c : Catalog} (once : ∀ r ∈ c.rules, r.kinds.Nodup)
    (k : Rule.NodeKind) : c.rulesFor k = c.rules.filter (·.asksFor k) := by
  have hplace : ∀ p ∈ c.rules.zipIdx,
      ((p.1.kinds.map (·, p.2)).filter (·.1 == k)).filterMap (fun q => c.rules[q.2]?) =
        (Option.guard (·.asksFor k) p.1).toList := by
    rintro ⟨r, place⟩ hp
    have hr : c.rules[place]? = some r := List.mem_zipIdx_iff_getElem?.mp hp
    have hkinds : (r.kinds.map (·, place)).filter (·.1 == k) =
        (r.kinds.filter (· == k)).map (·, place) := List.filter_map
    rw [hkinds, filter_kinds (once r (List.mem_of_getElem? hr)), Option.guard]
    split
    · simp [hr]
    · rfl
  calc c.rulesFor k
      = c.rules.zipIdx.flatMap fun p =>
          ((p.1.kinds.map (·, p.2)).filter (·.1 == k)).filterMap fun q => c.rules[q.2]? := by
        rw [rulesFor, subscriptions, List.filter_flatMap, List.filterMap_flatMap]
    _ = c.rules.zipIdx.flatMap fun p => (Option.guard (·.asksFor k) p.1).toList :=
        List.flatMap_congr hplace
    _ = (c.rules.zipIdx.map Prod.fst).filterMap (Option.guard (·.asksFor k)) := by
        rw [List.filterMap_eq_flatMap_toList, List.flatMap_map]
    _ = c.rules.filter (·.asksFor k) := by
        rw [List.zipIdx_map_fst, List.filterMap_eq_filter]

theorem severityOf_eq (c : Catalog) (info : Rule.Info) :
    c.severityOf info = (c.severities.lookup info.id).getD info.severity := by
  rw [severityOf]
  induction c.severities with
  | nil => rfl
  | cons entry rest ih =>
      obtain ⟨id, severity⟩ := entry
      rw [List.find?_cons, List.lookup_cons, Bool.beq_comm]
      cases info.id == id with
      | true => rfl
      | false => exact ih

end Catalog

end AndroidLint
