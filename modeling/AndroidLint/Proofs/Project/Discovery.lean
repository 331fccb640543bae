/-
Discovery — the files of a project stand in the order of their paths.

What the targets give may name a place twice and comes in any order.  No
place is kept twice (`pairwise_withoutRepeats`), and the files are sorted
by path in the end, so their paths increase strictly.
-/
import AndroidLint.Project.Discovery
import AndroidLint.Proofs.Except
import AndroidLint.Proofs.PathOrder
import AndroidLint.Proofs.StableSort

namespace AndroidLint

namespace Project

theorem pairwise_withoutRepeats (paths : List FilePath) :
    (withoutRepeats paths).Pairwise fun p q => p.key ≠ q.key := by
  induction paths with
  | nil => exact .nil
  | cons p ps ih =>
      rw [withoutRepeats, List.pairwise_cons]
      refine ⟨fun q mem same => ?_, ih.filter _⟩
      have other := (List.mem_filter.mp mem).2
      rw [FilePath.same_iff.mpr same] at other
      cases other

section Discovered

variable {s : Storage} {p : Scope} {root : FilePath} {files : List Source}
  (found : discover s p root = .ok files)

include found

/-- The files are those of some paths that a rule can be about, sorted. -/
theorem exists_paths_of_discover :
    ∃ paths, files = ((withoutRepeats paths).filterMap fun path =>
      (FileKind.classify? path).map (Source.mk path)).mergeSort fun a b => a.path.le b.path := by
  rw [discover] at found
  split at found
  · cases found
  · split at found
    · cases found
    · obtain ⟨paths, -, sorted⟩ := exists_of_map_eq_ok found
      exact ⟨paths, sorted.symm⟩

/-- The kind of a file is what its path says. -/
theorem classify?_of_mem_discover {f : Source} (mem : f ∈ files) :
    FileKind.classify? f.path = some f.kind := by
  obtain ⟨paths, rfl⟩ := exists_paths_of_discover found
  obtain ⟨path, -, made⟩ := List.mem_filterMap.mp (List.mem_mergeSort.mp mem)
  obtain ⟨kind, classified, rfl⟩ := Option.map_eq_some_iff.mp made
  exact classified

/-- The paths of the files increase strictly. -/
theorem pairwise_discover : files.Pairwise fun f g => f.path.compare g.path = .lt := by
  obtain ⟨paths, rfl⟩ := exists_paths_of_discover found
  let kept := (withoutRepeats paths).filterMap fun path =>
    (FileKind.classify? path).map (Source.mk path)
  have byPath : ∀ f g : Source, f.path.le g.path = true ↔ f.path.key ≤ g.path.key :=
    fun f g => FilePath.le_iff
  have sorted : StablySorted (fun f : Source => f.path.key) kept
      (kept.mergeSort fun a b => a.path.le b.path) :=
    stablySorted_mergeSort byPath kept
  have distinct : kept.Pairwise fun f g => f.path.key ≠ g.path.key := by
    refine List.Pairwise.filterMap _ ?_ (pairwise_withoutRepeats paths)
    intro p q other f hf g hg
    obtain ⟨kind, -, rfl⟩ := Option.map_eq_some_iff.mp hf
    obtain ⟨kind', -, rfl⟩ := Option.map_eq_some_iff.mp hg
    exact other
  have distinct := (sorted.perm.pairwise_iff fun {f g} => Ne.symm).mpr distinct
  refine (sorted.ordered.and distinct).imp fun {f g} both => ?_
  exact FilePath.compare_eq_lt_iff.mpr (lt_of_le_of_ne both.1 both.2)

end Discovered

end Project

end AndroidLint
