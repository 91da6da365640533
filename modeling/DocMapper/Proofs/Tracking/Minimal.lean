import DocMapper.Proofs.ByteOrder
import DocMapper.Proofs.Tracking.Requests
/-!
# The least paths that hold all modifications

In order a path comes before those below it, whatever lies between them, so it is known whether it
is kept when they are looked at. The kept paths are the modified ones below no modified path, and
every modified path lies within exactly one of them.
-/

namespace DocMapper.Document

section Kept

variable {doc : Document} {path marked : String} (hsorted : Fields.Sorted doc.paths.states)

include hsorted

/-- The shortest modified path that a modified path lies within is kept. -/
theorem exists_kept_of_modified (hmarked : doc.isDirectModified marked = true) :
    ∃ top ∈ doc.kept, isWithin marked top = true := by
  induction hlength : marked.length using Nat.strong_induction_on generalizing marked with
  | _ length ih =>
    by_cases hfree : ∀ above, doc.isDirectModified above = true → isBelow marked above = false
    · exact ⟨marked, (mem_kept_iff hsorted).mpr ⟨hmarked, hfree⟩, isWithin_refl marked⟩
    · push Not at hfree
      obtain ⟨above, habove, hbelow⟩ := hfree
      rw [ne_eq, Bool.not_eq_false] at hbelow
      have hshorter : above.length < length := by
        obtain ⟨rest, rfl⟩ := isBelow_iff.mp hbelow
        rw [← hlength]
        simp only [String.length_append]
        have hdot : ".".length = 1 := rfl
        omega
      obtain ⟨top, htop, hwithin⟩ := ih above.length hshorter habove rfl
      exact ⟨top, htop, isWithin_trans (isWithin_iff.mpr (Or.inr hbelow)) hwithin⟩

/-- A path that lies within a modified one lies within exactly one of those kept. -/
theorem filter_kept_eq_singleton (hmarked : doc.isDirectModified marked = true)
    (hwithin : isWithin path marked = true) : ∃ top, doc.kept.filter (isWithin path) = [top] := by
  obtain ⟨top, htop, habove⟩ := exists_kept_of_modified hsorted hmarked
  have htopped : isWithin path top = true := isWithin_trans hwithin habove
  refine ⟨top, List.perm_singleton.mp ?_⟩
  rw [List.perm_ext_iff_of_nodup ((nodup_kept hsorted).filter _) (List.nodup_singleton top)]
  intro other
  rw [List.mem_filter, List.mem_singleton]
  constructor
  · rintro ⟨hother, hcovers⟩
    have hapart := apart_kept hsorted
    rcases isWithin_or_isWithin hcovers htopped with hlies | hlies
    · exact (isWithin_iff.mp hlies).resolve_right (by simp [hapart other hother top htop])
    · exact ((isWithin_iff.mp hlies).resolve_right (by simp [hapart top htop other hother])).symm
  · rintro rfl
    exact ⟨htop, htopped⟩

end Kept

/-- The paths to be stored are, in the order of their bytes, the modified ones below no modified
path. So none of them lies below another, and every modified path lies within exactly one. -/
theorem dirty_minimal {doc : Document} (h : doc.Reachable) :
    (doc.dirty.1.map DirtyEntry.path).Pairwise (fun a b => Text.bytes a < Text.bytes b) ∧
    (∀ path, path ∈ doc.dirty.1.map DirtyEntry.path ↔ doc.isDirectModified path = true ∧
      ∀ above, doc.isDirectModified above = true → isBelow path above = false) ∧
    (∀ a ∈ doc.dirty.1.map DirtyEntry.path, ∀ b ∈ doc.dirty.1.map DirtyEntry.path,
      isBelow a b = false) ∧
    ∀ path, doc.isDirectModified path = true →
      ∃ top, (doc.dirty.1.map DirtyEntry.path).filter (isWithin path) = [top] := by
  rw [path_fst_dirty]
  refine ⟨?_, fun path => mem_kept_iff h.sorted, apart_kept h.sorted, fun path hmodified => ?_⟩
  · exact (pairwise_kept h.sorted).imp fun hlt => Text.bytes_lt_iff.mpr hlt
  · exact filter_kept_eq_singleton h.sorted hmodified (isWithin_refl path)

/-- A member whose `a-b` is marked between `a` and what lies below `a`. -/
def crossed : Document :=
  ["a.b.c", "a-b", "a.b", "b.a", "a"].foldl markModified (new members)

theorem dirty_minimal_crossed :
    crossed.dirty.1.map DirtyEntry.path = ["a", "a-b", "b.a"] ∧
      crossed.paths.pathsIn .modified = ["a", "a-b", "a.b", "a.b.c", "b.a"] ∧
      (["a", "a-b", "b.a"].Pairwise fun a b => Text.bytes a < Text.bytes b) ∧
      ∃ top, ["a", "a-b", "b.a"].filter (isWithin "a.b.c") = [top] := by
  have hreachable : crossed.Reachable :=
    (((((Reachable.new members).mark "a.b.c").mark "a-b").mark "a.b").mark "b.a").mark "a"
  have hpaths : crossed.dirty.1.map DirtyEntry.path = ["a", "a-b", "b.a"] := by decide +kernel
  obtain ⟨hordered, -, -, hcovered⟩ := dirty_minimal hreachable
  rw [hpaths] at hordered hcovered
  exact ⟨hpaths, by decide +kernel, hordered, hcovered "a.b.c" (by decide +kernel)⟩

end DocMapper.Document
