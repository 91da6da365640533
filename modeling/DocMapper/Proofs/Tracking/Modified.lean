import DocMapper.Proofs.ByteOrder
import DocMapper.Proofs.Path
import DocMapper.Tracking.Document
/-!
# Modified paths and all that lead to them

The paths that lead to a path are put together from its segments, one more each time. So they are
the paths whose segments begin its own, which is to say that a dot follows them in its text. A name
that only begins another one does not lead to it.
-/

namespace DocMapper.Document

variable {doc : Document} {path : String}

theorem mem_modifiedPaths :
    path ∈ doc.modifiedPaths ↔ ∃ marked ∈ doc.paths.pathsIn .modified, path ∈ lineage marked := by
  rw [modifiedPaths, Fields.mem_names_ofList, List.map_map, List.mem_map, ← List.mem_flatMap]
  simp

theorem pairwise_modifiedPaths (doc : Document) : doc.modifiedPaths.Pairwise (· < ·) :=
  Fields.sorted_ofList _

section Proper

variable (hproper : ∀ marked ∈ doc.paths.pathsIn .modified, Proper marked)

include hproper

theorem mem_modifiedPaths_iff : path ∈ doc.modifiedPaths ↔
    ∃ marked ∈ doc.paths.pathsIn .modified, segments path <+: segments marked := by
  rw [mem_modifiedPaths]
  exact exists_congr fun marked => and_congr_right fun hmarked =>
    mem_lineage_iff (hproper marked hmarked)

theorem isModified_iff : doc.isModified path = true ↔
    ∃ marked ∈ doc.paths.pathsIn .modified, marked = path ∨ isBelow marked path = true := by
  rw [isModified, List.contains_iff_mem, mem_modifiedPaths_iff hproper]
  exact exists_congr fun marked => and_congr_right fun _ => segments_prefix_iff

/-- Unless a segment is empty, the modified paths are listed with all paths that lead to them and
with no others, in the order of their bytes and none of them twice. A path counts as modified if it
is, or if the text of a modified one goes on with a dot behind it. -/
theorem modifiedPaths_ancestor_closed :
    doc.modifiedPaths.Pairwise (fun a b => Text.bytes a < Text.bytes b) ∧
    doc.modifiedPaths.Nodup ∧
    (∀ path, path ∈ doc.modifiedPaths ↔
      ∃ marked ∈ doc.paths.pathsIn .modified, segments path <+: segments marked) ∧
    ∀ path, doc.isModified path = true ↔ ∃ marked ∈ doc.paths.pathsIn .modified,
      marked = path ∨ (path.toList ++ ['.']) <+: marked.toList := by
  have hordered := pairwise_modifiedPaths doc
  refine ⟨hordered.imp fun hlt => Text.bytes_lt_iff.mpr hlt, hordered.imp ne_of_lt,
    fun path => mem_modifiedPaths_iff hproper, fun path => ?_⟩
  simp only [isModified_iff hproper, isBelow, List.isPrefixOf_iff_prefix]

end Proper

/-- A path with an empty segment is not even among its own. -/
example : ((new (.empty "Member")).markModified ".a").isModified ".a" = false := by
  decide +kernel

/-- Changes below `a` and below names that `a` begins. -/
def namedAlike : Document :=
  ["ab.c", "a-b", "a.b.c"].foldl markModified (new (.empty "Member"))

theorem modifiedPaths_ancestor_closed_alike :
    namedAlike.paths.pathsIn .modified = ["a-b", "a.b.c", "ab.c"] ∧
      (∀ marked ∈ ["a-b", "a.b.c", "ab.c"], Proper marked) ∧
      namedAlike.modifiedPaths = ["a", "a-b", "a.b", "a.b.c", "ab", "ab.c"] ∧
      (["a", "a-b", "a.b", "a.b.c", "ab", "ab.c"].Pairwise fun a b =>
        Text.bytes a < Text.bytes b) ∧
      (namedAlike.isModified "ab" = true ↔ ∃ marked ∈ ["a-b", "a.b.c", "ab.c"],
        marked = "ab" ∨ ("ab".toList ++ ['.']) <+: marked.toList) := by
  have hmarked : namedAlike.paths.pathsIn .modified = ["a-b", "a.b.c", "ab.c"] := by
    decide +kernel
  have hproper : ∀ marked ∈ namedAlike.paths.pathsIn .modified, Proper marked := by
    rw [hmarked]
    decide +kernel
  have hlisted : namedAlike.modifiedPaths = ["a", "a-b", "a.b", "a.b.c", "ab", "ab.c"] := by
    decide +kernel
  obtain ⟨hordered, -, -, hmodified⟩ := modifiedPaths_ancestor_closed hproper
  exact ⟨hmarked, hmarked ▸ hproper, hlisted, hlisted ▸ hordered, hmarked ▸ hmodified "ab"⟩

end DocMapper.Document
