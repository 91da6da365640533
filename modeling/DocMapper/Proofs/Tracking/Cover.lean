import DocMapper.Proofs.Path
import DocMapper.Tracking.Document
/-!
# Which paths cover the modified ones

Which paths are kept and which of them cover others hangs on the paths alone, so the containers at
the same paths are collapsed whatever is pending there. Collapsing twice is collapsing once. In
order a path comes before those below it, so a kept path covers every path that lies below it, and
the kept paths are the modified ones below no modified path.
-/

namespace DocMapper.Document

/-! ### Collapsing -/

/-- What becomes of a slot when the containers at some paths are written whole. -/
def settle (tops : List String) (entry : String × Atomics) : String × Atomics :=
  if tops.contains entry.1 && entry.2.isPending then (entry.1, entry.2.collapse) else entry

theorem settle_of_pending {tops : List String} {entry : String × Atomics}
    (hmem : entry.1 ∈ tops) (hpending : entry.2.isPending = true) :
    settle tops entry = (entry.1, entry.2.collapse) := by
  simp [settle, hmem, hpending]

theorem settle_of_not_pending (tops : List String) {entry : String × Atomics}
    (hpending : entry.2.isPending = false) : settle tops entry = entry := by
  simp [settle, hpending]

theorem settle_of_not_mem {tops : List String} {entry : String × Atomics}
    (hmem : entry.1 ∉ tops) : settle tops entry = entry := by
  simp [settle, hmem]

theorem collapse_collapse (atomics : Atomics) : atomics.collapse.collapse = atomics.collapse := by
  cases atomics <;> rfl

theorem settle_settle (first second : List String) (entry : String × Atomics) :
    settle second (settle first entry) = settle (first ++ second) entry := by
  cases hpending : entry.2.isPending with
  | false => simp only [settle_of_not_pending _ hpending]
  | true =>
    by_cases hfirst : entry.1 ∈ first
    · rw [settle_of_pending hfirst hpending,
        settle_of_pending (List.mem_append_left second hfirst) hpending]
      simp [settle, collapse_collapse]
    · rw [settle_of_not_mem hfirst]
      by_cases hsecond : entry.1 ∈ second
      · rw [settle_of_pending hsecond hpending,
          settle_of_pending (List.mem_append_right first hsecond) hpending]
      · rw [settle_of_not_mem hsecond, settle_of_not_mem (by simp [hfirst, hsecond])]

/-! ### Covering -/

/-- The paths kept beside some others, and those that cover one of them. -/
def coverFrom (kept : List String) : List String → List String × List String
  | [] => (kept, [])
  | path :: rest =>
    match kept.find? fun ancestor => isBelow path ancestor with
    | none => coverFrom (kept ++ [path]) rest
    | some top =>
      let (kept, tops) := coverFrom kept rest
      (kept, top :: tops)

theorem foldl_coverStep (paths kept : List String) (atomics : Fields Atomics) :
    paths.foldl coverStep (kept, atomics) =
      ((coverFrom kept paths).1, atomics.map (settle (coverFrom kept paths).2)) := by
  induction paths generalizing kept atomics with
  | nil =>
    have hsettle : settle [] = id := funext fun entry => settle_of_not_mem List.not_mem_nil
    rw [coverFrom, hsettle, List.map_id, List.foldl_nil]
  | cons path rest ih =>
    rw [List.foldl_cons, coverStep, coverFrom]
    cases kept.find? fun ancestor => isBelow path ancestor with
    | none => exact ih (kept ++ [path]) atomics
    | some top =>
      have hstep : (atomics.map fun entry =>
          if entry.1 = top && entry.2.isPending then (entry.1, entry.2.collapse) else entry) =
            atomics.map (settle [top]) := by
        simp [settle]
      dsimp only
      rw [hstep, ih, List.map_map]
      congr 2
      funext entry
      exact settle_settle [top] _ entry

section CoverFrom

variable {kept paths : List String} {path below : String}

theorem mem_of_mem_coverFrom (h : path ∈ (coverFrom kept paths).1) : path ∈ kept ++ paths := by
  induction paths generalizing kept with
  | nil => simpa [coverFrom] using h
  | cons first rest ih =>
    rw [coverFrom] at h
    split at h
    · simpa using ih h
    · rcases List.mem_append.mp (ih h) with hkept | hrest
      · exact List.mem_append_left _ hkept
      · exact List.mem_append_right _ (List.mem_cons_of_mem first hrest)

/-- A path that covers lies above one of the others. -/
theorem exists_below_of_mem_tops (h : path ∈ (coverFrom kept paths).2) :
    ∃ below ∈ paths, isBelow below path = true := by
  induction paths generalizing kept with
  | nil => cases h
  | cons first rest ih =>
    have hlater : ∀ {kept}, path ∈ (coverFrom kept rest).2 →
        ∃ below ∈ first :: rest, isBelow below path = true := by
      intro kept hrest
      obtain ⟨below, hmem, hbelow⟩ := ih hrest
      exact ⟨below, List.mem_cons_of_mem first hmem, hbelow⟩
    rw [coverFrom] at h
    split at h
    · exact hlater h
    · next top hfound =>
      rcases List.mem_cons.mp h with rfl | hrest
      · exact ⟨first, List.mem_cons_self, by simpa using List.find?_some hfound⟩
      · exact hlater hrest

/-- None of the paths lies below another. -/
def Apart (paths : List String) : Prop :=
  ∀ a ∈ paths, ∀ b ∈ paths, isBelow a b = false

theorem Apart.concat (h : Apart kept) (hlater : ∀ a ∈ kept, a < path)
    (hnone : ∀ a ∈ kept, isBelow path a = false) : Apart (kept ++ [path]) := by
  intro a ha b hb
  rw [Bool.eq_false_iff]
  intro hab
  rcases List.mem_append.mp ha with ha | ha <;> rcases List.mem_append.mp hb with hb | hb
  · simp [h a ha b hb] at hab
  · rw [List.mem_singleton.mp hb] at hab
    exact lt_asymm (hlater a ha) (lt_of_isBelow hab)
  · simp [List.mem_singleton.mp ha, hnone b hb] at hab
  · rw [List.mem_singleton.mp ha, List.mem_singleton.mp hb] at hab
    exact lt_irrefl _ (lt_of_isBelow hab)

/-- In order, a kept path above another one comes before it. -/
theorem mem_kept_of_above {first : String} (hsorted : (kept ++ first :: paths).Pairwise (· < ·))
    (hpath : path ∈ (coverFrom kept (first :: paths)).1) (habove : isBelow first path = true) :
    path ∈ kept := by
  have hlt := lt_of_isBelow habove
  rcases List.mem_append.mp (mem_of_mem_coverFrom hpath) with hkept | hlater
  · exact hkept
  · have hfirst := (List.pairwise_cons.mp (List.pairwise_append.mp hsorted).2.1).1
    rcases List.mem_cons.mp hlater with rfl | hrest
    · exact absurd hlt (lt_irrefl _)
    · exact absurd hlt (lt_asymm (hfirst path hrest))

/-- A kept path covers whatever lies below it. -/
theorem mem_tops_of_isBelow (hsorted : (kept ++ paths).Pairwise (· < ·)) (hkept : Apart kept)
    (hpath : path ∈ (coverFrom kept paths).1) (hmem : below ∈ paths)
    (hbelow : isBelow below path = true) : path ∈ (coverFrom kept paths).2 := by
  induction paths generalizing kept with
  | nil => cases hmem
  | cons first rest ih =>
    have habove := mem_kept_of_above hsorted hpath
    rw [coverFrom] at hpath ⊢
    cases hfound : kept.find? fun ancestor => isBelow first ancestor with
    | none =>
      rw [hfound] at hpath
      have hnone : ∀ a ∈ kept, isBelow first a = false := by
        simpa using List.find?_eq_none.mp hfound
      rcases List.mem_cons.mp hmem with rfl | hrest
      · simp [hnone path (habove hbelow)] at hbelow
      · have hlater : ∀ a ∈ kept, a < first := fun a ha =>
          (List.pairwise_append.mp hsorted).2.2 a ha first List.mem_cons_self
        exact ih (by simpa using hsorted) (hkept.concat hlater hnone) hpath hrest
    | some top =>
      rw [hfound] at hpath
      rcases List.mem_cons.mp hmem with rfl | hrest
      · -- Both lie above the path and were kept, so they are the same.
        have hin := habove hbelow
        have htop : isBelow below top = true := by simpa using List.find?_some hfound
        have hmemTop : top ∈ kept := List.mem_of_find?_eq_some hfound
        rcases isBelow_of_above hbelow htop with rfl | hlies | hlies
        · exact List.mem_cons_self
        · simp [hkept path hin top hmemTop] at hlies
        · simp [hkept top hmemTop path hin] at hlies
      · have hsub : (kept ++ rest).Pairwise (· < ·) :=
          hsorted.sublist ((List.sublist_cons_self first rest).append_left kept)
        exact List.mem_cons_of_mem top (ih hsub hkept hpath hrest)

end CoverFrom

theorem isBelow_eq_false_of_sorted {first : String} {rest : List String}
    (hsorted : (first :: rest).Pairwise (· < ·)) :
    ∀ path ∈ first :: rest, isBelow first path = false := by
  intro path hmem
  rw [Bool.eq_false_iff]
  intro hbelow
  rcases List.mem_cons.mp hmem with rfl | hmem
  · exact lt_irrefl _ (lt_of_isBelow hbelow)
  · exact lt_asymm ((List.pairwise_cons.mp hsorted).1 path hmem) (lt_of_isBelow hbelow)

/-- What lies below a path that is left out lies below the one that covers it. -/
theorem any_isBelow_of_covered {kept rest : List String} {first top : String} (hmem : top ∈ kept)
    (htop : isBelow first top = true) (path : String) :
    (kept ++ first :: rest).any (isBelow path) = (kept ++ rest).any (isBelow path) := by
  rw [List.any_append, List.any_cons, List.any_append]
  cases hbelow : isBelow path first with
  | false => rw [Bool.false_or]
  | true =>
    have hcovered : kept.any (isBelow path) = true := List.any_eq_true.mpr
      ⟨top, hmem, isBelow_of_isWithin (isWithin_iff.mpr (Or.inr hbelow)) htop⟩
    rw [hcovered, Bool.true_or, Bool.true_or]

/-- Behind the paths kept before, those are kept that lie below none of all. -/
theorem fst_coverFrom {kept paths : List String} (hsorted : (kept ++ paths).Pairwise (· < ·)) :
    (coverFrom kept paths).1 =
      kept ++ paths.filter fun path => !(kept ++ paths).any (isBelow path) := by
  induction paths generalizing kept with
  | nil => simp [coverFrom]
  | cons first rest ih =>
    rw [coverFrom]
    cases hfound : kept.find? fun ancestor => isBelow first ancestor with
    | none =>
      have hlater := isBelow_eq_false_of_sorted (List.pairwise_append.mp hsorted).2.1
      have hfirst : (kept ++ first :: rest).any (isBelow first) = false := by
        rw [List.any_append, Bool.or_eq_false_iff, List.any_eq_false, List.any_eq_false]
        exact ⟨List.find?_eq_none.mp hfound, fun path hmem => by simp [hlater path hmem]⟩
      have hregroup : kept ++ first :: rest = (kept ++ [first]) ++ rest := by simp
      dsimp only
      rw [ih (hregroup ▸ hsorted), ← hregroup, List.filter_cons, hfirst]
      simp
    | some top =>
      have htop : isBelow first top = true := by simpa using List.find?_some hfound
      have hmem : top ∈ kept := List.mem_of_find?_eq_some hfound
      have hfirst : (kept ++ first :: rest).any (isBelow first) = true :=
        List.any_eq_true.mpr ⟨top, List.mem_append_left _ hmem, htop⟩
      have hsub : (kept ++ rest).Pairwise (· < ·) :=
        hsorted.sublist ((List.sublist_cons_self first rest).append_left kept)
      dsimp only
      rw [ih hsub, List.filter_cons, hfirst]
      simp only [any_isBelow_of_covered hmem htop]
      simp

/-- The least paths that hold all modifications. -/
def kept (doc : Document) : List String :=
  (coverFrom [] (doc.paths.pathsIn .modified)).1

/-- The kept paths below which another one is modified. -/
def tops (doc : Document) : List String :=
  (coverFrom [] (doc.paths.pathsIn .modified)).2

theorem cover_eq (doc : Document) : doc.cover = (doc.kept, doc.atomics.map (settle doc.tops)) :=
  foldl_coverStep (doc.paths.pathsIn .modified) [] doc.atomics

section Kept

variable {doc : Document} {path : String}

theorem fst_dirty (doc : Document) : doc.dirty.1 = doc.kept.map doc.dirtyEntry := by
  rw [dirty, cover_eq]

theorem path_fst_dirty (doc : Document) : doc.dirty.1.map DirtyEntry.path = doc.kept := by
  rw [fst_dirty, List.map_map]
  exact List.map_id _

variable (hsorted : Fields.Sorted doc.paths.states)

include hsorted

theorem mem_pathsIn_iff :
    path ∈ doc.paths.pathsIn .modified ↔ doc.isDirectModified path = true := by
  unfold isDirectModified PathStates.isIn PathStates.state? PathStates.pathsIn Fields.names
  rw [decide_eq_true_eq, hsorted.get?_eq_some_iff, List.mem_map]
  constructor
  · rintro ⟨⟨key, state⟩, hmem, rfl⟩
    rw [List.mem_filter, decide_eq_true_eq] at hmem
    exact hmem.2 ▸ hmem.1
  · intro hmem
    exact ⟨(path, .modified), by simpa using hmem, rfl⟩

theorem kept_eq_filter : doc.kept = (doc.paths.pathsIn .modified).filter fun path =>
    !(doc.paths.pathsIn .modified).any (isBelow path) :=
  fst_coverFrom (hsorted.filter _)

theorem pairwise_kept : doc.kept.Pairwise (· < ·) := by
  rw [kept_eq_filter hsorted]
  exact List.Pairwise.filter _ (hsorted.filter _)

theorem nodup_kept : doc.kept.Nodup :=
  (pairwise_kept hsorted).imp ne_of_lt

theorem mem_kept_iff : path ∈ doc.kept ↔ doc.isDirectModified path = true ∧
    ∀ above, doc.isDirectModified above = true → isBelow path above = false := by
  rw [kept_eq_filter hsorted, List.mem_filter, Bool.not_eq_true', List.any_eq_false]
  simp only [mem_pathsIn_iff hsorted, Bool.not_eq_true]

theorem apart_kept : Apart doc.kept := fun _ hpath above habove =>
  ((mem_kept_iff hsorted).mp hpath).2 above ((mem_kept_iff hsorted).mp habove).1

end Kept

theorem cover_dirty (doc : Document) : doc.dirty.2.cover = doc.cover := by
  have hatomics : doc.dirty.2.atomics = doc.atomics.map (settle doc.tops) :=
    congrArg Prod.snd doc.cover_eq
  have hkept : doc.dirty.2.kept = doc.kept := rfl
  have htops : doc.dirty.2.tops = doc.tops := rfl
  rw [cover_eq, cover_eq, hatomics, hkept, htops, List.map_map]
  congr 2
  funext entry
  rw [Function.comp_apply, settle_settle]
  simp [settle]

theorem dirty_delta (doc : Document) : doc.delta.2.dirty = doc.dirty := by
  have hcover : doc.delta.2.cover = doc.cover := doc.cover_dirty
  rw [dirty, hcover]
  rfl

/-- Taking the changes of a document leaves the same changes to be taken. -/
theorem delta_delta (doc : Document) : doc.delta.2.delta = doc.delta := by
  rw [delta, dirty_delta]
  rfl

end DocMapper.Document
