import DocMapper.Proofs.Path
import DocMapper.Tracking.Selection
/-!
# What a selection of fields means

A path is loaded if it lies within one of the fields named, or, where the fields are those left out,
within none of them. A selection is to contain the paths of which anything is loaded: the path
itself, one above it or one below it. With fields named that is so. With fields left out it fails
for a path that is loaded but for a field below it: the selection takes all of it for left out.
-/

namespace DocMapper

/-- With a dot behind it a path lies below all that it lies within. -/
theorem isBelow_dot (path field : String) : isBelow (path ++ ".") field = isWithin path field := by
  have hchars : (path ++ ".").toList = path.toList ++ ['.'] := String.toList_append
  rw [Bool.eq_iff_iff, isWithin_iff, isBelow, isBelow, hchars, List.isPrefixOf_iff_prefix,
    List.isPrefixOf_iff_prefix, List.prefix_concat_iff, List.append_left_inj, String.toList_inj,
    eq_comm]

namespace Selection

/-- The path itself is loaded. -/
def Loads (selection : Selection) (path : String) : Prop :=
  if selection.inclusive then ∃ field ∈ selection.fields, isWithin path field = true
  else ∀ field ∈ selection.fields, isWithin path field = false

/-- Anything of the path is loaded: the path itself, a path above it, or a path below it. Where
fields are left out, a path above it counts only if the path lies within none of them. -/
def Covers (selection : Selection) (path : String) : Prop :=
  selection.Loads path ∨
    (∃ ancestor, isBelow path ancestor = true ∧ selection.Loads ancestor ∧
      (selection.inclusive = false → ∀ field ∈ selection.fields, isWithin path field = false)) ∨
    ∃ below, isBelow below path = true ∧ selection.Loads below

variable {selection : Selection} {path other : String}

theorem loads_inclusive_iff (h : selection.inclusive = true) :
    selection.Loads path ↔ ∃ field ∈ selection.fields, isWithin path field = true := by
  rw [Loads, if_pos h]

theorem loads_exclusive_iff (h : selection.inclusive = false) :
    selection.Loads path ↔ ∀ field ∈ selection.fields, isWithin path field = false := by
  rw [Loads, h, if_neg Bool.false_ne_true]

theorem touches_iff : selection.touches path = true ↔
    ∃ field ∈ selection.fields, isWithin path field = true ∨ isBelow field path = true := by
  simp only [touches, isBelow_dot, List.any_eq_true, Bool.or_eq_true, decide_eq_true_eq]
  refine exists_congr fun field => and_congr_right fun _ => ?_
  constructor
  · rintro ((rfl | hbelow) | hwithin)
    · exact Or.inl (isWithin_refl field)
    · exact Or.inr hbelow
    · exact Or.inl hwithin
  · rintro (hwithin | hbelow)
    · exact Or.inr hwithin
    · exact Or.inl (Or.inr hbelow)

/-! ### Fields named -/

section Inclusive

variable (h : selection.inclusive = true)

include h

/-- What lies below a loaded path is loaded as well. -/
theorem Loads.of_isBelow (hloads : selection.Loads other) (hbelow : isBelow path other = true) :
    selection.Loads path := by
  obtain ⟨field, hmem, hwithin⟩ := (loads_inclusive_iff h).mp hloads
  exact (loads_inclusive_iff h).mpr
    ⟨field, hmem, isWithin_trans (isWithin_iff.mpr (Or.inr hbelow)) hwithin⟩

/-- Anything of a path is loaded if it lies within a field, or a field within it. -/
theorem covers_inclusive_iff : selection.Covers path ↔ selection.touches path = true := by
  rw [touches_iff]
  constructor
  · rintro (hself | ⟨ancestor, habove, hloads, -⟩ | ⟨below, hbelow, hloads⟩)
    · obtain ⟨field, hmem, hwithin⟩ := (loads_inclusive_iff h).mp hself
      exact ⟨field, hmem, Or.inl hwithin⟩
    · obtain ⟨field, hmem, hwithin⟩ := (loads_inclusive_iff h).mp (hloads.of_isBelow h habove)
      exact ⟨field, hmem, Or.inl hwithin⟩
    · obtain ⟨field, hmem, hwithin⟩ := (loads_inclusive_iff h).mp hloads
      refine ⟨field, hmem, ?_⟩
      rcases isWithin_or_isWithin (isWithin_iff.mpr (Or.inr hbelow)) hwithin with hpath | hfield
      · exact Or.inl hpath
      · rcases isWithin_iff.mp hfield with rfl | hfield
        · exact Or.inl (isWithin_refl field)
        · exact Or.inr hfield
  · rintro ⟨field, hmem, hwithin | hbelow⟩
    · exact Or.inl ((loads_inclusive_iff h).mpr ⟨field, hmem, hwithin⟩)
    · have hfield : selection.Loads field :=
        (loads_inclusive_iff h).mpr ⟨field, hmem, isWithin_refl field⟩
      exact Or.inr (Or.inr ⟨field, hbelow, hfield⟩)

end Inclusive

/-! ### Fields left out -/

section Exclusive

variable (h : selection.inclusive = false)

include h

/-- What lies above a loaded path is loaded as well, for fields are left out with all below them. -/
theorem Loads.of_isAbove (hloads : selection.Loads other) (hbelow : isBelow other path = true) :
    selection.Loads path := by
  rw [loads_exclusive_iff h] at hloads ⊢
  intro field hmem
  by_contra hwithin
  have hother : isWithin other field = true :=
    isWithin_trans (isWithin_iff.mpr (Or.inr hbelow)) (by simpa using hwithin)
  rw [hloads field hmem] at hother
  cases hother

/-- Anything of a path is loaded only if the path itself is. -/
theorem covers_exclusive_iff : selection.Covers path ↔ selection.Loads path := by
  constructor
  · rintro (hself | ⟨ancestor, -, -, hnone⟩ | ⟨below, hbelow, hloads⟩)
    · exact hself
    · exact (loads_exclusive_iff h).mpr (hnone h)
    · exact hloads.of_isAbove h hbelow
  · exact Or.inl

/-- Left untouched is a path that is loaded with all that lies below it. -/
theorem not_touches_iff : selection.touches path = false ↔
    selection.Loads path ∧ ∀ field ∈ selection.fields, isBelow field path = false := by
  rw [← Bool.not_eq_true, touches_iff, loads_exclusive_iff h, not_exists, ← forall₂_and]
  refine forall_congr' fun field => ?_
  rw [not_and]
  refine imp_congr_right fun _ => ?_
  rw [not_or, Bool.not_eq_true, Bool.not_eq_true]

end Exclusive

/-! ### What is contained -/

theorem contains_eq (selection : Selection) (path : String) :
    selection.contains path = (selection.touches path == selection.inclusive) := by
  rw [contains]
  cases selection.touches path <;> cases selection.inclusive <;> rfl

/-- What a selection contains is loaded, at least in part. It contains all such paths, except for
those that are loaded themselves while a field below them is left out. -/
theorem contains_iff_covers_iff (selection : Selection) (path : String) :
    (selection.contains path = true → selection.Covers path) ∧
      ((selection.contains path = true ↔ selection.Covers path) ↔
        selection.inclusive = true ∨ ¬ selection.Loads path ∨
          ∀ field ∈ selection.fields, isBelow field path = false) := by
  cases h : selection.inclusive with
  | true =>
    have hcontains : selection.contains path = true ↔ selection.Covers path := by
      rw [covers_inclusive_iff h, contains_eq, h, beq_iff_eq]
    exact ⟨hcontains.mp, iff_of_true hcontains (Or.inl rfl)⟩
  | false =>
    have hcontains : selection.contains path = true ↔
        selection.Loads path ∧ ∀ field ∈ selection.fields, isBelow field path = false := by
      rw [← not_touches_iff h, contains_eq, h, beq_iff_eq]
    -- Both ask that the path is loaded; what lies below it matters to being contained only.
    rw [covers_exclusive_iff h, hcontains]
    refine ⟨And.left, ?_⟩
    rw [and_iff_left_iff_imp, imp_iff_not_or]
    exact (or_iff_right Bool.false_ne_true).symm

/-- Without its city an address is loaded, yet it is not contained. -/
theorem address_left_out :
    let selection := allBut ["address.city"]
    selection.Loads "address" ∧ selection.Loads "address.zip" ∧ selection.Covers "address" ∧
      selection.contains "address" = false := by
  have hloads : ∀ path, isWithin path "address.city" = false →
      (allBut ["address.city"]).Loads path := fun path hpath =>
    (loads_exclusive_iff rfl).mpr (List.forall_mem_singleton.mpr hpath)
  have haddress := hloads "address" (by decide)
  exact ⟨haddress, hloads "address.zip" (by decide), Or.inl haddress, by decide⟩

end Selection

end DocMapper
