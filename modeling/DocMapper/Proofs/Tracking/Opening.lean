import DocMapper.Proofs.Siblings
import DocMapper.Proofs.Tracking.InPlace
/-!
# Opening a container

A container that is opened at a path where there is nothing is made there, and nothing is marked.
Where the way down ends at a map, the map gains it. Where it ends at anything else, a map with the
container takes the place of what was there.
-/

namespace DocMapper

namespace Value

variable {made slot w : Value} {segs : List String}

/-- A value at the end of a way of maps. -/
def nest (segs : List String) (made : Value) : Value :=
  segs.foldr (fun segment v => .map [(segment, v)]) made

/-- A value gains another one further down: a map gets a new entry that leads to it. -/
inductive Gains (made : Value) : List String → Value → Value → Prop
  | entry {entries : Fields Value} {segment : String} (rest : List String)
      (h : Fields.get? entries segment = none) :
      Gains made (segment :: rest) (.map entries)
        (.map (Fields.put entries segment (nest rest made)))
  | inner {slot child next : Value} {segment : String} {rest : List String}
      (hchild : slot.child? segment = some child) (h : Gains made rest child next) :
      Gains made (segment :: rest) slot (slot.withChild segment next)

theorem write_empty (made : Value) (segs : List String) :
    write (some made) segs (.map []) = nest segs made := by
  induction segs with
  | nil => rfl
  | cons segment rest ih =>
    rw [write_cons]
    exact congrArg (fun v => Value.map [(segment, v)]) ih

/-- Where every way down that ends does so at a map, a write only adds. -/
theorem gains_write (habsent : slot.atSegments? segs = none)
    (hends : ∀ above last, slot.EndsAt segs above last → last.isStructured = true) :
    Gains made segs slot (write (some made) segs slot) := by
  induction segs generalizing slot with
  | nil => cases habsent
  | cons segment rest ih =>
    rw [write_cons]
    cases hchild : slot.child? segment with
    | none =>
      have hmap : slot.isStructured = true := hends [] slot ⟨rfl, segment, rest, rfl, hchild⟩
      rw [Option.getD_none, write_empty]
      cases slot with
      | map entries => exact .entry rest hchild
      | _ => cases hmap
    | some child =>
      rw [atSegments?, hchild] at habsent
      refine .inner hchild (ih habsent fun above last hend => ?_)
      exact hends (segment :: above) last (hend.cons hchild)

theorem EndsAt.absent {above : List String} {last : Value} (h : slot.EndsAt segs above last) :
    slot.atSegments? segs = none := by
  obtain ⟨hlast, segment, rest, rfl, hnone⟩ := h
  rw [atSegments?_append, hlast, Option.bind_some, atSegments?, hnone]
  rfl

/-- Only maps gain entries, and only what leads further down gains below. -/
theorem Gains.isStructured_or_child {next : Value} {segment : String} {rest : List String}
    (h : Gains made (segment :: rest) slot next) :
    slot.isStructured = true ∨ slot.child? segment ≠ none := by
  cases h with
  | entry rest h => exact Or.inl rfl
  | inner hchild h => exact Or.inr (by simp [hchild])

/-- What is left of a way leads from where the first way ended. -/
theorem exists_way_of_restAfter? {others rest : List String}
    (h : slot.restAfter? others segs = some rest) :
    ∃ way, segs = way ++ rest ∧ slot.atSegments? way = slot.atSegments? others := by
  induction others generalizing slot segs with
  | nil =>
    obtain rfl := Option.some.inj h
    exact ⟨[], rfl, rfl⟩
  | cons other others ih =>
    cases segs with
    | nil => cases h
    | cons segment segs =>
      rw [restAfter?] at h
      split at h
      · next hsame =>
        obtain ⟨child, hchild, hrest⟩ := Option.bind_eq_some_iff.mp h
        obtain ⟨way, rfl, hway⟩ := ih hrest
        refine ⟨segment :: way, rfl, ?_⟩
        rw [atSegments?, atSegments?, ← child?_eq_of_sameChild hsame, hchild]
        exact hway
      · cases h

end Value

/-- All that could be read can still be read and is the same, or leads to a path and has gained what
was made there. -/
def KeptBut (path : String) (made : Value) (values next : Fields Value) : Prop :=
  ∀ other w, valueAt? values other = some w →
    ∃ kept, valueAt? next other = some kept ∧
      (kept = w ∨ ∃ rest,
        (Value.map values).restAfter? (segments other) (segments path) = some rest ∧
          Value.Gains made rest w kept)

theorem keptBut_refl (path : String) (made : Value) (values : Fields Value) :
    KeptBut path made values values :=
  fun _ w hread => ⟨w, hread, Or.inl rfl⟩

section Write

variable {values : Fields Value} {path : String} {made : Value}

theorem isStructured_of_wayEndsAt
    (h : ∀ above last, WayEndsAt values path above last → last.isStructured = true)
    {above : List String} {last : Value}
    (hend : (Value.map values).EndsAt (segments path) above last) : last.isStructured = true := by
  by_cases hne : above = []
  · subst hne
    obtain rfl := Option.some.inj hend.1
    rfl
  · obtain ⟨hlast, segment, rest, hsegments, hnone⟩ := hend
    obtain ⟨place, rfl⟩ := exists_segments_eq hne ⟨segment :: rest, hsegments.symm⟩
    exact h place last ⟨hlast, segment, rest, hsegments, hnone⟩

theorem isStructured_of_keptBut (hkept : KeptBut path made values (writeAt values path (some made)))
    {above : String} {last : Value} (hend : WayEndsAt values path above last) :
    last.isStructured = true := by
  obtain ⟨hlast, segment, rest, hsegments, hnone⟩ := hend
  obtain ⟨kept, hread, hcase⟩ := hkept above last ((valueAt?_eq values above).trans hlast)
  rw [valueAt?_eq, map_writeAt, hsegments, Value.atSegments?_write_above hlast, Value.write_cons,
    hnone] at hread
  rw [hsegments, Value.restAfter?_append hlast] at hcase
  -- What stands at the end is now a map: it was one before, or it would have had to gain as one.
  rcases hcase with rfl | ⟨_, hrest, hgains⟩
  · have htype := congrArg Value.typeName (Option.some.inj hread)
    exact (Value.typeName_withChild_iff _).mp htype hnone
  · obtain rfl := Option.some.inj hrest
    exact hgains.isStructured_or_child.resolve_right (· hnone)

theorem keptBut_writeAt (habsent : valueAt? values path = none)
    (hends : ∀ above last, WayEndsAt values path above last → last.isStructured = true) :
    KeptBut path made values (writeAt values path (some made)) := by
  intro other w hread
  rw [valueAt?_eq] at habsent hread
  have hother : (Value.map values).restAfter? (segments path) (segments other) = none := by
    refine Option.eq_none_iff_forall_ne_some.mpr fun rest hrest => ?_
    obtain ⟨v, hv⟩ := Value.exists_of_restAfter? hrest
    cases habsent.symm.trans hv
  have hafter := Value.atSegments?_write_of_read (v := made) hread hother
    fun above last hend _ => isStructured_of_wayEndsAt hends hend
  rw [valueAt?_eq, map_writeAt]
  refine ⟨_, hafter, ?_⟩
  cases hrest : (Value.map values).restAfter? (segments other) (segments path) with
  | none => exact Or.inl rfl
  | some rest =>
    obtain ⟨way, hsegments, hway⟩ := Value.exists_way_of_restAfter? hrest
    rw [hread] at hway
    refine Or.inr ⟨rest, rfl, Value.gains_write ?_ fun above last hend => ?_⟩
    · rw [hsegments, Value.atSegments?_append, hway] at habsent
      exact habsent
    · obtain ⟨hlast, segment, below, rfl, hnone⟩ := hend
      have hend : (Value.map values).EndsAt (segments path) (way ++ above) last := by
        refine ⟨?_, segment, below, by rw [hsegments, List.append_assoc], hnone⟩
        rw [Value.atSegments?_append, hway]
        exact hlast
      exact isStructured_of_wayEndsAt hends hend

end Write

theorem keptBut_withContainer_iff (doc : Document) (path : String) (made : Value) :
    KeptBut path made doc.values (doc.withContainer path made).values ↔
      ∀ above last, WayEndsAt doc.values path above last → last.isStructured = true := by
  cases hget : doc.get? path with
  | none =>
    rw [Document.withContainer, hget]
    exact ⟨fun hkept above last => isStructured_of_keptBut hkept, keptBut_writeAt hget⟩
  | some v =>
    rw [InPlace.withContainer_of_some hget]
    refine ⟨fun _ above last hend => ?_, fun _ => keptBut_refl path made doc.values⟩
    rw [Document.get?, valueAt?_eq] at hget
    cases hend.absent.symm.trans hget

namespace InPlace

/-- The ways to open a container at a path, and what is made if there is nothing. -/
inductive Opening (path : String) : InPlace Unit → Value → Prop
  | list : Opening path (openList path) (.list [])
  | map : Opening path (openMap path) (.map [])

theorem Opening.left {path : String} {opening : InPlace Unit} {made : Value}
    (h : Opening path opening made) (doc : Document) :
    (opening.on doc).2.paths = doc.paths ∧
      (opening.on doc).2.values = (doc.withContainer path made).values := by
  cases h with
  | list => exact left_openAt rfl (congrArg Atomics.list (listAtomics_withContainer doc path _))
  | map => exact left_openAt rfl (congrArg Atomics.map (mapAtomics_withContainer doc path _))

/-- To open a container, with or without success, marks nothing and makes at most the container. All
else is kept exactly if the way down to the path ends, if at all, at a map. -/
theorem opening_keeps_iff {path : String} {opening : InPlace Unit} {made : Value}
    (h : Opening path opening made) (doc : Document) :
    (opening.on doc).2.paths = doc.paths ∧
      (opening.on doc).2.values = (doc.withContainer path made).values ∧
      (KeptBut path made doc.values (opening.on doc).2.values ↔
        ∀ above last, WayEndsAt doc.values path above last → last.isStructured = true) := by
  obtain ⟨hpaths, hvalues⟩ := h.left doc
  refine ⟨hpaths, hvalues, ?_⟩
  rw [hvalues]
  exact keptBut_withContainer_iff doc path made

/-- An item of a list gains a map, and the other one is kept. -/
theorem opening_keeps_iff_item :
    let doc := { Document.blank (.empty "User") false with
      values := [("tags", .list [.map [("k", .int 1)], .null])] }
    Opening "tags.0.more" (openMap "tags.0.more") (.map []) ∧
      KeptBut "tags.0.more" (.map []) doc.values ((openMap "tags.0.more").on doc).2.values ∧
      valueAt? ((openMap "tags.0.more").on doc).2.values "tags" =
        some (.list [.map [("k", .int 1), ("more", .map [])], .null]) := by
  intro doc
  have hsegments : segments "tags.0.more" = ["tags", "0", "more"] := by decide
  have hends : ∀ above last, WayEndsAt doc.values "tags.0.more" above last →
      last.isStructured = true := by
    rintro above last ⟨hlast, segment, rest, hsplit, hnone⟩
    rw [hsegments] at hsplit
    match hpieces : segments above with
    | [] => exact absurd hpieces (segments_ne_nil above)
    | [first] =>
      rw [hpieces] at hsplit hlast
      cases hsplit
      cases hlast
      cases hnone
    | [first, second] =>
      rw [hpieces] at hsplit hlast
      cases hsplit
      cases hlast
      rfl
    | first :: second :: third :: later => simp [hpieces] at hsplit
  exact ⟨.map, (opening_keeps_iff .map doc).2.2.mpr hends, rfl⟩

/-- A list is opened below a name that was loaded: the name gives way to a map, and nothing is
marked. -/
theorem name_given_up :
    let schema := (Schema.empty "User").declare "name" (.ofType .string)
    let record : Fields Value := [("@rid", .link ⟨1, 1⟩), ("name", .string "ann")]
    ∃ doc, Document.hydrate schema record none = .ok doc ∧
      doc.get? "name" = some (.string "ann") ∧
      let opened := ((openList "name.tags").on doc).2
      opened.get? "name" = some (.map [("tags", .list [])]) ∧
        opened.hasModifications = false ∧ opened.delta.1.ops = [] :=
  ⟨_, rfl, rfl, rfl, rfl, rfl⟩

end InPlace

end DocMapper
