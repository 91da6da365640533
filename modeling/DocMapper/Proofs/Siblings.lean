import DocMapper.Proofs.Place
/-!
# What a write leaves alone

A write goes down along its path as far as there is something. Where that ends it makes maps, which
come into a map, and take the place of anything else, a list included. So whatever does not lie on
the path stays as it was, unless it lies in a list at which the way down ends.
-/

namespace DocMapper

namespace Value

variable {slot last v w : Value} {segs others above : List String}

/-- The way down from a value ends at another one, which has nothing under the next segment. -/
def EndsAt (slot : Value) (segs above : List String) (last : Value) : Prop :=
  slot.atSegments? above = some last ∧
    ∃ segment rest, segs = above ++ segment :: rest ∧ last.child? segment = none

/-- Whether two segments name the same child. An index may be written in several ways. -/
def sameChild (slot : Value) (segment other : String) : Bool :=
  match slot with
  | .list items => itemIndex? items segment = itemIndex? items other
  | _ => segment = other

/-- What is left of the second way down when the first one has been gone along it. -/
def restAfter? (slot : Value) : List String → List String → Option (List String)
  | [], segs => some segs
  | _ :: _, [] => none
  | segment :: rest, other :: others =>
    if slot.sameChild segment other then
      (slot.child? segment).bind (restAfter? · rest others)
    else none

/-- Every segment that names an item of a list is its index in plain digits. -/
def plainIndices (slot : Value) : List String → Bool
  | [] => true
  | segment :: rest =>
    ((slot.list?.bind (itemIndex? · segment)).all fun index =>
      segment.toList = Nat.toDigits 10 index) &&
      (slot.child? segment).all (plainIndices · rest)

/-! ### One step down -/

theorem child?_eq_of_sameChild {segment other : String} (h : slot.sameChild segment other = true) :
    slot.child? segment = slot.child? other := by
  cases slot with
  | list items =>
    rw [sameChild, decide_eq_true_eq] at h
    rw [child?_list, child?_list, h]
  | _ =>
    obtain rfl : segment = other := by simpa [sameChild] using h
    rfl

theorem sameChild_comm (slot : Value) (segment other : String) :
    slot.sameChild segment other = slot.sameChild other segment := by
  cases slot <;> simp [sameChild, eq_comm]

theorem child?_withChild_of_same {segment other : String} (child : Value)
    (hsame : slot.sameChild segment other = true) (hslot : slot.child? segment ≠ none) :
    (slot.withChild segment child).child? other = some child := by
  rw [← child?_withChild slot segment child]
  apply child?_eq_of_sameChild
  rw [sameChild_comm]
  cases slot with
  | list items =>
    rw [child?_list] at hslot
    cases hindex : itemIndex? items segment with
    | none => simp [hindex] at hslot
    | some index =>
      simpa only [withChild, sameChild, hindex, itemIndex?_of_length List.length_set] using hsame
  | _ => exact hsame

theorem child?_withChild_of_ne {segment other : String} (child : Value)
    (hother : slot.sameChild segment other = false)
    (hslot : slot.isStructured = true ∨ slot.child? segment ≠ none) :
    (slot.withChild segment child).child? other = slot.child? other := by
  cases slot with
  | map entries =>
    have hne : other ≠ segment := by simpa [sameChild, eq_comm] using hother
    exact Fields.get?_put_of_ne entries child hne
  | list items =>
    rw [child?_list] at hslot
    cases hindex : itemIndex? items segment with
    | none => simp [hindex, isStructured] at hslot
    | some index =>
      have hne : itemIndex? items other ≠ some index := by
        simpa [sameChild, hindex, eq_comm] using hother
      rw [withChild, hindex]
      dsimp only
      rw [child?_list, child?_list, itemIndex?_of_length List.length_set]
      cases hitem : itemIndex? items other with
      | none => rfl
      | some position =>
        have hposition : index ≠ position := fun heq => hne (heq ▸ hitem)
        exact List.getElem?_set_ne hposition
  | _ => simp [isStructured, child?] at hslot

theorem isStructured_or_list_of_child? {segment : String} {child : Value}
    (h : slot.child? segment = some child) :
    slot.isStructured = true ∨ ∃ items, slot = .list items := by
  cases slot with
  | map entries => exact Or.inl rfl
  | list items => exact Or.inr ⟨items, rfl⟩
  | _ => cases h

/-! ### The way down -/

theorem EndsAt.cons {segment : String} {child : Value} (hchild : slot.child? segment = some child)
    (h : child.EndsAt segs above last) : slot.EndsAt (segment :: segs) (segment :: above) last := by
  obtain ⟨hread, next, rest, rfl, hnone⟩ := h
  refine ⟨?_, next, rest, rfl, hnone⟩
  rw [atSegments?, hchild]
  exact hread

theorem atSegments?_append (slot : Value) (segs others : List String) :
    slot.atSegments? (segs ++ others) = (slot.atSegments? segs).bind (atSegments? · others) := by
  induction segs generalizing slot with
  | nil => rfl
  | cons segment segs ih =>
    rw [List.cons_append, atSegments?, atSegments?, Option.bind_assoc]
    exact congrArg _ (funext ih)

/-- A way can be gone along only as far as there is something. -/
theorem exists_of_restAfter? {rest : List String} (h : slot.restAfter? segs others = some rest) :
    ∃ v, slot.atSegments? segs = some v := by
  induction segs generalizing slot others with
  | nil => exact ⟨slot, rfl⟩
  | cons segment segs ih =>
    cases others with
    | nil => cases h
    | cons other others =>
      rw [restAfter?] at h
      split at h
      · obtain ⟨child, hchild, hrest⟩ := Option.bind_eq_some_iff.mp h
        obtain ⟨v, hv⟩ := ih hrest
        exact ⟨v, by rw [atSegments?, hchild]; exact hv⟩
      · cases h

theorem restAfter?_append (h : slot.atSegments? segs = some v) (rest : List String) :
    slot.restAfter? segs (segs ++ rest) = some rest := by
  induction segs generalizing slot with
  | nil => rfl
  | cons segment segs ih =>
    rw [atSegments?] at h
    obtain ⟨child, hchild, hread⟩ := Option.bind_eq_some_iff.mp h
    have hsame : slot.sameChild segment segment = true := by
      cases slot <;> simp [sameChild]
    rw [List.cons_append, restAfter?, if_pos hsame, hchild]
    exact ih hread

/-- With indices in plain digits only what begins a way is the same way. -/
theorem prefix_of_restAfter? {rest : List String} (hsegs : slot.plainIndices segs = true)
    (hothers : slot.plainIndices others = true) (h : slot.restAfter? segs others = some rest) :
    segs <+: others := by
  induction segs generalizing slot others with
  | nil => exact List.nil_prefix
  | cons segment segs ih =>
    cases others with
    | nil => cases h
    | cons other others =>
      rw [restAfter?] at h
      split at h
      · next hsame =>
        obtain ⟨child, hchild, hrest⟩ := Option.bind_eq_some_iff.mp h
        have hchild' := child?_eq_of_sameChild hsame ▸ hchild
        rw [plainIndices, Bool.and_eq_true, hchild] at hsegs
        rw [plainIndices, Bool.and_eq_true, hchild'] at hothers
        obtain rfl : segment = other := by
          cases slot with
          | list items =>
            rw [child?_list] at hchild
            obtain ⟨index, hindex, -⟩ := Option.bind_eq_some_iff.mp hchild
            have hother : itemIndex? items other = some index := by
              rw [← hindex]
              simpa [sameChild, eq_comm] using hsame
            have hdigits : segment.toList = Nat.toDigits 10 index := by
              simpa [list?, hindex] using hsegs.1
            have hdigits' : other.toList = Nat.toDigits 10 index := by
              simpa [list?, hother] using hothers.1
            exact String.toList_inj.mp (hdigits.trans hdigits'.symm)
          | _ => simpa [sameChild] using hsame
        exact List.cons_prefix_cons.mpr ⟨rfl, ih hsegs.2 hothers.2 hrest⟩
      · cases h

/-! ### Reading after a write -/

theorem atSegments?_write_above (h : slot.atSegments? above = some last) (rest : List String) :
    (write (some v) (above ++ rest) slot).atSegments? above =
      some (write (some v) rest last) := by
  induction above generalizing slot with
  | nil => exact congrArg (fun v => some (write _ rest v)) (Option.some.inj h)
  | cons segment above ih =>
    rw [atSegments?] at h
    obtain ⟨child, hchild, hread⟩ := Option.bind_eq_some_iff.mp h
    rw [List.cons_append, write_cons, hchild, atSegments?, child?_withChild]
    exact ih hread

/-- A value that does not lie on the way stays as it was, and one that leads to it is written below,
as long as the way down does not end at a list or scalar from which the value is reached. -/
theorem atSegments?_write_of_read (hread : slot.atSegments? others = some w)
    (hother : slot.restAfter? segs others = none)
    (hends : ∀ above last, slot.EndsAt segs above last → slot.restAfter? above others ≠ none →
      last.isStructured = true) :
    (write (some v) segs slot).atSegments? others =
      some (((slot.restAfter? others segs).map fun rest => write (some v) rest w).getD w) := by
  induction segs generalizing slot others with
  | nil => cases hother
  | cons segment segs ih =>
    cases others with
    | nil =>
      obtain rfl := Option.some.inj hread
      rfl
    | cons other others =>
      rw [atSegments?] at hread
      obtain ⟨child, hchild, hbelow⟩ := Option.bind_eq_some_iff.mp hread
      rw [write_cons, atSegments?, restAfter?]
      rw [restAfter?] at hother
      rw [sameChild_comm]
      cases hsame : slot.sameChild segment other with
      | true =>
        -- Both ways go down into one child, and the write goes on there.
        have hsegment : slot.child? segment = some child :=
          (child?_eq_of_sameChild hsame).trans hchild
        have hrest : child.restAfter? segs others = none := by
          simpa [hsame, hsegment] using hother
        have hbelow' := ih hbelow hrest fun above last hend habove =>
          hends (segment :: above) last (hend.cons hsegment)
            (by simpa [restAfter?, hsame, hsegment] using habove)
        rw [child?_withChild_of_same _ hsame (by simp [hsegment]), hsegment, hchild]
        simpa using hbelow'
      | false =>
        -- The ways part here, and the other child stays unless the value gives way to a map.
        have hslot : slot.isStructured = true ∨ slot.child? segment ≠ none := by
          by_cases hnone : slot.child? segment = none
          · exact Or.inl (hends [] slot ⟨rfl, segment, segs, rfl, hnone⟩ (Option.some_ne_none _))
          · exact Or.inr hnone
        rw [child?_withChild_of_ne _ hsame hslot, hchild]
        simpa using hbelow

/-- What is reached from the list at which the way down ends is lost with the list. -/
theorem atSegments?_write_of_endsAt {items : List Value} {other : String} {rest : List String}
    (hend : slot.EndsAt segs above (.list items))
    (hread : slot.atSegments? (above ++ other :: rest) = some w) :
    (write (some v) segs slot).atSegments? (above ++ other :: rest) = none := by
  obtain ⟨hlast, segment, below, rfl, hnone⟩ := hend
  induction above generalizing slot with
  | nil =>
    obtain rfl := Option.some.inj hlast
    rw [List.nil_append, atSegments?] at hread
    obtain ⟨child, hchild, -⟩ := Option.bind_eq_some_iff.mp hread
    have hindex : itemIndex? items segment = none := by
      cases hindex : itemIndex? items segment with
      | none => rfl
      | some index =>
        have hlt := lt_of_itemIndex? hindex
        simp [child?_list, hindex, hlt] at hnone
    have hne : segment ≠ other := by
      rintro rfl
      cases hnone.symm.trans hchild
    rw [List.nil_append, List.nil_append, write_cons, withChild, hindex, atSegments?]
    simp [child?, Fields.get?_cons, hne]
  | cons first above ih =>
    rw [atSegments?] at hlast
    rw [List.cons_append, atSegments?] at hread
    obtain ⟨child, hchild, hbelow⟩ := Option.bind_eq_some_iff.mp hread
    rw [hchild, Option.bind_some] at hlast
    rw [List.cons_append, List.cons_append, write_cons, hchild, atSegments?, child?_withChild,
      Option.getD_some]
    exact ih hbelow hlast

/-- A value gives way to one of another kind if nothing can be put under the segment. -/
theorem typeName_withChild_iff {segment : String} (child : Value) :
    (slot.withChild segment child).typeName = slot.typeName ↔
      (slot.child? segment = none → slot.isStructured = true) := by
  cases slot with
  | list items =>
    rw [child?_list, withChild]
    cases hindex : itemIndex? items segment with
    | none => simp [typeName, isStructured]
    | some index =>
      have hlt := lt_of_itemIndex? hindex
      simp [typeName, hlt]
  | _ => simp [withChild, typeName, child?, isStructured]

theorem plainIndices_of_append {rest : List String} (h : slot.plainIndices (segs ++ rest) = true) :
    slot.plainIndices segs = true := by
  induction segs generalizing slot with
  | nil => rfl
  | cons segment segs ih =>
    rw [List.cons_append, plainIndices, Bool.and_eq_true] at h
    rw [plainIndices, Bool.and_eq_true]
    refine ⟨h.1, ?_⟩
    cases hchild : slot.child? segment with
    | none => rfl
    | some child =>
      rw [hchild] at h
      exact ih h.2

end Value

/-! ### Along paths -/

theorem exists_segments_eq {path : String} {pieces : List String} (hne : pieces ≠ [])
    (h : pieces <+: segments path) : ∃ above, segments above = pieces :=
  ⟨".".intercalate pieces, segments_intercalate hne fun _ hmem =>
    undotted_of_mem_segments (h.subset hmem)⟩

/-- The way down to a path ends at a value above it, which has nothing under the next segment. -/
def WayEndsAt (values : Fields Value) (path above : String) (last : Value) : Prop :=
  (Value.map values).EndsAt (segments path) (segments above) last

/-- Every segment of the path that names an item of a list is its index in plain digits. -/
def PlainIndices (values : Fields Value) (path : String) : Prop :=
  (Value.map values).plainIndices (segments path) = true

instance (values : Fields Value) (path : String) : Decidable (PlainIndices values path) :=
  inferInstanceAs (Decidable (_ = true))

section Along

variable {values : Fields Value} {path other : String} {v w : Value}

theorem restAfter?_of_not_within (h : isWithin other path = false)
    (hpath : PlainIndices values path) (hother : PlainIndices values other) :
    (Value.map values).restAfter? (segments path) (segments other) = none := by
  refine Option.eq_none_iff_forall_ne_some.mpr fun rest hrest => ?_
  have hbegins := Value.prefix_of_restAfter? hpath hother hrest
  simp [isWithin_iff_segments.mpr hbegins] at h

/-- Whatever lies in the list at which the way down ends is lost. -/
theorem WayEndsAt.lost {above : String} {items : List Value}
    (hend : WayEndsAt values path above (.list items)) (hbelow : isBelow other above = true)
    (hread : valueAt? values other = some w) :
    valueAt? (writeAt values path (some v)) other = none := by
  obtain ⟨rest, rfl⟩ := isBelow_iff.mp hbelow
  obtain ⟨first, later, hrest⟩ := List.exists_cons_of_ne_nil (segments_ne_nil rest)
  rw [valueAt?_eq, segments_append, hrest] at hread
  rw [valueAt?_eq, map_writeAt, segments_append, hrest]
  exact Value.atSegments?_write_of_endsAt hend hread

/-- A value from which another path goes on is a map, if that path leads through no list at which
the way down ends. -/
theorem isStructured_of_endsAt {above : List String} {last : Value}
    (hwithin : isWithin path other = false) (hpath : PlainIndices values path)
    (hother : PlainIndices values other) (hread : valueAt? values other = some w)
    (hnolist : ∀ list items, isBelow other list = true → ¬ WayEndsAt values path list (.list items))
    (hend : (Value.map values).EndsAt (segments path) above last)
    (hreached : (Value.map values).restAfter? above (segments other) ≠ none) :
    last.isStructured = true := by
  obtain ⟨hlast, segment, below, hsegments, hnone⟩ := hend
  obtain ⟨rest, hrest⟩ := Option.ne_none_iff_exists'.mp hreached
  rw [PlainIndices, hsegments] at hpath
  obtain ⟨tail, htail⟩ : above <+: segments other :=
    Value.prefix_of_restAfter? (Value.plainIndices_of_append hpath) hother hrest
  rw [valueAt?_eq, ← htail, Value.atSegments?_append, hlast, Option.bind_some] at hread
  cases tail with
  | nil =>
    have hbegins : segments other <+: segments path :=
      ⟨segment :: below, by rw [← htail, hsegments, List.append_nil]⟩
    simp [isWithin_iff_segments.mpr hbegins] at hwithin
  | cons first later =>
    obtain ⟨child, hchild, -⟩ := Option.bind_eq_some_iff.mp hread
    rcases Value.isStructured_or_list_of_child? hchild with hmap | ⟨items, rfl⟩
    · exact hmap
    · have hne : above ≠ [] := by
        rintro rfl
        cases hlast
      obtain ⟨list, rfl⟩ := exists_segments_eq hne ⟨first :: later, htail⟩
      have hbelow : other = list ∨ isBelow other list = true :=
        segments_prefix_iff.mp ⟨first :: later, htail⟩
      refine absurd ⟨hlast, segment, below, hsegments, hnone⟩
        (hnolist list items (hbelow.resolve_left ?_))
      rintro rfl
      simp at htail

/-- Along the path only the value at which the way down ends gives way to one of another kind. -/
theorem typeName_writeAt_iff {above : String} {old : Value} (hbelow : isBelow path above = true)
    (hold : valueAt? values above = some old) :
    (valueAt? (writeAt values path (some v)) above).map Value.typeName = some old.typeName ↔
      (WayEndsAt values path above old → old.isStructured = true) := by
  obtain ⟨rest, rfl⟩ := isBelow_iff.mp hbelow
  obtain ⟨segment, later, hrest⟩ := List.exists_cons_of_ne_nil (segments_ne_nil rest)
  rw [valueAt?_eq] at hold
  have hsegments : segments (above ++ "." ++ rest) = segments above ++ segment :: later := by
    rw [segments_append, hrest]
  have hends : WayEndsAt values (above ++ "." ++ rest) above old ↔ old.child? segment = none := by
    constructor
    · rintro ⟨-, next, below, hnext, hnone⟩
      obtain ⟨rfl, -⟩ := List.cons.inj (List.append_cancel_left (hsegments.symm.trans hnext))
      exact hnone
    · exact fun hnone => ⟨hold, segment, later, hsegments, hnone⟩
  rw [valueAt?_eq, map_writeAt, hsegments, Value.atSegments?_write_above hold, hends,
    Value.write_cons]
  simpa using Value.typeName_withChild_iff _

end Along

/-- Of the values that do not lie on a path exactly those are lost in a write that were reached from
a list at which the way down ends. On the path exactly the value at which the way down ends changes
its kind, unless it is a map. -/
theorem siblings_kept_iff (values : Fields Value) (path : String) (v : Value) :
    (∀ other w, isWithin other path = false → isWithin path other = false →
      PlainIndices values path → PlainIndices values other → valueAt? values other = some w →
        (valueAt? (writeAt values path (some v)) other = some w ↔
          ∀ above items, isBelow other above = true →
            ¬ WayEndsAt values path above (.list items))) ∧
      ∀ above old, isBelow path above = true → valueAt? values above = some old →
        ((valueAt? (writeAt values path (some v)) above).map Value.typeName = some old.typeName ↔
          (WayEndsAt values path above old → old.isStructured = true)) := by
  refine ⟨fun other w hwithin hwithin' hpath hother hread => ⟨?_, ?_⟩,
    fun above old => typeName_writeAt_iff⟩
  · intro hkept above items hbelow hend
    cases hkept.symm.trans (hend.lost hbelow hread)
  · intro hnolist
    have hapart := restAfter?_of_not_within hwithin hpath hother
    have hapart' := restAfter?_of_not_within hwithin' hother hpath
    have hkept := Value.atSegments?_write_of_read (v := v)
      ((valueAt?_eq values other).symm.trans hread) hapart fun above last hend hreached =>
        isStructured_of_endsAt hwithin' hpath hother hread hnolist hend hreached
    rw [hapart'] at hkept
    rw [valueAt?_eq, map_writeAt]
    exact hkept

/-- The first tag is kept when something is written below the second one. -/
theorem siblings_kept_iff_item :
    let values : Fields Value := [("name", .string "ann"), ("tags", .list [.string "a", .null])]
    isWithin "tags.0" "tags.1.k" = false ∧ isWithin "tags.1.k" "tags.0" = false ∧
      PlainIndices values "tags.1.k" ∧ PlainIndices values "tags.0" ∧
      valueAt? values "tags.0" = some (.string "a") ∧
      valueAt? (writeAt values "tags.1.k" (some (.int 1))) "tags.0" = some (.string "a") := by
  intro values
  have hpath : PlainIndices values "tags.1.k" := by decide
  have hother : PlainIndices values "tags.0" := by decide
  have hread : valueAt? values "tags.0" = some (.string "a") := rfl
  have hsegments : segments "tags.1.k" = ["tags", "1", "k"] := by decide
  have hnolist : ∀ above items, isBelow "tags.0" above = true →
      ¬ WayEndsAt values "tags.1.k" above (.list items) := by
    rintro above items - ⟨hlast, segment, rest, hsplit, hnone⟩
    rw [hsegments] at hsplit
    match hpieces : segments above with
    | [] => simp [hpieces, Value.atSegments?] at hlast
    | [first] =>
      rw [hpieces] at hsplit hlast
      cases hsplit
      cases hlast
      cases hnone
    | [first, second] =>
      rw [hpieces] at hsplit hlast
      cases hsplit
      cases hlast
    | first :: second :: third :: later => simp [hpieces] at hsplit
  exact ⟨by decide, by decide, hpath, hother, hread,
    ((siblings_kept_iff values "tags.1.k" (.int 1)).1 "tags.0" (.string "a") (by decide)
      (by decide) hpath hother hread).mpr hnolist⟩

/-- A tag put behind the last one takes all of them away, as it makes a map of the list. -/
theorem list_given_up :
    let values : Fields Value := [("tags", .list [.string "a"])]
    isWithin "tags.0" "tags.1" = false ∧ isWithin "tags.1" "tags.0" = false ∧
      PlainIndices values "tags.1" ∧ PlainIndices values "tags.0" ∧
      valueAt? values "tags.0" = some (.string "a") ∧
      valueAt? (writeAt values "tags.1" (some (.string "b"))) "tags.0" = none := by
  refine ⟨by decide, by decide, by decide, by decide, rfl, rfl⟩

end DocMapper
