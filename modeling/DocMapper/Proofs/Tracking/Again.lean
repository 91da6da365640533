import DocMapper.Proofs.Siblings
import DocMapper.Proofs.Tracking.Assigned
import DocMapper.Proofs.Tracking.Unobserved
/-!
# Assigning again

An assignment may mark a path above the one assigned to, have pending changes give way, and make
maps on the way. All of this is done once: nothing above the path becomes null, so the path that was
marked is found again, and it either is marked already or was not worth it and still is not.
-/

namespace DocMapper

/-! ### Writing again -/

namespace Value

variable {slot : Value} {segment : String}

theorem isNull_withChild (slot : Value) (segment : String) (child : Value) :
    (slot.withChild segment child).isNull = false := by
  cases slot with
  | list items =>
    rw [withChild]
    split <;> rfl
  | _ => rfl

theorem isNull_write_none (segment : String) (rest : List String) (slot : Value) :
    (write none (segment :: rest) slot).isNull = slot.isNull := by
  cases slot with
  | list items =>
    rw [write]
    split <;> rfl
  | _ => rfl

/-- Null holds nothing, and what a value is written below is not null. -/
theorem any_isNull_above_write (v : Value) (above : List String) (segment : String)
    (rest : List String) (slot : Value) :
    ((write (some v) (above ++ segment :: rest) slot).atSegments? above).any isNull = false := by
  induction above generalizing slot with
  | nil =>
    rw [List.nil_append, write_cons]
    exact isNull_withChild slot segment _
  | cons first above ih =>
    rw [List.cons_append, write_cons, atSegments?, child?_withChild]
    exact ih _

theorem any_isNull_above_write_none (above : List String) (segment : String) (rest : List String)
    (slot : Value) :
    ((write none (above ++ segment :: rest) slot).atSegments? above).any isNull =
      (slot.atSegments? above).any isNull := by
  induction above generalizing slot with
  | nil => exact isNull_write_none segment rest slot
  | cons first above ih =>
    have hmore : (above ++ segment :: rest).isEmpty = false := by simp
    rw [List.cons_append, atSegments?, atSegments?, child?_write_none, hmore]
    cases slot.child? first with
    | none => rfl
    | some child => exact ih child

/-- Of what was removed there is nothing left to remove, and an item that became null stays so. -/
theorem write_none_write_none (segs : List String) (slot : Value) :
    write none segs (write none segs slot) = write none segs slot := by
  induction segs generalizing slot with
  | nil => rfl
  | cons segment rest ih =>
    cases slot with
    | map entries =>
      cases hchild : (map entries).child? segment with
      | none => rw [write_none_of_no_child rest hchild, write_none_of_no_child rest hchild]
      | some child =>
        by_cases hrest : rest = []
        · -- The entry itself is dropped.
          have hgone : (write none (segment :: rest) (map entries)).child? segment = none := by
            rw [child?_write_none, hchild, hrest]
            rfl
          exact write_none_of_no_child rest hgone
        · rw [write_none_of_child hchild hrest,
            write_none_of_child (child?_withChild _ _ _) hrest, withChild_withChild, ih]
    | list items =>
      cases hindex : itemIndex? items segment with
      | none => simp [write, hindex]
      | some index =>
        have hsame : itemIndex? (items.modify index (write none rest)) segment = some index :=
          (itemIndex?_of_length (List.length_modify _ _ _) segment).trans hindex
        have hagain : write none rest ∘ write none rest = write none rest := funext ih
        simp only [write, hindex, hsame, List.modify_modify_eq, hagain]
    | _ => rfl

/-- An entry under another name is left alone. -/
theorem get?_writeEntry_of_ne {entries : Fields Value} {other : String} {isLast removes : Bool}
    {below : Value → Value} (h : other ≠ segment) :
    Fields.get? (writeEntry entries segment isLast removes below) other =
      Fields.get? entries other := by
  unfold writeEntry
  split
  · split
    · exact Fields.get?_drop_of_ne entries h
    · exact Fields.get?_put_of_ne entries _ h
  · split
    · rfl
    · exact Fields.get?_put_of_ne entries _ h

theorem eqv_self_of_eqv {v w : Value} (h : v.eqv w = true) : w.eqv w = true := by
  calc w.eqv w = w.eqv w.normal := (eqv_normal w w).symm
    _ = w.eqv v.normal := by rw [normal_eq_of_eqv h]
    _ = v.eqv w := by rw [eqv_normal, eqv_comm]
    _ = true := h

end Value

theorem writeAt_none_writeAt_none (values : Fields Value) (path : String) :
    writeAt (writeAt values path none) path none = writeAt values path none := by
  apply Value.map.inj
  rw [map_writeAt, map_writeAt, Value.write_none_write_none]

theorem writeAt_again (values : Fields Value) (path : String) (v? : Option Value) :
    writeAt (writeAt values path v?) path v? = writeAt values path v? := by
  cases v? with
  | none => exact writeAt_none_writeAt_none values path
  | some v => exact writeAt_writeAt values path v v

/-! ### On the way to a path -/

/-- The first names of two paths differ. -/
def HeadsApart (path other : String) : Prop :=
  (segments path).head? ≠ (segments other).head?

section Way

variable {values : Fields Value} {path ancestor : String} {v? : Option Value}

theorem valueAt?_writeAt_of_headsApart (h : HeadsApart ancestor path) (values : Fields Value)
    (v? : Option Value) :
    valueAt? (writeAt values path v?) ancestor = valueAt? values ancestor := by
  unfold HeadsApart at h
  unfold valueAt? writeAt
  cases hpath : segments path with
  | nil => exact absurd hpath (segments_ne_nil path)
  | cons head rest =>
    cases hancestor : segments ancestor with
    | nil => rfl
    | cons first later =>
      rw [hpath, hancestor] at h
      have hne : first ≠ head := by simpa using h
      dsimp only
      rw [Value.get?_writeEntry_of_ne hne]

/-- Where nothing was null before a write nothing is null after it, above what is written. -/
theorem any_isNull_above (hbelow : isBelow path ancestor = true) (values : Fields Value)
    (v? : Option Value) :
    (valueAt? (writeAt values path v?) ancestor).any Value.isNull =
      (v?.isNone && (valueAt? values ancestor).any Value.isNull) := by
  obtain ⟨rest, rfl⟩ := isBelow_iff.mp hbelow
  obtain ⟨segment, later, hrest⟩ := List.exists_cons_of_ne_nil (segments_ne_nil rest)
  rw [valueAt?_eq, valueAt?_eq, map_writeAt, segments_append, hrest]
  cases v? with
  | none => exact Value.any_isNull_above_write_none _ segment later _
  | some v => exact Value.any_isNull_above_write v _ segment later _

theorem valueAt?_of_null_above (hbelow : isBelow path ancestor = true)
    (hnull : (valueAt? values ancestor).any Value.isNull = true) : valueAt? values path = none := by
  obtain ⟨rest, rfl⟩ := isBelow_iff.mp hbelow
  obtain ⟨segment, later, hrest⟩ := List.exists_cons_of_ne_nil (segments_ne_nil rest)
  obtain ⟨found, hfound, hisNull⟩ := (Option.any_eq_true _ _).mp hnull
  rw [valueAt?_eq] at hfound
  rw [valueAt?_eq, segments_append, hrest, Value.atSegments?_append, hfound]
  cases found with
  | null => rfl
  | _ => cases hisNull

/-- The last of the paths that lead to one is that path. -/
theorem lineageFrom_concat {whole : String} {rest : List String} {segment : String}
    (hpath : path ≠ "") (hrest : ∀ segment ∈ rest, hasDot segment = false)
    (hsegment : hasDot segment = false)
    (hwhole : segments whole = segments path ++ (rest ++ [segment])) :
    lineageFrom path (rest ++ [segment]) = lineageFrom path rest ++ [whole] := by
  have hempty : path.isEmpty = false := by simpa using hpath
  induction rest generalizing path with
  | nil =>
    have hlast : path ++ "." ++ segment = whole := by
      apply segments_injective
      rw [segments_append, segments_of_undotted hsegment, hwhole, List.nil_append]
    simp only [List.nil_append, lineageFrom, hempty, Bool.false_eq_true, if_false, hlast]
  | cons first rest ih =>
    obtain ⟨hfirst, hlater⟩ := List.forall_mem_cons.mp hrest
    have hne : path ++ "." ++ first ≠ "" := by simp
    have hnext : segments whole = segments (path ++ "." ++ first) ++ (rest ++ [segment]) := by
      rw [segments_append, segments_of_undotted hfirst, hwhole]
      simp
    simp only [List.cons_append, lineageFrom, hempty, Bool.false_eq_true, if_false]
    rw [ih hne hlater hnext (by simp)]

theorem head?_of_mem_lineageFrom {rest : List String}
    (hrest : ∀ segment ∈ rest, hasDot segment = false) (h : ancestor ∈ lineageFrom "" rest) :
    ancestor = "" ∨ (segments ancestor).head? ≠ some "" := by
  induction rest with
  | nil => cases h
  | cons segment rest ih =>
    obtain ⟨hsegment, hlater⟩ := List.forall_mem_cons.mp hrest
    by_cases hempty : segment = ""
    · subst hempty
      rcases List.mem_cons.mp h with rfl | hmem
      · exact Or.inl rfl
      · exact ih hlater hmem
    · have hhead : segments segment = [segment] := segments_of_undotted hsegment
      rcases List.mem_cons.mp h with rfl | hmem
      · exact Or.inr (by simp [hhead, hempty])
      · obtain ⟨taken, -, -, htaken⟩ := (mem_lineageFrom_iff hempty hlater).mp hmem
        rw [hhead] at htaken
        exact Or.inr (by simpa [htaken] using hempty)

theorem isBelow_of_segments (more : List String) (segment : String)
    (h : segments path = segments ancestor ++ (more ++ [segment])) :
    isBelow path ancestor = true := by
  refine (segments_prefix_iff.mp ⟨more ++ [segment], h.symm⟩).resolve_left ?_
  rintro rfl
  simp at h

section Split

variable {head segment : String} {rest : List String}
variable (hundotted : ∀ piece ∈ head :: (rest ++ [segment]), hasDot piece = false)
variable (hpath : segments path = head :: (rest ++ [segment]))

include hundotted hpath

theorem lineage_of_named (hhead : head ≠ "") :
    lineage path = head :: lineageFrom head rest ++ [path] := by
  have hsingle : segments head = [head] := segments_of_undotted (hundotted head (by simp))
  have hrest : ∀ piece ∈ rest, hasDot piece = false := fun piece hmem =>
    hundotted piece (List.mem_cons_of_mem head (List.mem_append_left _ hmem))
  have hwhole : segments path = segments head ++ (rest ++ [segment]) := by
    rw [hpath, hsingle, List.singleton_append]
  calc lineage path = head :: lineageFrom head (rest ++ [segment]) := by rw [lineage, hpath]; rfl
    _ = head :: (lineageFrom head rest ++ [path]) := by
      rw [lineageFrom_concat hhead hrest (hundotted segment (by simp)) hwhole]

theorem isBelow_of_named (hhead : head ≠ "") (hmem : ancestor ∈ head :: lineageFrom head rest) :
    isBelow path ancestor = true := by
  have hsingle : segments head = [head] := segments_of_undotted (hundotted head (by simp))
  have hrest : ∀ piece ∈ rest, hasDot piece = false := fun piece hmem =>
    hundotted piece (List.mem_cons_of_mem head (List.mem_append_left _ hmem))
  have htaken : ∃ taken, taken <+: rest ∧ segments ancestor = head :: taken := by
    rcases List.mem_cons.mp hmem with rfl | hmem
    · exact ⟨[], List.nil_prefix, hsingle⟩
    · obtain ⟨taken, -, hbegins, htaken⟩ := (mem_lineageFrom_iff hhead hrest).mp hmem
      exact ⟨taken, hbegins, by rw [htaken, hsingle, List.singleton_append]⟩
  obtain ⟨taken, ⟨more, rfl⟩, hancestor⟩ := htaken
  apply isBelow_of_segments more segment
  rw [hpath, hancestor]
  simp

theorem isBelow_or_apart_of_unnamed (hhead : head = "") (hmem : ancestor ∈ lineage path) :
    isBelow path ancestor = true ∨ HeadsApart ancestor path := by
  rw [lineage, hpath] at hmem
  rcases head?_of_mem_lineageFrom hundotted hmem with rfl | hne
  · refine Or.inl (isBelow_of_segments rest segment ?_)
    rw [hpath, hhead]
    rfl
  · exact Or.inr (by rwa [HeadsApart, hpath, hhead])

end Split

/-- A path comes last among those that lead to it, and the others lie above it. If the path starts
with a dot it is not among them, and they may be apart from it. -/
theorem lineage_eq (path : String) : ∃ before,
    (lineage path = before ∨ lineage path = before ++ [path]) ∧
      ∀ ancestor ∈ before, isBelow path ancestor = true ∨ HeadsApart ancestor path := by
  obtain ⟨head, rest, hpath⟩ := List.exists_cons_of_ne_nil (segments_ne_nil path)
  have hundotted : ∀ piece ∈ head :: rest, hasDot piece = false :=
    fun piece hmem => undotted_of_mem_segments (hpath ▸ hmem)
  rcases List.eq_nil_or_concat rest with rfl | ⟨rest, segment, hrest⟩
  · have hself : head = path :=
      segments_injective ((segments_of_undotted (hundotted head (by simp))).trans hpath.symm)
    have hlineage : lineage path = [] ++ [path] := by
      rw [lineage, hpath, ← hself]
      rfl
    exact ⟨[], Or.inr hlineage, by simp⟩
  · rw [List.concat_eq_append] at hrest
    subst hrest
    by_cases hhead : head = ""
    · exact ⟨_, Or.inl rfl, fun _ => isBelow_or_apart_of_unnamed hundotted hpath hhead⟩
    · exact ⟨_, Or.inr (lineage_of_named hundotted hpath hhead),
        fun _ hmem => Or.inl (isBelow_of_named hundotted hpath hhead hmem)⟩

end Way

theorem find?_eq_of_kept {α : Type} {p q : α → Bool} {items : List α}
    (hkept : ∀ a ∈ items, p a = false → q a = false)
    (hfound : ∀ a, items.find? p = some a → q a = true) : items.find? q = items.find? p := by
  induction items with
  | nil => rfl
  | cons a rest ih =>
    cases hp : p a with
    | true =>
      have hq : q a = true := hfound a (by rw [List.find?_cons, hp])
      rw [List.find?_cons, List.find?_cons, hp, hq]
    | false =>
      have hq : q a = false := hkept a List.mem_cons_self hp
      rw [List.find?_cons, List.find?_cons, hp, hq]
      refine ih (fun b hmem => hkept b (List.mem_cons_of_mem a hmem)) fun b hb => hfound b ?_
      rw [List.find?_cons, hp]
      exact hb

namespace Document

/-! ### The path that is marked -/

variable {doc : Document} {path ancestor : String} {v? : Option Value}

/-- Whether a path on the way is marked in the place of those below it. -/
def stands (doc : Document) (ancestor : String) : Bool :=
  doc.isDirectModified ancestor || (doc.get? ancestor).any Value.isNull

theorem ne_of_isBelow_or_apart (h : isBelow path ancestor = true ∨ HeadsApart ancestor path) :
    ancestor ≠ path := by
  rintro rfl
  rcases h with hbelow | hapart
  · exact lt_irrefl _ (lt_of_isBelow hbelow)
  · exact hapart rfl

/-- The marked path is looked for among those before the path, whatever the document. -/
theorem pathToMark_eq (path : String) : ∃ before : List String,
    (∀ doc : Document, doc.pathToMark path = (before.find? doc.stands).getD path) ∧
      ∀ ancestor ∈ before, isBelow path ancestor = true ∨ HeadsApart ancestor path := by
  cases hdot : hasDot path with
  | false => exact ⟨[], fun doc => by simp [pathToMark, hdot], nofun⟩
  | true =>
    obtain ⟨before, hlineage, hbefore⟩ := lineage_eq path
    refine ⟨before, fun doc => ?_, hbefore⟩
    have hmark : doc.pathToMark path = ((lineage path).find? doc.stands).getD path := by
      rw [pathToMark, if_pos hdot]
      rfl
    rw [hmark]
    rcases hlineage with hlineage | hlineage
    · rw [hlineage]
    · rw [hlineage, List.find?_append]
      cases before.find? doc.stands with
      | some found => rfl
      | none => cases hself : doc.stands path <;> simp [List.find?, hself]

theorem isDirectModified_assign_iff : (doc.assign path v?).isDirectModified ancestor = true ↔
    doc.isDirectModified ancestor = true ∨
      (doc.shouldModify (doc.pathToMark path) path v? = true ∧ ancestor = doc.pathToMark path) := by
  unfold isDirectModified PathStates.isIn
  rw [paths_assign]
  split
  · next hmodify =>
    rw [state?_enter]
    split
    · next heq => simp [hmodify, heq]
    · next hne => simp [hne]
  · next hmodify => simp [hmodify]

/-- Nothing before the path becomes null. -/
theorem null_of_null_assign (h : isBelow path ancestor = true ∨ HeadsApart ancestor path)
    (hnull : ((doc.assign path v?).get? ancestor).any Value.isNull = true) :
    (doc.get? ancestor).any Value.isNull = true := by
  unfold get? at hnull ⊢
  rw [values_assign] at hnull
  rcases h with hbelow | hapart
  · rw [any_isNull_above hbelow, Bool.and_eq_true] at hnull
    exact hnull.2
  · rwa [valueAt?_writeAt_of_headsApart hapart] at hnull

/-- What is null before the path stays null, unless an assignment below it makes a map there, and
that is marked. -/
theorem null_assign_of_null (h : isBelow path ancestor = true ∨ HeadsApart ancestor path)
    (hnull : (doc.get? ancestor).any Value.isNull = true)
    (hmarked : doc.isDirectModified (doc.pathToMark path) = false)
    (hmodify : doc.shouldModify (doc.pathToMark path) path v? = false) :
    ((doc.assign path v?).get? ancestor).any Value.isNull = true := by
  unfold get? at hnull ⊢
  rw [values_assign]
  rcases h with hbelow | hapart
  · rw [any_isNull_above hbelow, hnull]
    cases v? with
    | none => rfl
    | some v =>
      have habsent : doc.get? path = none := valueAt?_of_null_above hbelow hnull
      simp [shouldModify, hmarked, habsent, Value.eqvOption] at hmodify
  · rwa [valueAt?_writeAt_of_headsApart hapart]

/-- What does not stand still does not, as it is not what was marked. -/
theorem not_stands_assign (h : isBelow path ancestor = true ∨ HeadsApart ancestor path)
    (hstands : doc.stands ancestor = false) (hne : ancestor ≠ doc.pathToMark path) :
    (doc.assign path v?).stands ancestor = false := by
  obtain ⟨hmodified, hnull⟩ := Bool.or_eq_false_iff.mp hstands
  refine Bool.or_eq_false_iff.mpr ⟨?_, ?_⟩
  · rw [Bool.eq_false_iff, ne_eq, isDirectModified_assign_iff]
    simp [hmodified, hne]
  · rw [Bool.eq_false_iff]
    intro hnull'
    rw [null_of_null_assign h hnull'] at hnull
    cases hnull

/-- What is marked for the path stands afterwards as it did before. -/
theorem stands_assign (h : isBelow path ancestor = true ∨ HeadsApart ancestor path)
    (hstands : doc.stands ancestor = true) (hmark : doc.pathToMark path = ancestor) :
    (doc.assign path v?).stands ancestor = true := by
  refine Bool.or_eq_true_iff.mpr ?_
  rw [isDirectModified_assign_iff, hmark]
  cases hmodified : doc.isDirectModified ancestor with
  | true => exact Or.inl (Or.inl rfl)
  | false =>
    cases hmodify : doc.shouldModify ancestor path v? with
    | true => exact Or.inl (Or.inr ⟨rfl, rfl⟩)
    | false =>
      have hnull : (doc.get? ancestor).any Value.isNull = true := by
        simpa [stands, hmodified] using hstands
      rw [← hmark] at hmodified hmodify
      exact Or.inr (null_assign_of_null h hnull hmodified hmodify)

theorem pathToMark_assign (doc : Document) (path : String) (v? : Option Value) :
    (doc.assign path v?).pathToMark path = doc.pathToMark path := by
  obtain ⟨before, hmark, hbefore⟩ := pathToMark_eq path
  have hfind : before.find? (doc.assign path v?).stands = before.find? doc.stands := by
    refine find?_eq_of_kept (fun ancestor hmem hstands => ?_) fun ancestor hfound => ?_
    · refine not_stands_assign (hbefore ancestor hmem) hstands ?_
      rw [hmark]
      cases hfound : before.find? doc.stands with
      | none => exact ne_of_isBelow_or_apart (hbefore ancestor hmem)
      | some found =>
        rintro rfl
        exact absurd (List.find?_some hfound) (by simp [hstands])
    · have hmem : ancestor ∈ before := List.mem_of_find?_eq_some hfound
      exact stands_assign (hbefore ancestor hmem) (List.find?_some hfound)
        (by rw [hmark, hfound]; rfl)
  rw [hmark, hmark, hfind]

/-! ### Marking again -/

theorem isNew_assign (doc : Document) (path : String) (v? : Option Value) :
    (doc.assign path v?).isNew = doc.isNew := by
  unfold assign
  dsimp only
  split <;> rfl

theorem selection?_assign (doc : Document) (path : String) (v? : Option Value) :
    (doc.assign path v?).selection? = doc.selection? := by
  unfold assign
  dsimp only
  split <;> rfl

theorem shouldModify_of_marked (hnew : doc.isNew = false)
    (hmarked : doc.isDirectModified ancestor = true) :
    doc.shouldModify ancestor path v? = false := by
  simp [shouldModify, hnew, hmarked]

/-! An assignment that was not worth marking marks nothing, so the states of the paths are those it
was judged by, and only the value has changed. -/

theorem shouldModify_unset_of_unmarked {toMark : String} (hnew : doc.isNew = false)
    (hmarked : doc.isDirectModified toMark = false)
    (hpaths : (doc.assign path none).paths = doc.paths)
    (hmodify : doc.shouldModify toMark path none = false) :
    (doc.assign path none).shouldModify toMark path none = false := by
  simp only [shouldModify, hnew, hmarked, Bool.false_eq_true, if_false] at hmodify
  simp only [shouldModify, isNew_assign, hnew, isDirectModified, hpaths, Bool.false_eq_true,
    if_false, isSelected, selection?_assign]
  rw [isDirectModified] at hmarked
  rw [hmarked]
  cases hget : doc.get? path with
  | none =>
    have habsent : (doc.assign path none).get? path = none := by
      rw [get?, values_assign]
      exact valueAt?_writeAt_none_of_absent hget
    simpa [hget, habsent, isSelected] using hmodify
  | some old =>
    have hdefault : doc.paths.isIn path .defaulted = true ∧ doc.isSelected path = true := by
      simpa [hget, and_comm] using hmodify
    simpa [hdefault.1, isSelected] using hdefault.2

theorem shouldModify_set_of_unmarked {toMark : String} {v : Value} (hnew : doc.isNew = false)
    (hmarked : doc.isDirectModified toMark = false)
    (hpaths : (doc.assign path (some v)).paths = doc.paths)
    (hmodify : doc.shouldModify toMark path (some v) = false) :
    (doc.assign path (some v)).shouldModify toMark path (some v) = false := by
  simp only [shouldModify, hnew, hmarked, Bool.false_eq_true, if_false] at hmodify
  simp only [shouldModify, isNew_assign, hnew, isDirectModified, hpaths, Bool.false_eq_true,
    if_false, schema_assign, get?_assign_self]
  rw [isDirectModified] at hmarked
  rw [hmarked]
  cases hget : doc.get? path with
  | none => simp [hget, Value.eqvOption] at hmodify
  | some old =>
    have hsame : old.eqv v = true := by
      by_contra hdiffers
      simp [hget, Value.eqvOption, hdiffers] at hmodify
    have hself : v.eqv v = true := Value.eqv_self_of_eqv hsame
    simpa [hget, Value.eqvOption, hsame, hself] using hmodify

/-- What was not worth marking is not worth it when it is done. -/
theorem shouldModify_assign (hnew : doc.isNew = false) :
    (doc.assign path v?).shouldModify (doc.pathToMark path) path v? = false := by
  cases hmarked : (doc.assign path v?).isDirectModified (doc.pathToMark path) with
  | true => exact shouldModify_of_marked ((isNew_assign doc path v?).trans hnew) hmarked
  | false =>
    rw [isDirectModified_pathToMark_assign, Bool.or_eq_false_iff] at hmarked
    obtain ⟨hmodify, hbefore⟩ := hmarked
    have hpaths : (doc.assign path v?).paths = doc.paths := by
      rw [paths_assign, hmodify]
      rfl
    cases v? with
    | none => exact shouldModify_unset_of_unmarked hnew hbefore hpaths hmodify
    | some v => exact shouldModify_set_of_unmarked hnew hbefore hpaths hmodify

theorem paths_assign_again (doc : Document) (path : String) (v? : Option Value) :
    ((doc.assign path v?).assign path v?).paths = (doc.assign path v?).paths := by
  rw [paths_assign (doc.assign path v?), pathToMark_assign]
  cases hnew : doc.isNew with
  | true =>
    -- Everything is marked, and to mark a path again is to mark it.
    have hmodify : doc.shouldModify (doc.pathToMark path) path v? = true := by
      rw [shouldModify, hnew]
      rfl
    rw [paths_assign, hmodify, if_pos rfl, PathStates.enter_enter, ite_self]
  | false => rw [shouldModify_assign hnew, if_neg Bool.false_ne_true]

/-! ### Giving way again -/

theorem collapseWhere_collapseWhere (picks : String → Bool → Bool) (slots : Fields Atomics) :
    collapseWhere picks (collapseWhere picks slots) = collapseWhere picks slots := by
  rw [collapseWhere, collapseWhere, List.map_map]
  apply List.map_congr_left
  intro entry _
  cases hpicks : picks entry.1 entry.2.isPending <;> simp [hpicks, collapse_collapse]

theorem atomics_assign (doc : Document) (path : String) (v? : Option Value) :
    (doc.assign path v?).atomics =
      collapseWhere ((doc.assign path v?).givesWay path) doc.atomics := by
  unfold assign
  dsimp only
  split
  · exact (collapseAround_eq (doc.markModified (doc.pathToMark path)) path)
  · exact collapseAround_eq doc path

theorem atomics_assign_again (doc : Document) (path : String) (v? : Option Value) :
    ((doc.assign path v?).assign path v?).atomics = (doc.assign path v?).atomics := by
  have hgives : ((doc.assign path v?).assign path v?).givesWay path =
      (doc.assign path v?).givesWay path := by
    unfold givesWay isDirectModified
    rw [paths_assign_again]
  rw [atomics_assign (doc.assign path v?), hgives, atomics_assign doc, collapseWhere_collapseWhere]

theorem assign_eq_with (doc : Document) (path : String) (v? : Option Value) :
    doc.assign path v? = { doc with
      paths := (doc.assign path v?).paths
      atomics := (doc.assign path v?).atomics
      values := (doc.assign path v?).values } := by
  unfold assign
  dsimp only
  split <;> rfl

theorem assign_again (doc : Document) (path : String) (v? : Option Value) :
    (doc.assign path v?).assign path v? = doc.assign path v? := by
  have hvalues : ((doc.assign path v?).assign path v?).values = (doc.assign path v?).values := by
    rw [values_assign, values_assign, writeAt_again]
  rw [assign_eq_with (doc.assign path v?), paths_assign_again, atomics_assign_again, hvalues]

/-- To assign a value again, or to take one away again, leaves the document as it is. -/
theorem assignment_idempotent (doc : Document) (path : String) :
    (∀ v next, doc.set path v = .ok next → next.set path v = .ok next) ∧
      (doc.unset path).unset path = doc.unset path := by
  refine ⟨fun v next hset => ?_, assign_again doc path none⟩
  obtain ⟨w, hcast, rfl⟩ := set_eq_ok hset
  calc (doc.assign path (some w)).set path v
      = .ok ((doc.assign path (some w)).assign path (some w)) := by
        rw [set, schema_assign, hcast]
    _ = .ok (doc.assign path (some w)) := by rw [assign_again]

/-- A city below an address that was null, which is marked and is a map afterwards. -/
theorem assignment_idempotent_address :
    ∃ doc settled,
      hydrate (.empty "User") [("address", .null), ("name", .string "Ada")] none = .ok doc ∧
      doc.set "address.city" (.string "Oslo") = .ok settled ∧
      settled.paths.pathsIn .modified = ["address"] ∧
      settled.values = [("address", .map [("city", .string "Oslo")]), ("name", .string "Ada")] ∧
      settled.set "address.city" (.string "Oslo") = .ok settled ∧
      (settled.unset "address.city").unset "address.city" = settled.unset "address.city" := by
  have hassigned : ∃ doc settled,
      hydrate (.empty "User") [("address", .null), ("name", .string "Ada")] none = .ok doc ∧
      doc.set "address.city" (.string "Oslo") = .ok settled ∧
      settled.paths.pathsIn .modified = ["address"] ∧
      settled.values = [("address", .map [("city", .string "Oslo")]), ("name", .string "Ada")] :=
    ⟨_, _, rfl, rfl, rfl, rfl⟩
  obtain ⟨doc, settled, hload, hset, hmarked, hvalues⟩ := hassigned
  have hagain : settled.set "address.city" (.string "Oslo") = .ok settled :=
    (assignment_idempotent doc "address.city").1 _ settled hset
  exact ⟨doc, settled, hload, hset, hmarked, hvalues, hagain,
    (assignment_idempotent settled "address.city").2⟩

end Document

end DocMapper
