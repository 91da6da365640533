import DocMapper.Proofs.Tracking.Effects
/-!
# Runs of a loaded document

A path whose container is stored by changes of its elements has an origin, the document at which
these changes began. `Tracked` is what every run keeps: unmarked paths hold what was loaded, and
the pending changes of a path lead from the container at its origin to the one it holds now.
-/

namespace DocMapper.Document

/-! ### Runs -/

/-- One operation on a path without a dot. A view is opened on a container that is there, and lists
with a view hold no lists. -/
inductive Step (doc : Document) : Document → Prop
  | set {path : String} {v : Value} {next : Document} (hdot : hasDot path = false)
      (hset : doc.set path v = .ok next) : Step doc next
  | unset {path : String} (hdot : hasDot path = false) : Step doc (doc.unset path)
  | list {path : String} {items : List Value} {edits : List ListEdit} {next : Document}
      (hdot : hasDot path = false) (hitems : doc.get? path = some (.list items))
      (hflat : Flat items)
      (hedit : doc.editList path (fun view => ((), edits.foldl ListView.edit view)) = .ok ((), next))
      (hstill : ∀ now, next.get? path = some (.list now) → Flat now) : Step doc next
  | map {path : String} {entries : Fields Value} {edits : List MapEdit} {next : Document}
      (hdot : hasDot path = false) (hentries : doc.get? path = some (.map entries))
      (hedit : doc.editMap path (fun view => ((), edits.foldl MapView.edit view)) = .ok ((), next)) :
      Step doc next

/-- For each path the document at which its pending changes began, which is the present one if no
changes of elements are pending there. -/
def advance (next : Document) (origin : String → Document) : String → Document :=
  fun path => if next.inParts path then origin path else next

inductive Run (start : Document) : Document → (String → Document) → Prop
  | start : Run start start fun _ => start
  | step {doc next : Document} {origin : String → Document} (hrun : Run start doc origin)
      (hstep : Step doc next) : Run start next (next.advance origin)

/-- What a run keeps. -/
structure Tracked (start doc : Document) (origin : String → Document) : Prop where
  isNew : doc.isNew = false
  selection : doc.selection? = none
  sorted : Fields.Sorted doc.paths.states
  undefaulted : ∀ path, doc.paths.isIn path .defaulted = false
  undotted : ∀ path, doc.isDirectModified path = true → hasDot path = false
  kept : ∀ path, doc.isDirectModified path = false →
    (Fields.get? doc.values path).map Value.normal =
      (Fields.get? start.values path).map Value.normal
  whole : ∀ path, doc.isDirectModified path = false → doc.inParts path = false
  settled : ∀ path, doc.inParts path = false → origin path = doc
  led : ∀ path atomics, Fields.get? doc.atomics path = some atomics → atomics.inParts = true →
    ∃ base current, Fields.get? (origin path).values path = some base ∧
      Fields.get? doc.values path = some current ∧ atomics.Leads base current

theorem Untouched.tracked {schema : Schema} {start : Document} (h : Untouched schema start) :
    Tracked start start fun _ => start := by
  have hunmarked : ∀ path, start.isDirectModified path = false := by
    intro path
    simpa [isDirectModified, PathStates.isIn] using h.unmodified path
  have hnothing : ∀ path, start.inParts path = false := by
    intro path
    simp [inParts, h.atomics]
  exact {
    isNew := h.isNew
    selection := h.selection
    sorted := h.sorted
    undefaulted := fun path => by simpa [PathStates.isIn] using h.undefaulted path
    undotted := fun path hmarked => by simp [hunmarked path] at hmarked
    kept := fun _ _ => rfl
    whole := fun path _ => hnothing path
    settled := fun _ _ => rfl
    led := fun path atomics hslot _ => by simp [h.atomics] at hslot }

namespace DiffersAt

variable {path : String} {doc next : Document} (h : DiffersAt path doc next)

include h

theorem isDirectModified_of_ne {other : String} (hother : other ≠ path) :
    next.isDirectModified other = doc.isDirectModified other := by
  unfold isDirectModified PathStates.isIn
  rcases h.paths with hpaths | hpaths
  · rw [hpaths]
  · rw [hpaths, state?_enter, if_neg hother]

theorem unmarked_before (hmarked : next.isDirectModified path = false) :
    doc.isDirectModified path = false := by
  rcases h.paths with hpaths | hpaths
  · rwa [isDirectModified, hpaths] at hmarked
  · rw [isDirectModified, hpaths, PathStates.isIn, state?_enter, if_pos rfl] at hmarked
    simp at hmarked

theorem sorted (hsorted : Fields.Sorted doc.paths.states) :
    Fields.Sorted next.paths.states := by
  rcases h.paths with hpaths | hpaths
  · rwa [hpaths]
  · rw [hpaths]
    exact hsorted.put path .modified

theorem undefaulted {other : String} (hbefore : doc.paths.isIn other .defaulted = false) :
    next.paths.isIn other .defaulted = false := by
  rcases h.paths with hpaths | hpaths
  · rwa [hpaths]
  · rw [hpaths, PathStates.isIn, state?_enter]
    split
    · rfl
    · exact hbefore

theorem inParts_of_ne {other : String} (hother : other ≠ path) :
    next.inParts other = doc.inParts other := by
  rw [inParts, inParts, h.atomics other hother]

end DiffersAt

section Tracked

variable {start doc next : Document} {origin : String → Document} {path : String}

/-- An operation on one path keeps everything tracked if it does so at that path. -/
theorem Tracked.ofDiffersAt (h : Tracked start doc origin) (hdot : hasDot path = false)
    (hdiffers : DiffersAt path doc next)
    (hkept : next.isDirectModified path = false →
      (Fields.get? next.values path).map Value.normal =
        (Fields.get? doc.values path).map Value.normal)
    (hwhole : next.isDirectModified path = false → next.inParts path = false)
    (hled : ∀ atomics, Fields.get? next.atomics path = some atomics → atomics.inParts = true →
      ∃ base current, Fields.get? (origin path).values path = some base ∧
        Fields.get? next.values path = some current ∧ atomics.Leads base current) :
    Tracked start next (next.advance origin) := by
  refine ⟨hdiffers.isNew.trans h.isNew, hdiffers.selection.trans h.selection,
    hdiffers.sorted h.sorted, fun other => hdiffers.undefaulted (h.undefaulted other),
    ?_, ?_, ?_, ?_, ?_⟩
  · intro other hmarked
    by_cases hother : other = path
    · rwa [hother]
    · exact h.undotted other (hdiffers.isDirectModified_of_ne hother ▸ hmarked)
  · intro other hunmarked
    by_cases hother : other = path
    · subst hother
      exact (hkept hunmarked).trans (h.kept other (hdiffers.unmarked_before hunmarked))
    · rw [hdiffers.values other hother]
      exact h.kept other (hdiffers.isDirectModified_of_ne hother ▸ hunmarked)
  · intro other hunmarked
    by_cases hother : other = path
    · subst hother
      exact hwhole hunmarked
    · rw [hdiffers.inParts_of_ne hother]
      exact h.whole other (hdiffers.isDirectModified_of_ne hother ▸ hunmarked)
  · intro other hparts
    rw [advance, if_neg (by simp [hparts])]
  · intro other atomics hslot hparts
    have hin : next.inParts other = true := by simp [inParts, hslot, hparts]
    rw [advance, if_pos hin]
    by_cases hother : other = path
    · subst hother
      exact hled atomics hslot hparts
    · rw [hdiffers.values other hother]
      exact h.led other atomics (hdiffers.atomics other hother ▸ hslot) hparts

theorem Tracked.assign (h : Tracked start doc origin) (hdot : hasDot path = false)
    (v? : Option Value) :
    Tracked start (doc.assign path v?) ((doc.assign path v?).advance origin) := by
  have hdiffers : DiffersAt path doc (doc.assign path v?) := assign_differsAt hdot v?
  have hparts : (doc.assign path v?).inParts path = false := by
    cases hmarked : (doc.assign path v?).isDirectModified path with
    | true => exact inParts_assign hdot v? hmarked
    | false =>
      rw [inParts, slot_assign hdot, if_neg (by simp [hmarked])]
      exact h.whole path (hdiffers.unmarked_before hmarked)
  refine h.ofDiffersAt hdot hdiffers ?_ (fun _ => hparts) ?_
  · intro hunmarked
    rw [get?_assign hdot, if_pos rfl]
    exact same_of_unmarked hdot v? h.isNew h.selection (h.undefaulted path) hunmarked
  · intro atomics hslot hin
    rw [inParts, hslot] at hparts
    exact absurd hin (by simpa using hparts)

/-! ### Views -/

theorem inParts_eq_true (hparts : doc.inParts path = true) :
    ∃ atomics, Fields.get? doc.atomics path = some atomics ∧ atomics.inParts = true := by
  unfold inParts at hparts
  cases hslot : Fields.get? doc.atomics path with
  | none => simp [hslot] at hparts
  | some atomics => exact ⟨atomics, rfl, by simpa [hslot] using hparts⟩

theorem inParts_listAtomics (hparts : doc.inParts path = false) :
    (Atomics.list (doc.listAtomics path)).inParts = false := by
  unfold inParts at hparts
  unfold listAtomics
  split
  · next atomics hslot => simpa [hslot] using hparts
  · rfl
  · rfl

theorem inParts_mapAtomics (hparts : doc.inParts path = false) :
    (Atomics.map (doc.mapAtomics path)).inParts = false := by
  unfold inParts at hparts
  unfold mapAtomics
  split
  · next atomics hslot => simpa [hslot] using hparts
  · rfl
  · rfl

/-- What a list view starts from leads from the list at the origin to the items it opens with. -/
theorem Tracked.leads_list (h : Tracked start doc origin) {items : List Value}
    (hitems : Fields.get? doc.values path = some (.list items)) (hflat : Flat items) :
    ∃ before, Fields.get? (origin path).values path = some (.list before) ∧
      (doc.listAtomics path).Leads before items := by
  cases hparts : doc.inParts path with
  | false =>
    rw [h.settled path hparts]
    exact ⟨items, hitems, ListAtomics.leads_self (inParts_listAtomics hparts) hflat⟩
  | true =>
    obtain ⟨atomics, hslot, hin⟩ := inParts_eq_true hparts
    obtain ⟨base, current, hbase, hcurrent, hleads⟩ := h.led path atomics hslot hin
    obtain rfl := Option.some.inj (hitems.symm.trans hcurrent)
    unfold listAtomics
    rw [hslot]
    cases atomics with
    | list atomics =>
      obtain ⟨before, now, rfl, hnow, -, hleads⟩ := hleads
      cases hnow
      exact ⟨before, hbase, hleads⟩
    | map atomics =>
      obtain ⟨before, now, rfl, hnow, -⟩ := hleads
      cases hnow

theorem Tracked.leads_map (h : Tracked start doc origin) {entries : Fields Value}
    (hentries : Fields.get? doc.values path = some (.map entries)) :
    ∃ before, Fields.get? (origin path).values path = some (.map before) ∧
      (doc.mapAtomics path).Leads before entries := by
  cases hparts : doc.inParts path with
  | false =>
    rw [h.settled path hparts]
    exact ⟨entries, hentries, MapAtomics.leads_self (inParts_mapAtomics hparts)⟩
  | true =>
    obtain ⟨atomics, hslot, hin⟩ := inParts_eq_true hparts
    obtain ⟨base, current, hbase, hcurrent, hleads⟩ := h.led path atomics hslot hin
    obtain rfl := Option.some.inj (hentries.symm.trans hcurrent)
    unfold mapAtomics
    rw [hslot]
    cases atomics with
    | list atomics =>
      obtain ⟨before, now, rfl, hnow, -⟩ := hleads
      cases hnow
    | map atomics =>
      obtain ⟨before, now, rfl, hnow, hleads⟩ := hleads
      cases hnow
      exact ⟨before, hbase, hleads⟩

/-- Putting a container back keeps everything tracked if an untouched one is as it was, and if what
is pending leads to its contents. -/
theorem Tracked.closeAt (h : Tracked start doc origin) (hdot : hasDot path = false)
    {container : Value} {atomics : Atomics} {touched : Bool}
    (huntouched : touched = false → Fields.get? doc.values path = some container ∧
      (doc.inParts path = false → atomics.inParts = false))
    (hled : atomics.inParts = true → ∃ base,
      Fields.get? (origin path).values path = some base ∧ atomics.Leads base container) :
    Tracked start (doc.closeAt path container atomics touched)
      ((doc.closeAt path container atomics touched).advance origin) := by
  have hslot := slot_closeAt doc path container atomics touched path
  have hvalue := get?_closeAt doc path container atomics touched hdot path
  rw [if_pos rfl] at hslot hvalue
  have hunmarked : (doc.closeAt path container atomics touched).isDirectModified path = false →
      touched = false ∧ doc.isDirectModified path = false := by
    intro hunmarked
    rwa [isDirectModified_closeAt, Bool.or_eq_false_iff] at hunmarked
  refine h.ofDiffersAt hdot (closeAt_differsAt doc path container atomics touched hdot) ?_ ?_ ?_
  · intro hnot
    rw [hvalue, (huntouched (hunmarked hnot).1).1]
  · intro hnot
    obtain ⟨htouched, hbefore⟩ := hunmarked hnot
    rw [inParts, hslot]
    exact (huntouched htouched).2 (h.whole path hbefore)
  · intro pending hpending hin
    obtain rfl := Option.some.inj (hslot.symm.trans hpending)
    obtain ⟨base, hbase, hleads⟩ := hled hin
    exact ⟨base, container, hbase, hvalue, hleads⟩

theorem Tracked.list (h : Tracked start doc origin) (hdot : hasDot path = false)
    {items : List Value} {edits : List ListEdit} (hitems : doc.get? path = some (.list items))
    (hflat : Flat items)
    (hedit : doc.editList path (fun view => ((), edits.foldl ListView.edit view)) = .ok ((), next))
    (hstill : ∀ now, next.get? path = some (.list now) → Flat now) :
    Tracked start next (next.advance origin) := by
  have hvalue : Fields.get? doc.values path = some (.list items) :=
    (valueAt?_of_undotted hdot doc.values).symm.trans hitems
  obtain ⟨view, rfl, rfl, hatomics, huntouched, rfl⟩ := editList_eq_ok hdot hvalue hedit
  obtain ⟨before, hbefore, hleads⟩ := h.leads_list hvalue hflat
  have hstart : ListView.CameFrom before view view :=
    ⟨rfl, fun _ => ⟨rfl, rfl⟩, hatomics ▸ hleads⟩
  have hlast := hstart.edits edits
  dsimp only at hstill ⊢
  generalize edits.foldl ListView.edit view = last at hlast hstill ⊢
  rw [closeList_eq, hlast.path] at hstill ⊢
  have hnow : Flat last.items := by
    apply hstill
    rw [get?, valueAt?_of_undotted hdot, get?_closeAt _ _ _ _ _ hdot, if_pos rfl]
  apply h.closeAt hdot
  · intro hnot
    obtain ⟨hsame, hpending⟩ := hlast.untouched hnot
    refine ⟨by rw [hvalue, hsame], fun hparts => ?_⟩
    rw [hpending, hatomics]
    exact inParts_listAtomics hparts
  · intro _
    exact ⟨.list before, hbefore, before, last.items, rfl, rfl, hnow, hlast.leads⟩

theorem Tracked.map (h : Tracked start doc origin) (hdot : hasDot path = false)
    {entries : Fields Value} {edits : List MapEdit}
    (hentries : doc.get? path = some (.map entries))
    (hedit : doc.editMap path (fun view => ((), edits.foldl MapView.edit view)) = .ok ((), next)) :
    Tracked start next (next.advance origin) := by
  have hvalue : Fields.get? doc.values path = some (.map entries) :=
    (valueAt?_of_undotted hdot doc.values).symm.trans hentries
  obtain ⟨view, rfl, rfl, hatomics, huntouched, rfl⟩ := editMap_eq_ok hdot hvalue hedit
  obtain ⟨before, hbefore, hleads⟩ := h.leads_map hvalue
  have hstart : MapView.CameFrom before view view :=
    ⟨rfl, fun _ => ⟨rfl, rfl⟩, hatomics ▸ hleads⟩
  have hlast := hstart.edits edits
  dsimp only
  generalize edits.foldl MapView.edit view = last at hlast ⊢
  rw [closeMap_eq, hlast.path]
  apply h.closeAt hdot
  · intro hnot
    obtain ⟨hsame, hpending⟩ := hlast.untouched hnot
    refine ⟨by rw [hvalue, hsame], fun hparts => ?_⟩
    rw [hpending, hatomics]
    exact inParts_mapAtomics hparts
  · intro _
    exact ⟨.map before, hbefore, before, last.entries, rfl, rfl, hlast.leads⟩

theorem Tracked.step (h : Tracked start doc origin) (hstep : Step doc next) :
    Tracked start next (next.advance origin) := by
  cases hstep with
  | set hdot hset =>
    unfold Document.set at hset
    split at hset
    · obtain rfl := Except.ok.inj hset
      exact h.assign hdot _
    · cases hset
  | unset hdot => exact h.assign hdot none
  | list hdot hitems hflat hedit hstill => exact h.list hdot hitems hflat hedit hstill
  | map hdot hentries hedit => exact h.map hdot hentries hedit

theorem Run.tracked (hstart : Tracked start start fun _ => start)
    (hrun : Run start doc origin) : Tracked start doc origin := by
  induction hrun with
  | start => exact hstart
  | step hrun hstep ih => exact ih.step hstep

end Tracked

end DocMapper.Document
