import DocMapper.Proofs.Path
import DocMapper.Proofs.Tracking.Views
import DocMapper.Proofs.Value
import DocMapper.Tracking.Document
/-!
# What an operation does to a document

Assigning a path without a dot and working on the container there change the document at that path
only, and mark no other.
-/

namespace DocMapper

section Undotted

variable {path : String} (h : hasDot path = false)

include h

theorem valueAt?_of_undotted (values : Fields Value) :
    valueAt? values path = Fields.get? values path := by
  rw [valueAt?, segments_of_undotted h]
  dsimp only
  cases Fields.get? values path <;> rfl

theorem get?_writeAt (values : Fields Value) (v? : Option Value) (other : String) :
    Fields.get? (writeAt values path v?) other =
      if other = path then v? else Fields.get? values other := by
  rw [writeAt, segments_of_undotted h]
  dsimp only
  unfold Value.writeEntry
  cases v? with
  | some v =>
    cases Fields.get? values path <;> simp [Value.write, Fields.get?_put]
  | none =>
    cases hget : Fields.get? values path with
    | some old => simp [Fields.get?_drop]
    | none =>
      by_cases hother : other = path
      · simp [hother, hget]
      · simp [hother]

end Undotted

theorem Fields.get?_map_named {α : Type} (fields : Fields α) (f : String → α → α) (key : String) :
    Fields.get? (fields.map fun entry => (entry.1, f entry.1 entry.2)) key =
      (Fields.get? fields key).map (f key) := by
  induction fields with
  | nil => rfl
  | cons entry rest ih =>
    obtain ⟨k, a⟩ := entry
    rw [List.map_cons, Fields.get?_cons, Fields.get?_cons]
    split
    · next hk => rw [hk]; rfl
    · exact ih

namespace Atomics

/-- Whether a container is stored by changes of its elements. -/
def inParts : Atomics → Bool
  | .list (.add _) | .list (.remove _) | .map (.pending _ _) => true
  | _ => false

/-- The pending changes make a container out of the one it was when they began. -/
def Leads (atomics : Atomics) (base current : Value) : Prop :=
  match atomics with
  | .list atomics => ∃ before items, base = .list before ∧ current = .list items ∧
      Flat items ∧ atomics.Leads before items
  | .map atomics => ∃ before entries, base = .map before ∧ current = .map entries ∧
      atomics.Leads before entries

theorem inParts_collapse (atomics : Atomics) : atomics.collapse.inParts = false := by
  cases atomics <;> rfl

end Atomics

theorem ListAtomics.leads_self {atomics : ListAtomics} {items : List Value}
    (hparts : (Atomics.list atomics).inParts = false) (hflat : Flat items) :
    atomics.Leads items items := by
  cases atomics with
  | clean => exact ⟨rfl, hflat⟩
  | set => trivial
  | add added => cases hparts
  | remove removed => cases hparts

theorem MapAtomics.leads_self {atomics : MapAtomics} {entries : Fields Value}
    (hparts : (Atomics.map atomics).inParts = false) : atomics.Leads entries entries := by
  cases atomics with
  | clean => exact fun _ => rfl
  | set => trivial
  | pending puts removes => cases hparts

namespace Document

/-- Whether a path is stored by changes of the elements of its container. -/
def inParts (doc : Document) (path : String) : Bool :=
  (Fields.get? doc.atomics path).any Atomics.inParts

/-- The document differs from an earlier one at a path only, which it may have marked. -/
structure DiffersAt (path : String) (doc next : Document) : Prop where
  isNew : next.isNew = doc.isNew
  selection : next.selection? = doc.selection?
  values : ∀ other, other ≠ path → Fields.get? next.values other = Fields.get? doc.values other
  atomics : ∀ other, other ≠ path → Fields.get? next.atomics other = Fields.get? doc.atomics other
  paths : next.paths = doc.paths ∨ next.paths = doc.paths.enter path .modified

theorem isDirectModified_markModified (doc : Document) (path other : String) :
    (doc.markModified path).isDirectModified other =
      (other = path || doc.isDirectModified other) := by
  unfold isDirectModified markModified PathStates.isIn
  by_cases h : other = path
  · simp [h, PathStates.state?_enter_self]
  · simp [h, PathStates.state?_enter_of_ne _ _ h]

/-! ### Assignment -/

/-- The document with the path of an assignment marked, if that is worth it. -/
def markFor (doc : Document) (path : String) (v? : Option Value) : Document :=
  if doc.shouldModify path path v? then doc.markModified path else doc

section Assign

variable {doc : Document} {path : String} (h : hasDot path = false) (v? : Option Value)

theorem markFor_values : (doc.markFor path v?).values = doc.values := by
  unfold markFor
  split <;> rfl

theorem markFor_atomics : (doc.markFor path v?).atomics = doc.atomics := by
  unfold markFor
  split <;> rfl

include h

theorem assign_eq : doc.assign path v? =
    { doc.markFor path v? with
      atomics := (doc.markFor path v?).collapseAround path
      values := writeAt doc.values path v? } := by
  have hmark : doc.pathToMark path = path := by
    rw [pathToMark, h, if_neg Bool.false_ne_true]
  have hassign : doc.assign path v? =
      { doc.markFor path v? with
        atomics := (doc.markFor path v?).collapseAround path
        values := writeAt (doc.markFor path v?).values path v? } := by
    unfold assign
    rw [hmark]
    rfl
  rw [hassign, markFor_values]

theorem get?_collapseAround (marked : Document) (other : String) :
    Fields.get? (marked.collapseAround path) other =
      if other = path ∧ marked.isDirectModified path = true then
        (Fields.get? marked.atomics other).map Atomics.collapse
      else Fields.get? marked.atomics other := by
  have hmap := Fields.get?_map_named marked.atomics
    (fun key atomics => if key = path ∧ marked.isDirectModified path = true then atomics.collapse
      else atomics) other
  have hentries : marked.collapseAround path = marked.atomics.map fun entry =>
      (entry.1, if entry.1 = path ∧ marked.isDirectModified path = true then entry.2.collapse
        else entry.2) := by
    unfold collapseAround
    apply List.map_congr_left
    intro entry _
    rw [isBelow_of_undotted h]
    by_cases hentry : entry.1 = path ∧ marked.isDirectModified path = true
    · simp [hentry]
    · simp [hentry]
  rw [hentries, hmap]
  split
  · rfl
  · exact Option.map_id'

theorem get?_assign (other : String) : Fields.get? (doc.assign path v?).values other =
    if other = path then v? else Fields.get? doc.values other := by
  rw [assign_eq h]
  exact get?_writeAt h doc.values v? other

theorem isDirectModified_assign (other : String) :
    (doc.assign path v?).isDirectModified other = (doc.markFor path v?).isDirectModified other := by
  rw [assign_eq h]
  rfl

theorem slot_assign (other : String) : Fields.get? (doc.assign path v?).atomics other =
    if other = path ∧ (doc.assign path v?).isDirectModified path = true then
      (Fields.get? doc.atomics other).map Atomics.collapse
    else Fields.get? doc.atomics other := by
  rw [isDirectModified_assign h, assign_eq h]
  have hslot := get?_collapseAround h (doc.markFor path v?) other
  rw [markFor_atomics] at hslot
  exact hslot

theorem assign_differsAt : DiffersAt path doc (doc.assign path v?) := by
  have hvalues : ∀ other, other ≠ path →
      Fields.get? (doc.assign path v?).values other = Fields.get? doc.values other := by
    intro other hother
    rw [get?_assign h, if_neg hother]
  have hatomics : ∀ other, other ≠ path →
      Fields.get? (doc.assign path v?).atomics other = Fields.get? doc.atomics other := by
    intro other hother
    rw [slot_assign h, if_neg (fun hboth => hother hboth.1)]
  refine ⟨?_, ?_, hvalues, hatomics, ?_⟩
  all_goals
    rw [assign_eq h]
    dsimp only
    unfold markFor
    split
  · rfl
  · rfl
  · rfl
  · rfl
  · exact Or.inr rfl
  · exact Or.inl rfl

/-- A marked container that is assigned is no longer stored by changes of its elements. -/
theorem inParts_assign (hmarked : (doc.assign path v?).isDirectModified path = true) :
    (doc.assign path v?).inParts path = false := by
  rw [inParts, slot_assign h, if_pos ⟨rfl, hmarked⟩]
  cases Fields.get? doc.atomics path with
  | none => rfl
  | some atomics => exact atomics.inParts_collapse

/-- What is not worth marking is the same value again, or the removal of nothing. -/
theorem same_of_unmarked (hnew : doc.isNew = false) (hselection : doc.selection? = none)
    (hdefault : doc.paths.isIn path .defaulted = false)
    (hunmarked : (doc.assign path v?).isDirectModified path = false) :
    v?.map Value.normal = (Fields.get? doc.values path).map Value.normal := by
  rw [isDirectModified_assign h] at hunmarked
  have hmodify : doc.shouldModify path path v? = false := by
    rw [Bool.eq_false_iff]
    intro hmodify
    rw [markFor, if_pos hmodify, isDirectModified_markModified] at hunmarked
    simp at hunmarked
  have hbefore : doc.isDirectModified path = false := by
    rwa [markFor, if_neg (by simp [hmodify])] at hunmarked
  unfold shouldModify at hmodify
  rw [hnew, hbefore, hdefault, get?, valueAt?_of_undotted h] at hmodify
  simp only [Bool.false_eq_true, if_false] at hmodify
  cases v? with
  | none =>
    simp only [isSelected, hselection] at hmodify
    cases hget : Fields.get? doc.values path with
    | none => rfl
    | some old => simp [hget] at hmodify
  | some v =>
    cases hget : Fields.get? doc.values path with
    | none => simp [hget, Value.eqvOption] at hmodify
    | some old =>
      have heqv : old.eqv v = true := by simpa [hget, Value.eqvOption] using hmodify
      rw [Option.map_some, Option.map_some, Value.normal_eq_of_eqv heqv]

end Assign

/-! ### Work on a container -/

def closeAt (doc : Document) (path : String) (container : Value) (atomics : Atomics)
    (touched : Bool) : Document :=
  { doc with
    values := writeAt doc.values path (some container)
    atomics := Fields.put doc.atomics path atomics }.touch path touched

theorem closeList_eq (doc : Document) (view : ListView) :
    doc.closeList view =
      doc.closeAt view.path (.list view.items) (.list view.atomics) view.touched := rfl

theorem closeMap_eq (doc : Document) (view : MapView) :
    doc.closeMap view =
      doc.closeAt view.path (.map view.entries) (.map view.atomics) view.touched := rfl

section Close

variable (doc : Document) (path : String) (container : Value) (atomics : Atomics) (touched : Bool)

theorem values_closeAt : (doc.closeAt path container atomics touched).values =
    writeAt doc.values path (some container) := by
  cases touched <;> rfl

theorem atomics_closeAt : (doc.closeAt path container atomics touched).atomics =
    Fields.put doc.atomics path atomics := by
  cases touched <;> rfl

theorem get?_closeAt_self :
    (doc.closeAt path container atomics touched).get? path = some container := by
  rw [Document.get?, values_closeAt]
  exact valueAt?_writeAt_self doc.values path container

theorem slot_closeAt (other : String) :
    Fields.get? (doc.closeAt path container atomics touched).atomics other =
      if other = path then some atomics else Fields.get? doc.atomics other := by
  rw [atomics_closeAt, Fields.get?_put]

theorem isDirectModified_closeAt :
    (doc.closeAt path container atomics touched).isDirectModified path =
      (touched || doc.isDirectModified path) := by
  cases touched with
  | false => rfl
  | true => exact (isDirectModified_markModified _ path path).trans (by simp)

theorem get?_closeAt (h : hasDot path = false) (other : String) :
    Fields.get? (doc.closeAt path container atomics touched).values other =
      if other = path then some container else Fields.get? doc.values other := by
  rw [values_closeAt, get?_writeAt h]

theorem closeAt_differsAt (h : hasDot path = false) :
    DiffersAt path doc (doc.closeAt path container atomics touched) := by
  have hvalues : ∀ other, other ≠ path →
      Fields.get? (doc.closeAt path container atomics touched).values other =
        Fields.get? doc.values other := by
    intro other hother
    rw [get?_closeAt doc path container atomics touched h, if_neg hother]
  have hatomics : ∀ other, other ≠ path →
      Fields.get? (doc.closeAt path container atomics touched).atomics other =
        Fields.get? doc.atomics other := by
    intro other hother
    rw [slot_closeAt, if_neg hother]
  cases touched with
  | false => exact ⟨rfl, rfl, hvalues, hatomics, Or.inl rfl⟩
  | true => exact ⟨rfl, rfl, hvalues, hatomics, Or.inr rfl⟩

end Close

theorem editList_eq_ok {doc next : Document} {path : String} {items : List Value} {α : Type}
    {edit : ListView → α × ListView} {answer : α} (h : hasDot path = false)
    (hitems : Fields.get? doc.values path = some (.list items))
    (hedit : doc.editList path edit = .ok (answer, next)) :
    ∃ view : ListView, view.path = path ∧ view.items = items ∧
      view.atomics = doc.listAtomics path ∧ view.touched = false ∧
      next = doc.closeList (edit view).2 := by
  have hget : doc.get? path = some (.list items) := (valueAt?_of_undotted h doc.values).trans hitems
  unfold editList withContainer openList at hedit
  simp only [hget] at hedit
  obtain ⟨view, hview, hdone⟩ := Success.bind_eq_ok.mp hedit
  obtain rfl := Except.ok.inj hview
  obtain ⟨-, rfl⟩ := Prod.mk.inj (Success.pure_eq_ok.mp hdone)
  exact ⟨_, rfl, rfl, rfl, rfl, rfl⟩

theorem editMap_eq_ok {doc next : Document} {path : String} {entries : Fields Value} {α : Type}
    {edit : MapView → α × MapView} {answer : α} (h : hasDot path = false)
    (hentries : Fields.get? doc.values path = some (.map entries))
    (hedit : doc.editMap path edit = .ok (answer, next)) :
    ∃ view : MapView, view.path = path ∧ view.entries = entries ∧
      view.atomics = doc.mapAtomics path ∧ view.touched = false ∧
      next = doc.closeMap (edit view).2 := by
  have hget : doc.get? path = some (.map entries) :=
    (valueAt?_of_undotted h doc.values).trans hentries
  unfold editMap withContainer openMap at hedit
  simp only [hget] at hedit
  obtain ⟨view, hview, hdone⟩ := Success.bind_eq_ok.mp hedit
  obtain rfl := Except.ok.inj hview
  obtain ⟨-, rfl⟩ := Prod.mk.inj (Success.pure_eq_ok.mp hdone)
  exact ⟨_, rfl, rfl, rfl, rfl, rfl⟩

/-! ### Loading -/

/-- Nothing has happened to the document since it was loaded whole. -/
structure Untouched (schema : Schema) (doc : Document) : Prop where
  schema : doc.schema = schema
  isNew : doc.isNew = false
  selection : doc.selection? = none
  atomics : doc.atomics = []
  sorted : Fields.Sorted doc.paths.states
  unmodified : ∀ path, doc.paths.state? path ≠ some .modified
  undefaulted : ∀ path, doc.paths.state? path ≠ some .defaulted

variable {schema : Schema} {doc loaded : Document}

theorem state?_enter (paths : PathStates) (path other : String) (state : PathState) :
    (paths.enter path state).state? other =
      if other = path then some state else paths.state? other :=
  Fields.get?_put paths.states path other state

theorem Untouched.enter (h : Untouched schema doc) (path : String) {state : PathState}
    (hmodified : state ≠ .modified) (hdefaulted : state ≠ .defaulted) :
    Untouched schema { doc with paths := doc.paths.enter path state } := by
  refine ⟨h.schema, h.isNew, h.selection, h.atomics, h.sorted.put path state, ?_, ?_⟩
  · intro other
    dsimp only
    rw [state?_enter]
    split
    · simpa using hmodified
    · exact h.unmodified other
  · intro other
    dsimp only
    rw [state?_enter]
    split
    · simpa using hdefaulted
    · exact h.undefaulted other

theorem Untouched.enterAll (h : Untouched schema doc) (paths : List String) :
    Untouched schema { doc with paths := doc.paths.enterAll paths .required } := by
  induction paths generalizing doc with
  | nil => exact h
  | cons path rest ih => exact ih (h.enter path (by decide) (by decide))

theorem untouched_blank (schema : Schema) : Untouched schema (blank schema false) := by
  have hempty : Untouched schema { blank schema false with paths := PathStates.empty } :=
    ⟨rfl, rfl, rfl, rfl, Fields.sorted_nil, by simp [PathStates.state?, PathStates.empty],
      by simp [PathStates.state?, PathStates.empty]⟩
  exact hempty.enterAll schema.requiredPaths

theorem Untouched.loadEntry (h : Untouched schema doc) {entry : String × Value}
    (hload : doc.loadEntry entry = .ok loaded) : Untouched schema loaded := by
  unfold Document.loadEntry at hload
  split at hload
  · obtain ⟨id, -, rfl⟩ := Success.map_eq_ok.mp hload
    exact ⟨h.schema, h.isNew, h.selection, h.atomics, h.sorted, h.unmodified, h.undefaulted⟩
  split at hload
  · obtain rfl := Except.ok.inj hload
    exact h
  split at hload
  · cases hload
  · obtain rfl := Except.ok.inj hload
    have henter : Untouched schema { doc with paths := doc.paths.enter entry.1 .loaded } :=
      h.enter entry.1 (by decide) (by decide)
    exact ⟨h.schema, h.isNew, h.selection, h.atomics, henter.sorted, henter.unmodified,
      henter.undefaulted⟩

theorem Untouched.loadEntries (h : Untouched schema doc) {record : Fields Value}
    (hload : record.foldlM Document.loadEntry doc = .ok loaded) : Untouched schema loaded := by
  induction record generalizing doc with
  | nil =>
    obtain rfl := Success.pure_eq_ok.mp hload
    exact h
  | cons entry rest ih =>
    rw [List.foldlM_cons] at hload
    obtain ⟨next, hnext, hrest⟩ := Success.bind_eq_ok.mp hload
    exact ih (h.loadEntry hnext) hrest

/-- Without defaults a document is what its record holds. -/
theorem untouched_of_hydrate (hschema : ∀ path, schema.default? path = none)
    {record : Fields Value} (hload : hydrate schema record none = .ok loaded) :
    Untouched schema loaded := by
  obtain ⟨read, hread, hfill⟩ := Success.bind_eq_ok.mp hload
  have huntouched : Untouched schema read := (untouched_blank schema).loadEntries hread
  have hkeep : ∀ paths : List String, paths.foldl (fun doc path =>
      if Fields.has doc.values path || !doc.isSelected path then doc else doc.fillDefault path)
      read = read := by
    intro paths
    induction paths with
    | nil => rfl
    | cons path rest ih =>
      have hfirst : read.fillDefault path = read := by
        rw [fillDefault, huntouched.schema, hschema path]
      rw [List.foldl_cons, hfirst, ite_self, ih]
  obtain rfl := Success.pure_eq_ok.mp hfill
  rw [hkeep]
  exact huntouched

end Document

end DocMapper
