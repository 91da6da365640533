import DocMapper.Proofs.Path
import DocMapper.Proofs.Tracking.Save
/-!
# The operations on a document

Every operation is read off here once: which paths it marks, and for the views which container is
opened and closed again. Whatever holds of documents as their operations leave them is then shown
operation by operation.
-/

namespace DocMapper

/-- Something done to a document. A view is opened, worked on and closed. -/
inductive Operation where
  | set (path : String) (v : Value)
  | unset (path : String)
  | mark (path : String)
  | list (path : String) (edits : List ListEdit)
  | map (path : String) (edits : List MapEdit)
  | reset
  | save (conn : Connection)

namespace Operation

/-- The path at which something is done. -/
def path? : Operation → Option String
  | .set path _ | .unset path | .mark path | .list path _ | .map path _ => some path
  | .reset | .save _ => none

/-- No segment of the path is empty. -/
def Proper (op : Operation) : Prop :=
  ∀ path ∈ op.path?, DocMapper.Proper path

end Operation

/-! ### Views -/

namespace ListView

variable {view next : ListView}

theorem Moves.path (h : Moves view next) : next.path = view.path := by
  cases h <;> rfl

theorem edits_path (view : ListView) (edits : List ListEdit) :
    (edits.foldl edit view).path = view.path :=
  holds_edits (P := fun next => next.path = view.path) (fun hmove h => hmove.path.trans h) rfl edits

end ListView

namespace MapView

variable {view next : MapView}

theorem Moves.path (h : Moves view next) : next.path = view.path := by
  induction h with
  | keep view => rfl
  | put key v rest ih => exact ih
  | remove key rest ih => exact ih

theorem edits_path (view : MapView) (edits : List MapEdit) :
    (edits.foldl edit view).path = view.path :=
  holds_edits (P := fun next => next.path = view.path) (fun hmove h => hmove.path.trans h) rfl edits

end MapView

namespace Document

/-- The document after an operation. Storing it may fail and still change it. -/
def perform (doc : Document) : Operation → Except Error Document
  | .set path v => doc.set path v
  | .unset path => .ok (doc.unset path)
  | .mark path => .ok (doc.markModified path)
  | .list path edits =>
    (doc.editList path fun view => ((), edits.foldl ListView.edit view)).map Prod.snd
  | .map path edits =>
    (doc.editMap path fun view => ((), edits.foldl MapView.edit view)).map Prod.snd
  | .reset => .ok doc.reset
  | .save conn => .ok (doc.save conn).2.1

/-- Documents made anew or from a record, and then changed by allowed operations in any order. -/
inductive Worked (allowed : Document → Operation → Prop) : Document → Prop
  | new (schema : Schema) : Worked allowed (new schema)
  | hydrate {schema : Schema} {record : Fields Value} {selection? : Option Selection}
      {doc : Document} (hload : hydrate schema record selection? = .ok doc) : Worked allowed doc
  | step {doc next : Document} {op : Operation} (h : Worked allowed doc) (hallowed : allowed doc op)
      (hperform : doc.perform op = .ok next) : Worked allowed next

/-! ### What each operation does -/

variable {doc next : Document} {path : String}

theorem set_eq_ok {v : Value} (h : doc.set path v = .ok next) :
    ∃ w, doc.schema.cast path v = .ok w ∧ next = doc.assign path (some w) := by
  unfold set at h
  split at h
  · next w hcast => exact ⟨w, hcast, (Except.ok.inj h).symm⟩
  · cases h

/-- The list at a path as it is opened. -/
def listView (doc : Document) (path : String) (items : List Value) : ListView :=
  ⟨path, items, doc.listAtomics path, false, doc.schema, doc.schema.container? path = some .set⟩

def mapView (doc : Document) (path : String) (entries : Fields Value) : MapView :=
  ⟨path, entries, doc.mapAtomics path, false, doc.schema⟩

theorem perform_list_eq_ok {edits : List ListEdit} (h : doc.perform (.list path edits) = .ok next) :
    ∃ items, (doc.withContainer path (.list [])).get? path = some (.list items) ∧
      next = (doc.withContainer path (.list [])).closeList
        (edits.foldl ListView.edit ((doc.withContainer path (.list [])).listView path items)) := by
  obtain ⟨⟨_, closed⟩, hedit, rfl⟩ := Success.map_eq_ok.mp h
  obtain ⟨view, hopen, hclose⟩ := Success.bind_eq_ok.mp hedit
  obtain ⟨-, rfl⟩ := Prod.mk.inj (Success.pure_eq_ok.mp hclose)
  unfold openList at hopen
  split at hopen
  · next items hitems =>
    obtain rfl := Except.ok.inj hopen
    exact ⟨items, hitems, rfl⟩
  · cases hopen

theorem perform_map_eq_ok {edits : List MapEdit} (h : doc.perform (.map path edits) = .ok next) :
    ∃ entries, (doc.withContainer path (.map [])).get? path = some (.map entries) ∧
      next = (doc.withContainer path (.map [])).closeMap
        (edits.foldl MapView.edit ((doc.withContainer path (.map [])).mapView path entries)) := by
  obtain ⟨⟨_, closed⟩, hedit, rfl⟩ := Success.map_eq_ok.mp h
  obtain ⟨view, hopen, hclose⟩ := Success.bind_eq_ok.mp hedit
  obtain ⟨-, rfl⟩ := Prod.mk.inj (Success.pure_eq_ok.mp hclose)
  unfold openMap at hopen
  split at hopen
  · next entries hentries =>
    obtain rfl := Except.ok.inj hopen
    exact ⟨entries, hentries, rfl⟩
  · cases hopen

theorem perform_save_eq_ok {conn : Connection} (h : doc.perform (.save conn) = .ok next) :
    next = doc.adopt conn.config.dialect ∨ next = (doc.adopt conn.config.dialect).delta.2 ∨
      Stored (doc.adopt conn.config.dialect) next := by
  obtain rfl := Except.ok.inj h
  rw [save_eq_store]
  match hstore : (doc.adopt conn.config.dialect).store conn with
  | (.error e, doc', conn') =>
    rcases store_eq_error hstore with rfl | rfl
    · exact Or.inl rfl
    · exact Or.inr (Or.inl rfl)
  | (.ok n, doc', conn') => exact Or.inr (Or.inr (store_eq_ok hstore).2)

theorem schema_assign (doc : Document) (path : String) (v? : Option Value) :
    (doc.assign path v?).schema = doc.schema := by
  unfold assign
  dsimp only
  split <;> rfl

theorem values_assign (doc : Document) (path : String) (v? : Option Value) :
    (doc.assign path v?).values = writeAt doc.values path v? := by
  unfold assign
  dsimp only
  split <;> rfl

theorem schema_withContainer (doc : Document) (path : String) (container : Value) :
    (doc.withContainer path container).schema = doc.schema := by
  unfold withContainer
  split <;> rfl

theorem schema_closeAt (doc : Document) (path : String) (container : Value) (atomics : Atomics)
    (touched : Bool) : (doc.closeAt path container atomics touched).schema = doc.schema := by
  cases touched <;> rfl

/-- No operation changes the schema. -/
theorem schema_perform {op : Operation} (h : doc.perform op = .ok next) :
    next.schema = doc.schema := by
  cases op with
  | set path v =>
    obtain ⟨w, -, rfl⟩ := set_eq_ok h
    exact doc.schema_assign path _
  | unset path =>
    obtain rfl := Except.ok.inj h
    exact doc.schema_assign path none
  | mark path =>
    obtain rfl := Except.ok.inj h
    rfl
  | list path edits =>
    obtain ⟨items, -, rfl⟩ := perform_list_eq_ok h
    exact (schema_closeAt _ _ _ _ _).trans (doc.schema_withContainer path _)
  | map path edits =>
    obtain ⟨entries, -, rfl⟩ := perform_map_eq_ok h
    exact (schema_closeAt _ _ _ _ _).trans (doc.schema_withContainer path _)
  | reset =>
    obtain rfl := Except.ok.inj h
    rfl
  | save conn =>
    rcases perform_save_eq_ok h with rfl | rfl | hstored
    · rfl
    · rfl
    · exact hstored.schema

theorem Reachable.perform (h : doc.Reachable) {op : Operation}
    (hperform : doc.perform op = .ok next) : next.Reachable := by
  cases op with
  | set path v => exact h.set hperform
  | unset path => exact Except.ok.inj hperform ▸ h.unset path
  | mark path => exact Except.ok.inj hperform ▸ h.mark path
  | list path edits =>
    obtain ⟨⟨answer, closed⟩, hedit, rfl⟩ := Success.map_eq_ok.mp hperform
    exact h.list hedit
  | map path edits =>
    obtain ⟨⟨answer, closed⟩, hedit, rfl⟩ := Success.map_eq_ok.mp hperform
    exact h.map hedit
  | reset => exact Except.ok.inj hperform ▸ h.reset
  | save conn => exact Except.ok.inj hperform ▸ h.save conn

theorem Worked.reachable {allowed : Document → Operation → Prop} (h : Worked allowed doc) :
    doc.Reachable := by
  induction h with
  | new schema => exact .new schema
  | hydrate hload => exact .hydrate hload
  | step _ _ hperform ih => exact ih.perform hperform

/-! ### How documents begin -/

theorem schema_fillDefault (doc : Document) (path : String) :
    (doc.fillDefault path).schema = doc.schema := by
  unfold fillDefault
  split <;> rfl

theorem schema_loadEntry {entry : String × Value} (h : doc.loadEntry entry = .ok next) :
    next.schema = doc.schema := by
  unfold loadEntry at h
  split at h
  · obtain ⟨id, -, rfl⟩ := Success.map_eq_ok.mp h
    rfl
  split at h
  · cases h
    rfl
  split at h
  · cases h
  · cases h
    rfl

section Begin

variable {P : Document → Prop} {schema : Schema}

theorem holds_foldl {f : Document → String → Document}
    (hstep : ∀ doc path, P doc → P (f doc path)) (paths : List String) (h : P doc) :
    P (paths.foldl f doc) := by
  induction paths generalizing doc with
  | nil => exact h
  | cons path rest ih => exact ih (hstep doc path h)

theorem holds_new (hblank : P (blank schema true))
    (hfill : ∀ doc path, P doc → P (doc.fillDefault path)) : P (new schema) :=
  holds_foldl hfill schema.paths hblank

theorem holds_loadEntries {record : Fields Value}
    (hentry : ∀ {doc next : Document} {entry : String × Value}, P doc →
      doc.loadEntry entry = .ok next → P next)
    (h : P doc) (hload : record.foldlM loadEntry doc = .ok next) : P next := by
  induction record generalizing doc with
  | nil => exact Success.pure_eq_ok.mp hload ▸ h
  | cons entry rest ih =>
    rw [List.foldlM_cons] at hload
    obtain ⟨mid, hmid, hrest⟩ := Success.bind_eq_ok.mp hload
    exact ih (hentry h hmid) hrest

/-- What holds of a blank document, and stays when entries are taken in and defaults are filled in,
holds of every loaded document. -/
theorem holds_of_hydrate {record : Fields Value} {selection? : Option Selection}
    (hblank : P { blank schema false with selection? := selection? })
    (hentry : ∀ {doc next : Document} {entry : String × Value}, P doc →
      doc.loadEntry entry = .ok next → P next)
    (hfill : ∀ doc path, P doc → P (doc.fillDefault path))
    (hload : hydrate schema record selection? = .ok doc) : P doc := by
  obtain ⟨loaded, hentries, hdone⟩ := Success.bind_eq_ok.mp hload
  obtain rfl := Success.pure_eq_ok.mp hdone
  have hloaded : P loaded := holds_loadEntries hentry hblank hentries
  refine holds_foldl (fun doc path hdoc => ?_) schema.paths hloaded
  split
  · exact hdoc
  · exact hfill doc path hdoc

end Begin

end Document

end DocMapper
