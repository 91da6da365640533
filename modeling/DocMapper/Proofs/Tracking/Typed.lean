import DocMapper.Proofs.FieldType
import DocMapper.Proofs.Tracking.Operations
/-!
# Values of the declared types

A value is cast by the type declared for the path it is written at, and not by the type of the field
that it comes to lie in. So the fields of a document hold values of their types as long as what is
written below them leaves them their shape. The elements that are pending for a container are held
with it: they are what its stored counterpart is changed by.
-/

namespace DocMapper

namespace Schema

/-- What is declared for a path holds the value. -/
def Holds (schema : Schema) (path : String) (v : Value) : Prop :=
  ∀ field, schema.field? path = some field → field.type.Holds v

/-- Every default is a value of its type. -/
def DefaultsHold (schema : Schema) : Prop :=
  ∀ path v, schema.default? path = some v → schema.Holds path v

theorem defaultsHold_of_fields {schema : Schema}
    (h : ∀ entry ∈ schema.fields, ∀ v, entry.2.default? = some v → entry.2.type.Holds v) :
    schema.DefaultsHold := by
  intro path v hdefault field hfield
  obtain ⟨before, after, hfields, -⟩ := List.lookup_eq_some_iff.mp hfield
  rw [default?, hfield] at hdefault
  exact h (path, field) (by simp [hfields]) v hdefault

theorem holds_of_cast {schema : Schema} {path : String} {v w : Value}
    (h : schema.cast path v = .ok w) : schema.Holds path w := by
  intro field hfield
  rw [cast, hfield] at h
  exact FieldType.holds_of_cast h

theorem holds_of_castItem {schema : Schema} {path : String} {field : Field} {v w : Value}
    (hfield : schema.field? path = some field) (h : schema.castItem path v = .ok w) :
    field.type.itemType.Holds w := by
  rw [castItem, hfield] at h
  exact FieldType.holds_of_cast h

end Schema

/-! ### What is pending -/

/-- The values that were appended to a list, or those removed from it. -/
def ListAtomics.values : ListAtomics → List Value
  | .clean | .set => []
  | .add values | .remove values => values

def MapAtomics.puts : MapAtomics → Fields Value
  | .clean | .set => []
  | .pending puts _ => puts

/-- The pending elements, as a container of their own. -/
def Atomics.contents : Atomics → Value
  | .list atomics => .list atomics.values
  | .map atomics => .map atomics.puts

namespace FieldType

variable {ty : FieldType}

theorem holds_pushAdd {atomics : ListAtomics} {added : List Value}
    (h : ty.Holds (.list atomics.values)) (hadded : ∀ v ∈ added, ty.itemType.Holds v) :
    ty.Holds (.list (atomics.pushAdd added).values) := by
  obtain ⟨hempty, hvalues⟩ := holds_list_iff.mp h
  cases atomics with
  | clean => exact holds_list_iff.mpr ⟨hempty, hadded⟩
  | add earlier =>
    exact holds_list_iff.mpr ⟨hempty, List.forall_mem_append.mpr ⟨hvalues, hadded⟩⟩
  | set | remove => exact hempty

theorem holds_pushRemove {atomics : ListAtomics} {removed : List Value}
    (h : ty.Holds (.list atomics.values)) (hremoved : ∀ v ∈ removed, ty.itemType.Holds v) :
    ty.Holds (.list (atomics.pushRemove removed).values) := by
  obtain ⟨hempty, hvalues⟩ := holds_list_iff.mp h
  cases atomics with
  | clean => exact holds_list_iff.mpr ⟨hempty, hremoved⟩
  | remove earlier =>
    exact holds_list_iff.mpr ⟨hempty, List.forall_mem_append.mpr ⟨hvalues, hremoved⟩⟩
  | set | add => exact hempty

theorem holds_pushPut {atomics : MapAtomics} {key : String} {v : Value}
    (h : ty.Holds (.map atomics.puts)) (hv : ty.itemType.Holds v) :
    ty.Holds (.map (atomics.pushPut key v).puts) := by
  cases atomics with
  | set => exact h
  | clean | pending => exact holds_map_put h hv

theorem holds_pushRemoveKey {atomics : MapAtomics} (h : ty.Holds (.map atomics.puts))
    (key : String) : ty.Holds (.map (atomics.pushRemove key).puts) := by
  cases atomics with
  | clean | set => exact h
  | pending puts removes => exact holds_map_of_subset h fun _ => List.mem_of_mem_filter

/-- Nothing is left pending of what is written whole. -/
theorem holds_collapse {atomics : Atomics} (h : ty.Holds atomics.contents) :
    ty.Holds atomics.collapse.contents ∧ ty.Holds atomics.clear.contents := by
  cases atomics with
  | list atomics => exact ⟨(holds_list_iff.mp h).1, (holds_list_iff.mp h).1⟩
  | map atomics => exact ⟨holds_map_empty h, holds_map_empty h⟩

end FieldType

/-! ### Views -/

namespace ListView

variable {view next : ListView} {field : Field}

/-- The items and all that is pending have the type of the field at the path. -/
structure Fits (field : Field) (view : ListView) : Prop where
  declared : view.schema.field? view.path = some field
  items : field.type.Holds (.list view.items)
  pending : field.type.Holds (.list view.atomics.values)

theorem Fits.item (h : view.Fits field) : ∀ v ∈ view.items, field.type.itemType.Holds v :=
  (FieldType.holds_list_iff.mp h.items).2

theorem Fits.castItem (h : view.Fits field) {v w : Value} (hcast : view.castItem v = .ok w) :
    field.type.itemType.Holds w := by
  unfold ListView.castItem at hcast
  split at hcast
  · next casted hcasted =>
    cases hcast
    exact Schema.holds_of_castItem h.declared hcasted
  · cases hcast

theorem Fits.castItems (h : view.Fits field) {values results : List Value}
    (hcast : view.castItems values = .ok results) : ∀ v ∈ results, field.type.itemType.Holds v := by
  intro w hmem
  obtain ⟨v, -, hv⟩ := Success.exists_of_mapM_eq_ok hcast w hmem
  exact h.castItem hv

theorem Fits.replaceItems (h : view.Fits field) {items : List Value}
    (hitems : ∀ v ∈ items, field.type.itemType.Holds v) : (view.replaceItems items).Fits field :=
  have hempty := (FieldType.holds_list_iff.mp h.items).1
  ⟨h.declared, FieldType.holds_list_iff.mpr ⟨hempty, hitems⟩, hempty⟩

theorem Fits.push (h : view.Fits field) {values : List Value} {length : Nat}
    (hpush : view.push values = .ok (length, next)) : next.Fits field := by
  obtain ⟨casted, hcast, hdone⟩ := Success.bind_eq_ok.mp hpush
  obtain ⟨-, rfl⟩ := Prod.mk.inj (Success.pure_eq_ok.mp hdone)
  have hadded : ∀ v ∈ view.newItems casted, field.type.itemType.Holds v := by
    intro v hmem
    unfold newItems at hmem
    split at hmem
    · exact h.castItems hcast v (FieldType.mem_of_mem_distinctFrom hmem)
    · exact h.castItems hcast v hmem
  have hempty := (FieldType.holds_list_iff.mp h.items).1
  split
  · exact h
  · exact ⟨h.declared,
      FieldType.holds_list_iff.mpr ⟨hempty, List.forall_mem_append.mpr ⟨h.item, hadded⟩⟩,
      FieldType.holds_pushAdd h.pending hadded⟩

theorem Fits.pop (h : view.Fits field) : view.pop.2.Fits field := by
  unfold ListView.pop
  split
  · exact h.replaceItems fun v hmem => h.item v (List.mem_of_mem_dropLast hmem)
  · exact h

theorem Fits.shift (h : view.Fits field) : view.shift.2.Fits field := by
  unfold ListView.shift
  split
  · next first rest hitems =>
    exact h.replaceItems fun v hmem => h.item v (hitems ▸ List.mem_cons_of_mem first hmem)
  · exact h

theorem Fits.unshift (h : view.Fits field) {values : List Value} {length : Nat}
    (hunshift : view.unshift values = .ok (length, next)) : next.Fits field := by
  obtain ⟨casted, hcast, hdone⟩ := Success.bind_eq_ok.mp hunshift
  obtain ⟨-, rfl⟩ := Prod.mk.inj (Success.pure_eq_ok.mp hdone)
  split
  · exact h
  · exact h.replaceItems (List.forall_mem_append.mpr ⟨h.castItems hcast, h.item⟩)

theorem Fits.splice (h : view.Fits field) {start count : Nat} {values taken : List Value}
    (hsplice : view.splice start count values = .ok (taken, next)) : next.Fits field := by
  obtain ⟨casted, hcast, hdone⟩ := Success.bind_eq_ok.mp hsplice
  obtain ⟨-, rfl⟩ := Prod.mk.inj (Success.pure_eq_ok.mp hdone)
  apply h.replaceItems
  intro v hmem
  rcases List.mem_append.mp hmem with hmem | hmem
  · rcases List.mem_append.mp hmem with hmem | hmem
    · exact h.item v (List.mem_of_mem_take hmem)
    · exact h.castItems hcast v hmem
  · exact h.item v (List.mem_of_mem_drop (List.mem_of_mem_drop hmem))

theorem Fits.set (h : view.Fits field) {index : Nat} {v : Value}
    (hset : view.set index v = .ok next) : next.Fits field := by
  obtain ⟨casted, hcast, hdone⟩ := Success.bind_eq_ok.mp hset
  split at hdone
  · obtain rfl := Success.pure_eq_ok.mp hdone
    apply h.replaceItems
    intro w hmem
    rcases List.mem_or_eq_of_mem_set hmem with hmem | rfl
    · exact h.item w hmem
    · exact h.castItem hcast
  · cases hdone

theorem Fits.pull (h : view.Fits field) {values : List Value} {count : Nat}
    (hpull : view.pull values = .ok (count, next)) : next.Fits field := by
  obtain ⟨casted, hcast, hdone⟩ := Success.bind_eq_ok.mp hpull
  have hempty := (FieldType.holds_list_iff.mp h.items).1
  dsimp only at hdone
  split at hdone
  · obtain ⟨-, rfl⟩ := Prod.mk.inj (Success.pure_eq_ok.mp hdone)
    exact h
  · obtain ⟨-, rfl⟩ := Prod.mk.inj (Success.pure_eq_ok.mp hdone)
    exact ⟨h.declared,
      FieldType.holds_list_iff.mpr ⟨hempty, fun v hmem => h.item v (List.mem_of_mem_filter hmem)⟩,
      FieldType.holds_pushRemove h.pending (h.castItems hcast)⟩

theorem Fits.orKeep (h : view.Fits field) {result : Except Error ListView}
    (hresult : ∀ next, result = .ok next → next.Fits field) : (view.orKeep result).Fits field := by
  cases result with
  | ok next => exact hresult next rfl
  | error e => exact h

theorem Fits.orKeep_answered (h : view.Fits field) {α : Type} {result : Except Error (α × ListView)}
    (hresult : ∀ answer next, result = .ok (answer, next) → next.Fits field) :
    (view.orKeep (result.map Prod.snd)).Fits field := by
  apply h.orKeep
  intro next hnext
  obtain ⟨⟨answer, next⟩, hanswer, rfl⟩ := Success.map_eq_ok.mp hnext
  exact hresult answer next hanswer

theorem Fits.edit (h : view.Fits field) (edit : ListEdit) : (view.edit edit).Fits field := by
  cases edit with
  | push values => exact h.orKeep_answered fun _ _ => h.push
  | pop => exact h.pop
  | shift => exact h.shift
  | unshift values => exact h.orKeep_answered fun _ _ => h.unshift
  | splice start count values => exact h.orKeep_answered fun _ _ => h.splice
  | sortBy le =>
    exact h.replaceItems fun v hmem => h.item v ((List.mergeSort_perm _ le).mem_iff.mp hmem)
  | set index v => exact h.orKeep fun _ => h.set
  | pull values => exact h.orKeep_answered fun _ _ => h.pull

theorem Fits.edits (h : view.Fits field) (edits : List ListEdit) :
    (edits.foldl ListView.edit view).Fits field := by
  induction edits generalizing view with
  | nil => exact h
  | cons first rest ih => exact ih (h.edit first)

end ListView

namespace MapView

variable {view next : MapView} {field : Field}

structure Fits (field : Field) (view : MapView) : Prop where
  declared : view.schema.field? view.path = some field
  entries : field.type.Holds (.map view.entries)
  pending : field.type.Holds (.map view.atomics.puts)

theorem Fits.put (h : view.Fits field) {key : String} {v : Value}
    (hput : view.put key v = .ok next) : next.Fits field := by
  unfold MapView.put at hput
  split at hput
  · cases hput
  · next w hcast =>
    cases hput
    have hw := Schema.holds_of_castItem h.declared hcast
    exact ⟨h.declared, FieldType.holds_map_put h.entries hw, FieldType.holds_pushPut h.pending hw⟩

theorem Fits.putAll (h : view.Fits field) (entries : List (String × Value)) :
    (view.putAll entries).2.Fits field := by
  induction entries generalizing view with
  | nil => exact h
  | cons entry rest ih =>
    obtain ⟨key, v⟩ := entry
    unfold MapView.putAll
    split
    · exact h
    · next next hput => exact ih (h.put hput)

theorem Fits.removeKey (h : view.Fits field) (key : String) : (view.removeKey key).Fits field :=
  ⟨h.declared, FieldType.holds_map_of_subset h.entries fun _ => List.mem_of_mem_filter,
    FieldType.holds_pushRemoveKey h.pending key⟩

theorem Fits.remove (h : view.Fits field) (keys : List String) :
    (view.remove keys).2.Fits field := by
  induction keys generalizing view with
  | nil => exact h
  | cons key rest ih =>
    unfold MapView.remove
    split
    · exact ih (h.removeKey key)
    · exact ih h

theorem Fits.edit (h : view.Fits field) (edit : MapEdit) : (view.edit edit).Fits field := by
  cases edit with
  | put key v =>
    rw [MapView.edit]
    split
    · next next hput => exact h.put hput
    · exact h
  | putAll entries => exact h.putAll entries
  | remove keys => exact h.remove keys

theorem Fits.edits (h : view.Fits field) (edits : List MapEdit) :
    (edits.foldl MapView.edit view).Fits field := by
  induction edits generalizing view with
  | nil => exact h
  | cons first rest ih => exact ih (h.edit first)

end MapView

namespace Document

/-- The values have the types of the fields they are under, and so has what is pending for the
fields without dots. -/
structure Typed (doc : Document) : Prop where
  values : ∀ entry ∈ doc.values, doc.schema.Holds entry.1 entry.2
  pending : ∀ entry ∈ doc.atomics, hasDot entry.1 = false →
    doc.schema.Holds entry.1 entry.2.contents

/-- The field that a path lies in takes the value there. -/
def Suits (doc : Document) (path : String) (v : Value) : Prop :=
  ∀ head rest, segments path = head :: rest → ∀ field, doc.schema.field? head = some field →
    FieldType.Takes v field.type rest ((Fields.get? doc.values head).getD (.map []))

/-- What an operation leaves at its path suits the document as it was. -/
def LeavesSuited (doc : Document) (op : Operation) : Prop :=
  ∀ next path v, doc.perform op = .ok next → op.path? = some path → next.get? path = some v →
    doc.Suits path v

/-- Nothing is asked of an operation on a path without dots, unless it makes a container where
there was nothing. -/
def Admits (doc : Document) (op : Operation) : Prop :=
  match op with
  | .set path _ => hasDot path = true → doc.LeavesSuited op
  | .list path _ | .map path _ =>
    hasDot path = true ∨ doc.get? path = none → doc.LeavesSuited op
  | .unset _ | .mark _ | .reset | .save _ => True

variable {doc next : Document} {path : String}

theorem suits_iff_of_undotted (h : hasDot path = false) {v : Value} :
    doc.Suits path v ↔ doc.schema.Holds path v := by
  rw [Suits, segments_of_undotted h]
  constructor
  · intro hsuits field hfield
    have htakes := hsuits path [] rfl field hfield
    rwa [FieldType.Takes] at htakes
  · intro hholds head rest heq field hfield
    obtain ⟨rfl, rfl⟩ := List.cons.inj heq
    rw [FieldType.Takes]
    exact hholds field hfield

theorem Typed.get? (h : doc.Typed) (hdot : hasDot path = false) {v : Value}
    (hget : doc.get? path = some v) : doc.schema.Holds path v := by
  have hvalue : Fields.get? doc.values path = some v :=
    (valueAt?_of_undotted hdot doc.values).symm.trans hget
  exact h.values _ (Fields.mem_names_of_get? hvalue)

theorem Typed.writeAt_some (h : doc.Typed) {v : Value} (hsuits : doc.Suits path v) :
    ∀ entry ∈ writeAt doc.values path (some v), doc.schema.Holds entry.1 entry.2 := by
  intro entry hmem
  obtain ⟨head, rest, hpath⟩ := List.exists_cons_of_ne_nil (segments_ne_nil path)
  rw [writeAt, hpath] at hmem
  rcases Value.mem_writeEntry hmem with hmem | rfl
  · exact h.values entry hmem
  · intro field hfield
    refine (FieldType.holds_write_iff ?_).mpr (hsuits head rest hpath field hfield)
    cases hslot : Fields.get? doc.values head with
    | none => exact Or.inr rfl
    | some slot => exact Or.inl (h.values _ (Fields.mem_names_of_get? hslot) field hfield)

theorem Typed.writeAt_none (h : doc.Typed) :
    ∀ entry ∈ writeAt doc.values path none, doc.schema.Holds entry.1 entry.2 := by
  intro entry hmem
  obtain ⟨head, rest, hpath⟩ := List.exists_cons_of_ne_nil (segments_ne_nil path)
  rw [writeAt, hpath] at hmem
  rcases Value.mem_writeEntry_removes hmem with hmem | ⟨old, hold, rfl⟩
  · exact h.values entry hmem
  · exact fun field hfield => FieldType.holds_removed (h.values _ hold field hfield)

theorem atomics_withContainer (doc : Document) (path : String) (container : Value) :
    (doc.withContainer path container).atomics = doc.atomics := by
  unfold withContainer
  split <;> rfl

/-- A container that was made first makes no difference to what is written in its place. -/
theorem writeAt_withContainer (doc : Document) (path : String) (fresh v : Value) :
    writeAt (doc.withContainer path fresh).values path (some v) =
      writeAt doc.values path (some v) := by
  unfold withContainer
  split
  · rfl
  · exact writeAt_writeAt doc.values path v fresh

theorem get?_assign_self (doc : Document) (path : String) (v : Value) :
    (doc.assign path (some v)).get? path = some v := by
  rw [get?, values_assign]
  exact valueAt?_writeAt_self doc.values path v

/-! ### How pending changes are settled -/

/-- Pending changes are kept, written whole or forgotten, and none are new. -/
def Settles (before after : Fields Atomics) : Prop :=
  ∀ entry ∈ after, ∃ atomics, (entry.1, atomics) ∈ before ∧
    (entry.2 = atomics ∨ entry.2 = atomics.collapse ∨ entry.2 = atomics.clear)

theorem settles_self (atomics : Fields Atomics) : Settles atomics atomics :=
  fun entry hmem => ⟨entry.2, hmem, Or.inl rfl⟩

theorem settles_map {atomics : Fields Atomics} {f : String × Atomics → String × Atomics}
    (hf : ∀ entry, f entry = entry ∨ f entry = (entry.1, entry.2.collapse) ∨
      f entry = (entry.1, entry.2.clear)) : Settles atomics (atomics.map f) := by
  intro entry hmem
  obtain ⟨before, hbefore, rfl⟩ := List.mem_map.mp hmem
  refine ⟨before.2, ?_, ?_⟩
  · rcases hf before with heq | heq | heq <;> rw [heq] <;> exact hbefore
  · rcases hf before with heq | heq | heq <;> rw [heq]
    · exact Or.inl rfl
    · exact Or.inr (Or.inl rfl)
    · exact Or.inr (Or.inr rfl)

theorem Settles.trans {before mid after : Fields Atomics} (h : Settles before mid)
    (hlater : Settles mid after) : Settles before after := by
  intro entry hmem
  obtain ⟨settled, hmid, hlast⟩ := hlater entry hmem
  obtain ⟨atomics, hbefore, hfirst⟩ := h _ hmid
  refine ⟨atomics, hbefore, ?_⟩
  dsimp only at hfirst
  rcases hfirst with rfl | rfl | rfl
  · exact hlast
  · cases atomics <;> exact Or.inr (hlast.elim Or.inl id)
  · cases atomics <;> exact Or.inr (hlast.elim Or.inr id)

theorem settles_collapseAround (doc : Document) (path : String) :
    Settles doc.atomics (doc.collapseAround path) := by
  apply settles_map
  intro entry
  split
  · exact Or.inr (Or.inl rfl)
  · exact Or.inl rfl

theorem settles_assign (doc : Document) (path : String) (v? : Option Value) :
    Settles doc.atomics (doc.assign path v?).atomics := by
  unfold assign
  dsimp only
  split
  · exact (doc.markModified (doc.pathToMark path)).settles_collapseAround path
  · exact doc.settles_collapseAround path

theorem settles_delta (doc : Document) : Settles doc.atomics doc.delta.2.atomics := by
  have hatomics : doc.delta.2.atomics = doc.atomics.map (settle doc.tops) :=
    congrArg Prod.snd doc.cover_eq
  rw [hatomics]
  apply settles_map
  intro entry
  rw [settle]
  split
  · exact Or.inr (Or.inl rfl)
  · exact Or.inl rfl

theorem settles_reset (doc : Document) : Settles doc.atomics doc.reset.atomics :=
  settles_map fun _ => Or.inr (Or.inr rfl)

theorem settles_insert (doc : Document) (conn : Connection) :
    Settles doc.atomics (doc.insert conn).2.1.atomics := by
  unfold Document.insert
  dsimp only
  split
  · exact settles_self doc.atomics
  · exact doc.settles_reset

theorem settles_update (doc : Document) (conn : Connection) :
    Settles doc.atomics (doc.update conn).2.1.atomics := by
  have htaken : Settles doc.atomics doc.toUpdate.2.atomics := doc.toUpdate_snd ▸ doc.settles_delta
  unfold Document.update
  generalize doc.toUpdate = update at htaken ⊢
  match update with
  | (.error e, taken) => exact htaken
  | (.ok none, taken) => exact htaken.trans taken.settles_reset
  | (.ok (some s), taken) =>
    dsimp only
    split
    · exact htaken
    · exact htaken.trans taken.settles_reset

theorem settles_save (doc : Document) (conn : Connection) :
    Settles doc.atomics (doc.save conn).2.1.atomics := by
  rw [save_eq_store, store]
  split
  · exact settles_self doc.atomics
  · split
    · exact (doc.adopt conn.config.dialect).settles_insert conn
    · exact (doc.adopt conn.config.dialect).settles_update conn

theorem Typed.settled (h : doc.Typed) (hschema : next.schema = doc.schema)
    (hvalues : ∀ entry ∈ next.values, doc.schema.Holds entry.1 entry.2)
    (hatomics : Settles doc.atomics next.atomics) : next.Typed := by
  refine ⟨by rw [hschema]; exact hvalues, fun entry hmem hdot field hfield => ?_⟩
  obtain ⟨atomics, hbefore, hentry⟩ := hatomics entry hmem
  rw [hschema] at hfield
  have hcontents := h.pending _ hbefore hdot field hfield
  rcases hentry with heq | heq | heq
  · exact heq ▸ hcontents
  · exact heq ▸ (FieldType.holds_collapse hcontents).1
  · exact heq ▸ (FieldType.holds_collapse hcontents).2

theorem Typed.delta (h : doc.Typed) : doc.delta.2.Typed :=
  h.settled rfl h.values doc.settles_delta

/-! ### What each operation keeps -/

theorem Typed.assign (h : doc.Typed) {v? : Option Value}
    (hvalues : ∀ entry ∈ writeAt doc.values path v?, doc.schema.Holds entry.1 entry.2) :
    (doc.assign path v?).Typed := by
  refine h.settled (doc.schema_assign path v?) ?_ (doc.settles_assign path v?)
  rw [values_assign]
  exact hvalues

theorem Typed.set (h : doc.Typed) {v : Value} (hadmits : doc.Admits (.set path v))
    (hperform : doc.perform (.set path v) = .ok next) : next.Typed := by
  obtain ⟨w, hcast, rfl⟩ := set_eq_ok hperform
  refine h.assign (h.writeAt_some ?_)
  cases hdot : hasDot path with
  | false => exact (suits_iff_of_undotted hdot).mpr (Schema.holds_of_cast hcast)
  | true => exact hadmits hdot _ _ _ hperform rfl (get?_assign_self doc path w)

/-- Working on a container keeps the types if the operation suits its path and keeps the type that
the container was opened with. -/
theorem Typed.work (h : doc.Typed) {fresh opened container : Value} {atomics : Atomics}
    (touched : Bool) (hopened : (doc.withContainer path fresh).get? path = some opened)
    (hfresh : ∀ ty : FieldType, ty.Holds container → ty.Holds fresh)
    (hsuits : hasDot path = true ∨ doc.get? path = none → doc.Suits path container)
    (hkeeps : hasDot path = false → ∀ field, doc.schema.field? path = some field →
      field.type.Holds opened → field.type.Holds container ∧ field.type.Holds atomics.contents) :
    ((doc.withContainer path fresh).closeAt path container atomics touched).Typed := by
  have hbegins : hasDot path = false → doc.schema.Holds path opened := by
    intro hdot
    cases hget : doc.get? path with
    | none =>
      -- The container was made empty, and a type that holds what it became holds it empty too.
      have hcontainer := (suits_iff_of_undotted hdot).mp (hsuits (Or.inr hget))
      rw [withContainer, hget] at hopened
      have hsame : opened = fresh :=
        Option.some.inj (hopened.symm.trans (valueAt?_writeAt_self doc.values path fresh))
      exact fun field hfield => hsame ▸ hfresh _ (hcontainer field hfield)
    | some v =>
      rw [withContainer, hget] at hopened
      exact h.get? hdot hopened
  have hends : doc.Suits path container := by
    by_cases hfree : hasDot path = true ∨ doc.get? path = none
    · exact hsuits hfree
    · have hdot : hasDot path = false := by simpa using fun hdot => hfree (Or.inl hdot)
      exact (suits_iff_of_undotted hdot).mpr fun field hfield =>
        (hkeeps hdot field hfield (hbegins hdot field hfield)).1
  refine ⟨?_, ?_⟩
  · rw [schema_closeAt, schema_withContainer, values_closeAt, writeAt_withContainer]
    exact h.writeAt_some hends
  · rw [schema_closeAt, schema_withContainer, atomics_closeAt, atomics_withContainer]
    intro entry hmem hdot
    rcases Fields.mem_put hmem with rfl | hmem
    · exact fun field hfield => (hkeeps hdot field hfield (hbegins hdot field hfield)).2
    · exact h.pending entry hmem hdot

theorem Typed.list_pending (h : doc.Typed) (hdot : hasDot path = false) {field : Field}
    (hfield : doc.schema.field? path = some field) (hempty : field.type.Holds (.list [])) :
    field.type.Holds (.list (doc.listAtomics path).values) := by
  unfold listAtomics
  split
  · next atomics hslot => exact h.pending _ (Fields.mem_names_of_get? hslot) hdot field hfield
  · exact hempty
  · exact hempty

theorem Typed.map_pending (h : doc.Typed) (hdot : hasDot path = false) {field : Field}
    (hfield : doc.schema.field? path = some field) (hempty : field.type.Holds (.map [])) :
    field.type.Holds (.map (doc.mapAtomics path).puts) := by
  unfold mapAtomics
  split
  · next atomics hslot => exact h.pending _ (Fields.mem_names_of_get? hslot) hdot field hfield
  · exact hempty
  · exact hempty

theorem Typed.list (h : doc.Typed) {edits : List ListEdit}
    (hadmits : doc.Admits (.list path edits))
    (hperform : doc.perform (.list path edits) = .ok next) : next.Typed := by
  obtain ⟨items, hitems, hnext⟩ := perform_list_eq_ok hperform
  rw [closeList_eq, ListView.edits_path] at hnext
  have hleft : next.get? path = some (.list (edits.foldl ListView.edit
      ((doc.withContainer path (.list [])).listView path items)).items) := by
    rw [hnext]
    exact get?_closeAt_self _ path _ _ _
  rw [hnext]
  refine h.work _ hitems (fun ty hty => (FieldType.holds_list_iff.mp hty).1)
    (fun hfree => hadmits hfree _ _ _ hperform rfl hleft) fun hdot field hfield hopened => ?_
  have hpending := h.list_pending hdot hfield (FieldType.holds_list_iff.mp hopened).1
  have hfits : ((doc.withContainer path (.list [])).listView path items).Fits field := by
    have hdeclared : (doc.withContainer path (.list [])).schema.field? path = some field :=
      (congrArg (Schema.field? · path) (doc.schema_withContainer path _)).trans hfield
    refine ⟨hdeclared, hopened, ?_⟩
    rw [listView, listAtomics, atomics_withContainer]
    exact hpending
  exact ⟨(hfits.edits edits).items, (hfits.edits edits).pending⟩

theorem Typed.map (h : doc.Typed) {edits : List MapEdit}
    (hadmits : doc.Admits (.map path edits))
    (hperform : doc.perform (.map path edits) = .ok next) : next.Typed := by
  obtain ⟨entries, hentries, hnext⟩ := perform_map_eq_ok hperform
  rw [closeMap_eq, MapView.edits_path] at hnext
  have hleft : next.get? path = some (.map (edits.foldl MapView.edit
      ((doc.withContainer path (.map [])).mapView path entries)).entries) := by
    rw [hnext]
    exact get?_closeAt_self _ path _ _ _
  rw [hnext]
  refine h.work _ hentries (fun ty => FieldType.holds_map_empty)
    (fun hfree => hadmits hfree _ _ _ hperform rfl hleft) fun hdot field hfield hopened => ?_
  have hpending := h.map_pending hdot hfield (FieldType.holds_map_empty hopened)
  have hfits : ((doc.withContainer path (.map [])).mapView path entries).Fits field := by
    have hdeclared : (doc.withContainer path (.map [])).schema.field? path = some field :=
      (congrArg (Schema.field? · path) (doc.schema_withContainer path _)).trans hfield
    refine ⟨hdeclared, hopened, ?_⟩
    rw [mapView, mapAtomics, atomics_withContainer]
    exact hpending
  exact ⟨(hfits.edits edits).entries, (hfits.edits edits).pending⟩

/-- Storing leaves values and schema, and settles what is pending. -/
theorem Typed.save (h : doc.Typed) (conn : Connection) : (doc.save conn).2.1.Typed := by
  have hkept : (doc.save conn).2.1.schema = doc.schema ∧
      (doc.save conn).2.1.values = doc.values := by
    have hperform : doc.perform (.save conn) = .ok (doc.save conn).2.1 := rfl
    rcases perform_save_eq_ok hperform with heq | heq | hstored
    · exact heq ▸ ⟨rfl, rfl⟩
    · exact heq ▸ ⟨rfl, rfl⟩
    · exact ⟨hstored.schema, hstored.values⟩
  exact h.settled hkept.1 (hkept.2 ▸ h.values) (doc.settles_save conn)

theorem Typed.perform (h : doc.Typed) {op : Operation} (hadmits : doc.Admits op)
    (hperform : doc.perform op = .ok next) : next.Typed := by
  cases op with
  | set path v => exact h.set hadmits hperform
  | unset path =>
    obtain rfl := Except.ok.inj hperform
    exact h.assign h.writeAt_none
  | mark path =>
    obtain rfl := Except.ok.inj hperform
    exact h.settled rfl h.values (settles_self doc.atomics)
  | list path edits => exact h.list hadmits hperform
  | map path edits => exact h.map hadmits hperform
  | reset => exact Except.ok.inj hperform ▸ h.settled rfl h.values doc.settles_reset
  | save conn => exact Except.ok.inj hperform ▸ h.save conn

/-! ### How documents begin -/

theorem typed_blank (schema : Schema) (isNew : Bool) (selection? : Option Selection) :
    Typed { blank schema isNew with selection? := selection? } :=
  ⟨nofun, nofun⟩

theorem Typed.put (h : doc.Typed) {key : String} {v : Value} (hv : doc.schema.Holds key v)
    (paths : PathStates) :
    Typed { doc with values := Fields.put doc.values key v, paths := paths } := by
  refine ⟨fun entry hmem => ?_, h.pending⟩
  rcases Fields.mem_put hmem with rfl | hmem
  · exact hv
  · exact h.values entry hmem

theorem Typed.fillDefault (h : doc.Typed) (hdefaults : doc.schema.DefaultsHold) (path : String) :
    (doc.fillDefault path).Typed := by
  unfold Document.fillDefault
  split
  · next v hdefault => exact h.put (hdefaults path v hdefault) _
  · exact h

theorem Typed.loadEntry (h : doc.Typed) {entry : String × Value}
    (hload : doc.loadEntry entry = .ok next) : next.Typed := by
  unfold Document.loadEntry at hload
  split at hload
  · obtain ⟨id, -, rfl⟩ := Success.map_eq_ok.mp hload
    exact ⟨h.values, h.pending⟩
  split at hload
  · obtain rfl := Except.ok.inj hload
    exact h
  split at hload
  · cases hload
  · next v hcast =>
    obtain rfl := Except.ok.inj hload
    exact h.put (Schema.holds_of_cast hcast) _

theorem Worked.typed (h : Worked Admits doc) (hdefaults : doc.schema.DefaultsHold) :
    doc.Typed := by
  induction h with
  | new schema =>
    exact holds_new (P := fun doc => doc.schema.DefaultsHold → doc.Typed)
      (fun _ => typed_blank schema true none)
      (fun doc path ih hdefaults =>
        have hbefore := doc.schema_fillDefault path ▸ hdefaults
        (ih hbefore).fillDefault hbefore path) hdefaults
  | hydrate hload =>
    refine holds_of_hydrate (P := fun doc => doc.schema.DefaultsHold → doc.Typed)
      (fun _ => typed_blank _ false _) (fun ih hentry hdefaults => ?_)
      (fun doc path ih hdefaults => ?_) hload hdefaults
    · exact (ih (schema_loadEntry hentry ▸ hdefaults)).loadEntry hentry
    · have hbefore := doc.schema_fillDefault path ▸ hdefaults
      exact (ih hbefore).fillDefault hbefore path
  | step _ hadmits hperform ih =>
    exact (ih (schema_perform hperform ▸ hdefaults)).perform hadmits hperform

end Document

end DocMapper
