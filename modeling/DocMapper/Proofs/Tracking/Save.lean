import DocMapper.Proofs.Tracking.Reachable
import DocMapper.Proofs.Tracking.Retry
/-!
# Saving twice

A save that succeeds forgets what was modified and marks the required paths again. What the next
save then checks was checked before: every required path had a state, and whichever that was, the
path was checked if it is selected.
-/

namespace DocMapper

/-! ### What is checked -/

namespace ValidationError

theorem isEmpty_insert (e : ValidationError) (failure : PathFailure) :
    (e.insert failure).isEmpty = false := by
  unfold insert
  split
  · next hhas =>
    cases hfailures : e.failures with
    | nil => simp [hfailures, Fields.has] at hhas
    | cons first rest => simp [isEmpty, hfailures]
  · have hmem : failure.path ∈
        Fields.names (Fields.put e.failures failure.path failure) :=
      Fields.mem_names_iff.mpr ⟨failure, Fields.get?_put_self _ _ _⟩
    cases hput : Fields.put e.failures failure.path failure with
    | nil => simp [hput, Fields.names] at hmem
    | cons first rest => simp [isEmpty]

theorem isEmpty_foldl_insert (failures : List PathFailure) (e : ValidationError) :
    (failures.foldl insert e).isEmpty = (e.isEmpty && failures.isEmpty) := by
  induction failures generalizing e with
  | nil => simp
  | cons failure rest ih => rw [List.foldl_cons, ih, isEmpty_insert]; simp

end ValidationError

namespace PathStates

theorem mem_pathsIn {p : PathStates} {path : String} {state : PathState} :
    path ∈ p.pathsIn state ↔ (path, state) ∈ p.states := by
  simp [pathsIn, Fields.names]

theorem mem_of_state? {p : PathStates} {path : String} {state : PathState}
    (h : p.state? path = some state) : path ∈ p.pathsIn state :=
  mem_pathsIn.mpr (Fields.mem_names_of_get? h)

theorem mem_enterAll {p : PathStates} {paths : List String} {state : PathState}
    {entry : String × PathState} (h : entry ∈ (p.enterAll paths state).states) :
    (entry.1 ∈ paths ∧ entry.2 = state) ∨ entry ∈ p.states := by
  induction paths generalizing p with
  | nil => exact Or.inr h
  | cons path rest ih =>
    rcases ih h with ⟨hmem, hstate⟩ | hmem
    · exact Or.inl ⟨List.mem_cons_of_mem path hmem, hstate⟩
    · rcases Fields.mem_put hmem with rfl | hmem
      · exact Or.inl ⟨List.mem_cons_self, rfl⟩
      · exact Or.inr hmem

end PathStates

namespace Document

variable {doc doc' : Document} {conn conn' : Connection} {n : Nat}

theorem validate_eq_ok_iff :
    doc.validate = .ok () ↔ ∀ path ∈ doc.pathsToCheck, doc.failureAt? path = none := by
  have hempty : doc.validationError.isEmpty = true ↔
      ∀ path ∈ doc.pathsToCheck, doc.failureAt? path = none := by
    rw [validationError, ValidationError.isEmpty_foldl_insert, Bool.and_eq_true,
      List.isEmpty_iff, List.filterMap_eq_nil_iff]
    simp [ValidationError.isEmpty, ValidationError.empty]
  rw [← hempty, validate]
  cases doc.validationError.isEmpty <;> simp

theorem mem_pathsToCheck {path : String} :
    path ∈ doc.pathsToCheck ↔
      (((path, .required) ∈ doc.paths.states ∧
          (doc.isSelected path = true ∨ doc.isModified path = true)) ∨
        (path, .loaded) ∈ doc.paths.states ∨ (path, .modified) ∈ doc.paths.states ∨
        (path, .defaulted) ∈ doc.paths.states) ∧
      hasDot path = false ∧ doc.schema.has path = true := by
  simp only [pathsToCheck, List.mem_filter, List.mem_append, PathStates.mem_pathsIn,
    Bool.or_eq_true, Bool.and_eq_true, Bool.not_eq_true', or_assoc]

/-! ### After a reset -/

theorem mem_states_reset {entry : String × PathState} (h : entry ∈ doc.reset.paths.states) :
    (entry.1 ∈ doc.schema.requiredPaths ∧ entry.2 = .required) ∨
      (entry ∈ doc.paths.states ∧ entry.2 ≠ .modified) := by
  refine (PathStates.mem_enterAll h).imp_right fun hmem => ?_
  simpa [PathStates.clear] using hmem

theorem not_mem_modified_reset (path : String) : (path, .modified) ∉ doc.reset.paths.states := by
  intro hmem
  rcases mem_states_reset hmem with ⟨-, hstate⟩ | ⟨-, hstate⟩
  · cases hstate
  · exact hstate rfl

/-- What a stored document has of the one that was to be stored. -/
structure Stored (doc doc' : Document) : Prop where
  schema : doc'.schema = doc.schema
  values : doc'.values = doc.values
  selection : doc'.selection? = doc.selection?
  paths : doc'.paths = doc.reset.paths
  isNew : doc'.isNew = false

theorem insert_eq_ok (h : doc.insert conn = (.ok n, doc', conn')) : Stored doc doc' := by
  unfold Document.insert at h
  dsimp only at h
  split at h
  · cases h
  · cases h
    exact ⟨rfl, rfl, rfl, rfl, rfl⟩

theorem update_eq_ok (hnew : doc.isNew = false) (h : doc.update conn = (.ok n, doc', conn')) :
    Stored doc doc' := by
  have hreset : ∀ taken : Document, taken = doc.delta.2 → Stored doc taken.reset := by
    rintro taken rfl
    exact ⟨rfl, rfl, rfl, rfl, hnew⟩
  have hdelta := doc.toUpdate_snd
  unfold Document.update at h
  split at h
  · cases h
  · next heq =>
    cases h
    exact hreset _ (by rw [← hdelta, heq])
  · next heq =>
    split at h
    · cases h
    · cases h
      exact hreset _ (by rw [← hdelta, heq])

theorem store_eq_ok (h : doc.store conn = (.ok n, doc', conn')) :
    doc.validate = .ok () ∧ Stored doc doc' := by
  unfold store at h
  split at h
  · cases h
  · next hvalid =>
    refine ⟨hvalid, ?_⟩
    split at h
    · exact insert_eq_ok h
    · next hnew => exact update_eq_ok (by simpa using hnew) h

theorem Marked.save (h : doc.Marked) (conn : Connection) : (doc.save conn).2.1.Marked := by
  have hadopt : (doc.adopt conn.config.dialect).Marked := h.of_same rfl rfl
  rw [save_eq_store]
  match hstore : (doc.adopt conn.config.dialect).store conn with
  | (.error e, doc', conn') =>
    rcases store_eq_error hstore with rfl | rfl
    · exact hadopt
    · exact hadopt.of_same rfl rfl
  | (.ok n, doc', conn') =>
    have hstored := (store_eq_ok hstore).2
    exact (marked_reset _).of_same hstored.schema hstored.paths

theorem Reachable.marked (h : doc.Reachable) : doc.Marked := by
  induction h with
  | new schema => exact marked_new schema
  | hydrate hload => exact marked_of_hydrate hload
  | dialect _ dialect ih => exact ih.of_same rfl rfl
  | set _ hset ih =>
    unfold Document.set at hset
    split at hset
    · cases hset
      exact ih.assign _ _
    · cases hset
  | unset _ path ih => exact ih.assign path none
  | mark _ path ih => exact ih.mark path
  | list _ hedit ih => exact ih.editList hedit
  | map _ hedit ih => exact ih.editMap hedit
  | delta _ ih => exact ih.of_same rfl rfl
  | reset _ _ => exact marked_reset _
  | save _ conn ih => exact ih.save conn

/-! ### The second save -/

theorem modifiedPaths_of_unmodified (h : doc.paths.pathsIn .modified = []) :
    doc.modifiedPaths = [] := by
  rw [modifiedPaths, h]
  rfl

theorem isDirectModified_of_unmodified (h : doc.paths.pathsIn .modified = []) (path : String) :
    doc.isDirectModified path = false := by
  rw [isDirectModified, PathStates.isIn, decide_eq_false_iff_not]
  intro hstate
  have hmem := PathStates.mem_of_state? hstate
  rw [h] at hmem
  cases hmem

/-- A document without modifications has nothing to be stored. -/
theorem delta_of_unmodified (h : doc.paths.pathsIn .modified = []) :
    doc.delta = (⟨doc.rid?, []⟩, doc) := by
  have hcover : doc.cover = ([], doc.atomics) := by
    rw [cover, h]
    rfl
  rw [delta, dirty, hcover]
  rfl

theorem toUpdate_of_unmodified (h : doc.paths.pathsIn .modified = []) :
    doc.toUpdate = (.ok none, doc) := by
  rw [toUpdate, delta_of_unmodified h]
  rfl

theorem Stored.unmodified (h : Stored doc doc') : doc'.paths.pathsIn .modified = [] := by
  rw [List.eq_nil_iff_forall_not_mem, h.paths]
  exact fun path hmem => not_mem_modified_reset path (PathStates.mem_pathsIn.mp hmem)

/-- What is checked after a save was checked by it. -/
theorem Stored.mem_pathsToCheck_before (h : Stored doc doc') (hmarked : doc.Marked)
    {path : String} (hmem : path ∈ doc'.pathsToCheck) : path ∈ doc.pathsToCheck := by
  obtain ⟨hstate, hdot, hhas⟩ := mem_pathsToCheck.mp hmem
  rw [h.schema] at hhas
  refine mem_pathsToCheck.mpr ⟨?_, hdot, hhas⟩
  rw [h.paths] at hstate
  rcases hstate with ⟨hrequired, hrelevant⟩ | hloaded | hmodified | hdefaulted
  · have hselected : doc.isSelected path = true := by
      rcases hrelevant with hselected | hmodified
      · rwa [isSelected, h.selection] at hselected
      · simp [isModified, modifiedPaths_of_unmodified h.unmodified] at hmodified
    rcases mem_states_reset hrequired with ⟨hschema, -⟩ | ⟨hbefore, -⟩
    · cases hold : doc.paths.state? path with
      | none => exact absurd hold (hmarked path hschema)
      | some state =>
        have hbefore := PathStates.mem_pathsIn.mp (PathStates.mem_of_state? hold)
        cases state with
        | required => exact Or.inl ⟨hbefore, Or.inl hselected⟩
        | loaded => exact Or.inr (Or.inl hbefore)
        | modified => exact Or.inr (Or.inr (Or.inl hbefore))
        | defaulted => exact Or.inr (Or.inr (Or.inr hbefore))
    · exact Or.inl ⟨hbefore, Or.inl hselected⟩
  · rcases mem_states_reset hloaded with ⟨-, hstate⟩ | ⟨hbefore, -⟩
    · cases hstate
    · exact Or.inr (Or.inl hbefore)
  · exact absurd hmodified (not_mem_modified_reset path)
  · rcases mem_states_reset hdefaulted with ⟨-, hstate⟩ | ⟨hbefore, -⟩
    · cases hstate
    · exact Or.inr (Or.inr (Or.inr hbefore))

theorem Stored.validate (h : Stored doc doc') (hmarked : doc.Marked)
    (hvalid : doc.validate = .ok ()) : doc'.validate = .ok () := by
  rw [validate_eq_ok_iff] at hvalid ⊢
  intro path hmem
  have hbefore := hvalid path (h.mem_pathsToCheck_before hmarked hmem)
  rwa [failureAt?, get?, h.schema, h.values]

/-- A document that was just saved is saved again without a call, and stays as it is. -/
theorem save_again (hreachable : doc.Reachable) (h : doc.save conn = (.ok n, doc', conn')) :
    ∃ doc'', doc'.save conn' = (.ok 0, doc'', conn') ∧ doc''.values = doc'.values ∧
      doc''.rid? = doc'.rid? ∧ doc''.isNew = doc'.isNew := by
  have hmarked : (doc.adopt conn.config.dialect).Marked := hreachable.marked.of_same rfl rfl
  rw [save_eq_store] at h
  obtain ⟨hvalid, hstored⟩ := store_eq_ok h
  have hvalid' : (doc'.adopt conn'.config.dialect).validate = .ok () :=
    hstored.validate hmarked hvalid
  have hnothing : (doc'.adopt conn'.config.dialect).toUpdate =
      (.ok none, doc'.adopt conn'.config.dialect) :=
    toUpdate_of_unmodified hstored.unmodified
  refine ⟨(doc'.adopt conn'.config.dialect).reset, ?_, rfl, rfl, rfl⟩
  have hnew : (doc'.adopt conn'.config.dialect).isNew = false := hstored.isNew
  rw [save_eq_store, store, hvalid']
  dsimp only
  rw [hnew, if_neg Bool.false_ne_true, Document.update, hnothing]

def members : Schema :=
  ⟨"Member", [("name", { Field.ofType .string with required := true })]⟩

def online : Connection :=
  ⟨.default, MemoryTransport.empty.pushRows [[("@rid", .str "#5:1")]]⟩

theorem save_again_member :
    ∃ doc doc' conn', (new members).set "name" (.string "Ada") = .ok doc ∧
      doc.save online = (.ok 1, doc', conn') ∧
      conn'.transport.texts = ["INSERT INTO Member SET name = \"Ada\" RETURN @rid"] ∧
      ∃ doc'', doc'.save conn' = (.ok 0, doc'', conn') ∧ doc''.values = doc'.values ∧
        doc''.rid? = doc'.rid? ∧ doc''.isNew = doc'.isNew := by
  have hset : (new members).set "name" (.string "Ada") =
      .ok ((new members).assign "name" (some (.string "Ada"))) := rfl
  have hsaved : ((new members).assign "name" (some (.string "Ada"))).save online =
      (.ok 1, (((new members).assign "name" (some (.string "Ada"))).save online).2.1,
        (((new members).assign "name" (some (.string "Ada"))).save online).2.2) := rfl
  exact ⟨_, _, _, hset, hsaved, rfl, save_again ((Reachable.new members).set hset) hsaved⟩

end Document

end DocMapper
