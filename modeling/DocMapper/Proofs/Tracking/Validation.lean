import DocMapper.Proofs.Tracking.Modified
import DocMapper.Proofs.Tracking.Operations
/-!
# What is validated

A path has one state, so marking a required path as modified forgets that it is required. It is
checked all the same: a path in any state but `required` is checked, and one in that state is
checked if it was loaded or has something modified below it. As no required path ever loses its
state, what is sent has passed the checks of all of them.
-/

namespace DocMapper

/-! ### Declared fields -/

namespace Entries

theorem names_assign {α : Type} (name : String) (a : α) (entries : List (String × α)) :
    (assign name a entries).map Prod.fst =
      if name ∈ entries.map Prod.fst then entries.map Prod.fst
      else entries.map Prod.fst ++ [name] := by
  induction entries with
  | nil => simp [assign]
  | cons entry rest ih =>
    obtain ⟨other, b⟩ := entry
    rw [assign]
    by_cases h : other = name
    · simp [h]
    · simp only [h, if_false, List.map_cons, ih, List.mem_cons, Ne.symm h, false_or]
      split <;> simp

theorem lookup_eq_some_iff {α : Type} {entries : List (String × α)}
    (h : (entries.map Prod.fst).Nodup) {name : String} {a : α} :
    entries.lookup name = some a ↔ (name, a) ∈ entries := by
  induction entries with
  | nil => simp
  | cons entry rest ih =>
    obtain ⟨other, b⟩ := entry
    obtain ⟨hfresh, hrest⟩ := List.nodup_cons.mp h
    rw [List.lookup_cons, List.mem_cons, ← ih hrest]
    by_cases hname : name = other
    · subst hname
      have hnone : (name, a) ∉ rest := fun hmem =>
        hfresh (List.mem_map.mpr ⟨(name, a), hmem, rfl⟩)
      simp [ih hrest, hnone, eq_comm]
    · have hne : (name == other) = false := by simpa using hname
      simp [hne, hname]

end Entries

namespace Schema

/-- Schemas that come about by declaring fields. -/
inductive Declared : Schema → Prop
  | empty (className : String) : Declared (empty className)
  | declare {schema : Schema} (h : Declared schema) (name : String) (field : Field) :
      Declared (schema.declare name field)

variable {schema : Schema} {path : String}

theorem Declared.nodup (h : schema.Declared) : schema.paths.Nodup := by
  induction h with
  | empty className => exact List.nodup_nil
  | @declare schema h name field ih =>
    rw [paths, Schema.declare, Entries.names_assign]
    split
    · exact ih
    · next hnew =>
      exact List.nodup_append.mpr ⟨ih, List.nodup_singleton name, fun a ha b hb heq =>
        hnew (by rw [← List.mem_singleton.mp hb, ← heq]; exact ha)⟩

theorem Declared.mem_requiredPaths_iff (h : schema.Declared) :
    path ∈ schema.requiredPaths ↔ schema.isRequired path = true := by
  have hlookup : ∀ field, schema.field? path = some field ↔ (path, field) ∈ schema.fields :=
    fun field => Entries.lookup_eq_some_iff h.nodup
  rw [isRequired, Option.any_eq_true]
  simp only [hlookup, requiredPaths, List.mem_map, List.mem_filter]
  constructor
  · rintro ⟨⟨name, field⟩, ⟨hmem, hrequired⟩, rfl⟩
    exact ⟨field, hmem, hrequired⟩
  · rintro ⟨field, hmem, hrequired⟩
    exact ⟨(path, field), ⟨hmem, hrequired⟩, rfl⟩

theorem has_of_isRequired (h : schema.isRequired path = true) : schema.has path = true := by
  obtain ⟨field, hfield, -⟩ := Option.any_eq_true _ _ |>.mp h
  rw [has, hfield]
  rfl

end Schema

/-! ### Failures -/

namespace Field

variable {field : Field} {path : String} {v : Value}

theorem path_boundFailure (minText maxText : String) (bound : Bound) :
    (boundFailure path minText maxText v bound).path = path := by
  cases bound <;> rfl

theorem path_of_failure? {failure : PathFailure} (h : field.failure? path v = some failure) :
    failure.path = path := by
  have hbound : ∀ {minText maxText : String} {broken : Option Bound},
      broken.map (boundFailure path minText maxText v) = some failure → failure.path = path := by
    intro minText maxText broken hmap
    obtain ⟨bound, -, rfl⟩ := Option.map_eq_some_iff.mp hmap
    exact path_boundFailure minText maxText bound
  unfold failure? at h
  split at h
  · cases h
    rfl
  · split at h
    · split at h
      · cases h
        rfl
      · exact hbound h
    · exact hbound h
    · exact hbound h
    · cases h

/-- A required value that passes its checks is neither null nor the empty string. -/
theorem not_isMissing_of_failure? (hrequired : field.required = true)
    (h : field.failure? path v = none) : isMissing v = false := by
  by_contra hmissing
  rw [Bool.not_eq_false] at hmissing
  simp [failure?, hrequired, hmissing] at h

end Field

theorem Schema.path_of_failure? {schema : Schema} {path : String} {v : Value}
    {failure : PathFailure} (h : schema.failure? path v = some failure) : failure.path = path := by
  obtain ⟨field, -, hfield⟩ := Option.bind_eq_some_iff.mp h
  exact Field.path_of_failure? hfield

namespace ValidationError

variable {path : String}

theorem mem_names_insert {e : ValidationError} {failure : PathFailure} :
    path ∈ Fields.names (e.insert failure).failures ↔
      path = failure.path ∨ path ∈ Fields.names e.failures := by
  unfold insert
  split
  · next hhas =>
    have hthere : failure.path ∈ Fields.names e.failures :=
      Fields.mem_names_iff.mpr (Fields.has_eq_true_iff.mp hhas)
    constructor
    · exact Or.inr
    · rintro (rfl | hmem)
      · exact hthere
      · exact hmem
  · simp only [Fields.mem_names_iff, Fields.get?_put]
    by_cases hpath : path = failure.path <;> simp [hpath]

theorem mem_names_foldl_insert {failures : List PathFailure} {e : ValidationError} :
    path ∈ Fields.names (failures.foldl insert e).failures ↔
      path ∈ Fields.names e.failures ∨ ∃ failure ∈ failures, path = failure.path := by
  induction failures generalizing e with
  | nil => simp
  | cons failure rest ih =>
    rw [List.foldl_cons, ih, mem_names_insert]
    simp only [List.mem_cons, exists_eq_or_imp]
    tauto

end ValidationError

namespace Document

/-! ### The states of the paths -/

/-- What holds of the states of a document: only required paths are marked as such, and no path with
an empty segment is marked as modified. -/
structure Accounted (doc : Document) : Prop where
  sorted : Fields.Sorted doc.paths.states
  required : ∀ path, doc.paths.state? path = some .required → path ∈ doc.schema.requiredPaths
  proper : ∀ path, doc.paths.state? path = some .modified → Proper path

variable {doc next : Document} {path : String}

theorem Accounted.of_same (h : doc.Accounted) (hschema : next.schema = doc.schema)
    (hpaths : next.paths = doc.paths) : next.Accounted := by
  refine ⟨?_, ?_, ?_⟩
  · rw [hpaths]
    exact h.sorted
  · rw [hpaths, hschema]
    exact h.required
  · rw [hpaths]
    exact h.proper

theorem Accounted.enter (h : doc.Accounted) {state : PathState}
    (hrequired : state ≠ .required) (hproper : state = .modified → Proper path)
    (hschema : next.schema = doc.schema) (hpaths : next.paths = doc.paths.enter path state) :
    next.Accounted := by
  refine ⟨?_, ?_, ?_⟩
  · rw [hpaths]
    exact h.sorted.put path state
  · intro other hother
    rw [hpaths, state?_enter] at hother
    split at hother
    · exact absurd (Option.some.inj hother) hrequired
    · exact hschema ▸ h.required other hother
  · intro other hother
    rw [hpaths, state?_enter] at hother
    split at hother
    · next heq => exact heq ▸ hproper (Option.some.inj hother)
    · exact h.proper other hother

theorem sorted_enterAll {p : PathStates} (h : Fields.Sorted p.states) (paths : List String)
    (state : PathState) : Fields.Sorted (p.enterAll paths state).states := by
  induction paths generalizing p with
  | nil => exact h
  | cons path rest ih => exact ih (h.put path state)

theorem accounted_blank (schema : Schema) (isNew : Bool) : (blank schema isNew).Accounted := by
  have hstate : ∀ path, (blank schema isNew).paths.state? path =
      if path ∈ schema.requiredPaths then some .required else none :=
    fun path => PathStates.state?_enterAll _ _ _ path
  refine ⟨sorted_enterAll Fields.sorted_nil _ _, ?_, ?_⟩
  · intro path hpath
    rw [hstate] at hpath
    split at hpath
    · assumption
    · cases hpath
  · intro path hpath
    rw [hstate] at hpath
    split at hpath <;> cases hpath

theorem Accounted.reset (h : doc.Accounted) (hschema : next.schema = doc.schema)
    (hpaths : next.paths = doc.reset.paths) : next.Accounted := by
  have hsorted : Fields.Sorted doc.reset.paths.states := sorted_enterAll (h.sorted.filter _) _ _
  refine ⟨hpaths ▸ hsorted, ?_, ?_⟩
  · intro path hpath
    rw [hpaths] at hpath
    rw [hschema]
    rcases mem_states_reset (hsorted.get?_eq_some_iff.mp hpath) with ⟨hmem, -⟩ | ⟨hmem, -⟩
    · exact hmem
    · exact h.required path (h.sorted.get?_eq_some_iff.mpr hmem)
  · intro path hpath
    rw [hpaths] at hpath
    exact absurd (hsorted.get?_eq_some_iff.mp hpath) (not_mem_modified_reset path)

theorem Accounted.fillDefault (h : doc.Accounted) (path : String) :
    (doc.fillDefault path).Accounted := by
  unfold Document.fillDefault
  split
  · exact h.enter (by decide) (fun heq => by cases heq) rfl rfl
  · exact h

theorem Accounted.loadEntry (h : doc.Accounted) {entry : String × Value}
    (hload : doc.loadEntry entry = .ok next) : next.Accounted := by
  unfold Document.loadEntry at hload
  split at hload
  · obtain ⟨id, -, rfl⟩ := Success.map_eq_ok.mp hload
    exact h.of_same rfl rfl
  split at hload
  · cases hload
    exact h
  split at hload
  · cases hload
  · cases hload
    exact h.enter (by decide) (fun heq => by cases heq) rfl rfl

/-- The path that an assignment marks begins the assigned one. -/
theorem prefix_segments_pathToMark (h : Proper path) :
    segments (doc.pathToMark path) <+: segments path := by
  unfold pathToMark
  split
  · cases hfound : (lineage path).find? fun ancestor =>
        doc.isDirectModified ancestor || (doc.get? ancestor).any Value.isNull with
    | none => exact List.prefix_rfl
    | some ancestor => exact (mem_lineage_iff h).mp (List.mem_of_find?_eq_some hfound)
  · exact List.prefix_rfl

theorem proper_pathToMark (h : Proper path) : Proper (doc.pathToMark path) :=
  fun segment hsegment => h segment ((prefix_segments_pathToMark h).subset hsegment)

theorem Accounted.assign (h : doc.Accounted) (hpath : Proper path) (v? : Option Value) :
    (doc.assign path v?).Accounted := by
  unfold Document.assign
  dsimp only
  split
  · exact h.enter (by decide) (fun _ => proper_pathToMark hpath) rfl rfl
  · exact h.of_same rfl rfl

theorem Accounted.withContainer (h : doc.Accounted) (path : String) (container : Value) :
    (doc.withContainer path container).Accounted := by
  unfold Document.withContainer
  split
  · exact h
  · exact h.of_same rfl rfl

theorem Accounted.closeAt (h : doc.Accounted) (hpath : Proper path) (container : Value)
    (atomics : Atomics) (touched : Bool) :
    (doc.closeAt path container atomics touched).Accounted := by
  cases touched with
  | false => exact h.of_same rfl rfl
  | true => exact h.enter (by decide) (fun _ => hpath) rfl rfl

theorem Accounted.perform (h : doc.Accounted) {op : Operation} (hop : op.Proper)
    (hperform : doc.perform op = .ok next) : next.Accounted := by
  cases op with
  | set path v =>
    obtain ⟨w, -, rfl⟩ := set_eq_ok hperform
    exact h.assign (hop path rfl) _
  | unset path =>
    obtain rfl := Except.ok.inj hperform
    exact h.assign (hop path rfl) none
  | mark path =>
    obtain rfl := Except.ok.inj hperform
    exact h.enter (by decide) (fun _ => hop path rfl) rfl rfl
  | list path edits =>
    obtain ⟨items, -, rfl⟩ := perform_list_eq_ok hperform
    refine (h.withContainer path (.list [])).closeAt ?_ _ _ _
    rw [ListView.edits_path]
    exact hop path rfl
  | map path edits =>
    obtain ⟨entries, -, rfl⟩ := perform_map_eq_ok hperform
    refine (h.withContainer path (.map [])).closeAt ?_ _ _ _
    rw [MapView.edits_path]
    exact hop path rfl
  | reset =>
    obtain rfl := Except.ok.inj hperform
    exact h.reset rfl rfl
  | save conn =>
    rcases perform_save_eq_ok hperform with rfl | rfl | hstored
    · exact h.of_same rfl rfl
    · exact h.of_same rfl rfl
    · exact h.reset hstored.schema hstored.paths

theorem Worked.accounted (h : Worked (fun _ op => op.Proper) doc) : doc.Accounted := by
  induction h with
  | new schema => exact holds_new (accounted_blank schema true) fun _ path h => h.fillDefault path
  | @hydrate schema record selection? doc hload =>
    have hblank : Accounted { blank schema false with selection? := selection? } :=
      (accounted_blank schema false).of_same rfl rfl
    exact holds_of_hydrate hblank (fun h hentry => h.loadEntry hentry)
      (fun _ path h => h.fillDefault path) hload
  | step _ hproper hperform ih => exact ih.perform hproper hperform

/-! ### What is checked -/

/-- A path is known to be there, or it is required and was loaded or is changed below. -/
def Matters (doc : Document) (path : String) : Prop :=
  doc.paths.state? path = some .loaded ∨ doc.paths.state? path = some .modified ∨
    doc.paths.state? path = some .defaulted ∨
    (doc.schema.isRequired path = true ∧ (doc.isSelected path = true ∨
      ∃ below, doc.paths.state? below = some .modified ∧ isBelow below path = true))

section Checked

variable (h : doc.Accounted)

include h

theorem Accounted.mem_states_iff {state : PathState} :
    (path, state) ∈ doc.paths.states ↔ doc.paths.state? path = some state :=
  h.sorted.get?_eq_some_iff.symm

theorem Accounted.isModified_iff :
    doc.isModified path = true ↔ ∃ other, doc.paths.state? other = some .modified ∧
      (other = path ∨ isBelow other path = true) := by
  have hmem : ∀ other, other ∈ doc.paths.pathsIn .modified ↔
      doc.paths.state? other = some .modified := fun other => by
    rw [PathStates.mem_pathsIn, h.mem_states_iff]
  rw [Document.isModified_iff fun other hother => h.proper other ((hmem other).mp hother)]
  simp only [hmem]

/-- The states that the required paths are in do not show in what is checked. -/
theorem Accounted.mem_pathsToCheck_iff (hschema : doc.schema.Declared) (hmarked : doc.Marked) :
    path ∈ doc.pathsToCheck ↔
      hasDot path = false ∧ doc.schema.has path = true ∧ doc.Matters path := by
  rw [mem_pathsToCheck, and_comm, and_assoc]
  simp only [h.mem_states_iff, h.isModified_iff]
  refine and_congr_right fun _ => and_congr_right fun _ => ?_
  constructor
  · rintro (⟨hrequired, hselected | ⟨other, hmodified, rfl | hbelow⟩⟩ | hstate)
    · have hschema := hschema.mem_requiredPaths_iff.mp (h.required path hrequired)
      exact Or.inr (Or.inr (Or.inr ⟨hschema, Or.inl hselected⟩))
    · exact Or.inr (Or.inl hmodified)
    · have hschema := hschema.mem_requiredPaths_iff.mp (h.required path hrequired)
      exact Or.inr (Or.inr (Or.inr ⟨hschema, Or.inr ⟨other, hmodified, hbelow⟩⟩))
    · exact hstate.imp_right (Or.imp_right Or.inl)
  · rintro (hloaded | hmodified | hdefaulted | ⟨hrequired, hrelevant⟩)
    · exact Or.inr (Or.inl hloaded)
    · exact Or.inr (Or.inr (Or.inl hmodified))
    · exact Or.inr (Or.inr (Or.inr hdefaulted))
    · cases hstate : doc.paths.state? path with
      | none => exact absurd hstate (hmarked path (hschema.mem_requiredPaths_iff.mpr hrequired))
      | some state =>
        cases state with
        | required =>
          refine Or.inl ⟨rfl, hrelevant.imp_right ?_⟩
          rintro ⟨below, hmodified, hbelow⟩
          exact ⟨below, hmodified, Or.inr hbelow⟩
        | modified => exact Or.inr (Or.inr (Or.inl rfl))
        | loaded => exact Or.inr (Or.inl rfl)
        | defaulted => exact Or.inr (Or.inr (Or.inr rfl))

end Checked

theorem mem_names_validationError :
    path ∈ Fields.names doc.validationError.failures ↔
      path ∈ doc.pathsToCheck ∧ doc.failureAt? path ≠ none := by
  rw [validationError, ValidationError.mem_names_foldl_insert]
  simp only [List.mem_filterMap, ValidationError.empty, Fields.names, List.map_nil,
    List.not_mem_nil, false_or, Option.ne_none_iff_exists']
  constructor
  · rintro ⟨failure, ⟨other, hmem, hfailure⟩, rfl⟩
    obtain rfl := Schema.path_of_failure? hfailure
    exact ⟨hmem, failure, hfailure⟩
  · rintro ⟨hmem, failure, hfailure⟩
    exact ⟨failure, ⟨path, hmem, hfailure⟩, (Schema.path_of_failure? hfailure).symm⟩

/-- A required path that was checked holds a value. -/
theorem present_of_failureAt? (hrequired : doc.schema.isRequired path = true)
    (h : doc.failureAt? path = none) :
    ∃ v, doc.get? path = some v ∧ v ≠ .null ∧ v ≠ .string "" := by
  obtain ⟨field, hfield, hneeded⟩ := (Option.any_eq_true _ _).mp hrequired
  rw [failureAt?, Schema.failure?, hfield] at h
  have hpresent := Field.not_isMissing_of_failure? hneeded h
  cases hget : doc.get? path with
  | none => simp [hget, Field.isMissing] at hpresent
  | some v =>
    rw [hget, Option.getD_some] at hpresent
    refine ⟨v, rfl, ?_, ?_⟩
    · rintro rfl
      cases hpresent
    · rintro rfl
      cases hpresent

/-- What is sent was valid. -/
theorem validate_of_sent {conn : Connection}
    (h : (doc.save conn).2.2.transport.calls ≠ conn.transport.calls) : doc.validate = .ok () := by
  have hsends := (doc.adopt conn.config.dialect).sends_store conn
  rw [← save_eq_store] at hsends
  have hvalid : (doc.adopt conn.config.dialect).validate = doc.validate := rfl
  cases hvalidate : doc.validate with
  | ok _ => rfl
  | error e =>
    refine absurd ?_ h
    rw [hsends.calls, saveCalls, hvalid, hvalidate, List.append_nil]

/-- Required paths are never lost sight of: each has a state, those that are selected hold something
in every document that is sent, and a document fails on exactly the paths that matter and hold
something invalid. -/
theorem required_checked (hschema : doc.schema.Declared)
    (hworked : Worked (fun _ op => op.Proper) doc) :
    (∀ path, doc.schema.isRequired path = true → doc.paths.state? path ≠ none) ∧
    (∀ conn, (doc.save conn).2.2.transport.calls ≠ conn.transport.calls →
      ∀ path, doc.schema.isRequired path = true → hasDot path = false →
        doc.isSelected path = true →
        ∃ v, doc.get? path = some v ∧ v ≠ .null ∧ v ≠ .string "") ∧
    (∀ e, doc.validate = .error e → ∃ invalid : ValidationError, e = .validation invalid ∧
      ∀ path, path ∈ Fields.names invalid.failures ↔
        hasDot path = false ∧ doc.schema.has path = true ∧ doc.failureAt? path ≠ none ∧
          doc.Matters path) := by
  have haccounted := hworked.accounted
  have hmarked := hworked.reachable.marked
  have hchecked : ∀ path, path ∈ doc.pathsToCheck ↔
      hasDot path = false ∧ doc.schema.has path = true ∧ doc.Matters path :=
    fun _ => haccounted.mem_pathsToCheck_iff hschema hmarked
  refine ⟨?_, ?_, ?_⟩
  · intro path hrequired
    exact hmarked path (hschema.mem_requiredPaths_iff.mpr hrequired)
  · intro conn hsent path hrequired hdot hselected
    have hmem : path ∈ doc.pathsToCheck := (hchecked path).mpr
      ⟨hdot, Schema.has_of_isRequired hrequired,
        Or.inr (Or.inr (Or.inr ⟨hrequired, Or.inl hselected⟩))⟩
    exact present_of_failureAt? hrequired (validate_eq_ok_iff.mp (validate_of_sent hsent) path hmem)
  · intro e hinvalid
    unfold validate at hinvalid
    dsimp only at hinvalid
    split at hinvalid
    · cases hinvalid
    · obtain rfl := Except.error.inj hinvalid
      refine ⟨doc.validationError, rfl, fun path => ?_⟩
      rw [mem_names_validationError, hchecked path]
      tauto

def named : Document :=
  (new members).assign "name" (some (.string "Ada"))

/-- The name of a stored member is taken away again. -/
def unnamed : Document :=
  (named.save online).2.1.unset "name"

theorem required_checked_member :
    Worked (fun _ op => op.Proper) named ∧ Worked (fun _ op => op.Proper) unnamed ∧
      (named.save online).2.2.transport.texts =
        ["INSERT INTO Member SET name = \"Ada\" RETURN @rid"] ∧
      (∃ v, named.get? "name" = some v ∧ v ≠ .null ∧ v ≠ .string "") ∧
      unnamed.paths.state? "name" = some .modified ∧
      ∃ invalid : ValidationError, unnamed.validate = .error (.validation invalid) ∧
        Fields.names invalid.failures = ["name"] ∧
        ∀ path, path ∈ Fields.names invalid.failures ↔
          hasDot path = false ∧ unnamed.schema.has path = true ∧
            unnamed.failureAt? path ≠ none ∧ unnamed.Matters path := by
  have hmembers : members.Declared := (Schema.Declared.empty "Member").declare "name" _
  have hproper : ∀ op : Operation, op.path? = some "name" → op.Proper := by
    intro op hop path hpath
    obtain rfl := Option.some.inj (hop.symm.trans hpath)
    decide
  have hset : (new members).perform (.set "name" (.string "Ada")) = .ok named := rfl
  have hsave : named.perform (.save online) = .ok (named.save online).2.1 := rfl
  have hunset : (named.save online).2.1.perform (.unset "name") = .ok unnamed := rfl
  have hnamed : Worked (fun _ op => op.Proper) named :=
    (Worked.new members).step (hproper _ rfl) hset
  have hanywhere : (Operation.save online).Proper := by
    rintro path ⟨⟩
  have hunnamed : Worked (fun _ op => op.Proper) unnamed :=
    (hnamed.step hanywhere hsave).step (hproper _ rfl) hunset
  have htexts : (named.save online).2.2.transport.texts =
      ["INSERT INTO Member SET name = \"Ada\" RETURN @rid"] := rfl
  have hcalls : (named.save online).2.2.transport.calls ≠ online.transport.calls := by
    intro heq
    rw [MemoryTransport.texts, heq] at htexts
    cases htexts
  obtain ⟨-, hsent, -⟩ := required_checked hmembers hnamed
  obtain ⟨-, -, hinvalid⟩ := required_checked hmembers hunnamed
  obtain ⟨invalid, heq, hkeys⟩ := hinvalid _ rfl
  obtain rfl := Error.validation.inj heq
  exact ⟨hnamed, hunnamed, htexts, hsent online hcalls "name" rfl rfl rfl, rfl, _, rfl, rfl, hkeys⟩

end Document

end DocMapper
