import DocMapper.Proofs.Tracking.Replay
import DocMapper.Proofs.Tracking.Run
/-!
# When a delta reproduces the document

Changes of elements are made to the stored container, but what they make of it is the present one
only if they began at a container like it. What they began at is the value at the origin of the
path, which an assignment may have put there.
-/

namespace DocMapper

namespace Atomics

/-- What pending changes leave alone of a container. Where elements are added, nothing counts as an
empty container. -/
def rest (atomics : Atomics) (v? : Option Value) : Option Value :=
  match atomics with
  | .list (.add _) => some (v?.getD (.list []))
  | .list (.remove removed) => v?.map (·.withoutItems removed)
  | .map (.pending puts removes) =>
    (if puts.isEmpty then v? else some (v?.getD (.map []))).map
      (·.withoutKeys (Fields.names puts ++ removes))
  | _ => v?

/-- Two containers differ at most in what the pending changes settle anyway. -/
def Agree (atomics : Atomics) (stored? base? : Option Value) : Prop :=
  Value.SameOption (atomics.rest stored?) (atomics.rest base?)

theorem map_normal_rest (atomics : Atomics) (v? : Option Value) :
    (atomics.rest v?).map Value.normal = atomics.rest (v?.map Value.normal) := by
  unfold rest
  split
  · cases v? <;> rfl
  · cases v? <;> simp
  · cases v? <;> split <;> simp [Value.normal, Value.normalEntries]
  · rfl

theorem agree_of_normal_eq {atomics : Atomics} {stored? base? : Option Value}
    (h : stored?.map Value.normal = base?.map Value.normal) : atomics.Agree stored? base? := by
  apply Value.sameOption_of_normal_eq
  rw [map_normal_rest, map_normal_rest, h]

/-- What changes make of a stored value. -/
def changed (ops : List AtomicOp) (path : String) (stored? : Option Value) : Option Value :=
  (ops.map fun op => DeltaOp.mk op.kind path op.operand).foldl DeltaOp.changed stored?

theorem changed_add (path : String) {added : List Value} (hflat : Flat added)
    (stored? : Option Value) :
    changed [⟨.add, singleOrList added⟩] path stored? =
      some ((stored?.getD (.list [])).withItems added) := by
  have hitems := FieldType.itemsOf_singleOrList_of_flat hflat
  simp [changed, DeltaOp.changed, hitems]

theorem changed_remove (path : String) {removed : List Value}
    (hremoved : FieldType.itemsOf (singleOrList removed) = removed) (stored? : Option Value) :
    changed [⟨.remove, singleOrList removed⟩] path stored? = stored?.map fun v =>
      (v.withoutItems removed).withoutKeys (removed.filterMap Value.string?) := by
  simp [changed, DeltaOp.changed, hremoved]

/-- Appending to the stored list gives the present one if it is the list at the origin. -/
theorem add_same_iff (v : Value) (added before : List Value) :
    (v.withItems added).Same (.list (before ++ added)) ↔ v.Same (.list before) := by
  cases v with
  | list items =>
    rw [Value.withItems, Value.same_list_iff, Value.same_list_iff]
    simp [List.map_append]
  | _ => simp [Value.withItems, Value.same_list_iff]

/-- Dropping items of the stored value gives the present list if what is left is the same. -/
theorem remove_same_iff (v : Value) (removed items : List Value) (keys : List String) :
    ((v.withoutItems removed).withoutKeys keys).Same (.list items) ↔
      (v.withoutItems removed).Same (.list items) := by
  cases v <;> simp [Value.withoutItems, Value.withoutKeys, Value.same_list_iff]

theorem changed_append (path : String) (first second : List AtomicOp) (stored? : Option Value) :
    changed (first ++ second) path stored? = changed second path (changed first path stored?) := by
  rw [changed, List.map_append, List.foldl_append]
  rfl

theorem changed_puts (path : String) (puts : Fields Value) (stored? : Option Value) :
    changed (if puts.isEmpty then [] else [⟨.put, .map puts⟩]) path stored? =
      (if puts.isEmpty then stored? else some (stored?.getD (.map []))).map
        (·.withEntries puts) := by
  cases puts with
  | nil => simp [changed, Value.withEntries_nil]
  | cons entry rest => rfl

theorem changed_removes (path : String) (removes : List String) (stored? : Option Value) :
    changed (if removes.isEmpty then [] else [⟨.remove, singleOrList (removes.map .string)⟩]) path
        stored? =
      stored?.map fun v => (v.withoutItems (removes.map .string)).withoutKeys removes := by
  have hkeys := FieldType.itemsOf_singleOrList_of_flat (flat_strings removes)
  cases removes with
  | nil => simp [changed, Value.withoutItems_nil, Value.withoutKeys_nil]
  | cons key rest =>
    rw [List.isEmpty_cons, if_neg Bool.false_ne_true, changed_remove path hkeys,
      Value.filterMap_string?]

theorem changed_pending (path : String) (puts : Fields Value) (removes : List String)
    (stored? : Option Value) (current : Fields Value) :
    changed (MapAtomics.ops (.pending puts removes) current) path stored? =
      (if puts.isEmpty then stored? else some (stored?.getD (.map []))).map fun v =>
        ((v.withEntries puts).withoutItems (removes.map .string)).withoutKeys removes := by
  rw [MapAtomics.ops, changed_append, changed_puts, changed_removes, Option.map_map]
  rfl

theorem get?_withChanges (entries puts : Fields Value) (removes : List String)
    (hsorted : Fields.Sorted puts) (key : String) :
    Fields.get? ((Fields.merge entries puts).filter fun entry => !removes.contains entry.1) key =
      if key ∈ removes then none else (Fields.get? puts key).or (Fields.get? entries key) := by
  rw [Fields.get?_filter_name _ fun key => !removes.contains key]
  rw [Fields.get?_merge, hsorted.get?_ofList]
  by_cases hkey : key ∈ removes
  · simp [hkey]
  · simp [hkey]

/-- Putting and dropping entries of the stored map gives the present one if the stored map and the
one at the origin are the same at all other keys. -/
theorem pending_same_iff (v : Value) {puts before entries : Fields Value} {removes : List String}
    (h : (MapAtomics.pending puts removes).Leads before entries) :
    (((v.withEntries puts).withoutItems (removes.map .string)).withoutKeys removes).Same
        (.map entries) ↔
      (v.withoutKeys (Fields.names puts ++ removes)).Same
        ((Value.map before).withoutKeys (Fields.names puts ++ removes)) := by
  obtain ⟨hsorted, hentries⟩ := h
  cases v with
  | map stored =>
    simp only [Value.withEntries, Value.withoutItems, Value.withoutKeys, Value.Same]
    apply forall_congr'
    intro key
    rw [get?_withChanges stored puts removes hsorted, hentries key]
    rw [Fields.get?_filter_name _ fun key => !(Fields.names puts ++ removes).contains key]
    rw [Fields.get?_filter_name _ fun key => !(Fields.names puts ++ removes).contains key]
    by_cases hremoved : key ∈ removes
    · simp [hremoved]
    by_cases hput : key ∈ Fields.names puts
    · obtain ⟨a, ha⟩ := Fields.mem_names_iff.mp hput
      simp [hremoved, hput, ha]
    · have hnone : Fields.get? puts key = none := by
        rw [Option.eq_none_iff_forall_ne_some]
        intro a ha
        exact hput (Fields.mem_names_iff.mpr ⟨a, ha⟩)
      simp [hremoved, hput, hnone]
  | _ => simp [Value.withEntries, Value.withoutItems, Value.withoutKeys, Value.same_map_iff]

/-- Changes of elements make the present container out of a stored one exactly if this agrees with
the one they began at. -/
structure Stores (atomics : Atomics) (base current : Value) (ops : List AtomicOp) (path : String) :
    Prop where
  kinds : ∀ op ∈ ops, op.kind ≠ .set
  same_iff : ∀ stored?, Value.SameOption (changed ops path stored?) (some current) ↔
    atomics.Agree stored? (some base)

theorem stores_add (path : String) {added : List Value} (hflat : Flat added)
    (before : List Value) :
    Stores (.list (.add added)) (.list before) (.list (before ++ added))
      [⟨.add, singleOrList added⟩] path := by
  refine ⟨by simp, fun stored? => ?_⟩
  rw [changed_add path hflat]
  exact add_same_iff _ added before

theorem stores_remove (path : String) {removed : List Value}
    (hremoved : FieldType.itemsOf (singleOrList removed) = removed) (before : List Value) :
    Stores (.list (.remove removed)) (.list before)
      (.list (before.filter fun item => !item.occursIn removed))
      [⟨.remove, singleOrList removed⟩] path := by
  refine ⟨by simp, fun stored? => ?_⟩
  rw [changed_remove path hremoved]
  cases stored? with
  | none => exact Iff.rfl
  | some v => exact remove_same_iff v removed _ _

theorem stores_pending (path : String) {puts before entries : Fields Value} {removes : List String}
    (h : (MapAtomics.pending puts removes).Leads before entries) :
    Stores (.map (.pending puts removes)) (.map before) (.map entries)
      (MapAtomics.ops (.pending puts removes) entries) path := by
  refine ⟨fun op => MapAtomics.kind_of_mem_ops, fun stored? => ?_⟩
  have hbase : (if puts.isEmpty then some (Value.map before)
      else some ((some (Value.map before)).getD (.map []))) = some (.map before) := by
    split <;> rfl
  rw [changed_pending, Agree, rest, rest, hbase]
  cases (if puts.isEmpty then stored? else some (stored?.getD (.map []))) with
  | none => exact Iff.rfl
  | some v => exact pending_same_iff v h

/-- Embedded documents were removed from a list, and the dialect writes what is left of it. -/
inductive PulledWhole (dialect : Dialect) : Atomics → Prop
  | remove {removed : List Value} (hdialect : dialect.structuredPullAsSet = true)
      (hstructured : removed.any Value.isStructured = true) :
      PulledWhole dialect (.list (.remove removed))

theorem PulledWhole.ops_eq {dialect : Dialect} {atomics : Atomics}
    (h : atomics.PulledWhole dialect) (current : Value) :
    atomics.ops current dialect = [⟨.set, current⟩] := by
  obtain ⟨hdialect, hstructured⟩ := h
  cases current with
  | list items => simp [Atomics.ops, ListAtomics.op, hdialect, hstructured]
  | _ => rfl

theorem ops_cases {atomics : Atomics} {base current : Value} (hparts : atomics.inParts = true)
    (h : atomics.Leads base current) (dialect : Dialect) (path : String) :
    atomics.PulledWhole dialect ∨
      Stores atomics base current (atomics.ops current dialect) path := by
  cases atomics with
  | list atomics =>
    obtain ⟨before, items, rfl, rfl, hflat, hleads⟩ := h
    cases atomics with
    | clean => cases hparts
    | set => cases hparts
    | add added =>
      right
      rw [ListAtomics.Leads] at hleads
      subst hleads
      have hadded : Flat added := fun item hmem => hflat item (List.mem_append_right before hmem)
      exact stores_add path hadded before
    | remove removed =>
      obtain ⟨rfl, -, hremoved⟩ := hleads
      rw [Atomics.ops, ListAtomics.op]
      split
      · next hpulled =>
        rw [Bool.and_eq_true] at hpulled
        exact Or.inl (.remove hpulled.1 hpulled.2)
      · exact Or.inr (stores_remove path hremoved before)
  | map atomics =>
    obtain ⟨before, entries, rfl, rfl, hleads⟩ := h
    cases atomics with
    | clean => cases hparts
    | set => cases hparts
    | pending puts removes => exact Or.inr (stores_pending path hleads)

/-- A container that is not stored by changes of its elements is written whole. -/
theorem ops_whole {atomics : Atomics} (hparts : atomics.inParts = false) (current : Value)
    (dialect : Dialect) : atomics.ops current dialect = [⟨.set, current⟩] := by
  match atomics with
  | .list .clean => cases current <;> rfl
  | .list .set => cases current <;> rfl
  | .map .clean => cases current <;> rfl
  | .map .set => cases current <;> rfl

end Atomics

namespace Document

variable {start doc : Document} {origin : String → Document} {path : String}

/-- A path that holds nothing, or no container that is stored by changes of its elements, is written
whole. -/
theorem opsFor_set (hwhole : doc.inParts path = false ∨ ((doc.get? path).getD .null).isNull = true) :
    doc.opsFor path = [⟨.set, path, (doc.get? path).getD .null⟩] := by
  unfold opsFor entryOps dirtyEntry
  dsimp only
  split
  · next atomics hslot =>
    split
    · rfl
    · next hnull =>
      have hparts : atomics.inParts = false := by
        simpa [inParts, hslot] using hwhole.resolve_right hnull
      rw [Atomics.ops_whole hparts]
      rfl
  · rfl

theorem opsFor_whole (h : hasDot path = false)
    (hwhole : doc.inParts path = false ∨
      ((Fields.get? doc.values path).getD .null).isNull = true) :
    doc.opsFor path = [⟨.set, path, (Fields.get? doc.values path).getD .null⟩] := by
  rw [← valueAt?_of_undotted h] at hwhole ⊢
  exact opsFor_set hwhole

theorem opsFor_parts (h : hasDot path = false) {atomics : Atomics} {v : Value}
    (hslot : Fields.get? doc.atomics path = some atomics)
    (hvalue : Fields.get? doc.values path = some v) (hnull : v.isNull = false) :
    doc.opsFor path =
      (atomics.ops v doc.dialect).map fun op => ⟨op.kind, path, op.operand⟩ := by
  unfold opsFor entryOps dirtyEntry
  rw [get?, valueAt?_of_undotted h, hvalue, hslot]
  dsimp only [Option.getD_some]
  rw [hnull, if_neg Bool.false_ne_true]

/-- What a path holds is stored whole: it is null or nothing, no changes of elements are pending
there, or they are removals that the dialect does not store as such. -/
inductive WrittenWhole (doc : Document) (path : String) : Prop
  | null (hnull : ((Fields.get? doc.values path).getD .null).isNull = true)
  | settled (hparts : doc.inParts path = false)
  | pulled {atomics : Atomics} (hslot : Fields.get? doc.atomics path = some atomics)
      (hpulled : atomics.PulledWhole doc.dialect)

theorem WrittenWhole.opsFor_eq (h : doc.WrittenWhole path) (hdot : hasDot path = false) :
    doc.opsFor path = [⟨.set, path, (Fields.get? doc.values path).getD .null⟩] := by
  cases h with
  | null hnull => exact opsFor_whole hdot (Or.inr hnull)
  | settled hparts => exact opsFor_whole hdot (Or.inl hparts)
  | pulled hslot hpulled =>
    cases hnull : ((Fields.get? doc.values path).getD .null).isNull with
    | true => exact opsFor_whole hdot (Or.inr hnull)
    | false =>
      cases hvalue : Fields.get? doc.values path with
      | none =>
        rw [hvalue] at hnull
        cases hnull
      | some v =>
        rw [hvalue] at hnull
        rw [opsFor_parts hdot hslot hvalue hnull, hpulled.ops_eq]
        rfl

/-- A modified path is written whole, or changes of elements are made to a stored container for which
they were meant. -/
theorem Tracked.opsFor_cases (h : Tracked start doc origin)
    (hmarked : doc.isDirectModified path = true) :
    doc.WrittenWhole path ∨
      ∃ atomics base current ops, Fields.get? doc.atomics path = some atomics ∧
        Fields.get? (origin path).values path = some base ∧
        Fields.get? doc.values path = some current ∧ current.isNull = false ∧
        doc.opsFor path = ops.map (fun op => ⟨op.kind, path, op.operand⟩) ∧
        Atomics.Stores atomics base current ops path := by
  cases hparts : doc.inParts path with
  | false => exact Or.inl (.settled hparts)
  | true =>
    obtain ⟨atomics, hslot, hin⟩ := inParts_eq_true hparts
    obtain ⟨base, current, hbase, hcurrent, hleads⟩ := h.led path atomics hslot hin
    cases hnull : current.isNull with
    | true => exact Or.inl (.null (by rw [hcurrent]; exact hnull))
    | false =>
      have hops := opsFor_parts (h.undotted path hmarked) hslot hcurrent hnull
      rcases Atomics.ops_cases hin hleads doc.dialect path with hpulled | hstores
      · exact Or.inl (.pulled hslot hpulled)
      · right
        exact ⟨atomics, base, current, _, hslot, hbase, hcurrent, hnull, hops, hstores⟩

/-- The changes of a path fit what is stored: the path is written whole, or the stored container
agrees with the one at which its pending changes began. -/
def Fits (doc : Document) (origin : String → Document) (stored : Fields Value) (path : String) :
    Prop :=
  doc.WrittenWhole path ∨
    ∃ atomics, Fields.get? doc.atomics path = some atomics ∧
      atomics.Agree (Fields.get? stored path) (Fields.get? (origin path).values path)

section Marked

variable (h : Tracked start doc origin) (hmarked : doc.isDirectModified path = true)
  (stored : Fields Value)

include h hmarked

theorem fits_iff_of_stores {atomics : Atomics} {base current : Value} {ops : List AtomicOp}
    (hslot : Fields.get? doc.atomics path = some atomics)
    (hbase : Fields.get? (origin path).values path = some base)
    (hops : doc.opsFor path = ops.map fun op => ⟨op.kind, path, op.operand⟩)
    (hstores : Atomics.Stores atomics base current ops path) :
    Fits doc origin stored path ↔ Value.SameOption
      ((doc.opsFor path).foldl DeltaOp.changed (Fields.get? stored path)) (some current) := by
  have hnot : ¬ doc.WrittenWhole path := by
    intro hwhole
    have hset := hwhole.opsFor_eq (h.undotted path hmarked)
    rw [hops, List.map_eq_singleton_iff] at hset
    obtain ⟨op, hsingle, heq⟩ := hset
    exact hstores.kinds op (by rw [hsingle]; exact List.mem_singleton_self op)
      (congrArg DeltaOp.kind heq)
  rw [Fits, or_iff_right hnot, hslot, hbase, hops]
  simpa [Atomics.changed] using (hstores.same_iff (Fields.get? stored path)).symm

/-- The changes of a marked path make what it holds out of what is stored exactly if they fit and it
is not null. -/
theorem same_changed_iff :
    Value.SameOption ((doc.opsFor path).foldl DeltaOp.changed (Fields.get? stored path))
        (Fields.get? doc.values path) ↔
      Fits doc origin stored path ∧ Fields.get? doc.values path ≠ some .null := by
  rcases h.opsFor_cases hmarked with
    hwhole | ⟨atomics, base, current, ops, hslot, hbase, hcurrent, hnull, hops, hstores⟩
  · have hfits : Fits doc origin stored path := Or.inl hwhole
    rw [hwhole.opsFor_eq (h.undotted path hmarked), and_iff_right hfits,
      DeltaOp.foldl_changed_set, Value.present_getD_null]
    exact Value.same_present_self_iff (Fields.get? doc.values path)
  · rw [fits_iff_of_stores h hmarked stored hslot hbase hops hstores, hcurrent]
    have hsome : some current ≠ some .null := by
      intro heq
      rw [Option.some.inj heq] at hnull
      cases hnull
    rw [and_iff_left hsome]

/-- If null is read as nothing, they do so exactly if they fit. -/
theorem same_changed_present_iff :
    Value.SameOption
        (Value.present ((doc.opsFor path).foldl DeltaOp.changed (Fields.get? stored path)))
        (Value.present (Fields.get? doc.values path)) ↔
      Fits doc origin stored path := by
  rcases h.opsFor_cases hmarked with
    hwhole | ⟨atomics, base, current, ops, hslot, hbase, hcurrent, hnull, hops, hstores⟩
  · have hfits : Fits doc origin stored path := Or.inl hwhole
    rw [hwhole.opsFor_eq (h.undotted path hmarked), DeltaOp.foldl_changed_set,
      Value.present_getD_null, Value.present_present]
    exact iff_of_true (Value.sameOption_refl _) hfits
  · rw [fits_iff_of_stores h hmarked stored hslot hbase hops hstores, hcurrent]
    exact Value.sameOption_present_iff hnull _

end Marked

theorem tracked_of_hydrate {schema : Schema} {record : Fields Value} {loaded : Document}
    {dialect : Dialect} (hschema : ∀ path, schema.default? path = none)
    (hload : hydrate schema record none = .ok loaded)
    (hrun : Run { loaded with dialect := dialect } doc origin) :
    Tracked { loaded with dialect := dialect } doc origin := by
  have hloaded := untouched_of_hydrate hschema hload
  have hstart : Untouched schema { loaded with dialect := dialect } :=
    ⟨hloaded.schema, hloaded.isNew, hloaded.selection, hloaded.atomics, hloaded.sorted,
      hloaded.unmodified, hloaded.undefaulted⟩
  exact hrun.tracked hstart.tracked

/-- A marked path is made from its changes, and an unmarked one holds what was loaded. -/
theorem Tracked.get?_replayed (h : Tracked start doc origin) (path : String) :
    Fields.get? (doc.delta.1.replay start.values) path =
      if doc.isDirectModified path then
        (doc.opsFor path).foldl DeltaOp.changed (Fields.get? start.values path)
      else Fields.get? start.values path := by
  rw [get?_replay_delta h.sorted h.undotted]
  split <;> rfl

/-- A document is loaded whole by a schema without defaults, and operations run on it. Where null is
read as nothing, replaying its delta on the loaded values gives the present ones exactly if the
changes of every modified path fit what was loaded there. Where it is not, no modified path may hold
null either, since the change that stores it stands for a removal too. -/
theorem replay_reproduces_iff {schema : Schema} {record : Fields Value} {loaded : Document}
    (dialect : Dialect) (hschema : ∀ path, schema.default? path = none)
    (hload : hydrate schema record none = .ok loaded)
    (hrun : Run { loaded with dialect := dialect } doc origin) :
    ((∀ path, Value.SameOption
          (Value.present (Fields.get? (doc.delta.1.replay loaded.values) path))
          (Value.present (Fields.get? doc.values path))) ↔
        ∀ path, doc.isDirectModified path = true → Fits doc origin loaded.values path) ∧
      ((∀ path, Value.SameOption (Fields.get? (doc.delta.1.replay loaded.values) path)
          (Fields.get? doc.values path)) ↔
        ∀ path, doc.isDirectModified path = true →
          Fits doc origin loaded.values path ∧ Fields.get? doc.values path ≠ some .null) := by
  have htracked := tracked_of_hydrate hschema hload hrun
  refine ⟨forall_congr' fun path => ?_, forall_congr' fun path => ?_⟩
  · rw [htracked.get?_replayed path]
    cases hmarked : doc.isDirectModified path with
    | true => simpa using same_changed_present_iff htracked hmarked loaded.values
    | false => simpa using Value.same_present_of_normal_eq (htracked.kept path hmarked).symm
  · rw [htracked.get?_replayed path]
    cases hmarked : doc.isDirectModified path with
    | true => simpa using same_changed_iff htracked hmarked loaded.values
    | false => simpa using Value.sameOption_of_normal_eq (htracked.kept path hmarked).symm

/-- A document that holds one list of words. -/
def tagged (tags : List String) (state : PathState) (atomics : Fields Atomics) : Document where
  schema := .empty "User"
  dialect := .default
  rid? := none
  values := [("tags", .list (tags.map .string))]
  paths := ⟨[("tags", state)]⟩
  atomics := atomics
  selection? := none
  isNew := false

/-- Appending to a loaded list is stored as such, and the stored list is the present one. -/
theorem replay_reproduces_appended :
    ∃ doc origin, (∀ path, (Schema.empty "User").default? path = none) ∧
      hydrate (.empty "User") [("tags", .list [.string "a"])] none =
        .ok (tagged ["a"] .loaded []) ∧
      Run { tagged ["a"] .loaded [] with dialect := .default } doc origin ∧
      doc.delta.1.ops = [⟨.add, "tags", .string "b"⟩] ∧
      ∀ path, Value.SameOption
        (Fields.get? (doc.delta.1.replay (tagged ["a"] .loaded []).values) path)
        (Fields.get? doc.values path) := by
  have hschema : ∀ path, (Schema.empty "User").default? path = none := fun _ => rfl
  have hload : hydrate (.empty "User") [("tags", .list [.string "a"])] none =
    .ok (tagged ["a"] .loaded []) := rfl
  have hpush : Step (tagged ["a"] .loaded [])
      (tagged ["a", "b"] .modified [("tags", .list (.add [.string "b"]))]) := by
    refine @Step.list _ "tags" [.string "a"] [.push [.string "b"]] _ (by decide) rfl
      (flat_strings ["a"]) rfl ?_
    intro now hnow
    cases hnow
    exact flat_strings ["a", "b"]
  have hrun := Run.step .start hpush
  refine ⟨_, _, hschema, hload, hrun, rfl, ?_⟩
  apply (replay_reproduces_iff .default hschema hload hrun).2.mpr
  intro path hmarked
  have hpath : path = "tags" := by
    by_contra hne
    simp [tagged, isDirectModified, PathStates.isIn, PathStates.state?, Fields.get?_cons,
      Ne.symm hne] at hmarked
  subst hpath
  refine ⟨Or.inr ⟨.list (.add [.string "b"]), rfl, ?_⟩, by simp [tagged, Fields.get?_cons]⟩
  exact Value.sameOption_refl _

/-- A list that is assigned before it is appended to is lost: the first of these lists is what the
delta makes of the record, the second what the document holds. -/
theorem assigned_list_lost :
    ∃ loaded doc origin,
      hydrate (.empty "User") [("tags", .list [.string "a"])] none = .ok loaded ∧
      Run { loaded with dialect := .default } doc origin ∧
      Fields.get? (doc.delta.1.replay loaded.values) "tags" =
        some (.list [.string "a", .string "c"]) ∧
      Fields.get? doc.values "tags" = some (.list [.string "b", .string "c"]) ∧
      ¬ ∀ path, Value.SameOption
        (Value.present (Fields.get? (doc.delta.1.replay loaded.values) path))
        (Value.present (Fields.get? doc.values path)) := by
  have hset : Step (tagged ["a"] .loaded []) (tagged ["b"] .modified []) :=
    @Step.set _ "tags" (.list [.string "b"]) _ (by decide) rfl
  have hpush : Step (tagged ["b"] .modified [])
      (tagged ["b", "c"] .modified [("tags", .list (.add [.string "c"]))]) := by
    refine @Step.list _ "tags" [.string "b"] [.push [.string "c"]] _ (by decide) rfl
      (flat_strings ["b"]) rfl ?_
    intro now hnow
    cases hnow
    exact flat_strings ["b", "c"]
  refine ⟨tagged ["a"] .loaded [], _, _, rfl, .step (.step .start hset) hpush, rfl, rfl, ?_⟩
  intro hsame
  have htags : Value.Same (.list [.string "a", .string "c"]) (.list [.string "b", .string "c"]) :=
    hsame "tags"
  simp [Value.Same, Value.normal, Value.normalItems] at htags

/-! ### Changes that began at what was loaded -/

theorem Run.origin_run (hrun : Run start doc origin) (path : String) :
    ∃ earlier, Run start (origin path) earlier := by
  induction hrun with
  | start => exact ⟨_, .start⟩
  | step hrun hstep ih =>
    unfold advance
    split
    · exact ih
    · exact ⟨_, .step hrun hstep⟩

/-- Changes that began at an unmarked path fit what was loaded, so replaying the delta gives the
present values if all did. -/
theorem same_replayed_of_unmarked {schema : Schema} {record : Fields Value} {loaded : Document}
    (dialect : Dialect) (hschema : ∀ path, schema.default? path = none)
    (hload : hydrate schema record none = .ok loaded)
    (hrun : Run { loaded with dialect := dialect } doc origin)
    (hbegan : ∀ path, doc.inParts path = true → (origin path).isDirectModified path = false)
    (path : String) :
    Value.SameOption (Value.present (Fields.get? (doc.delta.1.replay loaded.values) path))
      (Value.present (Fields.get? doc.values path)) := by
  have htracked := tracked_of_hydrate hschema hload hrun
  rw [htracked.get?_replayed path]
  cases hmarked : doc.isDirectModified path with
  | false => simpa using Value.same_present_of_normal_eq (htracked.kept path hmarked).symm
  | true =>
    rw [if_pos rfl]
    refine (same_changed_present_iff htracked hmarked loaded.values).mpr ?_
    cases hparts : doc.inParts path with
    | false => exact Or.inl (.settled hparts)
    | true =>
      obtain ⟨atomics, hslot, -⟩ := inParts_eq_true hparts
      obtain ⟨earlier, hearlier⟩ := hrun.origin_run path
      have horigin := (tracked_of_hydrate hschema hload hearlier).kept path (hbegan path hparts)
      exact Or.inr ⟨atomics, hslot, Atomics.agree_of_normal_eq horigin.symm⟩

end Document

end DocMapper
