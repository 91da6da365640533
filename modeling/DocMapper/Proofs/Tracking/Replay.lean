import DocMapper.Proofs.Tracking.Cover
import DocMapper.Proofs.Tracking.Effects
/-!
# Replaying a delta

The changes of a delta are made to stored values one after the other. A path sees only its own
changes, and a delta of paths without dots holds for each modified path what its entry gives.
-/

namespace DocMapper

namespace Value

/-! Each change of elements concerns one shape of containers and leaves other values alone. -/

def withItems (added : List Value) : Value → Value
  | .list items => .list (items ++ added)
  | other => other

def withoutItems (removed : List Value) : Value → Value
  | .list items => .list (items.filter fun item => !item.occursIn removed)
  | other => other

def withEntries (puts : Fields Value) : Value → Value
  | .map entries => .map (Fields.merge entries puts)
  | other => other

def withoutKeys (keys : List String) : Value → Value
  | .map entries => .map (entries.filter fun entry => !keys.contains entry.1)
  | other => other

theorem withEntries_nil (v : Value) : v.withEntries [] = v := by
  cases v <;> rfl

theorem withoutItems_nil (v : Value) : v.withoutItems [] = v := by
  cases v <;> simp [withoutItems, occursIn]

theorem withoutKeys_nil (v : Value) : v.withoutKeys [] = v := by
  cases v <;> simp [withoutKeys]

theorem filterMap_string? (keys : List String) :
    (keys.map string).filterMap string? = keys := by
  induction keys with
  | nil => rfl
  | cons key rest ih =>
    rw [List.map_cons, List.filterMap_cons, ih]
    rfl

@[simp]
theorem normal_withoutItems (v : Value) (removed : List Value) :
    (v.withoutItems removed).normal = v.normal.withoutItems removed := by
  cases v with
  | list items =>
    rw [withoutItems, normal, normal, withoutItems,
      normalItems_eq_map, normalItems_eq_map, List.filter_map]
    congr 2
    apply List.filter_congr
    intro item _
    rw [Function.comp_apply, occursIn_normal]
  | _ => rfl

@[simp]
theorem normal_withoutKeys (v : Value) (keys : List String) :
    (v.withoutKeys keys).normal = v.normal.withoutKeys keys := by
  cases v with
  | map entries =>
    rw [withoutKeys, normal, normal, withoutKeys,
      normalEntries_eq_map, normalEntries_eq_map, List.filter_map]
    rfl
  | _ => rfl

end Value

/-- What a change makes of a stored value. Nothing becomes a container when elements are added. A
change that removes names items of a list or keys of a map. -/
def DeltaOp.changed (v? : Option Value) (op : DeltaOp) : Option Value :=
  let elements := FieldType.itemsOf op.operand
  match op.kind with
  | .set => if op.operand.isNull then none else some op.operand
  | .increment => v?
  | .add => some ((v?.getD (.list [])).withItems elements)
  | .remove =>
    v?.map fun v => (v.withoutItems elements).withoutKeys (elements.filterMap Value.string?)
  | .put => some ((v?.getD (.map [])).withEntries (op.operand.map?.getD []))

theorem DeltaOp.foldl_changed_set (path : String) (v : Value) (stored? : Option Value) :
    [⟨.set, path, v⟩].foldl DeltaOp.changed stored? = Value.present (some v) := by
  cases h : v.isNull <;> simp [DeltaOp.changed, Value.present, Option.filter, h]

namespace Delta

/-- The stored values after the changes of a delta. -/
def replay (delta : Delta) (values : Fields Value) : Fields Value :=
  delta.ops.foldl
    (fun values op => writeAt values op.path (op.changed (valueAt? values op.path))) values

def opsAt (delta : Delta) (path : String) : List DeltaOp :=
  delta.ops.filter fun op => op.path = path

theorem get?_replay {delta : Delta} (hdots : ∀ op ∈ delta.ops, hasDot op.path = false)
    (values : Fields Value) (path : String) :
    Fields.get? (delta.replay values) path =
      (delta.opsAt path).foldl DeltaOp.changed (Fields.get? values path) := by
  unfold replay opsAt
  generalize delta.ops = ops at hdots
  induction ops generalizing values with
  | nil => rfl
  | cons op rest ih =>
    have hdot := hdots op List.mem_cons_self
    rw [List.foldl_cons, ih _ (fun op hmem => hdots op (List.mem_cons_of_mem _ hmem)),
      get?_writeAt hdot, valueAt?_of_undotted hdot]
    by_cases hpath : op.path = path
    · simp [hpath]
    · simp [hpath, Ne.symm hpath]

/-! ### Collecting changes -/

theorem has_append (delta : Delta) (ops : List DeltaOp) (kind : ChangeKind) (path : String) :
    { delta with ops := delta.ops ++ ops }.has kind path =
      (delta.has kind path || ops.any fun op => op.kind = kind && op.path = path) :=
  List.any_append

/-- The changes of an entry write it whole, or none of them does. -/
structure EntryOps (path : String) (ops : List DeltaOp) : Prop where
  path : ∀ op ∈ ops, op.path = path
  kinds : (∃ op, ops = [op]) ∨ ∀ op ∈ ops, op.kind ≠ .set

theorem ops_pushAll {delta : Delta} {path : String} {ops : List DeltaOp} (h : EntryOps path ops)
    (hnew : delta.has .set path = false) : (delta.pushAll ops).ops = delta.ops ++ ops := by
  obtain ⟨hpath, ⟨op, rfl⟩ | hkinds⟩ := h
  · have hop := hpath op List.mem_cons_self
    rw [pushAll, List.foldl_cons, List.foldl_nil, push, hop, hnew, if_neg Bool.false_ne_true]
  · induction ops generalizing delta with
    | nil => simp [pushAll]
    | cons op rest ih =>
      have hop := hpath op List.mem_cons_self
      have hkind := hkinds op List.mem_cons_self
      have hpush : delta.push op = { delta with ops := delta.ops ++ [op] } := by
        rw [push, hop, hnew, if_neg Bool.false_ne_true]
      have hstill : (delta.push op).has .set path = false := by
        rw [hpush, has_append, hnew]
        simp [hkind]
      have hrest : ((delta.push op).pushAll rest).ops = (delta.push op).ops ++ rest :=
        ih hstill (fun op hmem => hpath op (List.mem_cons_of_mem _ hmem))
          (fun op hmem => hkinds op (List.mem_cons_of_mem _ hmem))
      rw [hpush] at hrest
      rw [pushAll, List.foldl_cons, hpush]
      exact hrest.trans (by simp)

theorem ops_foldl_pushAll {delta : Delta} {paths : List String} {f : String → List DeltaOp}
    (hentries : ∀ path, EntryOps path (f path)) (hnodup : paths.Nodup)
    (hnew : ∀ path ∈ paths, delta.has .set path = false) :
    (paths.foldl (fun delta path => delta.pushAll (f path)) delta).ops =
      delta.ops ++ paths.flatMap f := by
  induction paths generalizing delta with
  | nil => simp
  | cons path rest ih =>
    obtain ⟨hpath, hrest⟩ := List.nodup_cons.mp hnodup
    have hops := ops_pushAll (hentries path) (hnew path List.mem_cons_self)
    have hstill : ∀ other ∈ rest, (delta.pushAll (f path)).has .set other = false := by
      intro other hother
      have hne : path ≠ other := fun heq => hpath (heq ▸ hother)
      have hbefore := hnew other (List.mem_cons_of_mem _ hother)
      unfold has at hbefore ⊢
      rw [hops, List.any_append, hbefore, Bool.false_or, List.any_eq_false]
      intro op hop
      simp [(hentries path).path op hop, hne]
    rw [List.foldl_cons, ih hrest hstill, hops, List.flatMap_cons, List.append_assoc]

theorem filter_flatMap_entries {paths : List String} {f : String → List DeltaOp}
    (hentries : ∀ path, EntryOps path (f path)) (hnodup : paths.Nodup) (path : String) :
    (paths.flatMap f).filter (fun op => op.path = path) =
      if path ∈ paths then f path else [] := by
  have hown : ∀ first, (f first).filter (fun op => op.path = path) =
      if first = path then f path else [] := by
    intro first
    by_cases hfirst : first = path
    · rw [if_pos hfirst, hfirst, List.filter_eq_self]
      intro op hop
      simpa using (hentries path).path op hop
    · rw [if_neg hfirst, List.filter_eq_nil_iff]
      intro op hop
      simpa [(hentries first).path op hop] using hfirst
  induction paths with
  | nil => simp
  | cons first rest ih =>
    obtain ⟨hfirst, hrest⟩ := List.nodup_cons.mp hnodup
    rw [List.flatMap_cons, List.filter_append, hown, ih hrest]
    by_cases hpath : first = path
    · simp [hpath, hpath ▸ hfirst]
    · simp [hpath, Ne.symm hpath]

end Delta

/-! ### The changes of a document -/

theorem MapAtomics.kind_of_mem_ops {puts current : Fields Value} {removes : List String}
    {op : AtomicOp} (h : op ∈ MapAtomics.ops (.pending puts removes) current) : op.kind ≠ .set := by
  simp only [MapAtomics.ops, List.mem_append] at h
  rcases h with h | h
  · split at h <;> simp_all
  · split at h <;> simp_all

theorem Atomics.ops_kinds (atomics : Atomics) (current : Value) (dialect : Dialect) :
    (∃ op, atomics.ops current dialect = [op]) ∨
      ∀ op ∈ atomics.ops current dialect, op.kind ≠ .set := by
  unfold Atomics.ops
  split
  · exact Or.inl ⟨_, rfl⟩
  · next atomics entries =>
    cases atomics with
    | clean => exact Or.inl ⟨_, rfl⟩
    | set => exact Or.inl ⟨_, rfl⟩
    | pending puts removes => exact Or.inr fun op => MapAtomics.kind_of_mem_ops
  · exact Or.inl ⟨_, rfl⟩

namespace Document

variable {doc : Document}

/-- No path without a dot lies below another. -/
theorem cover_of_undotted
    (hdots : ∀ path ∈ doc.paths.pathsIn .modified, hasDot path = false) :
    doc.cover = (doc.paths.pathsIn .modified, doc.atomics) := by
  have hfold : ∀ (paths kept : List String) (atomics : Fields Atomics),
      (∀ path ∈ paths, hasDot path = false) →
        paths.foldl coverStep (kept, atomics) = (kept ++ paths, atomics) := by
    intro paths
    induction paths with
    | nil => simp
    | cons path rest ih =>
      intro kept atomics hall
      have hstep : coverStep (kept, atomics) path = (kept ++ [path], atomics) := by
        have hnone : kept.find? (fun ancestor => isBelow path ancestor) = none := by
          rw [List.find?_eq_none]
          intro ancestor _
          simp [isBelow_of_undotted (hall path List.mem_cons_self)]
        rw [coverStep, hnone]
      rw [List.foldl_cons, hstep, ih _ _ (fun path hmem => hall path (List.mem_cons_of_mem _ hmem)),
        List.append_assoc, List.singleton_append]
  exact hfold _ [] doc.atomics hdots

def opsFor (doc : Document) (path : String) : List DeltaOp :=
  doc.entryOps (doc.dirtyEntry path)

theorem opsFor_entryOps (doc : Document) (path : String) :
    Delta.EntryOps path (doc.opsFor path) := by
  unfold opsFor entryOps dirtyEntry
  dsimp only
  split
  · next atomics _ =>
    split
    · exact ⟨by simp, Or.inl ⟨_, rfl⟩⟩
    · refine ⟨by simp, ?_⟩
      rcases atomics.ops_kinds ((doc.get? path).getD .null) doc.dialect with ⟨op, hop⟩ | hkinds
      · exact Or.inl ⟨_, by rw [hop]; rfl⟩
      · right
        intro op hop
        obtain ⟨atomic, hatomic, rfl⟩ := List.mem_map.mp hop
        exact hkinds atomic hatomic
  · exact ⟨by simp, Or.inl ⟨_, rfl⟩⟩

/-- The delta holds for each kept path what stores it. -/
theorem ops_delta (hsorted : Fields.Sorted doc.paths.states) :
    doc.delta.1.ops = doc.kept.flatMap doc.delta.2.opsFor := by
  have hentries : doc.dirty.1 = doc.kept.map doc.dirtyEntry := fst_dirty doc
  unfold delta
  dsimp only
  rw [hentries, List.foldl_map]
  exact Delta.ops_foldl_pushAll doc.delta.2.opsFor_entryOps (nodup_kept hsorted) fun _ _ => rfl

theorem opsAt_delta (hsorted : Fields.Sorted doc.paths.states) (path : String) :
    doc.delta.1.opsAt path = if path ∈ doc.kept then doc.delta.2.opsFor path else [] := by
  rw [Delta.opsAt, ops_delta hsorted,
    Delta.filter_flatMap_entries doc.delta.2.opsFor_entryOps (nodup_kept hsorted)]

theorem ops_delta_of_undotted (hsorted : Fields.Sorted doc.paths.states)
    (hdots : ∀ path, doc.isDirectModified path = true → hasDot path = false) :
    doc.delta.1.ops = (doc.paths.pathsIn .modified).flatMap doc.opsFor := by
  have hcover : doc.cover = (doc.paths.pathsIn .modified, doc.atomics) :=
    cover_of_undotted fun path hmem => hdots path ((mem_pathsIn_iff hsorted).mp hmem)
  have hkept : doc.kept = doc.paths.pathsIn .modified :=
    congrArg Prod.fst (doc.cover_eq.symm.trans hcover)
  have hsame : doc.delta.2 = doc := by
    unfold delta dirty
    rw [hcover]
  rw [ops_delta hsorted, hkept, hsame]

/-- The delta holds for each modified path what stores it, and nothing else. -/
theorem opsAt_delta_of_undotted (hsorted : Fields.Sorted doc.paths.states)
    (hdots : ∀ path, doc.isDirectModified path = true → hasDot path = false) (path : String) :
    doc.delta.1.opsAt path = if doc.isDirectModified path then doc.opsFor path else [] := by
  have hnodup : (doc.paths.pathsIn .modified).Nodup := (hsorted.filter _).nodup
  rw [Delta.opsAt, ops_delta_of_undotted hsorted hdots,
    Delta.filter_flatMap_entries doc.opsFor_entryOps hnodup]
  simp only [mem_pathsIn_iff hsorted]

theorem get?_replay_delta (hsorted : Fields.Sorted doc.paths.states)
    (hdots : ∀ path, doc.isDirectModified path = true → hasDot path = false)
    (values : Fields Value) (path : String) :
    Fields.get? (doc.delta.1.replay values) path =
      (if doc.isDirectModified path then doc.opsFor path else []).foldl DeltaOp.changed
        (Fields.get? values path) := by
  rw [Delta.get?_replay, opsAt_delta_of_undotted hsorted hdots]
  intro op hop
  rw [ops_delta_of_undotted hsorted hdots, List.mem_flatMap] at hop
  obtain ⟨other, hother, hop⟩ := hop
  rw [(doc.opsFor_entryOps other).path op hop]
  exact hdots other ((mem_pathsIn_iff hsorted).mp hother)

end Document

end DocMapper
