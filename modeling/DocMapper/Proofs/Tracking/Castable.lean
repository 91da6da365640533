import DocMapper.Proofs.Compile.Failures
import DocMapper.Proofs.Tracking.Replay
import DocMapper.Proofs.Tracking.Typed
/-!
# Statements of documents that hold their types

What a document stores is cast again when its statement is written. The values it holds are taken by
their types, whole or element by element, so the cast of a stored field never fails. A path with
dots may be declared too, but nothing keeps what lies there in shape.
-/

namespace DocMapper

/-! ### From a delta to a statement -/

/-- The operand of a change as it stands in a statement. -/
def ChangeKind.stored (kind : ChangeKind) (operand : Value) : Value :=
  match kind with
  | .put => .map (Fields.ofList (operand.map?.getD []))
  | _ => operand

def DeltaOp.change (op : DeltaOp) : Change :=
  ⟨op.kind, op.path, .value (op.kind.stored op.operand)⟩

/-- A statement with changes of a delta behind its own. -/
def Statement.Extends (s : Statement) (ops : List DeltaOp) (s' : Statement) : Prop :=
  ∃ changes, s' = { s with changes := s.changes ++ changes } ∧
    ∀ change ∈ changes, ∃ op ∈ ops, change = op.change

namespace Statement

variable {s s' s'' : Statement} {ops : List DeltaOp}

theorem extends_self (s : Statement) (ops : List DeltaOp) : s.Extends ops s := by
  refine ⟨[], ?_, nofun⟩
  obtain ⟨frame, sources, lets, conditions, changes⟩ := s
  simp

theorem Extends.trans (h : s.Extends ops s') (h' : s'.Extends ops s'') : s.Extends ops s'' := by
  obtain ⟨changes, rfl, hchanges⟩ := h
  obtain ⟨more, rfl, hmore⟩ := h'
  exact ⟨changes ++ more, by simp [List.append_assoc], List.forall_mem_append.mpr ⟨hchanges, hmore⟩⟩

end Statement

namespace Delta

variable {delta : Delta} {s : Statement}

theorem extends_addChanges (delta : Delta) (kind : ChangeKind) (hkind : kind ≠ .put)
    (s : Statement) : s.Extends delta.ops (s.addChanges kind (delta.pairs kind)) := by
  refine ⟨_, rfl, fun change hmem => ?_⟩
  obtain ⟨pair, hpair, rfl⟩ := List.mem_map.mp hmem
  obtain ⟨op, hop, rfl⟩ := List.mem_map.mp hpair
  obtain ⟨hdelta, hof⟩ := List.mem_filter.mp hop
  have hsame : op.kind = kind := by simpa using hof
  subst hsame
  refine ⟨op, hdelta, ?_⟩
  have hstored : op.kind.stored op.operand = op.operand := by
    unfold ChangeKind.stored
    split
    · next hput => exact absurd hput hkind
    · rfl
  rw [DeltaOp.change, hstored]

theorem extends_puts {ops all : List DeltaOp} (h : ∀ op ∈ ops, op ∈ all ∧ op.kind = .put)
    (s : Statement) : s.Extends all
      (ops.foldl (fun s op => s.put op.path (op.operand.map?.getD [])) s) := by
  induction ops generalizing s with
  | nil => exact s.extends_self all
  | cons op rest ih =>
    obtain ⟨⟨hmem, hkind⟩, hrest⟩ := List.forall_mem_cons.mp h
    have hfirst : s.Extends all (s.put op.path (op.operand.map?.getD [])) := by
      unfold Statement.put
      split
      · exact s.extends_self all
      · refine ⟨_, rfl, List.forall_mem_singleton.mpr ⟨op, hmem, ?_⟩⟩
        rw [DeltaOp.change, hkind]
        rfl
    exact hfirst.trans (ih hrest _)

theorem extends_apply (delta : Delta) (s : Statement) :
    s.Extends delta.ops (delta.apply s) := by
  unfold apply
  have hputs : ∀ op ∈ delta.opsOf .put, op ∈ delta.ops ∧ op.kind = .put := by
    intro op hmem
    obtain ⟨hdelta, hof⟩ := List.mem_filter.mp hmem
    exact ⟨hdelta, by simpa using hof⟩
  exact ((((delta.extends_addChanges .set nofun s).trans
    (delta.extends_addChanges .increment nofun _)).trans
    (delta.extends_addChanges .add nofun _)).trans
    (delta.extends_addChanges .remove nofun _)).trans (extends_puts hputs _)

theorem mem_pushAll {ops : List DeltaOp} {op : DeltaOp} (h : op ∈ (delta.pushAll ops).ops) :
    op ∈ delta.ops ∨ op ∈ ops := by
  induction ops generalizing delta with
  | nil => exact Or.inl h
  | cons first rest ih =>
    rcases ih h with hmem | hmem
    · unfold push at hmem
      split at hmem
      · exact Or.inl hmem
      · exact (List.mem_append.mp hmem).imp_right fun hfirst =>
          List.mem_cons.mpr (Or.inl (List.mem_singleton.mp hfirst))
    · exact Or.inr (List.mem_cons_of_mem first hmem)

end Delta

/-! ### What types take of the changes of containers -/

namespace FieldType

variable {ty : FieldType}

theorem takesChange_set {v : Value} (h : ty.Holds v) : ty.TakesChange .set v :=
  accepts_of_holds h

theorem takesChange_listOp {atomics : ListAtomics} {current : List Value}
    (hcurrent : ty.Holds (.list current)) (hpending : ty.Holds (.list atomics.values))
    (structuredAsSet : Bool) {op : AtomicOp} (hop : op = atomics.op current structuredAsSet) :
    ty.TakesChange op.kind (op.kind.stored op.operand) := by
  cases atomics with
  | clean | set =>
    subst hop
    exact takesChange_set hcurrent
  | add values =>
    subst hop
    exact accepts_singleOrList hpending
  | remove values =>
    rw [ListAtomics.op] at hop
    split at hop
    · subst hop
      exact takesChange_set hcurrent
    · subst hop
      exact fun _ => accepts_itemsOf_singleOrList (holds_list_iff.mp hpending).2

theorem takesChange_removedKeys (h : ty.Holds (.map [])) (v : Value) :
    ty.TakesChange .remove v := by
  intro hcontainer
  cases ty with
  | list | set => cases h
  | _ => simp [container?] at hcontainer

theorem takesChange_mapOp {atomics : MapAtomics} {current : Fields Value}
    (hcurrent : ty.Holds (.map current)) (hpending : ty.Holds (.map atomics.puts))
    {op : AtomicOp} (hop : op ∈ atomics.ops current) :
    ty.TakesChange op.kind (op.kind.stored op.operand) := by
  cases atomics with
  | clean | set =>
    obtain rfl := List.mem_singleton.mp hop
    exact takesChange_set hcurrent
  | pending puts removes =>
    rcases List.mem_append.mp hop with hput | hremove
    · split at hput
      · cases hput
      · obtain rfl := List.mem_singleton.mp hput
        have hputs : ty.Holds (.map (Fields.ofList puts)) :=
          holds_map_of_subset hpending fun entry hmem => (Fields.mem_merge hmem).resolve_left nofun
        exact accepts_of_holds hputs
    · split at hremove
      · cases hremove
      · obtain rfl := List.mem_singleton.mp hremove
        exact takesChange_removedKeys (holds_map_empty hcurrent) _

theorem takesChange_op {atomics : Atomics} {current : Value} {dialect : Dialect}
    (hcurrent : ty.Holds current) (hpending : ty.Holds atomics.contents) {op : AtomicOp}
    (hop : op ∈ atomics.ops current dialect) :
    ty.TakesChange op.kind (op.kind.stored op.operand) := by
  unfold Atomics.ops at hop
  split at hop
  · exact takesChange_listOp hcurrent hpending _ (List.mem_singleton.mp hop)
  · exact takesChange_mapOp hcurrent hpending hop
  · obtain rfl := List.mem_singleton.mp hop
    exact takesChange_set hcurrent

end FieldType

namespace Document

variable {doc : Document} {path : String}

/-! ### The changes of a document -/

/-- The type of a field takes every change that stores the field. -/
theorem Typed.takesChange (h : doc.Typed) (hdot : hasDot path = false) {field : Field}
    (hfield : doc.schema.field? path = some field) :
    ∀ op ∈ doc.opsFor path, field.type.TakesChange op.kind (op.kind.stored op.operand) := by
  have hcurrent : field.type.Holds ((doc.get? path).getD .null) := by
    cases hget : doc.get? path with
    | none => exact FieldType.holds_null _
    | some v => exact h.get? hdot hget field hfield
  have hwhole : field.type.TakesChange .set ((doc.get? path).getD .null) :=
    FieldType.takesChange_set hcurrent
  unfold opsFor entryOps dirtyEntry
  dsimp only
  split
  · next atomics hslot =>
    have hpending := h.pending _ (Fields.mem_names_of_get? hslot) hdot field hfield
    split
    · exact List.forall_mem_singleton.mpr hwhole
    · exact List.forall_mem_map.mpr fun op hop => FieldType.takesChange_op hcurrent hpending hop
  · exact List.forall_mem_singleton.mpr hwhole

theorem mem_ops_delta {op : DeltaOp} (h : op ∈ doc.delta.1.ops) :
    ∃ path, op ∈ doc.delta.2.opsFor path := by
  have hfold : ∀ (paths : List String) (delta : Delta),
      op ∈ (paths.foldl (fun delta path => delta.pushAll (doc.delta.2.opsFor path)) delta).ops →
        op ∈ delta.ops ∨ ∃ path, op ∈ doc.delta.2.opsFor path := by
    intro paths
    induction paths with
    | nil => exact fun delta hmem => Or.inl hmem
    | cons first rest ih =>
      intro delta hmem
      rcases ih _ hmem with hpush | hlater
      · exact (Delta.mem_pushAll hpush).imp_right fun hfirst => ⟨first, hfirst⟩
      · exact Or.inr hlater
  have hops : doc.delta.1 = doc.cover.1.foldl
      (fun delta path => delta.pushAll (doc.delta.2.opsFor path)) ⟨doc.rid?, []⟩ :=
    List.foldl_map
  rw [hops] at h
  exact (hfold _ _ h).resolve_left nofun

/-! ### Casting again -/

theorem changesOnly_toInsert (doc : Document) : doc.toInsert.ChangesOnly where
  error := rfl
  projections := rfl
  content := rfl
  merge := rfl
  sources := rfl
  lets := rfl
  conditions := rfl
  changes := by
    intro change hmem
    obtain ⟨entry, -, rfl⟩ := List.mem_map.mp hmem
    exact ⟨entry.2, rfl⟩

theorem Typed.compile_toInsert (h : doc.Typed) (config : Config) :
    ∃ sql, doc.toInsert.compile config = .ok sql := by
  refine (Statement.compile_changesOnly doc.changesOnly_toInsert rfl config).resolve_right ?_
  rintro ⟨e, -, schema, kind, path, v, hschema, hmem, field, failure, hfield, hnot, -⟩
  obtain rfl : doc.schema = schema := Option.some.inj hschema
  obtain ⟨entry, hentry, heq⟩ := List.mem_map.mp hmem
  cases heq
  exact hnot (FieldType.takesChange_set (h.values entry hentry field hfield))

theorem toUpdate_eq_ok {s : Statement} (h : doc.toUpdate.1 = .ok (some s)) :
    s.ChangesOnly ∧ s.frame.schema? = some doc.schema ∧
      ∀ change ∈ s.changes, ∃ op ∈ doc.delta.1.ops, change = op.change := by
  unfold toUpdate at h
  dsimp only at h
  split at h
  · cases h
  · split at h
    · cases h
    · next id _ =>
      have happly := doc.delta.1.extends_apply
        ((Statement.update id.text).setSchema doc.delta.2.schema)
      obtain ⟨changes, hs, hchanges⟩ := happly
      rw [hs] at h
      obtain rfl := Option.some.inj (Except.ok.inj h)
      refine ⟨⟨rfl, rfl, rfl, rfl, rfl, rfl, rfl, ?_⟩, rfl, hchanges⟩
      intro change hmem
      obtain ⟨op, -, rfl⟩ := hchanges change hmem
      exact ⟨_, rfl⟩

theorem Typed.compile_toUpdate (h : doc.Typed) {s : Statement}
    (hs : doc.toUpdate.1 = .ok (some s)) (config : Config) :
    (∃ sql, s.compile config = .ok sql) ∨ ∃ failure, s.compile config = .error (.cast failure) ∧
      hasDot failure.path = true ∧ doc.schema.has failure.path = true := by
  obtain ⟨honly, hschema, hchanges⟩ := toUpdate_eq_ok hs
  refine (Statement.compile_changesOnly honly hschema config).imp_right ?_
  rintro ⟨e, herror, schema, kind, path, v, hsame, hmem, field, failure, hfield, hnot, rfl, hpath⟩
  obtain rfl : doc.schema = schema := Option.some.inj (hschema.symm.trans hsame)
  refine ⟨failure, herror, ?_, ?_⟩
  · by_contra hdot
    -- Without a dot the change would be one that its type takes.
    obtain ⟨op, hop, heq⟩ := hchanges _ hmem
    obtain ⟨dirty, hdirty⟩ := mem_ops_delta hop
    have hop : op.path = dirty := (doc.delta.2.opsFor_entryOps dirty).path op hdirty
    cases heq
    rw [hpath, hop] at hdot
    rw [hop] at hfield
    exact hnot (h.delta.takesChange (by simpa using hdot) hfield op hdirty)
  · rw [hpath, Schema.has, hfield]
    rfl

/-- A document whose operations leave the declared fields they reach into their shape holds a value
of the declared type, or null, at every declared path without dots. Casting it again to insert it
does not fail, and to update it fails only where a path with dots is declared itself. -/
theorem fields_keep_types (h : Worked Admits doc) (hdefaults : doc.schema.DefaultsHold) :
    (∀ path v, hasDot path = false → doc.get? path = some v → doc.schema.Holds path v) ∧
    (∀ config, ∃ sql, doc.toInsert.compile config = .ok sql) ∧
    ∀ s, doc.toUpdate.1 = .ok (some s) → ∀ config, (∃ sql, s.compile config = .ok sql) ∨
      ∃ failure, s.compile config = .error (.cast failure) ∧
        hasDot failure.path = true ∧ doc.schema.has failure.path = true := by
  have htyped : doc.Typed := h.typed hdefaults
  refine ⟨fun path v hdot hget => htyped.get? hdot hget, htyped.compile_toInsert, ?_⟩
  exact fun s hs => htyped.compile_toUpdate hs

def profile : Schema :=
  ⟨"Profile", [("name", { Field.ofType .string with default? := some (.string "anonymous") }),
    ("sizes", .ofType (.map .integer)), ("tags", .ofType (.list .string))]⟩

theorem undotted_of_profile (h : profile.has path = true) : hasDot path = false := by
  have hdots : ∀ entry ∈ profile.fields, hasDot entry.1 = false := by
    simp only [profile, List.forall_mem_cons]
    exact ⟨by decide, by decide, by decide, nofun⟩
  obtain ⟨entry, hmem, hname⟩ := List.lookup_isSome_iff.mp h
  rw [eq_of_beq hname]
  exact hdots entry hmem

/-- A profile as it is loaded, without sizes. -/
def storedProfile : Document where
  schema := profile
  dialect := .default
  rid? := some ⟨5, 1⟩
  values := [("name", .string "Ada")]
  paths := ⟨[("name", .loaded)]⟩
  atomics := []
  selection? := none
  isNew := false

def fitted : Document :=
  storedProfile.assign "sizes.shoe" (some (.int 43))

/-- No field of a profile has a name with dots, so updating one does not fail either. -/
theorem fields_keep_types_fitted :
    profile.DefaultsHold ∧
    hydrate profile [("@rid", .link ⟨5, 1⟩), ("name", .string "Ada")] none = .ok storedProfile ∧
    storedProfile.set "sizes.shoe" (.int 43) = .ok fitted ∧
    fitted.get? "sizes" = some (.map [("shoe", .int 43)]) ∧
    (∀ path v, hasDot path = false → fitted.get? path = some v → profile.Holds path v) ∧
    (∀ config, ∃ sql, fitted.toInsert.compile config = .ok sql) ∧
    ∃ s, fitted.toUpdate.1 = .ok (some s) ∧ ∀ config, ∃ sql, s.compile config = .ok sql := by
  have hload : hydrate profile [("@rid", .link ⟨5, 1⟩), ("name", .string "Ada")] none =
    .ok storedProfile := rfl
  have hset : storedProfile.set "sizes.shoe" (.int 43) = .ok fitted := rfl
  have hdefaults : profile.DefaultsHold := by
    apply Schema.defaultsHold_of_fields
    simp [profile, Field.ofType, FieldType.Holds]
  have hadmits : Admits storedProfile (.set "sizes.shoe" (.int 43)) := by
    intro _ next path v hperform hpath hget head rest hsegments field hfield
    obtain rfl := Except.ok.inj (hset.symm.trans hperform)
    obtain rfl := Option.some.inj hpath
    have hleft : fitted.get? "sizes.shoe" = some (.int 43) := rfl
    obtain rfl := Option.some.inj (hleft.symm.trans hget)
    have hpieces : segments "sizes.shoe" = ["sizes", "shoe"] := by decide
    obtain ⟨rfl, rfl⟩ := List.cons.inj (hpieces.symm.trans hsegments)
    obtain rfl := Option.some.inj hfield
    trivial
  obtain ⟨hholds, hinsert, hupdate⟩ :=
    fields_keep_types (.step (.hydrate hload) hadmits hset) hdefaults
  refine ⟨hdefaults, hload, hset, rfl, hholds, hinsert, _, rfl, fun config => ?_⟩
  refine (hupdate _ rfl config).resolve_right ?_
  rintro ⟨failure, -, hdot, hdeclared⟩
  rw [undotted_of_profile hdeclared] at hdot
  cases hdot

def stringName : Schema :=
  ⟨"User", [("name", .ofType .string)]⟩

def dottedName : Schema :=
  ⟨"User", [("a.b", .ofType .integer)]⟩

/-- A value set below a string takes its place, and so does a list opened where the string is
missing. A declared path with dots is no safer. -/
theorem types_not_kept :
    (∃ doc, (new stringName).set "name.first" (.string "Ada") = .ok doc ∧
      doc.get? "name" = some (.map [("first", .string "Ada")]) ∧
      doc.toInsert.compile .default =
        .error (.cast ⟨"String", "\x7b\"first\": \"Ada\"\x7d", "name"⟩)) ∧
    (∃ doc, (new stringName).perform (.list "name" []) = .ok doc ∧
      doc.get? "name" = some (.list []) ∧
      doc.toInsert.compile .default = .error (.cast ⟨"String", "[]", "name"⟩)) ∧
    ∃ loaded first second s, hydrate dottedName [("@rid", .link ⟨5, 1⟩)] none = .ok loaded ∧
      loaded.set "a.b" (.int 1) = .ok first ∧ first.set "a.b.c" (.int 5) = .ok second ∧
      second.toUpdate.1 = .ok (some s) ∧
      s.compile .default = .error (.cast ⟨"Integer", "\x7b\"c\": 5\x7d", "a.b"⟩) :=
  ⟨⟨_, rfl, rfl, castFailure?_eq_some.mp (by decide +kernel)⟩,
    ⟨_, rfl, rfl, castFailure?_eq_some.mp (by decide +kernel)⟩,
    _, _, _, _, rfl, rfl, rfl, rfl, castFailure?_eq_some.mp (by decide +kernel)⟩

end Document

end DocMapper
