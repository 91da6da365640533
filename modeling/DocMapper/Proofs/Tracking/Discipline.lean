import DocMapper.Proofs.Tracking.Minimal
import DocMapper.Proofs.Tracking.Reproduced
import DocMapper.Proofs.Tracking.Sessions
import DocMapper.Proofs.Tracking.Typed
import DocMapper.Proofs.Tracking.Unobserved
/-!
# The changes of a path

A path is changed by a single operation, or by one that puts entries beside one that removes other
keys. This hangs on what is pending for maps being tidy, which every request keeps. A container in
which something is modified is written whole, as it was collapsed when the changes were taken.
-/

namespace DocMapper

namespace Atomics

/-- No map has a key both put and removed, and none is stored by changes of its elements without
any. -/
def Tidy : Atomics → Prop
  | .list _ => True
  | .map atomics => atomics.Tidy

theorem Tidy.collapse {atomics : Atomics} (h : atomics.Tidy) : atomics.collapse.Tidy := by
  cases atomics <;> trivial

theorem tidy_clear (atomics : Atomics) : atomics.clear.Tidy := by
  cases atomics <;> trivial

theorem inParts_of_not_pending {atomics : Atomics} (h : atomics.isPending = false) :
    atomics.inParts = false := by
  match atomics with
  | .list .clean => rfl
  | .list .set | .list (.add _) | .list (.remove _) => cases h
  | .map .clean => rfl
  | .map .set | .map (.pending _ _) => cases h

/-- A single operation, or entries that are put beside keys that are removed. -/
inductive Orderly : List AtomicOp → Prop
  | single (op : AtomicOp) : Orderly [op]
  | both (puts : Fields Value) (keys : List String)
      (hapart : ∀ key ∈ keys, Fields.get? puts key = none) :
      Orderly [⟨.put, .map puts⟩, ⟨.remove, singleOrList (keys.map .string)⟩]

end Atomics

theorem MapAtomics.Tidy.orderly_ops {atomics : MapAtomics} (h : atomics.Tidy)
    (entries : Fields Value) : Atomics.Orderly (atomics.ops entries) := by
  match atomics with
  | .clean | .set => exact .single _
  | .pending puts removes =>
    obtain ⟨hapart, -, hsome⟩ := h
    match puts, removes with
    | [], [] => exact absurd hsome (by simp)
    | [], key :: keys => exact .single _
    | put :: puts, [] => exact .single _
    | put :: puts, key :: keys => exact .both _ _ hapart

theorem Atomics.Tidy.orderly_ops {atomics : Atomics} (h : atomics.Tidy) (current : Value)
    (dialect : Dialect) : Orderly (atomics.ops current dialect) := by
  unfold Atomics.ops
  split
  · exact .single _
  · exact MapAtomics.Tidy.orderly_ops h _
  · exact .single _

namespace Document

/-- Documents made anew or from a record, and then asked for whatever a document answers. -/
inductive Served : Document → Prop
  | new (schema : Schema) : Served (new schema)
  | hydrate {schema : Schema} {record : Fields Value} {selection? : Option Selection}
      {doc : Document} (hload : hydrate schema record selection? = .ok doc) : Served doc
  | dialect {doc : Document} (h : Served doc) (dialect : Dialect) :
      Served { doc with dialect := dialect }
  | request {doc : Document} (h : Served doc) (request : Request) : Served (doc.respond request).2

/-- What is pending anywhere is tidy. -/
def Tidy (doc : Document) : Prop :=
  ∀ entry ∈ doc.atomics, entry.2.Tidy

variable {doc next : Document} {path : String}

theorem Served.reachable (h : doc.Served) : doc.Reachable := by
  induction h with
  | new schema => exact .new schema
  | hydrate hload => exact .hydrate hload
  | dialect _ dialect ih => exact ih.dialect dialect
  | request _ request ih => exact ih.respond request

theorem Served.serve (h : doc.Served) (requests : List Request) :
    (doc.serve requests).2.Served := by
  induction requests generalizing doc with
  | nil => exact h
  | cons request rest ih => exact ih (h.request request)

/-! ### Requests keep what is pending tidy -/

theorem Tidy.settled (h : doc.Tidy) (hsettles : Settles doc.atomics next.atomics) : next.Tidy := by
  intro entry hmem
  obtain ⟨atomics, hbefore, hentry⟩ := hsettles entry hmem
  have htidy : atomics.Tidy := h _ hbefore
  rcases hentry with heq | heq | heq
  · exact heq ▸ htidy
  · exact heq ▸ htidy.collapse
  · exact heq ▸ atomics.tidy_clear

theorem Tidy.closeAt (h : doc.Tidy) (container : Value) {atomics : Atomics} (htidy : atomics.Tidy)
    (touched : Bool) : (doc.closeAt path container atomics touched).Tidy := by
  intro entry hmem
  rw [atomics_closeAt] at hmem
  rcases Fields.mem_put hmem with rfl | hmem
  · exact htidy
  · exact h entry hmem

theorem Tidy.withContainer (h : doc.Tidy) (path : String) (container : Value) :
    (doc.withContainer path container).Tidy := by
  unfold Tidy
  rw [atomics_withContainer]
  exact h

theorem Tidy.mapAtomics (h : doc.Tidy) (path : String) : (doc.mapAtomics path).Tidy := by
  unfold Document.mapAtomics
  split
  · next atomics hslot => exact h _ (Fields.mem_names_of_get? hslot)
  · trivial
  · trivial

theorem Tidy.perform (h : doc.Tidy) {op : Operation} (hperform : doc.perform op = .ok next) :
    next.Tidy := by
  cases op with
  | set path v =>
    obtain ⟨w, -, rfl⟩ := set_eq_ok hperform
    exact h.settled (doc.settles_assign path _)
  | unset path => exact Except.ok.inj hperform ▸ h.settled (doc.settles_assign path none)
  | mark path =>
    obtain rfl := Except.ok.inj hperform
    exact h
  | list path edits =>
    obtain ⟨items, -, rfl⟩ := perform_list_eq_ok hperform
    refine (h.withContainer path _).closeAt _ ?_ _
    trivial
  | map path edits =>
    obtain ⟨entries, -, rfl⟩ := perform_map_eq_ok hperform
    have hopened := h.withContainer path (.map [])
    have hview : ((doc.withContainer path (.map [])).mapView path entries).atomics.Tidy :=
      hopened.mapAtomics path
    refine hopened.closeAt _ ?_ _
    exact MapView.tidy_edits hview edits
  | reset => exact Except.ok.inj hperform ▸ h.settled doc.settles_reset
  | save conn => exact Except.ok.inj hperform ▸ h.settled (doc.settles_save conn)

theorem Tidy.respond (h : doc.Tidy) (request : Request) : (doc.respond request).2.Tidy := by
  cases request with
  | perform op =>
    rw [respond_perform]
    cases hperform : doc.perform op with
    | ok next => exact h.perform hperform
    | error e => exact h
  | dirty | delta => exact h.settled doc.settles_delta

theorem Tidy.fillDefault (h : doc.Tidy) (path : String) : (doc.fillDefault path).Tidy := by
  unfold Document.fillDefault
  split <;> exact h

theorem Tidy.loadEntry (h : doc.Tidy) {entry : String × Value}
    (hload : doc.loadEntry entry = .ok next) : next.Tidy := by
  unfold Document.loadEntry at hload
  split at hload
  · obtain ⟨id, -, rfl⟩ := Success.map_eq_ok.mp hload
    exact h
  split at hload
  · cases hload
    exact h
  split at hload
  · cases hload
  · cases hload
    exact h

theorem Served.tidy (h : doc.Served) : doc.Tidy := by
  induction h with
  | new schema => exact holds_new (P := Tidy) nofun fun doc path h => h.fillDefault path
  | hydrate hload =>
    exact holds_of_hydrate (P := Tidy) nofun (fun h hentry => h.loadEntry hentry)
      (fun doc path h => h.fillDefault path) hload
  | dialect _ dialect ih => exact ih
  | request _ request ih => exact ih.respond request

/-! ### The operations of one path -/

theorem Tidy.orderly_opsFor (h : doc.Tidy) (path : String) :
    ∃ ops, Atomics.Orderly ops ∧
      doc.opsFor path = ops.map fun op => ⟨op.kind, path, op.operand⟩ := by
  unfold opsFor entryOps dirtyEntry
  dsimp only
  split
  · next atomics hslot =>
    split
    · exact ⟨[⟨.set, _⟩], .single _, rfl⟩
    · exact ⟨_, (h _ (Fields.mem_names_of_get? hslot)).orderly_ops _ _, rfl⟩
  · exact ⟨[⟨.set, _⟩], .single _, rfl⟩

/-- What is pending for a kept path gives way when something below it is modified. -/
theorem inParts_delta_of_top (htop : path ∈ doc.tops) : doc.delta.2.inParts path = false := by
  have hatomics : doc.delta.2.atomics = collapseWhere doc.isTopped doc.atomics :=
    congrArg (fun outcome => outcome.2.atomics) doc.dirty_eq
  rw [inParts, hatomics, get?_collapseWhere]
  cases Fields.get? doc.atomics path with
  | none => rfl
  | some atomics =>
    have htopped : doc.isTopped path atomics.isPending = atomics.isPending := by
      simp [isTopped, htop]
    rw [Option.map_some, htopped, Option.any_some]
    cases hpending : atomics.isPending with
    | true => exact atomics.inParts_collapse
    | false => exact Atomics.inParts_of_not_pending hpending

section Delta

variable (hsorted : Fields.Sorted doc.paths.states)

include hsorted

theorem mem_ops_delta_iff {op : DeltaOp} :
    op ∈ doc.delta.1.ops ↔ op.path ∈ doc.kept ∧ op ∈ doc.delta.2.opsFor op.path := by
  rw [ops_delta hsorted, List.mem_flatMap]
  constructor
  · rintro ⟨path, hkept, hop⟩
    have hpath := (doc.delta.2.opsFor_entryOps path).path op hop
    rw [hpath]
    exact ⟨hkept, hop⟩
  · rintro ⟨hkept, hop⟩
    exact ⟨op.path, hkept, hop⟩

theorem unmodified_below_of_parts {op : DeltaOp} (hop : op ∈ doc.delta.1.ops)
    (hkind : op.kind ≠ .set) {below : String} (hmodified : doc.isDirectModified below = true) :
    isBelow below op.path = false := by
  obtain ⟨hkept, hown⟩ := (mem_ops_delta_iff hsorted).mp hop
  rw [Bool.eq_false_iff]
  intro hbelow
  have hmem : below ∈ doc.paths.pathsIn .modified := (mem_pathsIn_iff hsorted).mpr hmodified
  have htop : op.path ∈ doc.tops :=
    mem_tops_of_isBelow (hsorted.filter _) (fun _ => nofun) hkept hmem hbelow
  rw [opsFor_set (Or.inl (inParts_delta_of_top htop)), List.mem_singleton] at hown
  exact hkind (congrArg DeltaOp.kind hown)

variable (htidy : doc.delta.2.Tidy)

include htidy

theorem mem_path_ops_iff : path ∈ doc.delta.1.ops.map DeltaOp.path ↔ path ∈ doc.kept := by
  rw [List.mem_map]
  constructor
  · rintro ⟨op, hop, rfl⟩
    exact ((mem_ops_delta_iff hsorted).mp hop).1
  · intro hkept
    have hsome : ∃ op, op ∈ doc.delta.2.opsFor path := by
      obtain ⟨ops, horderly, hops⟩ := htidy.orderly_opsFor path
      rw [hops]
      cases horderly <;> exact ⟨_, List.mem_cons_self⟩
    obtain ⟨op, hop⟩ := hsome
    have hpath := (doc.delta.2.opsFor_entryOps path).path op hop
    exact ⟨op, (mem_ops_delta_iff hsorted).mpr (hpath.symm ▸ ⟨hkept, hop⟩), hpath⟩

theorem isEmpty_delta_iff :
    doc.delta.1.isEmpty = true ↔ ∀ path, doc.isDirectModified path = false := by
  rw [Delta.isEmpty, List.isEmpty_iff]
  constructor
  · intro hempty path
    rw [Bool.eq_false_iff]
    intro hmodified
    obtain ⟨top, htop, -⟩ := exists_kept_of_modified hsorted hmodified
    have hmem := (mem_path_ops_iff hsorted htidy).mpr htop
    rw [hempty] at hmem
    cases hmem
  · intro hnothing
    rw [List.eq_nil_iff_forall_not_mem]
    intro op hop
    have hmodified := ((mem_kept_iff hsorted).mp ((mem_ops_delta_iff hsorted).mp hop).1).1
    rw [hnothing] at hmodified
    cases hmodified

theorem opsAt_delta_of_set {op : DeltaOp} (hop : op ∈ doc.delta.1.ops) (hkind : op.kind = .set) :
    doc.delta.1.opsAt op.path = [op] := by
  obtain ⟨hkept, hown⟩ := (mem_ops_delta_iff hsorted).mp hop
  obtain ⟨ops, horderly, hops⟩ := htidy.orderly_opsFor op.path
  rw [opsAt_delta hsorted, if_pos hkept]
  rw [hops] at hown ⊢
  cases horderly with
  | single single => exact congrArg (fun op => [op]) (List.mem_singleton.mp hown).symm
  | both puts keys =>
    rcases List.mem_pair.mp hown with heq | heq <;> rw [heq] at hkind <;> cases hkind

theorem opsAt_delta_of_several (hseveral : 1 < (doc.delta.1.opsAt path).length) :
    ∃ (puts : Fields Value) (keys : List String), doc.delta.1.opsAt path =
        [⟨.put, path, .map puts⟩, ⟨.remove, path, singleOrList (keys.map .string)⟩] ∧
      ∀ key ∈ keys, Fields.get? puts key = none := by
  rw [opsAt_delta hsorted] at hseveral ⊢
  split at hseveral
  · next hkept =>
    obtain ⟨ops, horderly, hops⟩ := htidy.orderly_opsFor path
    rw [if_pos hkept]
    rw [hops] at hseveral ⊢
    cases horderly with
    | single => exact absurd hseveral (lt_irrefl 1)
    | both puts keys hapart => exact ⟨puts, keys, rfl, hapart⟩
  · cases hseveral

end Delta

/-- How the changes of a document are made up. -/
structure Disciplined (doc : Document) (delta : Delta) : Prop where
  empty : delta.isEmpty = true ↔ ∀ path, doc.isDirectModified path = false
  paths : ∀ path, path ∈ delta.ops.map DeltaOp.path ↔ path ∈ doc.dirty.1.map DirtyEntry.path
  /-- A path that is set has no other operation. -/
  whole : ∀ op ∈ delta.ops, op.kind = .set → delta.opsAt op.path = [op]
  /-- Several operations of a path put entries and remove keys, and none of these is put. -/
  several : ∀ path, 1 < (delta.opsAt path).length →
    ∃ (puts : Fields Value) (keys : List String), delta.opsAt path =
        [⟨.put, path, .map puts⟩, ⟨.remove, path, singleOrList (keys.map .string)⟩] ∧
      ∀ key ∈ keys, Fields.get? puts key = none
  /-- Where elements are changed nothing below is modified. -/
  parts : ∀ op ∈ delta.ops, op.kind ≠ .set →
    ∀ below, doc.isDirectModified below = true → isBelow below op.path = false

/-- The delta is empty exactly if nothing is modified, and has operations for the paths to be stored
and no others. A path is written whole or has its elements changed, by at most one operation for
those that come and one for those that go. -/
theorem delta_disciplined (h : doc.Served) : Disciplined doc doc.delta.1 := by
  have hsorted : Fields.Sorted doc.paths.states := h.reachable.sorted
  have htidy : doc.delta.2.Tidy := h.tidy.settled doc.settles_delta
  exact {
    empty := isEmpty_delta_iff hsorted htidy
    paths := fun path => by rw [path_fst_dirty, mem_path_ops_iff hsorted htidy]
    whole := fun op hop hkind => opsAt_delta_of_set hsorted htidy hop hkind
    several := fun path hseveral => opsAt_delta_of_several hsorted htidy hseveral
    parts := fun op hop hkind below hmodified =>
      unmodified_below_of_parts hsorted hop hkind hmodified }

/-- A map of which one entry comes and one goes, and a list that grew before its first item was
marked. -/
theorem delta_disciplined_described :
    ∃ doc last, hydrate (.empty "User")
        [("attrs", .map [("size", .int 1)]), ("tags", .list [.string "a"])] none = .ok doc ∧
      last = (doc.serve [.perform (.map "attrs" [.put "color" (.string "red"), .remove ["size"]]),
        .perform (.list "tags" [.push [.string "b"]]), .perform (.mark "tags.0")]).2 ∧
      last.delta.1.ops = [⟨.put, "attrs", .map [("color", .string "red")]⟩,
        ⟨.remove, "attrs", .string "size"⟩, ⟨.set, "tags", .list [.string "a", .string "b"]⟩] ∧
      Disciplined last last.delta.1 := by
  have hload : ∃ doc, hydrate (.empty "User")
      [("attrs", .map [("size", .int 1)]), ("tags", .list [.string "a"])] none = .ok doc := ⟨_, rfl⟩
  obtain ⟨doc, hload⟩ := hload
  have hlast := delta_disciplined ((Served.hydrate hload).serve
    [.perform (.map "attrs" [.put "color" (.string "red"), .remove ["size"]]),
      .perform (.list "tags" [.push [.string "b"]]), .perform (.mark "tags.0")])
  obtain rfl := Except.ok.inj hload
  exact ⟨_, _, hload, rfl, rfl, hlast⟩

end Document

end DocMapper
