import DocMapper.Proofs.Tracking.Alike
/-!
# Taking the changes is not observed

Finding out what has to be stored writes a covered container whole, where a path below it is
modified. As long as that path stays modified the container is written whole anyway, and a reset
forgets both. So two documents that differ in nothing but pending changes of covered containers
reply the same to every request, and still differ in nothing else.
-/

namespace DocMapper

/-- Whether a path below is modified. -/
def PathStates.Covers (p : PathStates) (path : String) : Prop :=
  ∃ below, p.state? below = some .modified ∧ isBelow below path = true

theorem PathStates.Covers.enter {p : PathStates} {path : String} (h : p.Covers path)
    (marked : String) : (p.enter marked .modified).Covers path := by
  obtain ⟨below, hstate, hbelow⟩ := h
  refine ⟨below, ?_, hbelow⟩
  rw [Document.state?_enter]
  split
  · rfl
  · exact hstate

namespace Document

/-- The documents differ at most in pending changes that come to the same. -/
inductive Alike (doc : Document) : Document → Prop
  | mk {slots : Fields Atomics} (h : SlotsAlike doc.paths.Covers doc.atomics slots) :
      Alike doc { doc with atomics := slots }

variable {doc other : Document} {path : String}

theorem Alike.markModified (h : Alike doc other) (path : String) :
    Alike (doc.markModified path) (other.markModified path) := by
  cases h with
  | mk hslots => exact .mk (hslots.mono fun _ hcovers => hcovers.enter path)

/-- Whether a container gives way to an assignment: that of a marked path itself, and those in which
the path lies. -/
def givesWay (doc : Document) (path slot : String) (pending : Bool) : Bool :=
  (slot = path && doc.isDirectModified path) || (isBelow path slot && pending)

theorem collapseAround_eq (doc : Document) (path : String) :
    doc.collapseAround path = collapseWhere (doc.givesWay path) doc.atomics := by
  apply List.map_congr_left
  intro entry _
  rw [givesWay]
  split <;> rfl

theorem Alike.write (h : Alike doc other) (path : String) (v? : Option Value) :
    Alike { doc with atomics := doc.collapseAround path, values := writeAt doc.values path v? }
      { other with
        atomics := other.collapseAround path, values := writeAt other.values path v? } := by
  cases h with
  | mk hslots =>
    rw [collapseAround_eq, collapseAround_eq]
    exact .mk (hslots.collapseWhere (doc.givesWay path))

theorem Alike.assign (h : Alike doc other) (path : String) (v? : Option Value) :
    Alike (doc.assign path v?) (other.assign path v?) := by
  have hmark : other.pathToMark path = doc.pathToMark path := by
    cases h
    rfl
  have hmodify : other.shouldModify (doc.pathToMark path) path v? =
      doc.shouldModify (doc.pathToMark path) path v? := by
    cases h
    rfl
  unfold Document.assign
  dsimp only
  rw [hmark, hmodify]
  split
  · exact (h.markModified (doc.pathToMark path)).write path v?
  · exact h.write path v?

theorem Alike.set (h : Alike doc other) (path : String) (v : Value) :
    AgreeIfAny Alike ((doc.set path v).map (Reply.done, ·))
      ((other.set path v).map (.done, ·)) := by
  have hschema : other.schema = doc.schema := by
    cases h
    rfl
  unfold Document.set
  rw [hschema]
  cases doc.schema.cast path v with
  | error e => exact .failed _
  | ok w => exact .done _ (h.assign path (some w))

theorem Alike.withContainer (h : Alike doc other) (path : String) (container : Value) :
    Alike (doc.withContainer path container) (other.withContainer path container) := by
  cases h with
  | @mk slots hslots =>
    have hget : ({ doc with atomics := slots } : Document).get? path = doc.get? path := rfl
    unfold Document.withContainer
    rw [hget]
    split
    · exact .mk hslots
    · exact .mk hslots

theorem Alike.closeAt (h : Alike doc other) {path : String} (container : Value)
    {atomics pending : Atomics} (hpending : atomics.Alike (doc.paths.Covers path) pending)
    (touched : Bool) :
    Alike (doc.closeAt path container atomics touched)
      (other.closeAt path container pending touched) := by
  cases h with
  | @mk slots hslots =>
    have hclosed : Alike (doc.closeAt path container atomics false)
        (closeAt { doc with atomics := slots } path container pending false) :=
      .mk (hslots.put hpending)
    cases touched with
    | false => exact hclosed
    | true => exact hclosed.markModified path

section Views

variable {slots : Fields Atomics} (hslots : SlotsAlike doc.paths.Covers doc.atomics slots)

include hslots

theorem alike_listAtomics (path : String) :
    Atomics.Alike (doc.paths.Covers path) (.list (doc.listAtomics path))
      (.list (({ doc with atomics := slots } : Document).listAtomics path)) := by
  have hslot := hslots path
  unfold listAtomics
  dsimp only
  generalize Fields.get? doc.atomics path = slot?, Fields.get? slots path = other? at hslot ⊢
  cases hslot with
  | none => exact .refl _ _
  | some halike =>
    rcases halike.kinds with ⟨pending, others, rfl, rfl⟩ | ⟨pending, others, rfl, rfl⟩
    · exact halike
    · exact .refl _ _

theorem alike_mapAtomics (path : String) :
    Atomics.Alike (doc.paths.Covers path) (.map (doc.mapAtomics path))
      (.map (({ doc with atomics := slots } : Document).mapAtomics path)) := by
  have hslot := hslots path
  unfold mapAtomics
  dsimp only
  generalize Fields.get? doc.atomics path = slot?, Fields.get? slots path = other? at hslot ⊢
  cases hslot with
  | none => exact .refl _ _
  | some halike =>
    rcases halike.kinds with ⟨pending, others, rfl, rfl⟩ | ⟨pending, others, rfl, rfl⟩
    · exact .refl _ _
    · exact halike

end Views

theorem Alike.closeList (h : Alike doc other) {view pending : ListView}
    (hview : ListView.Alike (doc.paths.Covers view.path) view pending) :
    Alike (doc.closeList view) (other.closeList pending) := by
  cases hview with
  | mk hpending => exact h.closeAt (.list view.items) hpending view.touched

theorem Alike.closeMap (h : Alike doc other) {view pending : MapView}
    (hview : MapView.Alike (doc.paths.Covers view.path) view pending) :
    Alike (doc.closeMap view) (other.closeMap pending) := by
  cases hview with
  | mk hpending => exact h.closeAt (.map view.entries) hpending view.touched

theorem Alike.editList (h : Alike doc other) (path : String) (edits : List ListEdit) :
    AgreeIfAny Alike (doc.editList path (·.session edits))
      (other.editList path (·.session edits)) := by
  have hopened := h.withContainer path (.list [])
  rw [editList_eq, editList_eq]
  generalize doc.withContainer path (.list []) = doc, other.withContainer path (.list []) = other
    at hopened ⊢
  cases hopened with
  | @mk slots hslots =>
    have hget : ({ doc with atomics := slots } : Document).get? path = doc.get? path := rfl
    unfold openList
    rw [hget]
    split
    · next items _ =>
      have hview : ListView.Alike (doc.paths.Covers path) (doc.listView path items)
          (listView { doc with atomics := slots } path items) :=
        .mk (alike_listAtomics hslots path)
      have hpath : ((doc.listView path items).session edits).2.path = path := by
        rw [ListView.session_snd, ListView.edits_path]
        rfl
      obtain ⟨hreply, hlast⟩ := hview.session edits
      exact Agree.ifAny ⟨hreply, (Alike.mk hslots).closeList (hpath.symm ▸ hlast)⟩
    · exact .failed _

theorem Alike.editMap (h : Alike doc other) (path : String) (edits : List MapEdit) :
    AgreeIfAny Alike (doc.editMap path (·.session edits))
      (other.editMap path (·.session edits)) := by
  have hopened := h.withContainer path (.map [])
  rw [editMap_eq, editMap_eq]
  generalize doc.withContainer path (.map []) = doc, other.withContainer path (.map []) = other
    at hopened ⊢
  cases hopened with
  | @mk slots hslots =>
    have hget : ({ doc with atomics := slots } : Document).get? path = doc.get? path := rfl
    unfold openMap
    rw [hget]
    split
    · next entries _ =>
      have hview : MapView.Alike (doc.paths.Covers path) (doc.mapView path entries)
          (mapView { doc with atomics := slots } path entries) :=
        .mk (alike_mapAtomics hslots path)
      have hpath : ((doc.mapView path entries).session edits).2.path = path := by
        rw [MapView.session_snd, MapView.edits_path]
        rfl
      obtain ⟨hreply, hlast⟩ := hview.session edits
      exact Agree.ifAny ⟨hreply, (Alike.mk hslots).closeMap (hpath.symm ▸ hlast)⟩
    · exact .failed _

theorem Alike.reset (h : Alike doc other) : Alike doc.reset other.reset := by
  cases h with
  | mk hslots => exact .mk hslots.clear

theorem Alike.replyOr (h : Alike doc other) {outcome others : Except Error (Reply × Document)}
    (houtcome : AgreeIfAny Alike outcome others) :
    Agree Alike (doc.replyOr outcome) (other.replyOr others) := by
  cases houtcome with
  | failed e => exact ⟨rfl, h⟩
  | done answer hnext => exact ⟨rfl, hnext⟩

/-! ### Taking the changes -/

/-- Whether a container is written whole when the changes are taken. -/
def isTopped (doc : Document) (path : String) (pending : Bool) : Bool :=
  doc.tops.contains path && pending

theorem dirty_eq (doc : Document) : doc.dirty = (doc.kept.map doc.dirtyEntry,
    { doc with atomics := collapseWhere doc.isTopped doc.atomics }) := by
  have hsettle : doc.atomics.map (settle doc.tops) = collapseWhere doc.isTopped doc.atomics := by
    apply List.map_congr_left
    intro entry _
    rw [settle, isTopped]
    split <;> rfl
  rw [dirty, cover_eq, hsettle]

theorem Alike.dirty (h : Alike doc other) : Agree Alike doc.dirty other.dirty := by
  cases h with
  | mk hslots =>
    rw [dirty_eq, dirty_eq]
    exact ⟨rfl, .mk (hslots.collapseWhere doc.isTopped)⟩

variable {slots : Fields Atomics}

/-- What is pending at a kept path is the same when the changes are taken. -/
theorem slot_eq_of_kept (hsorted : Fields.Sorted doc.paths.states)
    (hslots : SlotsAlike doc.paths.Covers doc.atomics slots) (hkept : path ∈ doc.kept) :
    Fields.get? (collapseWhere doc.isTopped doc.atomics) path =
      Fields.get? (collapseWhere doc.isTopped slots) path := by
  have hslot := hslots path
  rw [get?_collapseWhere, get?_collapseWhere]
  generalize Fields.get? doc.atomics path = slot?, Fields.get? slots path = other? at hslot ⊢
  cases hslot with
  | none => rfl
  | some halike =>
    rcases halike with rfl | ⟨⟨below, hstate, hbelow⟩, hpending, hother, hcollapse⟩
    · rfl
    · -- What differs lies above a modified path, and a kept path there is written whole in both.
      have htop : path ∈ doc.tops :=
        mem_tops_of_isBelow (hsorted.filter _) (fun _ => nofun) hkept
          (PathStates.mem_of_state? hstate) hbelow
      simp [isTopped, htop, hpending, hother, hcollapse]

theorem Alike.delta (h : Alike doc other) (hsorted : Fields.Sorted doc.paths.states) :
    Agree Alike doc.delta other.delta := by
  refine ⟨?_, h.dirty.2⟩
  cases h with
  | @mk slots hslots =>
    have hops : ∀ path ∈ doc.kept,
        entryOps { doc with atomics := collapseWhere doc.isTopped doc.atomics }
            (doc.dirtyEntry path) =
          entryOps { doc with atomics := collapseWhere doc.isTopped slots }
            (doc.dirtyEntry path) := by
      intro path hkept
      unfold entryOps
      dsimp only [dirtyEntry]
      rw [slot_eq_of_kept hsorted hslots hkept]
    unfold Document.delta
    rw [dirty_eq, dirty_eq]
    refine List.foldl_ext _ _ _ fun delta entry hmem => ?_
    obtain ⟨path, hkept, rfl⟩ := List.mem_map.mp hmem
    exact congrArg delta.pushAll (hops path hkept)

/-! ### Saving -/

theorem Alike.toUpdate (h : Alike doc other) (hsorted : Fields.Sorted doc.paths.states) :
    Agree Alike doc.toUpdate other.toUpdate := by
  have hdelta := h.delta hsorted
  refine ⟨?_, ?_⟩
  · unfold Document.toUpdate
    generalize doc.delta = outcome, other.delta = others at hdelta ⊢
    obtain ⟨delta, after⟩ := outcome
    obtain ⟨same, next⟩ := others
    obtain ⟨rfl, hafter⟩ := hdelta
    cases hafter with
    | mk hslots =>
      dsimp only
      split
      · rfl
      · cases after.rid? <;> rfl
  · rw [toUpdate_snd, toUpdate_snd]
    exact hdelta.2

/-- Two saves end alike, over connections in the same state. -/
def SaveAlike (outcome other : Except Error Nat × Document × Connection) : Prop :=
  outcome.1 = other.1 ∧ Alike outcome.2.1 other.2.1 ∧ outcome.2.2 = other.2.2

theorem Alike.insert (h : Alike doc other) (conn : Connection) :
    SaveAlike (doc.insert conn) (other.insert conn) := by
  cases h with
  | @mk slots hslots =>
    have hinsert : ({ doc with atomics := slots } : Document).toInsert = doc.toInsert := rfl
    have hrid : ({ doc with atomics := slots } : Document).insertedRid = doc.insertedRid := rfl
    unfold Document.insert
    rw [hinsert, hrid]
    dsimp only
    split
    · exact ⟨rfl, .mk hslots, rfl⟩
    · exact ⟨rfl, .mk hslots.clear, rfl⟩

theorem Alike.update (h : Alike doc other) (hsorted : Fields.Sorted doc.paths.states)
    (conn : Connection) : SaveAlike (doc.update conn) (other.update conn) := by
  have hupdate := h.toUpdate hsorted
  unfold Document.update
  generalize doc.toUpdate = outcome, other.toUpdate = others at hupdate ⊢
  obtain ⟨result, after⟩ := outcome
  obtain ⟨same, next⟩ := others
  obtain ⟨rfl, hafter⟩ := hupdate
  match result with
  | .error e => exact ⟨rfl, hafter, rfl⟩
  | .ok none => exact ⟨rfl, hafter.reset, rfl⟩
  | .ok (some s) =>
    dsimp only
    split
    · exact ⟨rfl, hafter, rfl⟩
    · exact ⟨rfl, hafter.reset, rfl⟩

theorem Alike.store (h : Alike doc other) (hsorted : Fields.Sorted doc.paths.states)
    (conn : Connection) : SaveAlike (doc.store conn) (other.store conn) := by
  have hvalidate : other.validate = doc.validate := by
    cases h
    rfl
  have hnew : other.isNew = doc.isNew := by
    cases h
    rfl
  unfold Document.store
  rw [hvalidate, hnew]
  split
  · exact ⟨rfl, h, rfl⟩
  · split
    · exact h.insert conn
    · exact h.update hsorted conn

theorem Alike.adopt (h : Alike doc other) (dialect : Dialect) :
    Alike (doc.adopt dialect) (other.adopt dialect) := by
  cases h with
  | mk hslots => exact .mk hslots

theorem Alike.save (h : Alike doc other) (hsorted : Fields.Sorted doc.paths.states)
    (conn : Connection) : SaveAlike (doc.save conn) (other.save conn) := by
  rw [save_eq_store, save_eq_store]
  exact (h.adopt conn.config.dialect).store hsorted conn

/-! ### Every request -/

theorem Alike.respond (h : Alike doc other) (hsorted : Fields.Sorted doc.paths.states)
    (request : Request) : Agree Alike (doc.respond request) (other.respond request) := by
  cases request with
  | perform op =>
    cases op with
    | set path v => exact h.replyOr (h.set path v)
    | unset path => exact ⟨rfl, h.assign path none⟩
    | mark path => exact ⟨rfl, h.markModified path⟩
    | list path edits => exact h.replyOr (h.editList path edits)
    | map path edits => exact h.replyOr (h.editMap path edits)
    | reset => exact ⟨rfl, h.reset⟩
    | save conn =>
      obtain ⟨hresult, hstored, hconn⟩ := h.save hsorted conn
      exact ⟨congrArg₂ Reply.saved hresult hconn, hstored⟩
  | dirty => exact ⟨congrArg Reply.dirty h.dirty.1, h.dirty.2⟩
  | delta => exact ⟨congrArg Reply.delta (h.delta hsorted).1, (h.delta hsorted).2⟩

theorem alike_dirty (hsorted : Fields.Sorted doc.paths.states) : Alike doc doc.dirty.2 := by
  rw [dirty_eq]
  refine .mk fun path => ?_
  rw [get?_collapseWhere]
  cases Fields.get? doc.atomics path with
  | none => exact .none
  | some atomics =>
    refine .some ?_
    dsimp only
    split
    · next htopped =>
      obtain ⟨htop, hpending⟩ : path ∈ doc.tops ∧ atomics.isPending = true := by
        simpa [isTopped] using htopped
      obtain ⟨below, hmem, hbelow⟩ := exists_below_of_mem_tops htop
      have hstate : doc.paths.state? below = some .modified :=
        hsorted.get?_eq_some_iff.mpr (PathStates.mem_pathsIn.mp hmem)
      refine Or.inr ⟨⟨below, hstate, hbelow⟩, hpending, ?_, (collapse_collapse atomics).symm⟩
      cases atomics <;> rfl
    · exact .refl _ _

theorem Alike.values (h : Alike doc other) : other.values = doc.values := by
  cases h
  rfl

theorem Alike.paths (h : Alike doc other) : other.paths = doc.paths := by
  cases h
  rfl

theorem Alike.serve (hreachable : doc.Reachable) (h : Alike doc other) (requests : List Request) :
    Agree (fun doc other => doc.Reachable ∧ Alike doc other) (doc.serve requests)
      (other.serve requests) := by
  refine agree_answerAll (fun request hboth => ?_) ⟨hreachable, h⟩ requests
  obtain ⟨hreply, hnext⟩ := hboth.2.respond hboth.1.sorted request
  exact ⟨hreply, hboth.1.respond request, hnext⟩

/-- Whether the changes of a document are taken first makes no difference to any later replies, to
its values and path states after them, and to the changes that are taken then. -/
theorem changes_taken_unobserved (h : doc.Reachable) :
    doc.delta.2.delta.1 = doc.delta.1 ∧
      ∀ taken ∈ [doc.dirty.2, doc.delta.2], ∀ requests : List Request,
        (taken.serve requests).1 = (doc.serve requests).1 ∧
          (taken.serve requests).2.values = (doc.serve requests).2.values ∧
          (taken.serve requests).2.paths = (doc.serve requests).2.paths ∧
          (taken.serve requests).2.dirty.1 = (doc.serve requests).2.dirty.1 ∧
          (taken.serve requests).2.delta.1 = (doc.serve requests).2.delta.1 := by
  refine ⟨congrArg Prod.fst doc.delta_delta, fun taken htaken requests => ?_⟩
  have htaken : taken = doc.dirty.2 := by
    rcases List.mem_pair.mp htaken with rfl | rfl <;> rfl
  obtain ⟨hreplies, hreachable, hlast⟩ := (alike_dirty h.sorted).serve h requests
  have hdirty := hlast.dirty.1
  have hdelta := (hlast.delta hreachable.sorted).1
  rw [htaken]
  exact ⟨hreplies.symm, hlast.values, hlast.paths, hdirty.symm, hdelta.symm⟩

theorem reachable_entangled : entangled.Reachable := by
  have hload : hydrate (.empty "User") [("@rid", .link ⟨5, 1⟩), ("tags", .list [.string "a"])]
      none = .ok { entangled with
        dialect := .default, values := [("tags", .list [.string "a"])]
        paths := ⟨[("tags", .loaded)]⟩, atomics := [] } := rfl
  have hpush : perform { entangled with
      values := [("tags", .list [.string "a"])], paths := ⟨[("tags", .loaded)]⟩, atomics := [] }
      (.list "tags" [.push [.string "b"]]) =
        .ok { entangled with paths := ⟨[("tags", .modified)]⟩ } := rfl
  exact (((Reachable.hydrate hload).dialect .strict).perform hpush).mark "tags.0"

/-- Taking the changes of the list writes it whole, which no later request tells. -/
theorem changes_taken_unobserved_entangled :
    Fields.get? entangled.dirty.2.atomics "tags" = some (.list .set) ∧
      entangled.delta.2.delta.1 = entangled.delta.1 ∧
      let requests : List Request := [.perform (.list "tags" [.push [.string "c"], .pop]), .delta,
        .perform .reset, .perform (.list "tags" [.push [.string "d"]]), .delta]
      (entangled.dirty.2.serve requests).1 = (entangled.serve requests).1 := by
  obtain ⟨htwice, hlater⟩ := changes_taken_unobserved reachable_entangled
  exact ⟨rfl, htwice, (hlater entangled.dirty.2 List.mem_cons_self _).1⟩

end Document

end DocMapper
