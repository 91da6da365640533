import DocMapper.Proofs.Tracking.Effects
import DocMapper.Tracking.Storage
/-!
# Documents as their operations leave them

A path has one state, so every change of it takes the place of another. Required paths still never
lose theirs: only modified paths are forgotten, and then the required ones are marked again.
-/

namespace DocMapper.Document

/-- Documents made anew or from a record, and then worked on and stored in any order. -/
inductive Reachable : Document → Prop
  | new (schema : Schema) : Reachable (new schema)
  | hydrate {schema : Schema} {record : Fields Value} {selection? : Option Selection}
      {doc : Document} (hload : hydrate schema record selection? = .ok doc) : Reachable doc
  | dialect {doc : Document} (h : Reachable doc) (dialect : Dialect) :
      Reachable { doc with dialect := dialect }
  | set {doc next : Document} (h : Reachable doc) {path : String} {v : Value}
      (hset : doc.set path v = .ok next) : Reachable next
  | unset {doc : Document} (h : Reachable doc) (path : String) : Reachable (doc.unset path)
  | mark {doc : Document} (h : Reachable doc) (path : String) :
      Reachable (doc.markModified path)
  | list {doc next : Document} (h : Reachable doc) {path : String} {α : Type} {answer : α}
      {edit : ListView → α × ListView} (hedit : doc.editList path edit = .ok (answer, next)) :
      Reachable next
  | map {doc next : Document} (h : Reachable doc) {path : String} {α : Type} {answer : α}
      {edit : MapView → α × MapView} (hedit : doc.editMap path edit = .ok (answer, next)) :
      Reachable next
  | delta {doc : Document} (h : Reachable doc) : Reachable doc.delta.2
  | reset {doc : Document} (h : Reachable doc) : Reachable doc.reset
  | save {doc : Document} (h : Reachable doc) (conn : Connection) :
      Reachable (doc.save conn).2.1

end DocMapper.Document

namespace DocMapper

theorem PathStates.state?_enterAll (p : PathStates) (paths : List String) (state : PathState)
    (path : String) : (p.enterAll paths state).state? path =
      if path ∈ paths then some state else p.state? path := by
  induction paths generalizing p with
  | nil => simp [enterAll]
  | cons first rest ih =>
    have hrest : (p.enterAll (first :: rest) state).state? path =
        if path ∈ rest then some state else (p.enter first state).state? path := ih _
    rw [hrest, Document.state?_enter]
    by_cases hfirst : path = first <;> by_cases hmem : path ∈ rest <;> simp [hfirst, hmem]

namespace Document

/-- Every required path has some state. -/
def Marked (doc : Document) : Prop :=
  ∀ path ∈ doc.schema.requiredPaths, doc.paths.state? path ≠ none

variable {doc next : Document}

theorem Marked.of_same (h : doc.Marked) (hschema : next.schema = doc.schema)
    (hpaths : next.paths = doc.paths) : next.Marked := by
  intro path hrequired
  rw [hpaths]
  exact h path (hschema ▸ hrequired)

theorem Marked.enter (h : doc.Marked) {path : String} {state : PathState}
    (hschema : next.schema = doc.schema) (hpaths : next.paths = doc.paths.enter path state) :
    next.Marked := by
  intro other hrequired
  rw [hpaths, state?_enter]
  split
  · exact nofun
  · exact h other (hschema ▸ hrequired)

theorem marked_of_enterAll {p : PathStates}
    (hpaths : doc.paths = p.enterAll doc.schema.requiredPaths .required) : doc.Marked := by
  intro path hrequired
  rw [hpaths, PathStates.state?_enterAll, if_pos hrequired]
  exact nofun

theorem marked_blank (schema : Schema) (isNew : Bool) : (blank schema isNew).Marked :=
  marked_of_enterAll rfl

theorem marked_reset (doc : Document) : doc.reset.Marked :=
  marked_of_enterAll rfl

theorem Marked.fillDefault (h : doc.Marked) (path : String) : (doc.fillDefault path).Marked := by
  unfold Document.fillDefault
  split
  · exact h.enter rfl rfl
  · exact h

theorem Marked.loadEntry (h : doc.Marked) {entry : String × Value}
    (hload : doc.loadEntry entry = .ok next) : next.Marked := by
  unfold Document.loadEntry at hload
  split at hload
  · obtain ⟨id, -, rfl⟩ := Success.map_eq_ok.mp hload
    exact h
  split at hload
  · cases hload
    exact h
  split at hload
  · cases hload
  · cases hload
    exact h.enter rfl rfl

theorem Marked.loadEntries (h : doc.Marked) {record : Fields Value}
    (hload : record.foldlM Document.loadEntry doc = .ok next) : next.Marked := by
  induction record generalizing doc with
  | nil => exact Success.pure_eq_ok.mp hload ▸ h
  | cons entry rest ih =>
    rw [List.foldlM_cons] at hload
    obtain ⟨mid, hmid, hrest⟩ := Success.bind_eq_ok.mp hload
    exact ih (h.loadEntry hmid) hrest

theorem Marked.foldl (h : doc.Marked) {f : Document → String → Document}
    (hf : ∀ {doc : Document} (path : String), doc.Marked → (f doc path).Marked)
    (paths : List String) : (paths.foldl f doc).Marked := by
  induction paths generalizing doc with
  | nil => exact h
  | cons path rest ih => exact ih (hf path h)

theorem marked_new (schema : Schema) : (new schema).Marked :=
  (marked_blank schema true).foldl (fun path h => h.fillDefault path) schema.paths

theorem marked_of_hydrate {schema : Schema} {record : Fields Value}
    {selection? : Option Selection} (hload : hydrate schema record selection? = .ok doc) :
    doc.Marked := by
  obtain ⟨loaded, hentries, hfill⟩ := Success.bind_eq_ok.mp hload
  have hblank : Marked { blank schema false with selection? := selection? } :=
    marked_blank schema false
  have hfills := (hblank.loadEntries hentries).foldl (f := fun doc path =>
    if Fields.has doc.values path || !doc.isSelected path then doc else doc.fillDefault path)
    (fun {doc} path h => by
      split
      · exact h
      · exact h.fillDefault path) schema.paths
  exact Success.pure_eq_ok.mp hfill ▸ hfills

theorem Marked.mark (h : doc.Marked) (path : String) : (doc.markModified path).Marked :=
  h.enter rfl rfl

theorem Marked.assign (h : doc.Marked) (path : String) (v? : Option Value) :
    (doc.assign path v?).Marked := by
  unfold Document.assign
  dsimp only
  split
  · exact (h.mark (doc.pathToMark path)).of_same rfl rfl
  · exact h.of_same rfl rfl

theorem Marked.closeAt (h : doc.Marked) (path : String) (container : Value) (atomics : Atomics)
    (touched : Bool) : (doc.closeAt path container atomics touched).Marked := by
  cases touched with
  | false => exact h.of_same rfl rfl
  | true => exact h.enter rfl rfl

theorem Marked.withContainer (h : doc.Marked) (path : String) (container : Value) :
    (doc.withContainer path container).Marked := by
  unfold Document.withContainer
  split
  · exact h
  · exact h.of_same rfl rfl

theorem Marked.editList (h : doc.Marked) {path : String} {α : Type} {answer : α}
    {edit : ListView → α × ListView} (hedit : doc.editList path edit = .ok (answer, next)) :
    next.Marked := by
  obtain ⟨view, -, hclose⟩ := Success.bind_eq_ok.mp hedit
  obtain ⟨-, rfl⟩ := Prod.mk.inj (Success.pure_eq_ok.mp hclose)
  exact (h.withContainer path (.list [])).closeAt _ _ _ _

theorem Marked.editMap (h : doc.Marked) {path : String} {α : Type} {answer : α}
    {edit : MapView → α × MapView} (hedit : doc.editMap path edit = .ok (answer, next)) :
    next.Marked := by
  obtain ⟨view, -, hclose⟩ := Success.bind_eq_ok.mp hedit
  obtain ⟨-, rfl⟩ := Prod.mk.inj (Success.pure_eq_ok.mp hclose)
  exact (h.withContainer path (.map [])).closeAt _ _ _ _

end Document

end DocMapper
