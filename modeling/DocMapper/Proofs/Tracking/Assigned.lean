import DocMapper.Proofs.Tracking.Minimal
import DocMapper.Proofs.Tracking.Reproduced
import DocMapper.Proofs.Tracking.Typed
/-!
# What is stored of an assignment

An assignment marks the path itself or one above it, and what it leaves unmarked it does not change.
What was marked before a document was first stored has no state after it. A value filled in by the
schema keeps its state, so taking it away then is not stored.
-/

namespace DocMapper.Document

/-! ### Assignments that change something -/

section Assign

variable {doc next : Document} {path : String} {v? : Option Value}

theorem isWithin_pathToMark (h : Proper path) : isWithin path (doc.pathToMark path) = true :=
  isWithin_iff_segments.mpr (prefix_segments_pathToMark h)

theorem paths_assign (doc : Document) (path : String) (v? : Option Value) :
    (doc.assign path v?).paths =
      if doc.shouldModify (doc.pathToMark path) path v? then
        doc.paths.enter (doc.pathToMark path) .modified
      else doc.paths := by
  unfold assign
  dsimp only
  split <;> rfl

theorem isDirectModified_pathToMark_assign :
    (doc.assign path v?).isDirectModified (doc.pathToMark path) =
      (doc.shouldModify (doc.pathToMark path) path v? ||
        doc.isDirectModified (doc.pathToMark path)) := by
  unfold isDirectModified PathStates.isIn
  rw [paths_assign]
  split
  · next hmodify => simp [state?_enter, hmodify]
  · next hmodify => simp [hmodify]

/-- What is not worth marking reads the same afterwards. -/
theorem same_of_not_marked (hdefault : v? = none → doc.paths.isIn path .defaulted = false)
    (hmodify : doc.shouldModify (doc.pathToMark path) path v? = false)
    (hmarked : doc.isDirectModified (doc.pathToMark path) = false) :
    Value.eqvOption (doc.get? path) ((doc.assign path v?).get? path) = true := by
  unfold shouldModify at hmodify
  rw [hmarked] at hmodify
  simp only [Bool.false_eq_true, if_false] at hmodify
  split at hmodify
  · cases hmodify
  cases v? with
  | none =>
    rw [hdefault rfl] at hmodify
    have habsent : doc.get? path = none := by simp_all
    have hstill : (doc.assign path none).get? path = none := by
      rw [get?, values_assign]
      exact valueAt?_writeAt_none_of_absent habsent
    rw [habsent, hstill]
    rfl
  | some v =>
    rw [get?_assign_self]
    cases hsame : Value.eqvOption (doc.get? path) (some v) with
    | true => rfl
    | false => simp [hsame] at hmodify

theorem marked_of_differs (hdefault : v? = none → doc.paths.isIn path .defaulted = false)
    (hdiffers : Value.eqvOption (doc.get? path) ((doc.assign path v?).get? path) = false) :
    (doc.assign path v?).isDirectModified (doc.pathToMark path) = true := by
  rw [isDirectModified_pathToMark_assign]
  by_contra hneither
  obtain ⟨hmodify, hmarked⟩ := Bool.or_eq_false_iff.mp (Bool.not_eq_true _ ▸ hneither)
  have hsame := same_of_not_marked hdefault hmodify hmarked
  rw [hdiffers] at hsame
  cases hsame

theorem reachable_of_assigned (h : doc.Reachable)
    (hassigned : (∃ v, doc.set path v = .ok next) ∨ next = doc.unset path) : next.Reachable := by
  rcases hassigned with ⟨v, hset⟩ | rfl
  · exact h.set hset
  · exact h.unset path

end Assign

/-- An assignment that changes what a path reads as leaves that path or one above it modified, and
exactly one entry to be stored is that path or above it. It holds what the document has there. -/
theorem effective_assignment_stored {doc next : Document} {path : String} (h : doc.Reachable)
    (hproper : Proper path)
    (hassigned : (∃ v, doc.set path v = .ok next) ∨
      (doc.paths.isIn path .defaulted = false ∧ next = doc.unset path))
    (hdiffers : Value.eqvOption (doc.get? path) (next.get? path) = false) :
    (∃ marked, next.isDirectModified marked = true ∧ isWithin path marked = true) ∧
      ∃ top, next.dirty.1.filter (fun entry => isWithin path entry.path) =
        [⟨top, next.get? top, next.schema.container? top⟩] := by
  have hnext : next.Reachable := reachable_of_assigned h (hassigned.imp_right And.right)
  have hmarked : next.isDirectModified (doc.pathToMark path) = true := by
    rcases hassigned with ⟨v, hset⟩ | ⟨hdefault, rfl⟩
    · obtain ⟨w, -, rfl⟩ := set_eq_ok hset
      exact marked_of_differs nofun hdiffers
    · exact marked_of_differs (fun _ => hdefault) hdiffers
  have hwithin : isWithin path (doc.pathToMark path) = true := isWithin_pathToMark hproper
  obtain ⟨top, htop⟩ := filter_kept_eq_singleton hnext.sorted hmarked hwithin
  refine ⟨⟨_, hmarked, hwithin⟩, top, ?_⟩
  have hentries : (fun entry => isWithin path entry.path) ∘ next.dirtyEntry = isWithin path := rfl
  rw [fst_dirty, List.filter_map, hentries, htop]
  rfl

/-- A city below an address that was null is stored with the address, and a name that is taken away
by itself. -/
theorem effective_assignment_stored_address :
    ∃ doc settled unnamed,
      hydrate (.empty "User") [("address", .null), ("name", .string "Ada")] none = .ok doc ∧
      doc.set "address.city" (.string "Oslo") = .ok settled ∧ unnamed = settled.unset "name" ∧
      Value.eqvOption (doc.get? "address.city") (settled.get? "address.city") = false ∧
      settled.paths.isIn "name" .defaulted = false ∧
      Value.eqvOption (settled.get? "name") (unnamed.get? "name") = false ∧
      unnamed.paths.pathsIn .modified = ["address", "name"] ∧
      (∃ top, settled.dirty.1.filter (fun entry => isWithin "address.city" entry.path) =
        [⟨top, settled.get? top, settled.schema.container? top⟩]) ∧
      ∃ top, unnamed.dirty.1.filter (fun entry => isWithin "name" entry.path) =
        [⟨top, unnamed.get? top, unnamed.schema.container? top⟩] := by
  have hload : ∃ doc,
      hydrate (.empty "User") [("address", .null), ("name", .string "Ada")] none = .ok doc :=
    ⟨_, rfl⟩
  obtain ⟨doc, hdoc⟩ := hload
  obtain rfl := Except.ok.inj hdoc
  refine ⟨_, _, _, hdoc, rfl, rfl, rfl, rfl, rfl, rfl, ?_, ?_⟩
  · exact (effective_assignment_stored (.hydrate hdoc) (by decide) (Or.inl ⟨_, rfl⟩) rfl).2
  · exact (effective_assignment_stored (.set (.hydrate hdoc) rfl) (by decide)
      (Or.inr ⟨rfl, rfl⟩) rfl).2

/-! ### Removals after the first save -/

def setAll (doc : Document) (values : List (String × Value)) : Except Error Document :=
  values.foldlM (fun doc entry => doc.set entry.1 entry.2) doc

theorem state?_clear {p : PathStates} (hsorted : Fields.Sorted p.states) (state : PathState)
    (path : String) : (p.clear state).state? path = (p.state? path).filter (· ≠ state) := by
  apply Option.ext
  intro found
  rw [Option.filter_eq_some_iff, PathStates.state?, PathStates.state?, hsorted.get?_eq_some_iff,
    PathStates.clear, (hsorted.filter _).get?_eq_some_iff, List.mem_filter]

/-- A reset forgets what is modified, but leaves what was filled in as it was. -/
theorem state?_reset {doc : Document} (hsorted : Fields.Sorted doc.paths.states) (path : String) :
    doc.reset.paths.state? path =
      if path ∈ doc.schema.requiredPaths then some .required
      else (doc.paths.state? path).filter (· ≠ .modified) := by
  rw [← state?_clear hsorted]
  exact PathStates.state?_enterAll _ _ _ path

/-- A new document of a schema in which the named paths were assigned. They are modified, and
whatever else it holds was filled in. -/
structure Filled (schema : Schema) (names : List String) (doc : Document) : Prop where
  schema : doc.schema = schema
  isNew : doc.isNew = true
  selection : doc.selection? = none
  sorted : Fields.Sorted doc.paths.states
  assigned : ∀ path ∈ names, doc.paths.state? path = some .modified
  filled : ∀ path ∉ names, ∀ v, Fields.get? doc.values path = some v →
    doc.paths.state? path = some .defaulted

section Filled

variable {schema : Schema} {names : List String} {doc next : Document} {path : String}

theorem Filled.fillDefault (h : Filled schema [] doc) (path : String) :
    Filled schema [] (doc.fillDefault path) := by
  have hsorted := sorted_fillDefault h.sorted path
  unfold Document.fillDefault at hsorted ⊢
  split
  · next v hdefault =>
    rw [hdefault] at hsorted
    refine ⟨h.schema, h.isNew, h.selection, hsorted, nofun, fun other _ w hvalue => ?_⟩
    dsimp only at hvalue ⊢
    rw [Fields.get?_put] at hvalue
    rw [state?_enter]
    by_cases hother : other = path
    · rw [if_pos hother]
    · rw [if_neg hother] at hvalue ⊢
      exact h.filled other List.not_mem_nil w hvalue
  · exact h

theorem filled_new (schema : Schema) : Filled schema [] (new schema) :=
  holds_new (P := Filled schema [])
    ⟨rfl, rfl, rfl, sorted_blank schema true, nofun, fun _ _ _ hvalue => by cases hvalue⟩
    fun _ path h => h.fillDefault path

theorem Filled.set (h : Filled schema names doc) (hdot : hasDot path = false) {v : Value}
    (hset : doc.set path v = .ok next) : Filled schema (path :: names) next := by
  obtain ⟨w, -, rfl⟩ := set_eq_ok hset
  have hpaths : (doc.assign path (some w)).paths = doc.paths.enter path .modified := by
    have hmark : doc.pathToMark path = path := by simp [pathToMark, hdot]
    rw [paths_assign, hmark, if_pos (by simp [shouldModify, h.isNew])]
  have hdiffers : DiffersAt path doc (doc.assign path (some w)) := assign_differsAt hdot (some w)
  refine ⟨(doc.schema_assign path _).trans h.schema, hdiffers.isNew.trans h.isNew,
    hdiffers.selection.trans h.selection, sorted_assign h.sorted _ _, ?_, ?_⟩
  · intro other hmem
    rw [hpaths, state?_enter]
    split
    · rfl
    · next hother => exact h.assigned other ((List.mem_cons.mp hmem).resolve_left hother)
  · intro other hmem x hvalue
    obtain ⟨hother, hearlier⟩ := not_or.mp (fun hor => hmem (List.mem_cons.mpr hor))
    rw [hdiffers.values other hother] at hvalue
    rw [hpaths, state?_enter, if_neg hother]
    exact h.filled other hearlier x hvalue

theorem Filled.setAll (h : Filled schema names doc) {values : List (String × Value)}
    (hdots : ∀ entry ∈ values, hasDot entry.1 = false) (hset : doc.setAll values = .ok next) :
    Filled schema ((values.map Prod.fst).reverse ++ names) next := by
  induction values generalizing doc names with
  | nil => exact Success.pure_eq_ok.mp hset ▸ h
  | cons entry rest ih =>
    obtain ⟨hdot, hrest⟩ := List.forall_mem_cons.mp hdots
    rw [Document.setAll, List.foldlM_cons] at hset
    obtain ⟨mid, hmid, hlater⟩ := Success.bind_eq_ok.mp hset
    have hnext := ih (h.set hdot hmid) hrest hlater
    simpa using hnext

/-- Once stored, what the document holds counts as filled in unless it was assigned or is
required. -/
theorem Filled.isIn_defaulted_of_stored (h : Filled schema names doc) (hstored : Stored doc next)
    {v : Value} (hvalue : Fields.get? next.values path = some v) :
    next.paths.isIn path .defaulted = true ↔ ¬ (path ∈ names ∨ path ∈ schema.requiredPaths) := by
  rw [PathStates.isIn, decide_eq_true_eq, hstored.paths, state?_reset h.sorted, h.schema]
  rw [hstored.values] at hvalue
  by_cases hrequired : path ∈ schema.requiredPaths
  · simp [hrequired]
  · by_cases hmem : path ∈ names
    · simp [hrequired, hmem, h.assigned path hmem]
    · simp [hrequired, hmem, h.filled path hmem v hvalue]

/-- So these are the removals that are worth marking. -/
theorem Filled.shouldModify_of_stored (h : Filled schema names doc) (hstored : Stored doc next)
    (hdot : hasDot path = false) {v : Value} (hvalue : next.get? path = some v) :
    next.shouldModify path path none = true ↔ path ∈ names ∨ path ∈ schema.requiredPaths := by
  have hget : Fields.get? next.values path = some v :=
    (valueAt?_of_undotted hdot next.values).symm.trans hvalue
  have hunmarked := isDirectModified_of_unmodified hstored.unmodified path
  have hselected : next.isSelected path = true := by
    rw [isSelected, hstored.selection, h.selection]
    rfl
  have hmodify : next.shouldModify path path none = !next.paths.isIn path .defaulted := by
    simp [shouldModify, hstored.isNew, hunmarked, hselected, hvalue]
  rw [hmodify, Bool.not_eq_true', Bool.eq_false_iff, ne_eq,
    h.isIn_defaulted_of_stored hstored hget, not_not]

end Filled

section Unset

variable {doc : Document} {path : String} (hsorted : Fields.Sorted doc.paths.states)
  (hunmodified : doc.paths.pathsIn .modified = [])

include hsorted hunmodified

theorem pathsIn_markModified : (doc.markModified path).paths.pathsIn .modified = [path] := by
  have hmarked : Fields.Sorted (doc.markModified path).paths.states := hsorted.put path .modified
  have hnodup : ((doc.markModified path).paths.pathsIn .modified).Nodup :=
    (hmarked.filter _).nodup
  apply List.perm_singleton.mp
  rw [List.perm_ext_iff_of_nodup hnodup (List.nodup_singleton path)]
  intro other
  rw [mem_pathsIn_iff hmarked, isDirectModified_markModified,
    isDirectModified_of_unmodified hunmodified]
  simp

/-- The changes of a document in which nothing is modified but for a removal. -/
theorem ops_delta_unset (hdot : hasDot path = false) : (doc.unset path).delta.1.ops =
    if doc.shouldModify path path none then [⟨.set, path, .null⟩] else [] := by
  have hmark : doc.pathToMark path = path := by simp [pathToMark, hdot]
  have hpaths : (doc.unset path).paths =
      if doc.shouldModify path path none then (doc.markModified path).paths else doc.paths := by
    rw [unset, paths_assign, hmark]
    rfl
  have hlast : Fields.Sorted (doc.unset path).paths.states := sorted_assign hsorted path none
  split
  · next hmodify =>
    rw [hmodify, if_pos rfl] at hpaths
    have honly : (doc.unset path).paths.pathsIn .modified = [path] := by
      rw [hpaths, pathsIn_markModified hsorted hunmodified]
    have hgone : Fields.get? (doc.unset path).values path = none := by
      rw [unset, get?_assign hdot, if_pos rfl]
    have hdots : ∀ other, (doc.unset path).isDirectModified other = true →
        hasDot other = false := by
      intro other hother
      rw [← mem_pathsIn_iff hlast, honly, List.mem_singleton] at hother
      exact hother ▸ hdot
    rw [ops_delta_of_undotted hlast hdots, honly, List.flatMap_singleton,
      opsFor_whole hdot (Or.inr (by rw [hgone]; rfl)), hgone]
    rfl
  · next hmodify =>
    rw [if_neg hmodify] at hpaths
    rw [delta_of_unmodified (hpaths ▸ hunmodified)]

end Unset

/-- A value is taken away from a new document that was just stored. This is stored exactly if the path
had been assigned or is required. Otherwise the value was filled in by the schema, and no change is
left to be stored. -/
theorem removal_stored_iff {schema : Schema} {values : List (String × Value)}
    {doc saved : Document} {conn conn' : Connection} {n : Nat} {path : String} {v : Value}
    (hdots : ∀ entry ∈ values, hasDot entry.1 = false)
    (hset : (new schema).setAll values = .ok doc)
    (hsave : doc.save conn = (.ok n, saved, conn')) (hdot : hasDot path = false)
    (hvalue : saved.get? path = some v) :
    ((⟨.set, path, .null⟩ : DeltaOp) ∈ (saved.unset path).delta.1.ops ↔
        path ∈ values.map Prod.fst ∨ path ∈ schema.requiredPaths) ∧
      (¬ (path ∈ values.map Prod.fst ∨ path ∈ schema.requiredPaths) →
        (saved.unset path).delta.1.ops = []) := by
  have hfilled : Filled schema ((values.map Prod.fst).reverse ++ [])
      (doc.adopt conn.config.dialect) := by
    obtain ⟨h1, h2, h3, h4, h5, h6⟩ := (filled_new schema).setAll hdots hset
    exact ⟨h1, h2, h3, h4, h5, h6⟩
  rw [save_eq_store] at hsave
  have hstored := (store_eq_ok hsave).2
  have hsorted : Fields.Sorted saved.paths.states := hstored.paths ▸ sorted_reset hfilled.sorted
  have hmodify := hfilled.shouldModify_of_stored hstored hdot hvalue
  simp only [List.append_nil, List.mem_reverse] at hmodify
  rw [ops_delta_unset hsorted hstored.unmodified hdot]
  by_cases hstays : path ∈ values.map Prod.fst ∨ path ∈ schema.requiredPaths
  · rw [if_pos (hmodify.mpr hstays)]
    exact ⟨⟨fun _ => hstays, fun _ => List.mem_singleton_self _⟩, fun h => absurd hstays h⟩
  · rw [if_neg (mt hmodify.mp hstays)]
    exact ⟨⟨fun hmem => absurd hmem List.not_mem_nil, fun h => absurd h hstays⟩, fun _ => rfl⟩

/-- Accounts with a plan and a status that the schema fills in, of which only the plan is required. -/
def accounts : Schema :=
  ⟨"User", [
    ("name", Field.ofType .string),
    ("plan", { Field.ofType .string with required := true, default? := some (.string "free") }),
    ("status", { Field.ofType .string with default? := some (.string "active") })]⟩

theorem removal_stored_iff_account :
    ∃ doc saved conn', (new accounts).setAll [("name", .string "Ada")] = .ok doc ∧
      doc.save online = (.ok 1, saved, conn') ∧
      (⟨.set, "name", .null⟩ : DeltaOp) ∈ (saved.unset "name").delta.1.ops ∧
      (⟨.set, "plan", .null⟩ : DeltaOp) ∈ (saved.unset "plan").delta.1.ops ∧
      (saved.unset "status").delta.1.ops = [] := by
  have hset : (new accounts).setAll [("name", .string "Ada")] =
      .ok ((new accounts).assign "name" (some (.string "Ada"))) := rfl
  have hsave : ∃ saved conn',
      ((new accounts).assign "name" (some (.string "Ada"))).save online = (.ok 1, saved, conn') ∧
      saved.get? "name" = some (.string "Ada") ∧ saved.get? "plan" = some (.string "free") ∧
      saved.get? "status" = some (.string "active") := ⟨_, _, rfl, rfl, rfl, rfl⟩
  obtain ⟨saved, conn', hsave, hname, hplan, hstatus⟩ := hsave
  have hdots : ∀ entry ∈ [("name", Value.string "Ada")], hasDot entry.1 = false := by decide
  refine ⟨_, saved, conn', hset, hsave, ?_, ?_, ?_⟩
  · exact (removal_stored_iff hdots hset hsave (by decide) hname).1.mpr (by decide)
  · exact (removal_stored_iff hdots hset hsave (by decide) hplan).1.mpr (by decide)
  · exact (removal_stored_iff hdots hset hsave (by decide) hstatus).2 (by decide)

/-- A status that was filled in is stored with the document, and stays when it is taken away. -/
theorem filled_status_kept :
    ∃ saved conn', (new accounts).save online = (.ok 1, saved, conn') ∧
      conn'.transport.texts =
        ["INSERT INTO User SET plan = \"free\", status = \"active\" RETURN @rid"] ∧
      saved.get? "status" = some (.string "active") ∧
      (saved.unset "status").get? "status" = none ∧
      (⟨.set, "status", .null⟩ : DeltaOp) ∉ (saved.unset "status").delta.1.ops := by
  refine ⟨_, _, rfl, rfl, rfl, rfl, ?_⟩
  have hempty : ((((new accounts).save online).2.1).unset "status").delta.1.ops = [] := rfl
  exact fun hmem => List.not_mem_nil (hempty ▸ hmem)

end DocMapper.Document
