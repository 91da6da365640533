import DocMapper.Proofs.Tracking.ViewsInPlace
/-!
# Failures in place

A request casts all of its values and checks its index before it changes anything, and once it has
begun to change something it cannot fail any more. So nothing is left of a request that fails.
-/

namespace DocMapper.InPlace

/-! ### What work may do -/

section Effects

variable {α β : Type} {work : InPlace α} {next : α → InPlace β}

/-- Work that leaves every document as it is. -/
def Reads (work : InPlace α) : Prop :=
  ∀ doc, (work.on doc).2 = doc

/-- Work that fails on no document. -/
def Succeeds (work : InPlace α) : Prop :=
  ∀ doc, ∃ a, (work.on doc).1 = .ok a

/-- Work that changes nothing where it fails. -/
def FailsFirst (work : InPlace α) : Prop :=
  ∀ doc e, (work.on doc).1 = .error e → (work.on doc).2 = doc

theorem Reads.failsFirst (h : Reads work) : FailsFirst work :=
  fun doc _ _ => h doc

theorem Succeeds.failsFirst (h : Succeeds work) : FailsFirst work := by
  intro doc e herror
  obtain ⟨a, hok⟩ := h doc
  cases herror.symm.trans hok

theorem Reads.bind_failsFirst (h : Reads work) (hnext : ∀ a, FailsFirst (next a)) :
    FailsFirst (work >>= next) := by
  intro doc e herror
  rw [on_bind] at herror ⊢
  have hleft := h doc
  generalize work.on doc = outcome at herror hleft ⊢
  obtain ⟨result, left⟩ := outcome
  obtain rfl : left = doc := hleft
  cases result with
  | error e => rfl
  | ok a => exact hnext a left e herror

theorem Succeeds.bind (h : Succeeds work) (hnext : ∀ a, Succeeds (next a)) :
    Succeeds (work >>= next) := by
  intro doc
  rw [on_bind]
  obtain ⟨a, hok⟩ := h doc
  generalize work.on doc = outcome at hok ⊢
  obtain ⟨result, left⟩ := outcome
  obtain rfl : result = .ok a := hok
  exact hnext a left

theorem succeeds_pure (a : α) : Succeeds (pure a) :=
  fun _ => ⟨a, rfl⟩

theorem succeeds_modify (f : Document → Document) : Succeeds (modify f) :=
  fun _ => ⟨(), rfl⟩

end Effects

/-! ### Steps -/

variable (path : String)

theorem reads_castItem (v : Value) : Reads (castItem path v) :=
  fun doc => by rw [on_castItem]

theorem reads_castItems (values : List Value) : Reads (values.mapM (castItem path)) :=
  fun doc => by rw [on_mapM fun v => on_castItem path v doc]

theorem reads_listAt : Reads (listAt path) :=
  fun _ => rfl

theorem succeeds_listAt : Succeeds (listAt path) :=
  fun _ => ⟨_, rfl⟩

theorem succeeds_length : Succeeds (do return (← listAt path).items.length) :=
  (succeeds_listAt path).bind fun _ => succeeds_pure _

theorem reads_mapAt : Reads (mapAt path) :=
  fun _ => rfl

theorem succeeds_store (container : Value) (atomics : Atomics) :
    Succeeds (store path container atomics) :=
  (succeeds_modify _).bind fun _ => (succeeds_modify _).bind fun _ => succeeds_modify _

/-! ### Requests -/

theorem failsFirst_set (v : Value) : FailsFirst (set path v) := by
  intro doc e herror
  rw [on_set] at herror ⊢
  cases hset : doc.set path v with
  | error e => rfl
  | ok next => rw [hset] at herror; cases herror

theorem failsFirst_openAt {kind : String} {empty : Value} {fits : Value → Bool}
    {pending : Document → Atomics} (hempty : fits empty = true)
    (hpending : ∀ doc : Document, pending (doc.withContainer path empty) = pending doc) :
    FailsFirst (openAt path kind empty fits pending) := by
  intro doc e herror
  rw [on_openAt hempty (hpending doc)] at herror ⊢
  split at herror
  · cases herror
  · next hmisfit => rw [if_neg hmisfit]

theorem failsFirst_openList : FailsFirst (openList path) :=
  failsFirst_openAt path rfl fun doc =>
    congrArg Atomics.list (listAtomics_withContainer doc path _)

theorem failsFirst_openMap : FailsFirst (openMap path) :=
  failsFirst_openAt path rfl fun doc =>
    congrArg Atomics.map (mapAtomics_withContainer doc path _)

theorem failsFirst_push (values : List Value) : FailsFirst (push path values) := by
  refine (reads_castItems path values).bind_failsFirst fun casted => ?_
  refine (reads_listAt path).bind_failsFirst fun view => Succeeds.failsFirst ?_
  dsimp only
  split
  · exact (succeeds_store path _ _).bind fun _ => succeeds_length path
  · exact succeeds_length path

theorem failsFirst_unshift (values : List Value) : FailsFirst (unshift path values) := by
  refine (reads_castItems path values).bind_failsFirst fun casted => Succeeds.failsFirst ?_
  dsimp only
  split
  · exact (succeeds_listAt path).bind fun _ => (succeeds_store path _ _).bind fun _ =>
      succeeds_length path
  · exact succeeds_length path

theorem failsFirst_splice (start count : Nat) (values : List Value) :
    FailsFirst (splice path start count values) := by
  refine (reads_castItems path values).bind_failsFirst fun casted => Succeeds.failsFirst ?_
  exact (succeeds_listAt path).bind fun _ => (succeeds_store path _ _).bind fun _ =>
    succeeds_pure _

theorem failsFirst_setItem (index : Nat) (v : Value) : FailsFirst (setItem path index v) := by
  refine (reads_castItem path v).bind_failsFirst fun w => ?_
  refine (reads_listAt path).bind_failsFirst fun view => ?_
  dsimp only
  split
  · exact (succeeds_store path _ _).failsFirst
  · exact Reads.failsFirst fun _ => rfl

theorem failsFirst_pull (values : List Value) : FailsFirst (pull path values) := by
  refine (reads_castItems path values).bind_failsFirst fun casted => Succeeds.failsFirst ?_
  refine (succeeds_listAt path).bind fun view => (succeeds_modify _).bind fun _ => ?_
  dsimp only
  split
  · exact succeeds_pure 0
  · exact (succeeds_modify _).bind fun _ => (succeeds_modify _).bind fun _ => succeeds_pure _

theorem failsFirst_put (key : String) (v : Value) : FailsFirst (put path key v) := by
  refine (reads_castItem path v).bind_failsFirst fun w => ?_
  exact (reads_mapAt path).bind_failsFirst fun view => (succeeds_store path _ _).failsFirst

/-- The requests that may fail and change the document. -/
inductive Mutation : {α : Type} → InPlace α → Prop
  | set (path : String) (v : Value) : Mutation (set path v)
  | openList (path : String) : Mutation (openList path)
  | openMap (path : String) : Mutation (openMap path)
  | push (path : String) (values : List Value) : Mutation (push path values)
  | unshift (path : String) (values : List Value) : Mutation (unshift path values)
  | splice (path : String) (start count : Nat) (values : List Value) :
    Mutation (splice path start count values)
  | setItem (path : String) (index : Nat) (v : Value) : Mutation (setItem path index v)
  | pull (path : String) (values : List Value) : Mutation (pull path values)
  | put (path key : String) (v : Value) : Mutation (put path key v)

theorem Mutation.failsFirst {α : Type} {work : InPlace α} (h : Mutation work) :
    FailsFirst work := by
  cases h with
  | set path v => exact failsFirst_set path v
  | openList path => exact failsFirst_openList path
  | openMap path => exact failsFirst_openMap path
  | push path values => exact failsFirst_push path values
  | unshift path values => exact failsFirst_unshift path values
  | splice path start count values => exact failsFirst_splice path start count values
  | setItem path index v => exact failsFirst_setItem path index v
  | pull path values => exact failsFirst_pull path values
  | put path key v => exact failsFirst_put path key v

/-- A request that fails leaves the document as it was. What is done in place is what an assignment
or a session makes of the document, with the same answers and the same failures. -/
theorem failed_request_unchanged (doc : Document) :
    (∀ {α : Type} {work : InPlace α} {e : Error}, Mutation work →
      (work.on doc).1 = .error e → (work.on doc).2 = doc) ∧
    (∀ path v, (set path v).on doc = settled doc ((doc.set path v).map ((), ·))) ∧
    ((Value.map doc.values).Ordered →
      (∀ path edits, (workOnList path edits).on doc =
        settled doc (doc.editList path (·.session edits))) ∧
      ∀ path edits, (workOnMap path edits).on doc =
        settled doc (doc.editMap path (·.session edits))) :=
  ⟨fun hmutation herror => hmutation.failsFirst doc _ herror, on_set doc,
    fun hordered => ⟨on_workOnList hordered, on_workOnMap hordered⟩⟩

/-- The second value cannot be cast, and the first one is not appended either. -/
theorem failed_request_unchanged_ages :
    let schema := (Schema.empty "User").declare "ages" (.ofType (.list .integer))
    let doc := { Document.blank schema false with values := [("ages", .list [.int 1])] }
    let age := Value.string "x"
    let e := Error.cast (.ofValue "Integer" age "ages")
    (Value.map doc.values).Ordered ∧
      ((push "ages" [.int 2, age]).on doc).1 = .error e ∧
      ((push "ages" [.int 2, age]).on doc).2 = doc ∧
      (workOnList "ages" [.push [.int 2, age], .pop]).on doc =
        settled doc (doc.editList "ages" (·.session [.push [.int 2, age], .pop])) := by
  intro schema doc age e
  have hordered : (Value.map doc.values).Ordered := by
    have hitem : (Value.int 1).Ordered := trivial
    refine Value.ordered_map_iff.mpr ⟨by decide, ?_⟩
    simpa [doc, Value.ordered_list_iff] using hitem
  have herror : ((push "ages" [.int 2, age]).on doc).1 = .error e := by rfl
  obtain ⟨hunchanged, -, hsessions⟩ := failed_request_unchanged doc
  exact ⟨hordered, herror, hunchanged (.push "ages" _) herror, (hsessions hordered).1 "ages" _⟩

end DocMapper.InPlace
