import DocMapper.Proofs.Tracking.Validation
/-!
# What a document answers

Requests are what a caller can ask of a document: operations, with what they answer and what a view
shows while it is open, and the changes that have to be stored. Serving requests one after the other
gives the replies and the document in the end.
-/

namespace DocMapper

section AnswerAll

variable {State Ask Answer : Type}

/-- What is answered one after the other, and the state in the end. -/
def answerAll (respond : State → Ask → Answer × State) (state : State) :
    List Ask → List Answer × State
  | [] => ([], state)
  | ask :: rest =>
    let (answer, next) := respond state ask
    let (answers, last) := answerAll respond next rest
    (answer :: answers, last)

variable {respond : State → Ask → Answer × State}

/-- If every step moves the state as a plain fold does, the end is that of the fold. -/
theorem answerAll_snd {move : State → Ask → State}
    (h : ∀ state ask, (respond state ask).2 = move state ask) (state : State) (asks : List Ask) :
    (answerAll respond state asks).2 = asks.foldl move state := by
  induction asks generalizing state with
  | nil => rfl
  | cons ask rest ih => rw [answerAll, ih, h, List.foldl_cons]

/-- Two outcomes answer the same and leave related states. -/
def Agree (R : State → State → Prop) (outcome other : Answer × State) : Prop :=
  outcome.1 = other.1 ∧ R outcome.2 other.2

/-- Two attempts fail alike, or both succeed with outcomes that agree. -/
inductive AgreeIfAny (R : State → State → Prop) :
    Except Error (Answer × State) → Except Error (Answer × State) → Prop
  | failed (e : Error) : AgreeIfAny R (.error e) (.error e)
  | done (answer : Answer) {state other : State} (h : R state other) :
      AgreeIfAny R (.ok (answer, state)) (.ok (answer, other))

variable {R : State → State → Prop}

theorem Agree.ifAny {outcome other : Answer × State} (h : Agree R outcome other) :
    AgreeIfAny R (.ok outcome) (.ok other) := by
  obtain ⟨answer, state⟩ := outcome
  obtain ⟨same, next⟩ := other
  obtain ⟨rfl, hstate⟩ := h
  exact .done answer hstate

theorem AgreeIfAny.bind {α : Type} (first : Except Error α)
    {rest others : α → Except Error (Answer × State)}
    (h : ∀ a, AgreeIfAny R (rest a) (others a)) :
    AgreeIfAny R (first >>= rest) (first >>= others) := by
  cases first with
  | error e => exact .failed e
  | ok a => exact h a

/-- If related states agree on every single ask, they agree on every list of asks. -/
theorem agree_answerAll
    (hstep : ∀ {state other : State} (ask : Ask), R state other →
      Agree R (respond state ask) (respond other ask))
    {state other : State} (h : R state other) (asks : List Ask) :
    Agree R (answerAll respond state asks) (answerAll respond other asks) := by
  induction asks generalizing state other with
  | nil => exact ⟨rfl, h⟩
  | cons ask rest ih =>
    obtain ⟨hanswer, hnext⟩ := hstep ask h
    obtain ⟨hanswers, hlast⟩ := ih hnext
    exact ⟨congrArg₂ List.cons hanswer hanswers, hlast⟩

end AnswerAll

/-! ### Views -/

inductive ListAnswer where
  | count (n : Nat)
  | item (v? : Option Value)
  | items (values : List Value)
  | done

namespace ListView

/-- An answer with the items that the list shows then. A failed operation leaves the list. -/
def report {α : Type} (view : ListView) (answer : α → ListAnswer) :
    Except Error (α × ListView) → (Except Error ListAnswer × List Value) × ListView
  | .ok (a, next) => ((.ok (answer a), next.items), next)
  | .error e => ((.error e, view.items), view)

def respond (view : ListView) : ListEdit → (Except Error ListAnswer × List Value) × ListView
  | .push values => view.report .count (view.push values)
  | .pop => view.report .item (.ok view.pop)
  | .shift => view.report .item (.ok view.shift)
  | .unshift values => view.report .count (view.unshift values)
  | .splice start count values => view.report .items (view.splice start count values)
  | .sortBy le => view.report (fun () => .done) (.ok ((), view.sortBy le))
  | .set index v => view.report (fun () => .done) ((view.set index v).map ((), ·))
  | .pull values => view.report .count (view.pull values)

theorem report_snd {α : Type} (view : ListView) (answer : α → ListAnswer)
    (result : Except Error (α × ListView)) :
    (view.report answer result).2 = view.orKeep (result.map Prod.snd) := by
  cases result <;> rfl

theorem respond_snd (view : ListView) (edit : ListEdit) :
    (view.respond edit).2 = view.edit edit := by
  cases edit with
  | set index v =>
    rw [respond, report_snd, edit]
    cases view.set index v <;> rfl
  | push | pop | shift | unshift | splice | sortBy | pull => exact report_snd _ _ _

end ListView

inductive MapAnswer where
  | done (error? : Option Error)
  | count (n : Nat)

namespace MapView

def report (outcome : MapAnswer × MapView) : (MapAnswer × Fields Value) × MapView :=
  ((outcome.1, outcome.2.entries), outcome.2)

def respond (view : MapView) : MapEdit → (MapAnswer × Fields Value) × MapView
  | .put key v =>
    match view.put key v with
    | .ok next => report (.done none, next)
    | .error e => report (.done (some e), view)
  | .putAll entries => report ((view.putAll entries).map .done id)
  | .remove keys => report ((view.remove keys).map .count id)

theorem respond_snd (view : MapView) (edit : MapEdit) : (view.respond edit).2 = view.edit edit := by
  cases edit with
  | put key v =>
    rw [respond, edit]
    cases view.put key v <;> rfl
  | putAll | remove => rfl

end MapView

/-! ### Documents -/

inductive Request where
  | perform (op : Operation)
  | dirty
  | delta

inductive Reply where
  | done
  | failed (e : Error)
  | list (items : List Value) (isSet : Bool) (answers : List (Except Error ListAnswer × List Value))
  | map (entries : Fields Value) (answers : List (MapAnswer × Fields Value))
  | saved (result : Except Error Nat) (conn : Connection)
  | dirty (entries : List DirtyEntry)
  | delta (delta : Delta)

namespace ListView

/-- What a view shows when it is opened, and what it answers. -/
def session (view : ListView) (edits : List ListEdit) : Reply × ListView :=
  let (answers, last) := answerAll respond view edits
  (.list view.items view.isSet answers, last)

theorem session_snd (view : ListView) (edits : List ListEdit) :
    (view.session edits).2 = edits.foldl edit view :=
  answerAll_snd respond_snd view edits

end ListView

namespace MapView

def session (view : MapView) (edits : List MapEdit) : Reply × MapView :=
  let (answers, last) := answerAll respond view edits
  (.map view.entries answers, last)

theorem session_snd (view : MapView) (edits : List MapEdit) :
    (view.session edits).2 = edits.foldl edit view :=
  answerAll_snd respond_snd view edits

end MapView

namespace Document

/-- What is replied, if the document changes; otherwise it is left as it is. -/
def replyOr (doc : Document) : Except Error (Reply × Document) → Reply × Document
  | .ok outcome => outcome
  | .error e => (.failed e, doc)

def respond (doc : Document) : Request → Reply × Document
  | .perform (.set path v) => doc.replyOr ((doc.set path v).map (.done, ·))
  | .perform (.unset path) => (.done, doc.unset path)
  | .perform (.mark path) => (.done, doc.markModified path)
  | .perform (.list path edits) => doc.replyOr (doc.editList path (·.session edits))
  | .perform (.map path edits) => doc.replyOr (doc.editMap path (·.session edits))
  | .perform .reset => (.done, doc.reset)
  | .perform (.save conn) =>
    let (result, stored, conn) := doc.save conn
    (.saved result conn, stored)
  | .dirty => (.dirty doc.dirty.1, doc.dirty.2)
  | .delta => (.delta doc.delta.1, doc.delta.2)

def serve (doc : Document) (requests : List Request) : List Reply × Document :=
  answerAll respond doc requests

theorem editList_eq {α : Type} (doc : Document) (path : String) (edit : ListView → α × ListView) :
    doc.editList path edit = ((doc.withContainer path (.list [])).openList path).map fun view =>
      ((edit view).1, (doc.withContainer path (.list [])).closeList (edit view).2) := by
  unfold editList
  dsimp only
  cases (doc.withContainer path (.list [])).openList path <;> rfl

theorem editMap_eq {α : Type} (doc : Document) (path : String) (edit : MapView → α × MapView) :
    doc.editMap path edit = ((doc.withContainer path (.map [])).openMap path).map fun view =>
      ((edit view).1, (doc.withContainer path (.map [])).closeMap (edit view).2) := by
  unfold editMap
  dsimp only
  cases (doc.withContainer path (.map [])).openMap path <;> rfl

/-- A view that can be opened ends as its operations leave it, whatever they answer. -/
theorem editList_session (doc : Document) (path : String) (edits : List ListEdit) :
    (doc.editList path (·.session edits)).map Prod.snd = doc.perform (.list path edits) := by
  rw [perform, editList_eq, editList_eq]
  cases (doc.withContainer path (.list [])).openList path with
  | error e => rfl
  | ok view => simp [Except.map, ListView.session_snd]

theorem editMap_session (doc : Document) (path : String) (edits : List MapEdit) :
    (doc.editMap path (·.session edits)).map Prod.snd = doc.perform (.map path edits) := by
  rw [perform, editMap_eq, editMap_eq]
  cases (doc.withContainer path (.map [])).openMap path with
  | error e => rfl
  | ok view => simp [Except.map, MapView.session_snd]

theorem replyOr_snd (doc : Document) (outcome : Except Error (Reply × Document)) :
    (doc.replyOr outcome).2 = (outcome.map Prod.snd).toOption.getD doc := by
  cases outcome <;> rfl

/-- A request for an operation leaves what the operation leaves, and the document if it fails. -/
theorem respond_perform (doc : Document) (op : Operation) :
    (doc.respond (.perform op)).2 = (doc.perform op).toOption.getD doc := by
  cases op with
  | set path v =>
    rw [respond, replyOr_snd, perform]
    cases doc.set path v <;> rfl
  | list path edits => rw [respond, replyOr_snd, editList_session]
  | map path edits => rw [respond, replyOr_snd, editMap_session]
  | unset | mark | reset | save => rfl

/-! ### Reachable documents -/

theorem Reachable.respond {doc : Document} (h : doc.Reachable) (request : Request) :
    (doc.respond request).2.Reachable := by
  cases request with
  | perform op =>
    rw [respond_perform]
    cases hperform : doc.perform op with
    | ok next => exact h.perform hperform
    | error e => exact h
  | dirty | delta => exact h.delta

section Sorted

variable {doc next : Document}

theorem sorted_blank (schema : Schema) (isNew : Bool) :
    Fields.Sorted (blank schema isNew).paths.states :=
  sorted_enterAll Fields.sorted_nil _ _

theorem sorted_fillDefault (h : Fields.Sorted doc.paths.states) (path : String) :
    Fields.Sorted (doc.fillDefault path).paths.states := by
  unfold fillDefault
  split
  · exact h.put path _
  · exact h

theorem sorted_loadEntry (h : Fields.Sorted doc.paths.states) {entry : String × Value}
    (hload : doc.loadEntry entry = .ok next) : Fields.Sorted next.paths.states := by
  unfold loadEntry at hload
  split at hload
  · obtain ⟨id, -, rfl⟩ := Success.map_eq_ok.mp hload
    exact h
  split at hload
  · cases hload
    exact h
  split at hload
  · cases hload
  · cases hload
    exact h.put entry.1 _

theorem sorted_assign (h : Fields.Sorted doc.paths.states) (path : String) (v? : Option Value) :
    Fields.Sorted (doc.assign path v?).paths.states := by
  unfold assign
  dsimp only
  split
  · exact h.put _ _
  · exact h

theorem sorted_withContainer (h : Fields.Sorted doc.paths.states) (path : String)
    (container : Value) : Fields.Sorted (doc.withContainer path container).paths.states := by
  unfold withContainer
  split <;> exact h

theorem sorted_closeAt (h : Fields.Sorted doc.paths.states) (path : String) (container : Value)
    (atomics : Atomics) (touched : Bool) :
    Fields.Sorted (doc.closeAt path container atomics touched).paths.states := by
  cases touched with
  | false => exact h
  | true => exact h.put path _

theorem sorted_reset (h : Fields.Sorted doc.paths.states) :
    Fields.Sorted doc.reset.paths.states :=
  sorted_enterAll (h.filter _) _ _

/-- No path of a document has two states, and they are in order. -/
theorem Reachable.sorted (h : doc.Reachable) : Fields.Sorted doc.paths.states := by
  induction h with
  | new schema =>
    exact holds_new (P := fun doc => Fields.Sorted doc.paths.states) (sorted_blank schema true)
      fun doc path h => sorted_fillDefault h path
  | @hydrate schema _ _ _ hload =>
    refine holds_of_hydrate (P := fun doc => Fields.Sorted doc.paths.states) ?_
      (fun h hentry => sorted_loadEntry h hentry)
      (fun doc path h => sorted_fillDefault h path) hload
    exact sorted_blank schema false
  | dialect _ dialect ih => exact ih
  | set _ hset ih =>
    obtain ⟨w, -, rfl⟩ := set_eq_ok hset
    exact sorted_assign ih _ _
  | unset _ path ih => exact sorted_assign ih path none
  | mark _ path ih => exact ih.put path _
  | list _ hedit ih =>
    rw [editList_eq] at hedit
    obtain ⟨view, -, hclose⟩ := Success.map_eq_ok.mp hedit
    obtain ⟨-, rfl⟩ := Prod.mk.inj hclose
    exact sorted_closeAt (sorted_withContainer ih _ _) _ _ _ _
  | map _ hedit ih =>
    rw [editMap_eq] at hedit
    obtain ⟨view, -, hclose⟩ := Success.map_eq_ok.mp hedit
    obtain ⟨-, rfl⟩ := Prod.mk.inj hclose
    exact sorted_closeAt (sorted_withContainer ih _ _) _ _ _ _
  | delta _ ih => exact ih
  | reset _ ih => exact sorted_reset ih
  | @save doc _ conn ih =>
    have hperform : doc.perform (.save conn) = .ok (doc.save conn).2.1 := rfl
    rcases perform_save_eq_ok hperform with heq | heq | hstored
    · exact heq ▸ ih
    · exact heq ▸ ih
    · rw [hstored.paths]
      exact sorted_reset ih

end Sorted

end Document

end DocMapper
