import DocMapper.Proofs.Place
import DocMapper.Proofs.Tracking.Requests
/-!
# Work in place

A document is changed step by step where it stands, and a failure leaves it as the steps before it
have left it. A view of a container has nothing of its own: it reads the items from the document and
writes them, what is pending for them and the mark of the path back one after the other.
-/

namespace DocMapper

/-- Work on a document where it stands. What was done before a failure stays done. -/
abbrev InPlace (α : Type) := ExceptT Error (StateM Document) α

namespace InPlace

variable {α β : Type}

/-- The answer, and the document as it is left. -/
def on (work : InPlace α) (doc : Document) : Except Error α × Document :=
  work.run.run doc

theorem on_bind (work : InPlace α) (next : α → InPlace β) (doc : Document) :
    (work >>= next).on doc =
      match work.on doc with
      | (.ok a, doc) => (next a).on doc
      | (.error e, doc) => (.error e, doc) := by
  rw [on, ExceptT.run_bind, StateT.run_bind, on]
  obtain ⟨result, left⟩ := work.run.run doc
  cases result <;> rfl

@[simp]
theorem on_pure (a : α) (doc : Document) : (pure a : InPlace α).on doc = (.ok a, doc) := rfl

@[simp]
theorem on_throw (e : Error) (doc : Document) :
    (throw e : InPlace α).on doc = (.error e, doc) := rfl

@[simp]
theorem on_get (doc : Document) : (get : InPlace Document).on doc = (.ok doc, doc) := rfl

@[simp]
theorem on_modify (f : Document → Document) (doc : Document) :
    (modify f : InPlace Unit).on doc = (.ok (), f doc) := rfl

/-! ### Assigning and opening -/

def set (path : String) (v : Value) : InPlace Unit := do
  match (← get).schema.cast path v with
  | .ok w => modify (·.assign path (some w))
  | .error e => throw (.cast e)

/-- Makes an empty container at a path where there is nothing. -/
def make (path : String) (container : Value) : InPlace Unit := do
  if ((← get).get? path).isNone then
    modify fun doc => { doc with values := writeAt doc.values path (some container) }

def putValue (path : String) (v : Value) : InPlace Unit :=
  modify fun doc => { doc with values := writeAt doc.values path (some v) }

def putAtomics (path : String) (atomics : Atomics) : InPlace Unit :=
  modify fun doc => { doc with atomics := Fields.put doc.atomics path atomics }

/-- Opens a container of one kind. A missing one is made before its kind is looked at. -/
def openAt (path kind : String) (empty : Value) (fits : Value → Bool)
    (pending : Document → Atomics) : InPlace Unit := do
  make path empty
  let doc ← get
  let found := (placeAt? doc.values path).map Place.value
  if found.any fits then
    putAtomics path (pending doc)
  else
    throw (Document.notContainer path kind found)

def openList (path : String) : InPlace Unit :=
  openAt path "list" (.list []) (·.list?.isSome) fun doc => .list (doc.listAtomics path)

def openMap (path : String) : InPlace Unit :=
  openAt path "map" (.map []) (·.map?.isSome) fun doc => .map (doc.mapAtomics path)

/-- Goes on with the answer of the work, whether it succeeds or fails. -/
def attempt (work : InPlace α) : InPlace (Except Error α) :=
  ExceptT.mk do return .ok (← work.run)

/-! ### Working on a list -/

def castItem (path : String) (v : Value) : InPlace Value := do
  match (← get).schema.castItem path v with
  | .ok w => pure w
  | .error e => throw (.cast e)

def listAt (path : String) : InPlace ListView := do
  let doc ← get
  return doc.listView path (((doc.get? path).bind Value.list?).getD [])

def mark (path : String) : InPlace Unit :=
  modify (·.markModified path)

/-- Writes a container back, and what is pending for it, and marks its path. -/
def store (path : String) (container : Value) (atomics : Atomics) : InPlace Unit := do
  putValue path container
  putAtomics path atomics
  mark path

def replaceItems (path : String) (items : List Value) : InPlace Unit :=
  store path (.list items) (.list .set)

def push (path : String) (values : List Value) : InPlace Nat := do
  let values ← values.mapM (castItem path)
  let view ← listAt path
  let added := view.newItems values
  if !added.isEmpty then
    store path (.list (view.items ++ added)) (.list (view.atomics.pushAdd added))
  return (← listAt path).items.length

def pop (path : String) : InPlace (Option Value) := do
  let view ← listAt path
  match view.items.getLast? with
  | some last =>
    replaceItems path view.items.dropLast
    return some last
  | none => return none

def shift (path : String) : InPlace (Option Value) := do
  let view ← listAt path
  match view.items with
  | first :: rest =>
    replaceItems path rest
    return some first
  | [] => return none

def unshift (path : String) (values : List Value) : InPlace Nat := do
  let values ← values.mapM (castItem path)
  if !values.isEmpty then
    replaceItems path (values ++ (← listAt path).items)
  return (← listAt path).items.length

def splice (path : String) (start count : Nat) (values : List Value) : InPlace (List Value) := do
  let values ← values.mapM (castItem path)
  let items := (← listAt path).items
  replaceItems path (items.take start ++ values ++ (items.drop start).drop count)
  return (items.drop start).take count

def sortBy (path : String) (le : Value → Value → Bool) : InPlace Unit := do
  replaceItems path ((← listAt path).items.mergeSort le)

def setItem (path : String) (index : Nat) (v : Value) : InPlace Unit := do
  let v ← castItem path v
  let items := (← listAt path).items
  if index < items.length then
    replaceItems path (items.set index v)
  else
    throw (.invalidArgument s!"index {index} out of bounds for list of {items.length}")

def pull (path : String) (values : List Value) : InPlace Nat := do
  let values ← values.mapM (castItem path)
  let view ← listAt path
  let kept := view.items.filter fun item => !item.occursIn values
  putValue path (.list kept)
  let removed := view.items.length - kept.length
  if removed = 0 then
    return 0
  putAtomics path (.list (view.atomics.pushRemove values))
  mark path
  return removed

/-- The answer of an operation, with the items that the list shows then. -/
def listShown (path : String) (work : InPlace ListAnswer) :
    InPlace (Except Error ListAnswer × List Value) := do
  let answer ← attempt work
  return (answer, (← listAt path).items)

def editList (path : String) : ListEdit → InPlace (Except Error ListAnswer × List Value)
  | .push values => listShown path (.count <$> push path values)
  | .pop => listShown path (.item <$> pop path)
  | .shift => listShown path (.item <$> shift path)
  | .unshift values => listShown path (.count <$> unshift path values)
  | .splice start count values => listShown path (.items <$> splice path start count values)
  | .sortBy le => listShown path ((fun () => .done) <$> sortBy path le)
  | .set index v => listShown path ((fun () => .done) <$> setItem path index v)
  | .pull values => listShown path (.count <$> pull path values)

def workOnList (path : String) (edits : List ListEdit) : InPlace Reply := do
  openList path
  let view ← listAt path
  return .list view.items view.isSet (← edits.mapM (editList path))

/-! ### Working on a map -/

def mapAt (path : String) : InPlace MapView := do
  let doc ← get
  return doc.mapView path (((doc.get? path).bind Value.map?).getD [])

def put (path key : String) (v : Value) : InPlace Unit := do
  let w ← castItem path v
  let view ← mapAt path
  store path (.map (Fields.put view.entries key w)) (.map (view.atomics.pushPut key w))

/-- Puts entries one after the other. The first failure ends it, and those before it stay. -/
def putAll (path : String) (entries : List (String × Value)) : InPlace Unit :=
  forM entries fun entry => put path entry.1 entry.2

def remove (path : String) : List String → InPlace Nat
  | [] => return 0
  | key :: rest => do
    let view ← mapAt path
    if Fields.has view.entries key then
      store path (.map (Fields.drop view.entries key)) (.map (view.atomics.pushRemove key))
      return (← remove path rest) + 1
    else remove path rest

/-- The answer of an operation, with the entries that the map shows then. -/
def mapShown (path : String) (work : InPlace MapAnswer) :
    InPlace (MapAnswer × Fields Value) := do
  let answer ← work
  return (answer, (← mapAt path).entries)

def doneOr : Except Error Unit → MapAnswer
  | .ok () => .done none
  | .error e => .done (some e)

def editMap (path : String) : MapEdit → InPlace (MapAnswer × Fields Value)
  | .put key v => mapShown path (doneOr <$> attempt (put path key v))
  | .putAll entries => mapShown path (doneOr <$> attempt (putAll path entries))
  | .remove keys => mapShown path (.count <$> remove path keys)

def workOnMap (path : String) (edits : List MapEdit) : InPlace Reply := do
  openMap path
  let view ← mapAt path
  return .map view.entries (← edits.mapM (editMap path))

/-! ### Steps in place -/

section Close

variable (doc : Document) (path : String) (container : Value) (atomics : Atomics) (touched : Bool)

theorem on_putValue (next : Value) :
    (putValue path next).on (doc.closeAt path container atomics touched) =
      (.ok (), doc.closeAt path next atomics touched) := by
  rw [putValue, on_modify]
  cases touched <;> simp [Document.closeAt, Document.touch, Document.markModified, writeAt_writeAt]

theorem on_putAtomics (next : Atomics) :
    (putAtomics path next).on (doc.closeAt path container atomics touched) =
      (.ok (), doc.closeAt path container next touched) := by
  rw [putAtomics, on_modify]
  cases touched <;> simp [Document.closeAt, Document.touch, Document.markModified, Fields.put_put]

theorem on_mark :
    (mark path).on (doc.closeAt path container atomics touched) =
      (.ok (), doc.closeAt path container atomics true) := by
  rw [mark, on_modify]
  cases touched <;>
    simp [Document.closeAt, Document.touch, Document.markModified, PathStates.enter_enter]

/-- What is stored takes the place of what was stored before. -/
theorem on_store (next : Value) (pending : Atomics) :
    (store path next pending).on (doc.closeAt path container atomics touched) =
      (.ok (), doc.closeAt path next pending true) := by
  rw [store, on_bind, on_putValue]
  dsimp only
  rw [on_bind, on_putAtomics]
  exact on_mark doc path next pending touched

end Close

theorem on_map (f : α → β) (work : InPlace α) (doc : Document) :
    (f <$> work).on doc = ((work.on doc).1.map f, (work.on doc).2) := by
  rw [on, on, ExceptT.run_map, StateT.run_map]
  rfl

theorem on_attempt (work : InPlace α) (doc : Document) :
    (attempt work).on doc = (.ok (work.on doc).1, (work.on doc).2) :=
  rfl

theorem on_castItem (path : String) (v : Value) (doc : Document) :
    (castItem path v).on doc = (match doc.schema.castItem path v with
      | .ok w => .ok w
      | .error e => .error (.cast e), doc) := by
  rw [castItem, on_bind, on_get]
  dsimp only
  cases doc.schema.castItem path v <;> rfl

theorem on_mapM {f : α → InPlace β} {g : α → Except Error β} {doc : Document}
    (h : ∀ a, (f a).on doc = (g a, doc)) (items : List α) :
    (items.mapM f).on doc = (items.mapM g, doc) := by
  induction items with
  | nil => rfl
  | cons a rest ih =>
    rw [List.mapM_cons, List.mapM_cons, on_bind, h]
    cases g a with
    | error e => rfl
    | ok b =>
      dsimp only
      rw [on_bind, ih]
      cases rest.mapM g <;> rfl

/-- If every step in place answers and leaves what a view does, so do all of them. -/
theorem on_answerAll {State Ask Answer : Type} {respond : State → Ask → Answer × State}
    {step : Ask → InPlace Answer} {close : State → Document} {P : State → Prop}
    (hnext : ∀ {state}, P state → ∀ ask, P (respond state ask).2)
    (hstep : ∀ {state}, P state → ∀ ask,
      (step ask).on (close state) = (.ok (respond state ask).1, close (respond state ask).2))
    {state : State} (h : P state) (asks : List Ask) :
    (asks.mapM step).on (close state) =
      (.ok (answerAll respond state asks).1, close (answerAll respond state asks).2) := by
  induction asks generalizing state with
  | nil => rfl
  | cons ask rest ih =>
    rw [List.mapM_cons, on_bind, hstep h]
    dsimp only
    rw [on_bind, ih (hnext h ask)]
    rfl

/-! ### Opening -/

theorem on_make (path : String) (container : Value) (doc : Document) :
    (make path container).on doc = (.ok (), doc.withContainer path container) := by
  rw [make, on_bind, on_get, Document.withContainer]
  dsimp only
  cases doc.get? path <;> rfl

theorem withContainer_of_some {doc : Document} {path : String} {v : Value}
    (h : doc.get? path = some v) (container : Value) : doc.withContainer path container = doc := by
  rw [Document.withContainer, h]

theorem get?_withContainer (doc : Document) (path : String) (container : Value) :
    (doc.withContainer path container).get? path = some ((doc.get? path).getD container) := by
  cases hget : doc.get? path with
  | none =>
    rw [Document.withContainer, hget]
    exact valueAt?_writeAt_self doc.values path container
  | some v => rw [withContainer_of_some hget, hget, Option.getD_some]

/-- What is found at a path after a container was made there is there when it is written again. -/
theorem writeAt_withContainer {doc : Document} (h : (Value.map doc.values).Ordered) (path : String)
    (container : Value) :
    writeAt (doc.withContainer path container).values path
        (some ((doc.get? path).getD container)) =
      (doc.withContainer path container).values := by
  cases hget : doc.get? path with
  | none =>
    rw [Document.withContainer, hget]
    exact writeAt_writeAt doc.values path container container
  | some v => rw [withContainer_of_some hget, Option.getD_some, writeAt_eq_self h hget]

section Container

variable (doc : Document) (path : String) (container : Value)

theorem paths_withContainer : (doc.withContainer path container).paths = doc.paths := by
  unfold Document.withContainer
  split <;> rfl

theorem atomics_withContainer : (doc.withContainer path container).atomics = doc.atomics := by
  unfold Document.withContainer
  split <;> rfl

theorem listAtomics_withContainer :
    (doc.withContainer path container).listAtomics path = doc.listAtomics path := by
  rw [Document.listAtomics, Document.listAtomics, atomics_withContainer]

theorem mapAtomics_withContainer :
    (doc.withContainer path container).mapAtomics path = doc.mapAtomics path := by
  rw [Document.mapAtomics, Document.mapAtomics, atomics_withContainer]

end Container

section Open

variable {path kind : String} {empty : Value} {fits : Value → Bool} {pending : Document → Atomics}
  {doc : Document}

theorem withContainer_of_misfit (hempty : fits empty = true)
    (hfits : fits ((doc.get? path).getD empty) = false) : doc.withContainer path empty = doc := by
  cases hget : doc.get? path with
  | none => simp [hget, hempty] at hfits
  | some v => exact withContainer_of_some hget empty

/-- A container that was made is of the right kind, so a failure leaves the document as it was. -/
theorem on_openAt (hempty : fits empty = true)
    (hpending : pending (doc.withContainer path empty) = pending doc) :
    (openAt path kind empty fits pending).on doc =
      if fits ((doc.get? path).getD empty) then
        (.ok (), { doc.withContainer path empty with
          atomics := Fields.put doc.atomics path (pending doc) })
      else
        (.error (Document.notContainer path kind (some ((doc.get? path).getD empty))), doc) := by
  rw [openAt, on_bind, on_make]
  dsimp only
  rw [on_bind, on_get]
  dsimp only
  have hfound := get?_withContainer doc path empty
  rw [Document.get?] at hfound
  rw [map_value_placeAt?, hfound, Option.any_some, hpending]
  cases hfits : fits ((doc.get? path).getD empty) with
  | true =>
    rw [if_pos rfl, if_pos rfl, putAtomics, on_modify, atomics_withContainer]
  | false =>
    -- Only what was there before can be of the wrong kind, so nothing was made.
    rw [if_neg (by decide), if_neg (by decide), on_throw, withContainer_of_misfit hempty hfits]

/-- To open a container marks nothing, and makes at most the container. -/
theorem left_openAt (hempty : fits empty = true)
    (hpending : pending (doc.withContainer path empty) = pending doc) :
    ((openAt path kind empty fits pending).on doc).2.paths = doc.paths ∧
      ((openAt path kind empty fits pending).on doc).2.values =
        (doc.withContainer path empty).values := by
  rw [on_openAt hempty hpending]
  cases hfits : fits ((doc.get? path).getD empty) with
  | true => exact ⟨paths_withContainer doc path empty, rfl⟩
  | false =>
    rw [withContainer_of_misfit hempty hfits]
    exact ⟨rfl, rfl⟩

end Open

theorem on_openList (path : String) (doc : Document) :
    (openList path).on doc =
      match (doc.get? path).getD (.list []) with
      | .list _ =>
        (.ok (), { doc.withContainer path (.list []) with
          atomics := Fields.put doc.atomics path (.list (doc.listAtomics path)) })
      | other => (.error (Document.notContainer path "list" (some other)), doc) := by
  rw [openList, on_openAt rfl (congrArg Atomics.list (listAtomics_withContainer doc path _))]
  cases (doc.get? path).getD (.list []) <;> rfl

theorem on_openMap (path : String) (doc : Document) :
    (openMap path).on doc =
      match (doc.get? path).getD (.map []) with
      | .map _ =>
        (.ok (), { doc.withContainer path (.map []) with
          atomics := Fields.put doc.atomics path (.map (doc.mapAtomics path)) })
      | other => (.error (Document.notContainer path "map" (some other)), doc) := by
  rw [openMap, on_openAt rfl (congrArg Atomics.map (mapAtomics_withContainer doc path _))]
  cases (doc.get? path).getD (.map []) <;> rfl

/-- The outcome in place of an operation that answers with another document or fails. -/
def settled (doc : Document) : Except Error (α × Document) → Except Error α × Document
  | .ok (answer, next) => (.ok answer, next)
  | .error e => (.error e, doc)

theorem on_set (doc : Document) (path : String) (v : Value) :
    (set path v).on doc = settled doc ((doc.set path v).map ((), ·)) := by
  rw [set, on_bind, on_get, Document.set]
  dsimp only
  cases doc.schema.cast path v <;> rfl

end InPlace

end DocMapper
