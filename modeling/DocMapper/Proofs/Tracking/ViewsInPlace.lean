import DocMapper.Proofs.Tracking.InPlace
/-!
# Views in place

Every operation on a view does in place what it does to the view: if a document is as it is with the
view closed, it is afterwards as it is with the next view closed. So a whole session in place comes
to what opening, working on and closing the view makes of the document.
-/

namespace DocMapper.InPlace

/-! ### Lists -/

section List

variable {base : Document} {path : String} {view : ListView}

/-- A view of the list at a path of a document, as it may be after some work. -/
structure Views (base : Document) (path : String) (view : ListView) : Prop where
  path_eq : view.path = path
  schema_eq : view.schema = base.schema
  isSet_eq : view.isSet = decide (base.schema.container? path = some .set)

theorem Views.put (h : Views base path view) (items : List Value) (atomics : ListAtomics)
    (touched : Bool) :
    Views base path { view with items := items, atomics := atomics, touched := touched } :=
  ⟨h.path_eq, h.schema_eq, h.isSet_eq⟩

theorem on_castItem_list (h : Views base path view) (v : Value) :
    (castItem path v).on (base.closeList view) = (view.castItem v, base.closeList view) := by
  have hschema : (base.closeList view).schema = view.schema :=
    (Document.schema_closeAt _ _ _ _ _).trans h.schema_eq.symm
  obtain rfl := h.path_eq
  rw [on_castItem, hschema]
  cases hcast : view.schema.castItem view.path v <;> simp only [ListView.castItem, hcast]

theorem on_listAt (h : Views base path view) :
    (listAt path).on (base.closeList view) =
      (.ok { view with touched := false }, base.closeList view) := by
  obtain ⟨rfl, hschema, hset⟩ := h
  have hget : (base.closeList view).get? view.path = some (.list view.items) :=
    Document.get?_closeAt_self _ _ _ _ _
  have hslot : (base.closeList view).listAtomics view.path = view.atomics := by
    rw [Document.listAtomics, Document.closeList_eq, Document.slot_closeAt, if_pos rfl]
  have hcloseSchema : (base.closeList view).schema = base.schema :=
    Document.schema_closeAt _ _ _ _ _
  rw [listAt, on_bind, on_get]
  dsimp only
  rw [on_pure, hget, Document.listView, hslot, hcloseSchema, ← hset, ← hschema]
  rfl

theorem on_store_list (h : Views base path view) (items : List Value) (atomics : ListAtomics) :
    (store path (.list items) (.list atomics)).on (base.closeList view) =
      (.ok (), base.closeList
        { view with items := items, atomics := atomics, touched := true }) := by
  obtain ⟨rfl, -, -⟩ := h
  exact on_store base view.path _ _ _ _ _

theorem on_replaceItems (h : Views base path view) (items : List Value) :
    (replaceItems path items).on (base.closeList view) =
      (.ok (), base.closeList (view.replaceItems items)) :=
  on_store_list h items .set

theorem on_push (h : Views base path view) (values : List Value) :
    (push path values).on (base.closeList view) = ((view.push values).map Prod.fst,
      base.closeList (view.orKeep ((view.push values).map Prod.snd))) := by
  rw [push, on_bind, on_mapM (on_castItem_list h), ListView.push, ListView.castItems]
  cases values.mapM view.castItem with
  | error e => rfl
  | ok casted =>
    dsimp only
    rw [on_bind, on_listAt h]
    have hnew : ListView.newItems { view with touched := false } casted = view.newItems casted :=
      rfl
    dsimp only
    rw [hnew]
    cases hempty : (view.newItems casted).isEmpty with
    | true =>
      rw [if_neg (by decide), on_bind, on_listAt h]
      simp only [Success.ok_bind, hempty]
      rfl
    | false =>
      have hnext := h.put (view.items ++ view.newItems casted)
        (view.atomics.pushAdd (view.newItems casted)) true
      rw [if_pos (by decide), on_bind, on_store_list h]
      dsimp only
      rw [on_bind, on_listAt hnext]
      simp only [Success.ok_bind, hempty]
      rfl

theorem on_pop (h : Views base path view) :
    (pop path).on (base.closeList view) = (.ok view.pop.1, base.closeList view.pop.2) := by
  rw [pop, on_bind, on_listAt h, ListView.pop]
  dsimp only
  cases view.items.getLast? with
  | none => rfl
  | some last =>
    dsimp only
    rw [on_bind, on_replaceItems h]
    rfl

theorem on_shift (h : Views base path view) :
    (shift path).on (base.closeList view) = (.ok view.shift.1, base.closeList view.shift.2) := by
  rw [shift, on_bind, on_listAt h, ListView.shift]
  dsimp only
  cases view.items with
  | nil => rfl
  | cons first rest =>
    dsimp only
    rw [on_bind, on_replaceItems h]
    rfl

theorem on_unshift (h : Views base path view) (values : List Value) :
    (unshift path values).on (base.closeList view) = ((view.unshift values).map Prod.fst,
      base.closeList (view.orKeep ((view.unshift values).map Prod.snd))) := by
  rw [unshift, on_bind, on_mapM (on_castItem_list h), ListView.unshift, ListView.castItems]
  cases values.mapM view.castItem with
  | error e => rfl
  | ok casted =>
    dsimp only
    cases hempty : casted.isEmpty with
    | true =>
      rw [if_neg (by decide), on_bind, on_listAt h]
      simp only [Success.ok_bind, hempty]
      rfl
    | false =>
      have hnext := h.put (casted ++ view.items) .set true
      rw [if_pos (by decide), on_bind, on_listAt h]
      dsimp only
      rw [on_bind, on_replaceItems h]
      dsimp only
      rw [ListView.replaceItems, on_bind, on_listAt hnext]
      simp only [Success.ok_bind, hempty]
      rfl

theorem on_splice (h : Views base path view) (start count : Nat) (values : List Value) :
    (splice path start count values).on (base.closeList view) =
      ((view.splice start count values).map Prod.fst,
        base.closeList (view.orKeep ((view.splice start count values).map Prod.snd))) := by
  rw [splice, on_bind, on_mapM (on_castItem_list h), ListView.splice, ListView.castItems]
  cases values.mapM view.castItem with
  | error e => rfl
  | ok casted =>
    dsimp only
    rw [on_bind, on_listAt h]
    dsimp only
    rw [on_bind, on_replaceItems h]
    rfl

theorem on_sortBy (h : Views base path view) (le : Value → Value → Bool) :
    (sortBy path le).on (base.closeList view) = (.ok (), base.closeList (view.sortBy le)) := by
  rw [sortBy, on_bind, on_listAt h]
  exact on_replaceItems h _

theorem on_setItem (h : Views base path view) (index : Nat) (v : Value) :
    (setItem path index v).on (base.closeList view) =
      (((view.set index v).map ((), ·)).map Prod.fst,
        base.closeList (view.orKeep (((view.set index v).map ((), ·)).map Prod.snd))) := by
  rw [setItem, on_bind, on_castItem_list h, ListView.set]
  cases view.castItem v with
  | error e => rfl
  | ok w =>
    dsimp only
    rw [on_bind, on_listAt h]
    dsimp only
    by_cases hlt : index < view.items.length
    · rw [if_pos hlt, on_replaceItems h]
      simp only [Success.ok_bind, hlt]
      rfl
    · rw [if_neg hlt, on_throw]
      simp only [Success.ok_bind, hlt]
      rfl

theorem on_pull (h : Views base path view) (values : List Value) :
    (pull path values).on (base.closeList view) = ((view.pull values).map Prod.fst,
      base.closeList (view.orKeep ((view.pull values).map Prod.snd))) := by
  rw [pull, on_bind, on_mapM (on_castItem_list h), ListView.pull, ListView.castItems]
  cases values.mapM view.castItem with
  | error e => rfl
  | ok casted =>
    dsimp only
    rw [on_bind, on_listAt h]
    obtain ⟨rfl, -, -⟩ := h
    dsimp only
    rw [on_bind, Document.closeList_eq, on_putValue]
    dsimp only
    rw [Success.ok_bind]
    split
    · next hnone =>
      -- Nothing is removed, so the items that were written back are those that were there.
      have hkept : (view.items.filter fun item => !item.occursIn casted) = view.items :=
        List.filter_sublist.eq_of_length_le (Nat.le_of_sub_eq_zero hnone)
      rw [hkept]
      rfl
    · next hsome =>
      rw [on_bind, on_putAtomics]
      dsimp only
      rw [on_bind, on_mark]
      rfl

theorem Views.edit (h : Views base path view) (edit : ListEdit) :
    Views base path (view.edit edit) := by
  have hmove := ListView.edit_moves view edit
  generalize view.edit edit = next at hmove
  cases hmove with
  | keep => exact h
  | append | take | replace => exact h.put _ _ _

theorem Views.respond (h : Views base path view) (edit : ListEdit) :
    Views base path (view.respond edit).2 := by
  rw [ListView.respond_snd]
  exact h.edit edit

/-- What is answered in place is what the view reports. -/
theorem on_listShown {α : Type} {work : InPlace α} {result : Except Error (α × ListView)}
    (answer : α → ListAnswer)
    (hnext : Views base path (view.orKeep (result.map Prod.snd)))
    (hwork : work.on (base.closeList view) =
      (result.map Prod.fst, base.closeList (view.orKeep (result.map Prod.snd)))) :
    (listShown path (answer <$> work)).on (base.closeList view) =
      (.ok (view.report answer result).1, base.closeList (view.report answer result).2) := by
  rw [listShown, on_bind, on_attempt, on_map, hwork]
  dsimp only
  rw [on_bind, on_listAt hnext]
  cases result <;> rfl

theorem on_listShown_of_ok {α : Type} {work : InPlace α} {a : α} {next : ListView}
    (answer : α → ListAnswer) (hnext : Views base path next)
    (hwork : work.on (base.closeList view) = (.ok a, base.closeList next)) :
    (listShown path (answer <$> work)).on (base.closeList view) =
      (.ok (.ok (answer a), next.items), base.closeList next) := by
  rw [listShown, on_bind, on_attempt, on_map, hwork]
  dsimp only
  rw [on_bind, on_listAt hnext]
  rfl

theorem on_editList (h : Views base path view) (edit : ListEdit) :
    (editList path edit).on (base.closeList view) =
      (.ok (view.respond edit).1, base.closeList (view.respond edit).2) := by
  have hnext := h.edit edit
  cases edit with
  | push values => exact on_listShown .count hnext (on_push h values)
  | pop => exact on_listShown_of_ok .item hnext (on_pop h)
  | shift => exact on_listShown_of_ok .item hnext (on_shift h)
  | unshift values => exact on_listShown .count hnext (on_unshift h values)
  | splice start count values => exact on_listShown .items hnext (on_splice h start count values)
  | sortBy le => exact on_listShown_of_ok (fun _ => .done) hnext (on_sortBy h le)
  | set index v =>
    rw [← ListView.respond_snd, ListView.respond, ListView.report_snd] at hnext
    exact on_listShown (fun _ => .done) hnext (on_setItem h index v)
  | pull values => exact on_listShown .count hnext (on_pull h values)

theorem on_editLists (h : Views base path view) (edits : List ListEdit) :
    (edits.mapM (editList path)).on (base.closeList view) =
      (.ok (answerAll ListView.respond view edits).1,
        base.closeList (answerAll ListView.respond view edits).2) :=
  on_answerAll (P := Views base path) Views.respond on_editList h edits

end List

/-! ### Maps -/

section Map

variable {base : Document} {path : String} {view : MapView}

/-- A view of the map at a path of a document, as it may be after some work. -/
structure MapViews (base : Document) (path : String) (view : MapView) : Prop where
  path_eq : view.path = path
  schema_eq : view.schema = base.schema

theorem MapViews.put (h : MapViews base path view) (entries : Fields Value) (atomics : MapAtomics)
    (touched : Bool) :
    MapViews base path { view with entries := entries, atomics := atomics, touched := touched } :=
  ⟨h.path_eq, h.schema_eq⟩

theorem on_mapAt (h : MapViews base path view) :
    (mapAt path).on (base.closeMap view) =
      (.ok { view with touched := false }, base.closeMap view) := by
  obtain ⟨rfl, hschema⟩ := h
  have hget : (base.closeMap view).get? view.path = some (.map view.entries) :=
    Document.get?_closeAt_self _ _ _ _ _
  have hslot : (base.closeMap view).mapAtomics view.path = view.atomics := by
    rw [Document.mapAtomics, Document.closeMap_eq, Document.slot_closeAt, if_pos rfl]
  have hcloseSchema : (base.closeMap view).schema = base.schema :=
    Document.schema_closeAt _ _ _ _ _
  rw [mapAt, on_bind, on_get]
  dsimp only
  rw [on_pure, hget, Document.mapView, hslot, hcloseSchema, ← hschema]
  rfl

theorem on_store_map (h : MapViews base path view) (entries : Fields Value) (atomics : MapAtomics) :
    (store path (.map entries) (.map atomics)).on (base.closeMap view) =
      (.ok (), base.closeMap
        { view with entries := entries, atomics := atomics, touched := true }) := by
  obtain ⟨rfl, -⟩ := h
  exact on_store base view.path _ _ _ _ _

theorem on_put (h : MapViews base path view) (key : String) (v : Value) :
    (put path key v).on (base.closeMap view) =
      match view.put key v with
      | .ok next => (.ok (), base.closeMap next)
      | .error e => (.error e, base.closeMap view) := by
  have hschema : (base.closeMap view).schema = view.schema :=
    (Document.schema_closeAt _ _ _ _ _).trans h.schema_eq.symm
  obtain rfl := h.path_eq
  rw [put, on_bind, on_castItem, hschema, MapView.put]
  cases view.schema.castItem view.path v with
  | error e => rfl
  | ok w =>
    dsimp only
    rw [on_bind, on_mapAt h]
    exact on_store_map h _ _

theorem MapViews.of_put (h : MapViews base path view) {key : String} {v : Value} {next : MapView}
    (hput : view.put key v = .ok next) : MapViews base path next := by
  obtain ⟨w, rfl⟩ := MapView.put_eq_ok hput
  exact h.put _ _ _

theorem on_putAll (h : MapViews base path view) (entries : List (String × Value)) :
    (putAll path entries).on (base.closeMap view) =
      (match (view.putAll entries).1 with
        | none => .ok ()
        | some e => .error e, base.closeMap (view.putAll entries).2) := by
  induction entries generalizing view with
  | nil => rfl
  | cons entry rest ih =>
    rw [putAll, List.forM_cons, on_bind, on_put h, MapView.putAll]
    cases hput : view.put entry.1 entry.2 with
    | error e => rfl
    | ok next => exact ih (h.of_put hput)

theorem on_remove (h : MapViews base path view) (keys : List String) :
    (remove path keys).on (base.closeMap view) =
      (.ok (view.remove keys).1, base.closeMap (view.remove keys).2) := by
  induction keys generalizing view with
  | nil => rfl
  | cons key rest ih =>
    rw [remove, on_bind, on_mapAt h, MapView.remove]
    dsimp only
    split
    · rw [on_bind, on_store_map h]
      dsimp only
      rw [on_bind, ih (h.put _ _ true)]
      rfl
    · exact ih h

theorem MapViews.edit (h : MapViews base path view) (edit : MapEdit) :
    MapViews base path (view.edit edit) := by
  have hmoves := MapView.edit_moves view edit
  generalize view.edit edit = next at hmoves
  induction hmoves with
  | keep view => exact h
  | put key v rest ih => exact ih (h.put _ _ true)
  | remove key rest ih => exact ih (h.put _ _ true)

theorem MapViews.respond (h : MapViews base path view) (edit : MapEdit) :
    MapViews base path (view.respond edit).2 := by
  rw [MapView.respond_snd]
  exact h.edit edit

theorem on_mapShown {next : MapView} (hnext : MapViews base path next) {work : InPlace MapAnswer}
    {answer : MapAnswer} (hwork : work.on (base.closeMap view) = (.ok answer, base.closeMap next)) :
    (mapShown path work).on (base.closeMap view) =
      (.ok (answer, next.entries), base.closeMap next) := by
  rw [mapShown, on_bind, hwork]
  dsimp only
  rw [on_bind, on_mapAt hnext]
  rfl

theorem on_editMap (h : MapViews base path view) (edit : MapEdit) :
    (editMap path edit).on (base.closeMap view) =
      (.ok (view.respond edit).1, base.closeMap (view.respond edit).2) := by
  have hnext := h.edit edit
  cases edit with
  | put key v =>
    rw [MapView.respond]
    rw [MapView.edit] at hnext
    cases hput : view.put key v with
    | error e =>
      refine on_mapShown h ?_
      rw [on_map, on_attempt, on_put h, hput]
      rfl
    | ok next =>
      rw [hput] at hnext
      refine on_mapShown hnext ?_
      rw [on_map, on_attempt, on_put h, hput]
      rfl
  | putAll entries =>
    refine on_mapShown hnext ?_
    rw [on_map, on_attempt, on_putAll h]
    cases hfailed : (view.putAll entries).1 <;> simp [Except.map, doneOr, hfailed, MapView.edit]
  | remove keys =>
    refine on_mapShown hnext ?_
    rw [on_map, on_remove h]
    rfl

theorem on_editMaps (h : MapViews base path view) (edits : List MapEdit) :
    (edits.mapM (editMap path)).on (base.closeMap view) =
      (.ok (answerAll MapView.respond view edits).1,
        base.closeMap (answerAll MapView.respond view edits).2) :=
  on_answerAll (P := MapViews base path) MapViews.respond on_editMap h edits

end Map

/-! ### Whole sessions -/

section Session

variable {doc : Document} {path : String}

theorem openList_withContainer (doc : Document) (path : String) :
    (doc.withContainer path (.list [])).openList path =
      match (doc.get? path).getD (.list []) with
      | .list items => .ok ((doc.withContainer path (.list [])).listView path items)
      | other => .error (Document.notContainer path "list" (some other)) := by
  rw [Document.openList, get?_withContainer]
  cases (doc.get? path).getD (.list []) <;> rfl

theorem openMap_withContainer (doc : Document) (path : String) :
    (doc.withContainer path (.map [])).openMap path =
      match (doc.get? path).getD (.map []) with
      | .map entries => .ok ((doc.withContainer path (.map [])).mapView path entries)
      | other => .error (Document.notContainer path "map" (some other)) := by
  rw [Document.openMap, get?_withContainer]
  cases (doc.get? path).getD (.map []) <;> rfl

/-- To open a container is to close it as it is found. -/
theorem closeAt_withContainer (h : (Value.map doc.values).Ordered) (path : String)
    (container : Value) (atomics : Atomics) :
    (doc.withContainer path container).closeAt path ((doc.get? path).getD container) atomics false =
      { doc.withContainer path container with
        atomics := Fields.put doc.atomics path atomics } := by
  have hclose : (doc.withContainer path container).closeAt path ((doc.get? path).getD container)
      atomics false =
        { doc.withContainer path container with
          values := writeAt (doc.withContainer path container).values path
            (some ((doc.get? path).getD container))
          atomics := Fields.put (doc.withContainer path container).atomics path atomics } := rfl
  rw [hclose, writeAt_withContainer h, atomics_withContainer]

/-- A session on a list in place answers and leaves what is made of the document by opening, working
on and closing a view. -/
theorem on_workOnList (h : (Value.map doc.values).Ordered) (path : String)
    (edits : List ListEdit) :
    (workOnList path edits).on doc = settled doc (doc.editList path (·.session edits)) := by
  rw [workOnList, on_bind, on_openList, Document.editList_eq, openList_withContainer]
  have hopen := closeAt_withContainer h path (.list []) (.list (doc.listAtomics path))
  cases hfound : (doc.get? path).getD (.list []) with
  | list items =>
    have hclosed : (doc.withContainer path (.list [])).closeList
        ((doc.withContainer path (.list [])).listView path items) =
          { doc.withContainer path (.list []) with
            atomics := Fields.put doc.atomics path (.list (doc.listAtomics path)) } := by
      rw [← hopen, hfound, Document.closeList_eq, Document.listView, listAtomics_withContainer]
    have hviews : Views (doc.withContainer path (.list [])) path
        ((doc.withContainer path (.list [])).listView path items) := ⟨rfl, rfl, rfl⟩
    dsimp only
    rw [← hclosed, on_bind, on_listAt hviews]
    dsimp only
    rw [on_bind, on_editLists hviews]
    rfl
  | _ => rfl

theorem on_workOnMap (h : (Value.map doc.values).Ordered) (path : String) (edits : List MapEdit) :
    (workOnMap path edits).on doc = settled doc (doc.editMap path (·.session edits)) := by
  rw [workOnMap, on_bind, on_openMap, Document.editMap_eq, openMap_withContainer]
  have hopen := closeAt_withContainer h path (.map []) (.map (doc.mapAtomics path))
  cases hfound : (doc.get? path).getD (.map []) with
  | map entries =>
    have hclosed : (doc.withContainer path (.map [])).closeMap
        ((doc.withContainer path (.map [])).mapView path entries) =
          { doc.withContainer path (.map []) with
            atomics := Fields.put doc.atomics path (.map (doc.mapAtomics path)) } := by
      rw [← hopen, hfound, Document.closeMap_eq, Document.mapView, mapAtomics_withContainer]
    have hviews : MapViews (doc.withContainer path (.map [])) path
        ((doc.withContainer path (.map [])).mapView path entries) := ⟨rfl, rfl⟩
    dsimp only
    rw [← hclosed, on_bind, on_mapAt hviews]
    dsimp only
    rw [on_bind, on_editMaps hviews]
    rfl
  | _ => rfl

end Session

end DocMapper.InPlace
