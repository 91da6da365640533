import DocMapper.Proofs.Fields
import DocMapper.Proofs.Success
import DocMapper.Tracking.ListView
import DocMapper.Tracking.MapView
/-!
# Work on the containers of a document

An operation on a view moves it in one of few ways, whatever it is called and whether it succeeds.
What is pending for a container leads from the contents it had when the changes began to those it
has now, and every move keeps that.
-/

namespace DocMapper

/-- No item is itself a list. -/
def Flat (items : List Value) : Prop :=
  ∀ item ∈ items, ∀ inner, item ≠ .list inner

theorem flat_strings (words : List String) : Flat (words.map .string) := by
  intro item hmem inner
  obtain ⟨word, -, rfl⟩ := List.mem_map.mp hmem
  exact Value.noConfusion

namespace FieldType

theorem itemsOf_singleOrList {items : List Value} (h : ∀ inner, items ≠ [.list inner]) :
    itemsOf (singleOrList items) = items := by
  match items with
  | [] => rfl
  | [single] =>
    cases single with
    | list inner => exact absurd rfl (h inner)
    | _ => rfl
  | _ :: _ :: _ => rfl

theorem itemsOf_singleOrList_of_flat {items : List Value} (h : Flat items) :
    itemsOf (singleOrList items) = items := by
  apply itemsOf_singleOrList
  intro inner heq
  subst heq
  exact h _ List.mem_cons_self inner rfl

end FieldType

theorem Value.occursIn_append (v : Value) (xs ys : List Value) :
    v.occursIn (xs ++ ys) = (v.occursIn xs || v.occursIn ys) := by
  simp [occursIn]

theorem Value.occursIn_list {v : Value} {inner : List Value} (h : v.occursIn [.list inner] = true) :
    ∃ items, v = .list items := by
  cases v <;> simp_all [occursIn, eqv]

/-! ### Lists -/

namespace ListAtomics

/-- The pending changes make a list out of the one it was when they began. -/
def Leads (base items : List Value) : ListAtomics → Prop
  | .clean => items = base ∧ Flat items
  | .set => True
  | .add added => items = base ++ added
  | .remove removed =>
    items = base.filter (fun item => !item.occursIn removed) ∧ removed ≠ [] ∧
      FieldType.itemsOf (singleOrList removed) = removed

variable {atomics : ListAtomics} {base items : List Value}

theorem Leads.pushAdd (h : atomics.Leads base items) (added : List Value) :
    (atomics.pushAdd added).Leads base (items ++ added) := by
  cases atomics with
  | clean =>
    obtain ⟨rfl, -⟩ := h
    rfl
  | add earlier =>
    rw [Leads] at h
    rw [ListAtomics.pushAdd, Leads, h, List.append_assoc]
  | set => trivial
  | remove removed => trivial

/-- Values that take away an item of a flat list are not a single list. Those that go after others
are not single. -/
theorem Leads.pushRemove (h : atomics.Leads base items) {values : List Value} {item : Value}
    (hmem : item ∈ items) (hitem : item.occursIn values = true) :
    (atomics.pushRemove values).Leads base (items.filter fun item => !item.occursIn values) := by
  have hvalues : values ≠ [] := by
    rintro rfl
    simp [Value.occursIn] at hitem
  cases atomics with
  | clean =>
    obtain ⟨rfl, hflat⟩ := h
    refine ⟨rfl, hvalues, FieldType.itemsOf_singleOrList ?_⟩
    intro inner heq
    rw [heq] at hitem
    obtain ⟨inner', hlist⟩ := Value.occursIn_list hitem
    exact hflat item hmem inner' hlist
  | remove earlier =>
    obtain ⟨hbase, hearlier, -⟩ := h
    refine ⟨?_, by simp [hearlier], FieldType.itemsOf_singleOrList ?_⟩
    · rw [hbase, List.filter_filter]
      apply List.filter_congr
      intro other _
      rw [Value.occursIn_append, Bool.not_or, Bool.and_comm]
    · intro inner heq
      have hlength := congrArg List.length heq
      have h1 := List.length_pos_iff.mpr hearlier
      have h2 := List.length_pos_iff.mpr hvalues
      rw [List.length_append, List.length_singleton] at hlength
      omega
  | set => trivial
  | add added => trivial

end ListAtomics

inductive ListEdit where
  | push (values : List Value)
  | pop
  | shift
  | unshift (values : List Value)
  | splice (start count : Nat) (values : List Value)
  | sortBy (le : Value → Value → Bool)
  | set (index : Nat) (v : Value)
  | pull (values : List Value)

namespace ListView

def orKeep (view : ListView) : Except Error ListView → ListView
  | .ok next => next
  | .error _ => view

def edit (view : ListView) : ListEdit → ListView
  | .push values => view.orKeep ((view.push values).map Prod.snd)
  | .pop => view.pop.2
  | .shift => view.shift.2
  | .unshift values => view.orKeep ((view.unshift values).map Prod.snd)
  | .splice start count values => view.orKeep ((view.splice start count values).map Prod.snd)
  | .sortBy le => view.sortBy le
  | .set index v => view.orKeep (view.set index v)
  | .pull values => view.orKeep ((view.pull values).map Prod.snd)

/-- What an operation can do to a list. -/
inductive Moves (view : ListView) : ListView → Prop
  | keep : Moves view view
  | append (added : List Value) :
      Moves view { view with
        items := view.items ++ added, atomics := view.atomics.pushAdd added, touched := true }
  | take (values : List Value) (item : Value) (hmem : item ∈ view.items)
      (hitem : item.occursIn values = true) :
      Moves view { view with
        items := view.items.filter fun item => !item.occursIn values
        atomics := view.atomics.pushRemove values, touched := true }
  | replace (items : List Value) : Moves view (view.replaceItems items)

theorem moves_orKeep {view : ListView} {result : Except Error ListView}
    (h : ∀ next, result = .ok next → Moves view next) : Moves view (view.orKeep result) := by
  cases result with
  | ok next => exact h next rfl
  | error e => exact .keep

theorem moves_orKeep_answered {view : ListView} {α : Type} {result : Except Error (α × ListView)}
    (h : ∀ answer next, result = .ok (answer, next) → Moves view next) :
    Moves view (view.orKeep (result.map Prod.snd)) := by
  apply moves_orKeep
  intro next hnext
  obtain ⟨⟨answer, next⟩, hresult, rfl⟩ := Success.map_eq_ok.mp hnext
  exact h answer next hresult

theorem moves_of_push {view next : ListView} {values : List Value} {length : Nat}
    (h : view.push values = .ok (length, next)) : Moves view next := by
  obtain ⟨casted, -, h⟩ := Success.bind_eq_ok.mp h
  obtain ⟨-, rfl⟩ := Prod.mk.inj (Success.pure_eq_ok.mp h)
  split
  · exact .keep
  · exact .append _

theorem moves_pop (view : ListView) : Moves view view.pop.2 := by
  unfold pop
  split
  · exact .replace _
  · exact .keep

theorem moves_shift (view : ListView) : Moves view view.shift.2 := by
  unfold shift
  split
  · exact .replace _
  · exact .keep

theorem moves_of_unshift {view next : ListView} {values : List Value} {length : Nat}
    (h : view.unshift values = .ok (length, next)) : Moves view next := by
  obtain ⟨casted, -, h⟩ := Success.bind_eq_ok.mp h
  obtain ⟨-, rfl⟩ := Prod.mk.inj (Success.pure_eq_ok.mp h)
  split
  · exact .keep
  · exact .replace _

theorem moves_of_splice {view next : ListView} {start count : Nat} {values taken : List Value}
    (h : view.splice start count values = .ok (taken, next)) : Moves view next := by
  obtain ⟨casted, -, h⟩ := Success.bind_eq_ok.mp h
  obtain ⟨-, rfl⟩ := Prod.mk.inj (Success.pure_eq_ok.mp h)
  exact .replace _

theorem moves_of_set {view next : ListView} {index : Nat} {v : Value}
    (h : view.set index v = .ok next) : Moves view next := by
  obtain ⟨casted, -, h⟩ := Success.bind_eq_ok.mp h
  split at h
  · obtain rfl := Success.pure_eq_ok.mp h
    exact .replace _
  · cases h

theorem moves_of_pull {view next : ListView} {values : List Value} {count : Nat}
    (h : view.pull values = .ok (count, next)) : Moves view next := by
  obtain ⟨casted, -, h⟩ := Success.bind_eq_ok.mp h
  dsimp only at h
  split at h
  · obtain ⟨-, rfl⟩ := Prod.mk.inj (Success.pure_eq_ok.mp h)
    exact .keep
  · next hremoved =>
    obtain ⟨-, rfl⟩ := Prod.mk.inj (Success.pure_eq_ok.mp h)
    have hlt : (view.items.filter fun item => !item.occursIn casted).length <
        view.items.length := by omega
    obtain ⟨item, hmem, hitem⟩ := List.length_filter_lt_length_iff_exists.mp hlt
    exact .take casted item hmem (by simpa using hitem)

theorem edit_moves (view : ListView) (edit : ListEdit) : Moves view (view.edit edit) := by
  cases edit with
  | push values => exact moves_orKeep_answered fun _ _ => moves_of_push
  | pop => exact moves_pop view
  | shift => exact moves_shift view
  | unshift values => exact moves_orKeep_answered fun _ _ => moves_of_unshift
  | splice start count values => exact moves_orKeep_answered fun _ _ => moves_of_splice
  | sortBy le => exact .replace _
  | set index v => exact moves_orKeep fun _ => moves_of_set
  | pull values => exact moves_orKeep_answered fun _ _ => moves_of_pull

/-- What every move keeps, operations one after the other keep. -/
theorem holds_edits {P : ListView → Prop}
    (hmove : ∀ {view next : ListView}, Moves view next → P view → P next)
    {view : ListView} (h : P view) (edits : List ListEdit) : P (edits.foldl edit view) := by
  induction edits generalizing view with
  | nil => exact h
  | cons first rest ih => exact ih (hmove (edit_moves view first) h)

/-- A view that came from another by operations: it is at the same path, it is touched if it is
anything else, and what is pending leads to its items. -/
structure CameFrom (base : List Value) (start view : ListView) : Prop where
  path : view.path = start.path
  untouched : view.touched = false → view.items = start.items ∧ view.atomics = start.atomics
  leads : view.atomics.Leads base view.items

theorem CameFrom.move {base : List Value} {start view next : ListView}
    (h : CameFrom base start view) (hmove : Moves view next) : CameFrom base start next := by
  cases hmove with
  | keep => exact h
  | append added => exact ⟨h.path, Bool.noConfusion, h.leads.pushAdd added⟩
  | take values item hmem hitem => exact ⟨h.path, Bool.noConfusion, h.leads.pushRemove hmem hitem⟩
  | replace items => exact ⟨h.path, Bool.noConfusion, trivial⟩

theorem CameFrom.edits {base : List Value} {start view : ListView} (h : CameFrom base start view)
    (edits : List ListEdit) : CameFrom base start (edits.foldl edit view) :=
  holds_edits (fun hmove h => h.move hmove) h edits

end ListView

/-! ### Maps -/

namespace MapAtomics

/-- The pending changes make a map out of the one it was when they began. -/
def Leads (base entries : Fields Value) : MapAtomics → Prop
  | .clean => ∀ key, Fields.get? entries key = Fields.get? base key
  | .set => True
  | .pending puts removes => Fields.Sorted puts ∧ ∀ key, Fields.get? entries key =
      if key ∈ removes then none else (Fields.get? puts key).or (Fields.get? base key)

variable {atomics : MapAtomics} {base entries : Fields Value}

theorem Leads.pushPut (h : atomics.Leads base entries) (key : String) (v : Value) :
    (atomics.pushPut key v).Leads base (Fields.put entries key v) := by
  cases atomics with
  | clean =>
    refine ⟨Fields.sorted_nil.put key v, fun other => ?_⟩
    rw [Fields.get?_put, h other, Fields.get?_cons]
    by_cases hother : other = key
    · simp [hother]
    · simp [hother, Ne.symm hother]
  | set => trivial
  | pending puts removes =>
    refine ⟨h.1.put key v, fun other => ?_⟩
    rw [Fields.get?_put, Fields.get?_put, h.2 other]
    by_cases hother : other = key
    · simp [hother]
    · simp [hother]

theorem Leads.pushRemove (h : atomics.Leads base entries) (key : String) :
    (atomics.pushRemove key).Leads base (Fields.drop entries key) := by
  cases atomics with
  | clean =>
    refine ⟨Fields.sorted_nil, fun other => ?_⟩
    rw [Fields.get?_drop, h other]
    by_cases hother : other = key
    · simp [hother]
    · simp [hother]
  | set => trivial
  | pending puts removes =>
    refine ⟨h.1.drop key, fun other => ?_⟩
    rw [Fields.get?_drop, Fields.get?_drop, h.2 other]
    by_cases hother : other = key
    · by_cases hmem : key ∈ removes
      · simp [hother, hmem]
      · simp [hother, hmem]
    · by_cases hmem : key ∈ removes
      · simp [hother, hmem]
      · simp [hother, hmem]

end MapAtomics

inductive MapEdit where
  | put (key : String) (v : Value)
  | putAll (entries : List (String × Value))
  | remove (keys : List String)

namespace MapView

/-- The map after an operation. If one of many entries cannot be put, those before it stay. -/
def edit (view : MapView) : MapEdit → MapView
  | .put key v =>
    match view.put key v with
    | .ok next => next
    | .error _ => view
  | .putAll entries => (view.putAll entries).2
  | .remove keys => (view.remove keys).2

/-- What an operation does to a map, key by key. -/
inductive Moves : MapView → MapView → Prop
  | keep (view : MapView) : Moves view view
  | put {view next : MapView} (key : String) (v : Value)
      (rest : Moves { view with
        entries := Fields.put view.entries key v
        atomics := view.atomics.pushPut key v, touched := true } next) : Moves view next
  | remove {view next : MapView} (key : String) (rest : Moves (view.removeKey key) next) :
      Moves view next

theorem put_eq_ok {view next : MapView} {key : String} {v : Value}
    (h : view.put key v = .ok next) : ∃ w, next = { view with
      entries := Fields.put view.entries key w
      atomics := view.atomics.pushPut key w, touched := true } := by
  unfold put at h
  split at h
  · cases h
  · next w _ =>
    cases h
    exact ⟨w, rfl⟩

theorem putAll_moves (view : MapView) (entries : List (String × Value)) :
    Moves view (view.putAll entries).2 := by
  induction entries generalizing view with
  | nil => exact .keep view
  | cons entry rest ih =>
    obtain ⟨key, v⟩ := entry
    unfold putAll
    split
    · exact .keep view
    · next next hput =>
      obtain ⟨w, rfl⟩ := put_eq_ok hput
      exact .put key w (ih _)

theorem remove_moves (view : MapView) (keys : List String) : Moves view (view.remove keys).2 := by
  induction keys generalizing view with
  | nil => exact .keep view
  | cons key rest ih =>
    unfold remove
    split
    · exact .remove key (ih _)
    · exact ih view

theorem edit_moves (view : MapView) (edit : MapEdit) : Moves view (view.edit edit) := by
  cases edit with
  | put key v =>
    rw [MapView.edit]
    split
    · next next hput =>
      obtain ⟨w, rfl⟩ := put_eq_ok hput
      exact .put key w (.keep _)
    · exact .keep view
  | putAll entries => exact putAll_moves view entries
  | remove keys => exact remove_moves view keys

theorem holds_edits {P : MapView → Prop}
    (hmove : ∀ {view next : MapView}, Moves view next → P view → P next)
    {view : MapView} (h : P view) (edits : List MapEdit) : P (edits.foldl edit view) := by
  induction edits generalizing view with
  | nil => exact h
  | cons first rest ih => exact ih (hmove (edit_moves view first) h)

structure CameFrom (base : Fields Value) (start view : MapView) : Prop where
  path : view.path = start.path
  untouched : view.touched = false → view.entries = start.entries ∧ view.atomics = start.atomics
  leads : view.atomics.Leads base view.entries

theorem CameFrom.move {base : Fields Value} {start view next : MapView}
    (h : CameFrom base start view) (hmove : Moves view next) : CameFrom base start next := by
  induction hmove with
  | keep view => exact h
  | put key v rest ih => exact ih ⟨h.path, Bool.noConfusion, h.leads.pushPut key v⟩
  | remove key rest ih => exact ih ⟨h.path, Bool.noConfusion, h.leads.pushRemove key⟩

theorem CameFrom.edits {base : Fields Value} {start view : MapView}
    (h : CameFrom base start view) (edits : List MapEdit) :
    CameFrom base start (edits.foldl edit view) :=
  holds_edits (fun hmove h => h.move hmove) h edits

end MapView

end DocMapper
