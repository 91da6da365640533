import DocMapper.Proofs.FieldType
import DocMapper.Proofs.Tracking.Operations
/-!
# Sets that stay sets

What is pushed on a set is looked for among its items first. Three operations put values in without
looking: in front, in the place of some items, and in the place of one. The set stays one exactly as
long as what they put in is new. Every operation leaves the items, in some order, as what it inserts
this way together with a part of those before, or it makes no two items equal.
-/

namespace DocMapper

open scoped List

/-- No two of the items are equal. -/
def Distinct (items : List Value) : Prop :=
  items.Pairwise fun a b => a.eqv b = false

instance (items : List Value) : Decidable (Distinct items) :=
  inferInstanceAs (Decidable (items.Pairwise fun a b => a.eqv b = false))

/-- The values are different from one another and from the items that they come to. -/
def NewTo (values kept : List Value) : Prop :=
  Distinct values ∧ ∀ v ∈ values, v.occursIn kept = false

instance (values kept : List Value) : Decidable (NewTo values kept) :=
  inferInstanceAs (Decidable (Distinct values ∧ ∀ v ∈ values, v.occursIn kept = false))

theorem distinct_iff_of_perm {items others : List Value} (h : items ~ others) :
    Distinct items ↔ Distinct others :=
  h.pairwise_iff fun hab => (Value.eqv_comm _ _).trans hab

theorem Distinct.of_sublist {items part : List Value} (h : Distinct items)
    (hpart : part <+ items) : Distinct part :=
  List.Pairwise.sublist hpart h

theorem Value.occursIn_eq_false {v : Value} {items : List Value} :
    v.occursIn items = false ↔ ∀ item ∈ items, v.eqv item = false := by
  simp [occursIn, eqv_comm v]

theorem distinct_append_iff {values kept : List Value} (hkept : Distinct kept) :
    Distinct (values ++ kept) ↔ NewTo values kept := by
  rw [Distinct, List.pairwise_append, NewTo]
  simp only [Value.occursIn_eq_false]
  constructor
  · rintro ⟨hvalues, -, happart⟩
    exact ⟨hvalues, happart⟩
  · rintro ⟨hvalues, happart⟩
    exact ⟨hvalues, hkept, happart⟩

theorem distinct_append_distinctFrom {items : List Value} (h : Distinct items)
    (values : List Value) : Distinct (items ++ FieldType.distinctFrom items values) := by
  obtain ⟨happart, hnew⟩ := FieldType.pairwise_distinctFrom items values
  exact List.pairwise_append.mpr ⟨h, hnew, happart⟩

namespace ListView

/-! ### What goes in unseen -/

/-- The values that an operation puts among the items without looking for them there, and the items
that stay. -/
def insertion? (view : ListView) : ListEdit → Option (List Value × List Value)
  | .unshift values => (view.castItems values).toOption.map (·, view.items)
  | .splice start count values =>
    (view.castItems values).toOption.map
      (·, view.items.take start ++ (view.items.drop start).drop count)
  | .set index v =>
    if index < view.items.length then
      (view.castItem v).toOption.map ([·], view.items.eraseIdx index)
    else none
  | _ => none

/-- What an operation puts in unseen is new to the items that stay. -/
def InsertsNew (view : ListView) (edit : ListEdit) : Prop :=
  ∀ values kept, view.insertion? edit = some (values, kept) → NewTo values kept

variable {view : ListView}

theorem items_edit_unshift {values casted : List Value} (h : view.castItems values = .ok casted) :
    (view.edit (.unshift values)).items = casted ++ view.items := by
  rw [edit, unshift, h]
  cases casted with
  | nil => rfl
  | cons => rfl

theorem items_edit_splice {start count : Nat} {values casted : List Value}
    (h : view.castItems values = .ok casted) :
    (view.edit (.splice start count values)).items =
      view.items.take start ++ casted ++ (view.items.drop start).drop count := by
  rw [edit, splice, h]
  rfl

theorem items_edit_set {index : Nat} {v w : Value} (h : view.castItem v = .ok w)
    (hindex : index < view.items.length) :
    (view.edit (.set index v)).items = view.items.set index w := by
  rw [edit, set, h]
  change (view.orKeep (if _ then _ else _)).items = _
  rw [if_pos hindex]
  rfl

theorem items_edit_set_of_le {index : Nat} (v : Value) (hindex : view.items.length ≤ index) :
    (view.edit (.set index v)).items = view.items := by
  rw [edit, set]
  cases view.castItem v with
  | error e => rfl
  | ok w =>
    change (view.orKeep (if _ then _ else _)).items = _
    rw [if_neg (by omega)]
    rfl

/-- The items after an operation are what it puts in and what it lets stay, in some order. -/
theorem items_edit_perm {edit : ListEdit} {values kept : List Value}
    (h : view.insertion? edit = some (values, kept)) :
    (view.edit edit).items ~ values ++ kept ∧ kept <+ view.items := by
  cases edit with
  | unshift given =>
    obtain ⟨casted, hcast, hparts⟩ := Success.map_toOption_eq_some.mp h
    cases hparts
    exact ⟨.of_eq (items_edit_unshift hcast), .refl _⟩
  | splice start count given =>
    obtain ⟨casted, hcast, hparts⟩ := Success.map_toOption_eq_some.mp h
    cases hparts
    constructor
    · rw [items_edit_splice hcast, ← List.append_assoc]
      exact List.perm_append_comm.append_right _
    · calc view.items.take start ++ (view.items.drop start).drop count
        _ <+ view.items.take start ++ view.items.drop start :=
          (List.Sublist.refl _).append (List.drop_sublist _ _)
        _ = view.items := List.take_append_drop _ _
  | set index v =>
    rw [insertion?] at h
    split at h
    · next hindex =>
      obtain ⟨w, hcast, hparts⟩ := Success.map_toOption_eq_some.mp h
      cases hparts
      refine ⟨?_, List.eraseIdx_sublist _ _⟩
      calc (view.edit (.set index v)).items
        _ = view.items.take index ++ w :: view.items.drop (index + 1) := by
          rw [items_edit_set hcast hindex, List.set_eq_take_append_cons_drop, if_pos hindex]
        _ ~ [w] ++ (view.items.take index ++ view.items.drop (index + 1)) := List.perm_middle
        _ = [w] ++ view.items.eraseIdx index := by rw [List.eraseIdx_eq_take_drop_succ]
    · cases h
  | push | pop | shift | sortBy | pull => cases h

/-! ### What goes in seen, or not at all -/

theorem distinct_edit_push (hset : view.isSet = true) (h : Distinct view.items)
    (given : List Value) : Distinct (view.edit (.push given)).items := by
  rw [edit, ListView.push]
  cases view.castItems given with
  | error e => exact h
  | ok casted =>
    change Distinct (if (view.newItems casted).isEmpty then view else _).items
    rw [newItems, if_pos hset]
    split
    · exact h
    · exact distinct_append_distinctFrom h casted

theorem items_pop_sublist (view : ListView) : (view.edit .pop).items <+ view.items := by
  rw [edit, pop]
  split
  · exact List.dropLast_sublist _
  · exact .refl _

theorem items_shift_sublist (view : ListView) : (view.edit .shift).items <+ view.items := by
  rw [edit, shift]
  split
  · next first rest hitems =>
    rw [hitems]
    exact List.sublist_cons_self first rest
  · exact .refl _

theorem items_pull_sublist (view : ListView) (given : List Value) :
    (view.edit (.pull given)).items <+ view.items := by
  rw [edit, pull]
  cases view.castItems given with
  | error e => exact .refl _
  | ok casted =>
    change (view.orKeep (Except.map Prod.snd (if _ then _ else _))).items <+ _
    split
    · exact .refl _
    · exact List.filter_sublist

/-- An operation that puts nothing in unseen makes no two items of a set equal. -/
theorem distinct_of_no_insertion (hset : view.isSet = true) (hdistinct : Distinct view.items)
    {edit : ListEdit} (h : view.insertion? edit = none) : Distinct (view.edit edit).items := by
  cases edit with
  | push given => exact distinct_edit_push hset hdistinct given
  | pop => exact hdistinct.of_sublist (items_pop_sublist view)
  | shift => exact hdistinct.of_sublist (items_shift_sublist view)
  | sortBy le => exact (distinct_iff_of_perm (List.mergeSort_perm _ _)).mpr hdistinct
  | pull given => exact hdistinct.of_sublist (items_pull_sublist view given)
  | unshift given =>
    obtain ⟨e, hcast⟩ := Success.map_toOption_eq_none.mp h
    rw [ListView.edit, unshift, hcast]
    exact hdistinct
  | splice start count given =>
    obtain ⟨e, hcast⟩ := Success.map_toOption_eq_none.mp h
    rw [ListView.edit, splice, hcast]
    exact hdistinct
  | set index v =>
    rw [insertion?] at h
    split at h
    · obtain ⟨e, hcast⟩ := Success.map_toOption_eq_none.mp h
      rw [ListView.edit, set, hcast]
      exact hdistinct
    · next hindex =>
      rw [items_edit_set_of_le v (Nat.le_of_not_lt hindex)]
      exact hdistinct

/-! ### Operations one after the other -/

theorem distinct_edit_iff (hset : view.isSet = true) (hdistinct : Distinct view.items)
    (edit : ListEdit) : Distinct (view.edit edit).items ↔ view.InsertsNew edit := by
  cases hinsertion : view.insertion? edit with
  | none =>
    refine iff_of_true (distinct_of_no_insertion hset hdistinct hinsertion) ?_
    intro values kept hsome
    rw [hinsertion] at hsome
    cases hsome
  | some insertion =>
    obtain ⟨values, kept⟩ := insertion
    obtain ⟨hperm, hkept⟩ := items_edit_perm hinsertion
    calc Distinct (view.edit edit).items
      _ ↔ Distinct (values ++ kept) := distinct_iff_of_perm hperm
      _ ↔ NewTo values kept := distinct_append_iff (hdistinct.of_sublist hkept)
      _ ↔ view.InsertsNew edit := by simp [InsertsNew, hinsertion]

theorem Moves.isSet {next : ListView} (h : Moves view next) : next.isSet = view.isSet := by
  cases h <;> rfl

theorem isSet_edits (view : ListView) (edits : List ListEdit) :
    (edits.foldl edit view).isSet = view.isSet :=
  holds_edits (P := fun next => next.isSet = view.isSet) (fun hmove h => hmove.isSet.trans h) rfl
    edits

/-- A set is one after each of the operations exactly if each puts in unseen, when its turn comes,
only what is new to the items that stay. -/
theorem set_stays_distinct_iff (hset : view.isSet = true) (hdistinct : Distinct view.items)
    (edits : List ListEdit) :
    (∀ earlier, earlier <+: edits → Distinct (earlier.foldl edit view).items) ↔
      ∀ earlier next, earlier ++ [next] <+: edits →
        (earlier.foldl edit view).InsertsNew next := by
  have hlast : ∀ earlier next, (earlier ++ [next]).foldl edit view =
      (earlier.foldl edit view).edit next := by
    intro earlier next
    rw [List.foldl_append, List.foldl_cons, List.foldl_nil]
  have hstill : ∀ earlier : List ListEdit, (earlier.foldl edit view).isSet = true := by
    intro earlier
    rw [isSet_edits, hset]
  constructor
  · intro hall earlier next hprefix
    have hbefore := hall earlier ((List.prefix_append earlier [next]).trans hprefix)
    have hafter := hall (earlier ++ [next]) hprefix
    rw [hlast] at hafter
    exact (distinct_edit_iff (hstill earlier) hbefore next).mp hafter
  · intro hnew earlier hprefix
    -- from the back, so that the operation in question is the last one
    induction earlier using List.reverseRecOn with
    | nil => exact hdistinct
    | append_singleton earlier next ih =>
      have hbefore := ih ((List.prefix_append earlier [next]).trans hprefix)
      rw [hlast]
      exact (distinct_edit_iff (hstill earlier) hbefore next).mpr (hnew earlier next hprefix)

/-- A set of words, as it is opened. -/
def words (items : List String) : ListView where
  path := "tags"
  items := items.map .string
  atomics := .clean
  touched := false
  schema := (Schema.empty "User").declare "tags" (.ofType (.set .string))
  isSet := true

/-- What is pushed twice goes in once, and another word in front of it is new. -/
theorem set_stays_distinct_iff_fresh :
    ((words ["a"]).edit (.push [.string "b", .string "b", .string "a"])).items =
        ["a", "b"].map .string ∧
      ∀ earlier, earlier <+: [.push [.string "b", .string "b", .string "a"], .unshift [.string "c"]] →
        Distinct (earlier.foldl edit (words ["a"])).items := by
  refine ⟨rfl, (set_stays_distinct_iff rfl (by decide) _).mpr ?_⟩
  rintro earlier next ⟨later, hall⟩
  match earlier, hall with
  | [], hall =>
    obtain ⟨rfl, -⟩ := List.cons.inj hall
    intro values kept hnone
    cases hnone
  | [first], hall =>
    obtain ⟨rfl, hrest⟩ := List.cons.inj hall
    obtain ⟨rfl, -⟩ := List.cons.inj hrest
    intro values kept hsome
    cases hsome
    decide
  | _ :: _ :: _, hall => simp at hall

/-- A word that is put in front of a set holding it is there twice. -/
theorem set_item_doubled :
    ∃ doc view next, Document.hydrate (words []).schema [("tags", .list [.string "a"])] none =
        .ok doc ∧ doc.openList "tags" = .ok view ∧ view.isSet = true ∧ Distinct view.items ∧
      view.unshift [.string "a"] = .ok (2, next) ∧ ¬ Distinct next.items := by
  refine ⟨_, _, _, rfl, rfl, rfl, ?_, rfl, ?_⟩
  · decide
  · decide

end ListView

end DocMapper
