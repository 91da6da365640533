import DocMapper.Proofs.Tracking.Requests
/-!
# Pending changes that come to the same

Two registries come to the same if they are equal, or if the container is written whole in either
case and something is pending in both. Collapsing and forgetting make them equal, and whatever is
done to a container on top of them leaves something pending. So views that differ in nothing else
answer alike and still differ in nothing else.
-/

namespace DocMapper

/-! ### Registries -/

namespace Atomics

/-- The pending changes are the same, or the container is covered and both are written whole. -/
def Alike (covered : Prop) (atomics other : Atomics) : Prop :=
  atomics = other ∨ covered ∧ atomics.isPending = true ∧ other.isPending = true ∧
    atomics.collapse = other.collapse

section Alike

variable {covered : Prop} {atomics other : Atomics}

theorem Alike.refl (covered : Prop) (atomics : Atomics) : Alike covered atomics atomics :=
  Or.inl rfl

theorem Alike.mono (h : Alike covered atomics other) {more : Prop} (hmore : covered → more) :
    Alike more atomics other :=
  h.imp id (And.imp_left hmore)

theorem Alike.isPending (h : Alike covered atomics other) :
    atomics.isPending = other.isPending := by
  rcases h with rfl | ⟨-, hpending, hother, -⟩
  · rfl
  · rw [hpending, hother]

theorem Alike.collapse (h : Alike covered atomics other) : atomics.collapse = other.collapse := by
  rcases h with rfl | ⟨-, -, -, hcollapse⟩
  · rfl
  · exact hcollapse

/-- Both are of a list, or both of a map. -/
theorem Alike.kinds (h : Alike covered atomics other) :
    (∃ pending others, atomics = .list pending ∧ other = .list others) ∨
      ∃ pending others, atomics = .map pending ∧ other = .map others := by
  have hcollapse := h.collapse
  cases atomics with
  | list pending =>
    cases other with
    | list others => exact Or.inl ⟨pending, others, rfl, rfl⟩
    | map others => cases hcollapse
  | map pending =>
    cases other with
    | list others => cases hcollapse
    | map others => exact Or.inr ⟨pending, others, rfl, rfl⟩

theorem Alike.clear (h : Alike covered atomics other) : atomics.clear = other.clear := by
  rcases h.kinds with ⟨pending, others, rfl, rfl⟩ | ⟨pending, others, rfl, rfl⟩ <;> rfl

/-- Written whole where a condition says so, whatever the condition hangs on. -/
theorem Alike.collapseIf (h : Alike covered atomics other) (condition : Bool) :
    Alike covered (if condition then atomics.collapse else atomics)
      (if condition then other.collapse else other) := by
  cases condition with
  | true => exact Or.inl h.collapse
  | false => exact h

/-- Whatever goes on top of pending changes of a list leaves some pending. -/
theorem Alike.list {atomics other : ListAtomics} (h : Alike covered (.list atomics) (.list other))
    {f : ListAtomics → ListAtomics} (hf : ∀ atomics, (f atomics).isPending = true) :
    Alike covered (.list (f atomics)) (.list (f other)) := by
  rcases h with heq | ⟨hcovered, -⟩
  · cases heq
    exact .refl _ _
  · exact Or.inr ⟨hcovered, hf atomics, hf other, rfl⟩

theorem Alike.map {atomics other : MapAtomics} (h : Alike covered (.map atomics) (.map other))
    {f : MapAtomics → MapAtomics} (hf : ∀ atomics, (f atomics).isPending = true) :
    Alike covered (.map (f atomics)) (.map (f other)) := by
  rcases h with heq | ⟨hcovered, -⟩
  · cases heq
    exact .refl _ _
  · exact Or.inr ⟨hcovered, hf atomics, hf other, rfl⟩

end Alike

end Atomics

theorem rel_map {α β : Type} {R : α → α → Prop} {S : β → β → Prop} {f g : α → β}
    {a? b? : Option α} (h : Option.Rel R a? b?) (hmap : ∀ {a b}, R a b → S (f a) (g b)) :
    Option.Rel S (a?.map f) (b?.map g) := by
  cases h with
  | none => exact .none
  | some h => exact .some (hmap h)

/-- What is pending at each path comes to the same. -/
def SlotsAlike (covered : String → Prop) (slots others : Fields Atomics) : Prop :=
  ∀ path, Option.Rel (Atomics.Alike (covered path)) (Fields.get? slots path)
    (Fields.get? others path)

/-- The containers picked by their path, and by whether anything is pending there, are written
whole. -/
def collapseWhere (picks : String → Bool → Bool) (slots : Fields Atomics) : Fields Atomics :=
  slots.map fun entry =>
    (entry.1, if picks entry.1 entry.2.isPending then entry.2.collapse else entry.2)

theorem get?_collapseWhere (picks : String → Bool → Bool) (slots : Fields Atomics) (path : String) :
    Fields.get? (collapseWhere picks slots) path = (Fields.get? slots path).map fun atomics =>
      if picks path atomics.isPending then atomics.collapse else atomics :=
  Fields.get?_map_named slots (fun path atomics =>
    if picks path atomics.isPending then atomics.collapse else atomics) path

namespace SlotsAlike

variable {covered more : String → Prop} {slots others : Fields Atomics}

theorem mono (h : SlotsAlike covered slots others) (hmore : ∀ path, covered path → more path) :
    SlotsAlike more slots others := by
  intro path
  have hslot := rel_map (f := id) (g := id) (h path) fun halike => halike.mono (hmore path)
  simpa using hslot

theorem collapseWhere (h : SlotsAlike covered slots others) (picks : String → Bool → Bool) :
    SlotsAlike covered (collapseWhere picks slots) (collapseWhere picks others) := by
  intro path
  rw [get?_collapseWhere, get?_collapseWhere]
  refine rel_map (h path) fun halike => ?_
  rw [halike.isPending]
  exact halike.collapseIf _

/-- Nothing is left to differ when all is forgotten. -/
theorem clear (h : SlotsAlike covered slots others) :
    SlotsAlike more (Fields.mapValues Atomics.clear slots)
      (Fields.mapValues Atomics.clear others) := by
  intro path
  have hclear := fun slots : Fields Atomics =>
    Fields.get?_map_named slots (fun _ => Atomics.clear) path
  rw [Fields.mapValues, Fields.mapValues, hclear, hclear]
  exact rel_map (h path) fun halike => Or.inl halike.clear

theorem put (h : SlotsAlike covered slots others) {path : String} {atomics other : Atomics}
    (halike : Atomics.Alike (covered path) atomics other) :
    SlotsAlike covered (Fields.put slots path atomics) (Fields.put others path other) := by
  intro key
  rw [Fields.get?_put, Fields.get?_put]
  split
  · next heq => exact .some (heq ▸ halike)
  · exact h key

end SlotsAlike

/-! ### Views -/

theorem ListAtomics.isPending_pushAdd (values : List Value) (atomics : ListAtomics) :
    (atomics.pushAdd values).isPending = true := by
  cases atomics <;> rfl

theorem ListAtomics.isPending_pushRemove (values : List Value) (atomics : ListAtomics) :
    (atomics.pushRemove values).isPending = true := by
  cases atomics <;> rfl

theorem MapAtomics.isPending_pushPut (key : String) (v : Value) (atomics : MapAtomics) :
    (atomics.pushPut key v).isPending = true := by
  cases atomics <;> rfl

theorem MapAtomics.isPending_pushRemove (key : String) (atomics : MapAtomics) :
    (atomics.pushRemove key).isPending = true := by
  cases atomics <;> rfl

namespace ListView

/-- The views differ at most in pending changes that come to the same. -/
inductive Alike (covered : Prop) (view : ListView) : ListView → Prop
  | mk {atomics : ListAtomics} (h : Atomics.Alike covered (.list view.atomics) (.list atomics)) :
      Alike covered view { view with atomics := atomics }

variable {covered : Prop} {view other : ListView}

theorem Alike.refl (view : ListView) : Alike covered view view :=
  .mk (.refl _ _)

theorem Alike.push (h : Alike covered view other) (values : List Value) :
    AgreeIfAny (Alike covered) (view.push values) (other.push values) := by
  cases h with
  | @mk atomics halike =>
    refine AgreeIfAny.bind (view.castItems values) fun values => ?_
    have hnew : ({ view with atomics := atomics } : ListView).newItems values =
        view.newItems values := rfl
    dsimp only
    rw [hnew]
    split
    · exact .done _ (Alike.mk halike)
    · exact .done _ (Alike.mk (halike.list (ListAtomics.isPending_pushAdd _)))

theorem Alike.pop (h : Alike covered view other) : Agree (Alike covered) view.pop other.pop := by
  cases h with
  | mk halike =>
    unfold ListView.pop
    dsimp only
    split
    · exact ⟨rfl, Alike.refl _⟩
    · exact ⟨rfl, Alike.mk halike⟩

theorem Alike.shift (h : Alike covered view other) :
    Agree (Alike covered) view.shift other.shift := by
  cases h with
  | mk halike =>
    unfold ListView.shift
    dsimp only
    split
    · exact ⟨rfl, Alike.refl _⟩
    · exact ⟨rfl, Alike.mk halike⟩

theorem Alike.unshift (h : Alike covered view other) (values : List Value) :
    AgreeIfAny (Alike covered) (view.unshift values) (other.unshift values) := by
  cases h with
  | mk halike =>
    refine AgreeIfAny.bind (view.castItems values) fun values => ?_
    dsimp only
    split
    · exact .done _ (Alike.mk halike)
    · exact .done _ (Alike.refl _)

theorem Alike.splice (h : Alike covered view other) (start count : Nat) (values : List Value) :
    AgreeIfAny (Alike covered) (view.splice start count values)
      (other.splice start count values) := by
  cases h with
  | mk halike =>
    exact AgreeIfAny.bind (view.castItems values) fun values => .done _ (Alike.refl _)

theorem Alike.pull (h : Alike covered view other) (values : List Value) :
    AgreeIfAny (Alike covered) (view.pull values) (other.pull values) := by
  cases h with
  | mk halike =>
    refine AgreeIfAny.bind (view.castItems values) fun values => ?_
    dsimp only
    split
    · exact .done _ (Alike.mk halike)
    · exact .done _ (Alike.mk (halike.list (ListAtomics.isPending_pushRemove _)))

theorem Alike.set (h : Alike covered view other) (index : Nat) (v : Value) :
    AgreeIfAny (Alike covered) ((view.set index v).map ((), ·))
      ((other.set index v).map ((), ·)) := by
  cases h with
  | @mk atomics halike =>
    have hcast : ({ view with atomics := atomics } : ListView).castItem v = view.castItem v := rfl
    unfold ListView.set
    rw [hcast]
    cases view.castItem v with
    | error e => exact .failed e
    | ok w =>
      by_cases hlt : index < view.items.length
      · have hset : Alike covered (view.replaceItems (view.items.set index w)) _ := .refl _
        simpa [hlt, Bind.bind, Except.bind, Except.map, Pure.pure, Except.pure,
          ListView.replaceItems] using AgreeIfAny.done () hset
      · simpa [hlt, Bind.bind, Except.bind, Except.map, throw, throwThe, MonadExceptOf.throw] using
          AgreeIfAny.failed _

theorem Alike.report (h : Alike covered view other) {α : Type} (answer : α → ListAnswer)
    {result results : Except Error (α × ListView)}
    (hresult : AgreeIfAny (Alike covered) result results) :
    Agree (Alike covered) (view.report answer result) (other.report answer results) := by
  cases hresult with
  | failed e =>
    cases h with
    | mk halike => exact ⟨rfl, .mk halike⟩
  | done a hnext =>
    cases hnext with
    | mk halike => exact ⟨rfl, .mk halike⟩

theorem Alike.respond (h : Alike covered view other) (edit : ListEdit) :
    Agree (Alike covered) (view.respond edit) (other.respond edit) := by
  cases edit with
  | push values => exact h.report _ (h.push values)
  | pop => exact h.report _ h.pop.ifAny
  | shift => exact h.report _ h.shift.ifAny
  | unshift values => exact h.report _ (h.unshift values)
  | splice start count values => exact h.report _ (h.splice start count values)
  | sortBy le =>
    cases h with
    | mk halike => exact ⟨rfl, .refl _⟩
  | set index v => exact h.report _ (h.set index v)
  | pull values => exact h.report _ (h.pull values)

theorem Alike.session (h : Alike covered view other) (edits : List ListEdit) :
    Agree (Alike covered) (view.session edits) (other.session edits) := by
  obtain ⟨hanswers, hlast⟩ := agree_answerAll (fun edit h => h.respond edit) h edits
  refine ⟨?_, hlast⟩
  cases h with
  | mk halike => exact congrArg (Reply.list view.items view.isSet) hanswers

end ListView

namespace MapView

inductive Alike (covered : Prop) (view : MapView) : MapView → Prop
  | mk {atomics : MapAtomics} (h : Atomics.Alike covered (.map view.atomics) (.map atomics)) :
      Alike covered view { view with atomics := atomics }

variable {covered : Prop} {view other : MapView}

theorem Alike.putAll (h : Alike covered view other) (entries : List (String × Value)) :
    Agree (Alike covered) (view.putAll entries) (other.putAll entries) := by
  induction entries generalizing view other with
  | nil => exact ⟨rfl, h⟩
  | cons entry rest ih =>
    cases h with
    | @mk atomics halike =>
      unfold MapView.putAll MapView.put
      dsimp only
      cases view.schema.castItem view.path entry.2 with
      | error e => exact ⟨rfl, .mk halike⟩
      | ok w => exact ih (.mk (halike.map (MapAtomics.isPending_pushPut entry.1 w)))

theorem Alike.remove (h : Alike covered view other) (keys : List String) :
    Agree (Alike covered) (view.remove keys) (other.remove keys) := by
  induction keys generalizing view other with
  | nil => exact ⟨rfl, h⟩
  | cons key rest ih =>
    cases h with
    | @mk atomics halike =>
      unfold MapView.remove
      dsimp only
      split
      · have hremoved : Alike covered (view.removeKey key)
            (removeKey { view with atomics := atomics } key) :=
          .mk (halike.map (MapAtomics.isPending_pushRemove key))
        obtain ⟨hcount, hnext⟩ := ih hremoved
        exact ⟨congrArg (· + 1) hcount, hnext⟩
      · exact ih (.mk halike)

theorem Alike.put (h : Alike covered view other) (key : String) (v : Value) :
    Agree (Alike covered) (view.respond (.put key v)) (other.respond (.put key v)) := by
  cases h with
  | @mk atomics halike =>
    unfold MapView.respond MapView.put
    dsimp only
    cases view.schema.castItem view.path v with
    | error e => exact ⟨rfl, .mk halike⟩
    | ok w => exact ⟨rfl, .mk (halike.map (MapAtomics.isPending_pushPut key w))⟩

theorem Alike.report {α : Type} {outcome others : α × MapView}
    (h : Agree (Alike covered) outcome others) (answer : α → MapAnswer) :
    Agree (Alike covered) (report (outcome.map answer id)) (report (others.map answer id)) := by
  obtain ⟨a, view⟩ := outcome
  obtain ⟨same, other⟩ := others
  obtain ⟨rfl, hnext⟩ := h
  cases hnext with
  | mk halike => exact ⟨rfl, .mk halike⟩

theorem Alike.respond (h : Alike covered view other) (edit : MapEdit) :
    Agree (Alike covered) (view.respond edit) (other.respond edit) := by
  cases edit with
  | put key v => exact h.put key v
  | putAll entries => exact Alike.report (h.putAll entries) .done
  | remove keys => exact Alike.report (h.remove keys) .count

theorem Alike.session (h : Alike covered view other) (edits : List MapEdit) :
    Agree (Alike covered) (view.session edits) (other.session edits) := by
  obtain ⟨hanswers, hlast⟩ := agree_answerAll (fun edit h => h.respond edit) h edits
  refine ⟨?_, hlast⟩
  cases h with
  | mk halike => exact congrArg (Reply.map view.entries) hanswers

end MapView

end DocMapper
