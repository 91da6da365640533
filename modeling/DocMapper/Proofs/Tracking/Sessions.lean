import DocMapper.Proofs.Query.Supplied
import DocMapper.Proofs.Tracking.Operations
import DocMapper.Proofs.Tracking.Reproduced
/-!
# Views opened one after the other

A container is worked on in sessions: each opens a view, edits it and closes it, and what is pending
stays with the document. However the edits are spread over sessions, the changes that are pending in
the end make the present contents out of those at the beginning. For a map this holds whichever of
its two changes is made first, since no key is in both.
-/

namespace DocMapper

namespace Document

def performAll (doc : Document) (ops : List Operation) : Except Error Document :=
  ops.foldlM perform doc

/-- Sessions of one kind succeed and keep what each of them keeps. -/
theorem performAll_eq_ok {Edits : Type} {session : Edits → Operation} {P : Document → Prop}
    (hsession : ∀ {doc : Document}, P doc → ∀ edits,
      ∃ next, doc.perform (session edits) = .ok next ∧ P next)
    {doc : Document} (h : P doc) (sessions : List Edits) :
    ∃ next, doc.performAll (sessions.map session) = .ok next ∧ P next := by
  refine Success.exists_foldlM_eq_ok ?_ h
  intro op hop doc hdoc
  obtain ⟨edits, -, rfl⟩ := List.mem_map.mp hop
  exact hsession hdoc edits

end Document

/-! ### Lists -/

/-- The pending change makes the present list out of the one at the beginning. -/
theorem ListAtomics.Leads.changed {atomics : ListAtomics} {base items : List Value}
    (h : atomics.Leads base items) (hflat : Flat items) (structuredAsSet : Bool) (path : String) :
    Atomics.changed [atomics.op items structuredAsSet] path (some (.list base)) =
      some (.list items) := by
  have hwhole : Atomics.changed [⟨.set, .list items⟩] path (some (.list base)) =
      some (.list items) :=
    DeltaOp.foldl_changed_set path (.list items) _
  cases atomics with
  | clean => exact hwhole
  | set => exact hwhole
  | add added =>
    rw [Leads] at h
    subst h
    have hadded : Flat added := fun item hmem => hflat item (List.mem_append_right base hmem)
    exact Atomics.changed_add path hadded _
  | remove removed =>
    obtain ⟨hitems, -, hremoved⟩ := h
    rw [ListAtomics.op]
    split
    · exact hwhole
    · rw [Atomics.changed_remove path hremoved, hitems]
      rfl

namespace Document

variable {doc : Document} {path : String}

theorem perform_list_of_list {items : List Value} (h : doc.get? path = some (.list items))
    (edits : List ListEdit) :
    doc.perform (.list path edits) =
      .ok (doc.closeList (edits.foldl ListView.edit (doc.listView path items))) := by
  have hopen : doc.withContainer path (.list []) = doc := by rw [withContainer, h]
  rw [perform, editList, hopen, openList, h]
  rfl

/-- The document holds a list that came from another one by pending changes. A path that is not
marked still holds the other. -/
structure HoldsList (path : String) (base items : List Value) (doc : Document) : Prop where
  value : doc.get? path = some (.list items)
  leads : (doc.listAtomics path).Leads base items
  unmarked : doc.isDirectModified path = false → items = base

theorem HoldsList.perform {base items : List Value} (h : HoldsList path base items doc)
    (edits : List ListEdit) : ∃ next, doc.perform (.list path edits) = .ok next ∧
      ∃ now, HoldsList path base now next := by
  refine ⟨_, perform_list_of_list h.value edits, ?_⟩
  have hstart : ListView.CameFrom base (doc.listView path items) (doc.listView path items) :=
    ⟨rfl, fun _ => ⟨rfl, rfl⟩, h.leads⟩
  have hlast := hstart.edits edits
  generalize edits.foldl ListView.edit (doc.listView path items) = last at hlast
  have hpath : last.path = path := hlast.path
  rw [closeList_eq, hpath]
  refine ⟨last.items, get?_closeAt_self _ _ _ _ _, ?_, ?_⟩
  · rw [listAtomics, slot_closeAt, if_pos rfl]
    exact hlast.leads
  · intro hunmarked
    have hboth := (isDirectModified_closeAt _ _ _ _ _).symm.trans hunmarked
    obtain ⟨huntouched, hbefore⟩ := Bool.or_eq_false_iff.mp hboth
    exact (hlast.untouched huntouched).1.trans (h.unmarked hbefore)

/-- Sessions on a list for which nothing is pending at first. If its path is marked in the end, the
one change that is pending makes the present items out of those at the beginning, in every dialect; if
not, the items are those. A list as an item could be taken for several items. -/
theorem list_change_replays {base : List Value} (hbase : doc.get? path = some (.list base))
    (hflat : Flat base) (hclean : doc.listAtomics path = .clean) (sessions : List (List ListEdit)) :
    ∃ next items, doc.performAll (sessions.map (.list path)) = .ok next ∧
      next.get? path = some (.list items) ∧
      (next.isDirectModified path = false → items = base) ∧
      (next.isDirectModified path = true → Flat items → ∀ structuredAsSet : Bool,
        Atomics.changed [(next.listAtomics path).op items structuredAsSet] path
          (some (.list base)) = some (.list items)) := by
  have hstart : HoldsList path base base doc :=
    ⟨hbase, by rw [hclean]; exact ⟨rfl, hflat⟩, fun _ => rfl⟩
  obtain ⟨next, hnext, items, h⟩ :=
    performAll_eq_ok (P := fun doc => ∃ items, HoldsList path base items doc)
      (fun ⟨_, h⟩ edits => h.perform edits) ⟨base, hstart⟩ sessions
  exact ⟨next, items, hnext, h.value, h.unmarked,
    fun _ hitems structuredAsSet => h.leads.changed hitems structuredAsSet path⟩

/-- Two pulls in two sessions are pending as one removal, which leads to what is left. -/
theorem list_change_replays_pulled :
    ∃ next, (tagged ["a", "b", "c"] .loaded []).performAll
        [.list "tags" [.pull [.string "a"]], .list "tags" [.pull [.string "c"]]] = .ok next ∧
      next.get? "tags" = some (.list [.string "b"]) ∧
      (next.listAtomics "tags").op [.string "b"] true =
        ⟨.remove, .list [.string "a", .string "c"]⟩ ∧
      Atomics.changed [(next.listAtomics "tags").op [.string "b"] true] "tags"
        (some (.list [.string "a", .string "b", .string "c"])) = some (.list [.string "b"]) := by
  obtain ⟨next, items, hperform, hitems, -, hchanged⟩ :=
    @list_change_replays (tagged ["a", "b", "c"] .loaded []) "tags" (["a", "b", "c"].map .string)
      rfl (flat_strings _) rfl [[.pull [.string "a"]], [.pull [.string "c"]]]
  obtain rfl := Except.ok.inj hperform
  cases hitems
  exact ⟨_, hperform, rfl, rfl, hchanged rfl (flat_strings ["b"]) true⟩

end Document

/-! ### Maps -/

namespace MapAtomics

/-- No key is both put and removed, none is removed twice, and something is pending. -/
def Tidy : MapAtomics → Prop
  | .pending puts removes =>
    (∀ key ∈ removes, Fields.get? puts key = none) ∧ removes.Nodup ∧ (puts ≠ [] ∨ removes ≠ [])
  | _ => True

variable {atomics : MapAtomics}

theorem Tidy.pushPut (h : atomics.Tidy) (key : String) (v : Value) :
    (atomics.pushPut key v).Tidy := by
  cases atomics with
  | clean => exact ⟨nofun, List.nodup_nil, Or.inl (List.cons_ne_nil _ _)⟩
  | set => trivial
  | pending puts removes =>
    obtain ⟨hapart, hnodup, -⟩ := h
    refine ⟨fun other hmem => ?_, hnodup.filter _, Or.inl fun hnil => ?_⟩
    · obtain ⟨hother, hne⟩ := List.mem_filter.mp hmem
      rw [Fields.get?_put_of_ne puts v (by simpa using hne)]
      exact hapart other hother
    · have hput := Fields.get?_put_self puts key v
      rw [hnil] at hput
      cases hput

theorem Tidy.pushRemove (h : atomics.Tidy) (key : String) : (atomics.pushRemove key).Tidy := by
  cases atomics with
  | clean => exact ⟨fun _ _ => rfl, List.nodup_singleton key, Or.inr (List.cons_ne_nil _ _)⟩
  | set => trivial
  | pending puts removes =>
    obtain ⟨hapart, hnodup, -⟩ := h
    have hdropped : ∀ other, other = key ∨ other ∈ removes →
        Fields.get? (Fields.drop puts key) other = none := by
      intro other hother
      rw [Fields.get?_drop]
      by_cases heq : other = key
      · rw [if_pos heq]
      · rw [if_neg heq]
        exact hapart other (hother.resolve_left heq)
    rw [MapAtomics.pushRemove]
    by_cases hmem : key ∈ removes
    · rw [if_pos (List.contains_iff_mem.mpr hmem)]
      refine ⟨fun other hother => hdropped other (Or.inr hother), hnodup, Or.inr ?_⟩
      exact List.ne_nil_of_mem hmem
    · rw [if_neg (fun hcontains => hmem (List.contains_iff_mem.mp hcontains))]
      refine ⟨fun other hother => ?_, ?_, Or.inr (by simp)⟩
      · apply hdropped
        simpa [or_comm] using hother
      · exact hnodup.append (List.nodup_singleton key) (by simpa using hmem)

/-- The pending changes make the present map out of the one at the beginning, in either order. -/
theorem Leads.changed {base entries : Fields Value} (h : atomics.Leads base entries)
    (htidy : atomics.Tidy) (hbase : Fields.Sorted base) (hentries : Fields.Sorted entries)
    (path : String) :
    Atomics.changed (atomics.ops entries) path (some (.map base)) = some (.map entries) ∧
      Atomics.changed (atomics.ops entries).reverse path (some (.map base)) =
        some (.map entries) := by
  have hwhole : Atomics.changed [⟨.set, .map entries⟩] path (some (.map base)) =
      some (.map entries) :=
    DeltaOp.foldl_changed_set path (.map entries) _
  cases atomics with
  | clean => exact ⟨hwhole, hwhole⟩
  | set => exact ⟨hwhole, hwhole⟩
  | pending puts removes =>
    obtain ⟨hsorted, hget⟩ := h
    obtain ⟨hapart, -⟩ := htidy
    have hputs : ∀ stored : Fields Value, (if puts.isEmpty then some (Value.map stored)
        else some ((some (Value.map stored)).getD (.map []))) = some (.map stored) := by
      intro stored
      split <;> rfl
    constructor
    · have hsame : (Fields.merge base puts).filter (fun entry => !removes.contains entry.1) =
          entries := by
        apply ((hbase.merge puts).filter _).ext hentries
        intro key
        rw [hget key, Atomics.get?_withChanges base puts removes hsorted]
      rw [Atomics.changed_pending, hputs, Option.map_some]
      exact congrArg (some ∘ Value.map) hsame
    · have hsame : Fields.merge (base.filter fun entry => !removes.contains entry.1) puts =
          entries := by
        apply ((hbase.filter _).merge puts).ext hentries
        intro key
        rw [hget key, Fields.get?_merge, hsorted.get?_ofList,
          Fields.get?_filter_name _ fun key => !removes.contains key]
        by_cases hkey : key ∈ removes
        · simp [hkey, hapart key hkey]
        · simp [hkey]
      have hreverse : (MapAtomics.ops (.pending puts removes) entries).reverse =
          (if removes.isEmpty then [] else [⟨.remove, singleOrList (removes.map .string)⟩]) ++
            (if puts.isEmpty then [] else [⟨.put, .map puts⟩]) := by
        rw [MapAtomics.ops, List.reverse_append]
        split <;> split <;> rfl
      rw [hreverse, Atomics.changed_append, Atomics.changed_removes, Option.map_some,
        Atomics.changed_puts]
      simp only [Value.withoutItems, Value.withoutKeys]
      rw [hputs, Option.map_some]
      exact congrArg (some ∘ Value.map) hsame

end MapAtomics

namespace MapView

variable {view next : MapView}

theorem Moves.sorted (hmove : Moves view next) (h : Fields.Sorted view.entries) :
    Fields.Sorted next.entries := by
  induction hmove with
  | keep view => exact h
  | put key v rest ih => exact ih (h.put key v)
  | remove key rest ih => exact ih (h.drop key)

theorem Moves.tidy (hmove : Moves view next) (h : view.atomics.Tidy) : next.atomics.Tidy := by
  induction hmove with
  | keep view => exact h
  | put key v rest ih => exact ih (h.pushPut key v)
  | remove key rest ih => exact ih (h.pushRemove key)

theorem sorted_edits (h : Fields.Sorted view.entries) (edits : List MapEdit) :
    Fields.Sorted (edits.foldl edit view).entries :=
  holds_edits (P := fun view => Fields.Sorted view.entries) (fun hmove h => hmove.sorted h) h edits

theorem tidy_edits (h : view.atomics.Tidy) (edits : List MapEdit) :
    (edits.foldl edit view).atomics.Tidy :=
  holds_edits (P := fun view => view.atomics.Tidy) (fun hmove h => hmove.tidy h) h edits

end MapView

namespace Document

variable {doc : Document} {path : String}

theorem perform_map_of_map {entries : Fields Value} (h : doc.get? path = some (.map entries))
    (edits : List MapEdit) :
    doc.perform (.map path edits) =
      .ok (doc.closeMap (edits.foldl MapView.edit (doc.mapView path entries))) := by
  have hopen : doc.withContainer path (.map []) = doc := by rw [withContainer, h]
  rw [perform, editMap, hopen, openMap, h]
  rfl

/-- The document holds a map, in order, that came from another one by pending changes. -/
structure HoldsMap (path : String) (base entries : Fields Value) (doc : Document) : Prop where
  value : doc.get? path = some (.map entries)
  sorted : Fields.Sorted entries
  tidy : (doc.mapAtomics path).Tidy
  leads : (doc.mapAtomics path).Leads base entries

theorem HoldsMap.perform {base entries : Fields Value} (h : HoldsMap path base entries doc)
    (edits : List MapEdit) : ∃ next, doc.perform (.map path edits) = .ok next ∧
      ∃ now, HoldsMap path base now next := by
  refine ⟨_, perform_map_of_map h.value edits, ?_⟩
  have hstart : MapView.CameFrom base (doc.mapView path entries) (doc.mapView path entries) :=
    ⟨rfl, fun _ => ⟨rfl, rfl⟩, h.leads⟩
  have hlast := hstart.edits edits
  have hsorted : Fields.Sorted (edits.foldl MapView.edit (doc.mapView path entries)).entries :=
    MapView.sorted_edits h.sorted edits
  have htidy : (edits.foldl MapView.edit (doc.mapView path entries)).atomics.Tidy :=
    MapView.tidy_edits h.tidy edits
  generalize edits.foldl MapView.edit (doc.mapView path entries) = last at hlast hsorted htidy
  have hpath : last.path = path := hlast.path
  rw [closeMap_eq, hpath]
  have hpending : (doc.closeAt path (.map last.entries) (.map last.atomics)
      last.touched).mapAtomics path = last.atomics := by
    rw [mapAtomics, slot_closeAt, if_pos rfl]
  refine ⟨last.entries, get?_closeAt_self _ _ _ _ _, hsorted, ?_, ?_⟩
  · rw [hpending]
    exact htidy
  · rw [hpending]
    exact hlast.leads

/-- Sessions on a map for which nothing is pending at first. What is pending in the end is tidy, and
whichever of its changes is made first, they make the present entries out of those at the beginning.
That an entry of many could not be put makes no difference: those before it are there. -/
theorem map_changes_replay {base : Fields Value} (hbase : doc.get? path = some (.map base))
    (hsorted : Fields.Sorted base) (hclean : doc.mapAtomics path = .clean)
    (sessions : List (List MapEdit)) :
    ∃ next entries, doc.performAll (sessions.map (.map path)) = .ok next ∧
      next.get? path = some (.map entries) ∧ (next.mapAtomics path).Tidy ∧
      Atomics.changed ((next.mapAtomics path).ops entries) path (some (.map base)) =
        some (.map entries) ∧
      Atomics.changed ((next.mapAtomics path).ops entries).reverse path (some (.map base)) =
        some (.map entries) := by
  have hstart : HoldsMap path base base doc :=
    ⟨hbase, hsorted, by rw [hclean]; trivial, by rw [hclean]; exact fun _ => rfl⟩
  obtain ⟨next, hnext, entries, h⟩ :=
    performAll_eq_ok (P := fun doc => ∃ entries, HoldsMap path base entries doc)
      (fun ⟨_, h⟩ edits => h.perform edits) ⟨base, hstart⟩ sessions
  obtain ⟨hforward, hbackward⟩ := h.leads.changed h.tidy hsorted h.sorted path
  exact ⟨next, entries, hnext, h.value, h.tidy, hforward, hbackward⟩

/-- A document that holds one map. -/
def described (attrs : Fields Value) : Document where
  schema := .empty "User"
  dialect := .default
  rid? := none
  values := [("attrs", .map attrs)]
  paths := ⟨[("attrs", .loaded)]⟩
  atomics := []
  selection? := none
  isNew := false

/-- A key that is put, removed and put again is pending as put only, and one that is removed as
removed only. -/
theorem map_changes_replay_color :
    ∃ next, (described [("size", .int 1)]).performAll
        [.map "attrs" [.put "color" (.string "red"), .remove ["size"]],
          .map "attrs" [.remove ["color"], .put "color" (.string "blue")]] = .ok next ∧
      next.mapAtomics "attrs" = .pending [("color", .string "blue")] ["size"] ∧
      Atomics.changed ((next.mapAtomics "attrs").ops [("color", .string "blue")]).reverse "attrs"
        (some (.map [("size", .int 1)])) = some (.map [("color", .string "blue")]) := by
  obtain ⟨next, entries, hperform, hentries, -, -, hreverse⟩ :=
    @map_changes_replay (described [("size", .int 1)]) "attrs" _ rfl (by decide) rfl
      [[.put "color" (.string "red"), .remove ["size"]],
        [.remove ["color"], .put "color" (.string "blue")]]
  obtain rfl := Except.ok.inj hperform
  cases hentries
  exact ⟨_, hperform, rfl, hreverse⟩

end Document

end DocMapper
