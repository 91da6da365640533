import DocMapper.Proofs.Contents
import DocMapper.Proofs.Digits
import DocMapper.Transport
/-!
# Recorded calls come back

A value is read back from its tagged form, since the tag stands before the contents and tells how
they are read. What is in containers is read back by induction, and entries that are in order stay
where they are. A call comes back with its parameters and its other options.
-/

namespace DocMapper

namespace Value

theorem tagOf?_tagged (tag : Tag) (contents : Json) :
    tagOf? false [("t", .str tag.name), ("v", contents)] = some tag := by
  cases tag <;> simp [tagOf?, Json.single?, Tag.ofCase?] <;> rfl

/-- The tag of written contents is read first. -/
theorem ofTagged?_tagged (tag : Tag) (contents : Json) :
    ofTagged? false (tagged tag contents) = contents? false tag contents := by
  simp [tagged, ofTagged?, tagOf?_tagged, contentsFirst, contentsIn?]

mutual

theorem ofTagged?_toTagged {v : Value} (hordered : v.Ordered) (hfinite : v.Finite) :
    ofTagged? false v.toTagged = some v := by
  match v with
  | .null => rfl
  | .bool b => simp [toTagged, ofTagged?_tagged, contents?, scalar?]
  | .int n => simp [toTagged, ofTagged?_tagged, contents?, scalar?, Number.int64?_toInt]
  | .float d =>
    simp [toTagged, ofTagged?_tagged, finite_float_iff.mp hfinite, contents?, scalar?]
  | .string s => simp [toTagged, ofTagged?_tagged, contents?, scalar?]
  | .dateTime t => simp [toTagged, ofTagged?_tagged, contents?, scalar?, DateTime.ofText?_text]
  | .link id => simp [toTagged, ofTagged?_tagged, contents?, scalar?, RecordId.ofText?_text]
  | .list items =>
    rw [toTagged, ofTagged?_tagged, contents?,
      itemsOfTagged?_itemsToTagged (ordered_list_iff.mp hordered) (finite_list_iff.mp hfinite)]
    rfl
  | .map entries =>
    obtain ⟨hsorted, hentries⟩ := ordered_map_iff.mp hordered
    rw [toTagged, ofTagged?_tagged, contents?,
      entriesOfTagged?_entriesToTagged hentries (finite_map_iff.mp hfinite)]
    simp [hsorted.ofList_eq_self]

theorem itemsOfTagged?_itemsToTagged {items : List Value} (hordered : ∀ v ∈ items, v.Ordered)
    (hfinite : ∀ v ∈ items, v.Finite) :
    itemsOfTagged? false (itemsToTagged items) = some items := by
  match items with
  | [] => rfl
  | item :: rest =>
    obtain ⟨hitem, hrest⟩ := List.forall_mem_cons.mp hordered
    obtain ⟨hitemFinite, hrestFinite⟩ := List.forall_mem_cons.mp hfinite
    simp [itemsToTagged, itemsOfTagged?, ofTagged?_toTagged hitem hitemFinite,
      itemsOfTagged?_itemsToTagged hrest hrestFinite]

theorem entriesOfTagged?_entriesToTagged {entries : List (String × Value)}
    (hordered : ∀ entry ∈ entries, entry.2.Ordered) (hfinite : ∀ entry ∈ entries, entry.2.Finite) :
    entriesOfTagged? false (entriesToTagged entries) = some entries := by
  match entries with
  | [] => rfl
  | (key, item) :: rest =>
    obtain ⟨hitem, hrest⟩ := List.forall_mem_cons.mp hordered
    obtain ⟨hitemFinite, hrestFinite⟩ := List.forall_mem_cons.mp hfinite
    simp [entriesToTagged, entriesOfTagged?, ofTagged?_toTagged hitem hitemFinite,
      entriesOfTagged?_entriesToTagged hrest hrestFinite]

end

end Value

theorem CallKind.ofName?_name (kind : CallKind) : ofName? kind.name = some kind := by
  cases kind <;> rfl

namespace RecordedCall

theorem optionsOfJson?_params_extra {options : ExecOptions}
    (hparams : (Value.map options.params).Ordered) (hfinite : (Value.map options.params).Finite)
    (hextra : (Json.obj options.extra).Ordered) :
    optionsOfJson? (.obj [("params", .obj (Value.entriesToTagged options.params)),
      ("extra", .obj options.extra)]) = some options := by
  obtain ⟨hsorted, hentries⟩ := Value.ordered_map_iff.mp hparams
  have hread := Value.entriesOfTagged?_entriesToTagged hentries (Value.finite_map_iff.mp hfinite)
  rw [Json.Ordered] at hextra
  simp [optionsOfJson?, Json.fields?, Json.single?, Json.obj?, hread, hsorted.ofList_eq_self,
    hextra.2.sortedEntries_eq_self, hextra.1.ofList_eq_self]

/-- A call is read back from its data tree. Doubles must be numbers, and no entries of one name may
come twice or out of order; extra options may be any data. -/
theorem ofJson?_toJson (call : RecordedCall) (hparams : (Value.map call.options.params).Ordered)
    (hfinite : (Value.map call.options.params).Finite)
    (hextra : (Json.obj call.options.extra).Ordered) : ofJson? call.toJson = some call := by
  have hoptions := optionsOfJson?_params_extra hparams hfinite hextra
  simp [ofJson?, toJson, Json.fields?, Json.single?, Json.caseName?, Json.str?,
    CallKind.ofName?_name, hoptions]

/-- A date before year 0, negative addresses and strings that look like tags, below one another. -/
theorem ofJson?_toJson_nested :
    let call : RecordedCall :=
      ⟨.query, "SELECT FROM #5:1", ⟨[("ids", .list [.link ⟨-1, -2⟩, .null, .list []]),
        ("p", .map [("t", .string "Map"), ("v", .dateTime ⟨-44, 3, 15, 12, 0, 0, by decide,
          by decide⟩)])], [("limit", .int 5), ("mode", .obj [("a", .arr [.bool true])])]⟩⟩
    ofJson? call.toJson = some call := by
  refine ofJson?_toJson _ ?_ ?_ ?_
  · simp only [Value.Ordered, Value.Every, Value.EveryItem, Value.EveryEntry]
    decide
  · simp [Value.Finite, Value.Every, Value.EveryItem, Value.EveryEntry]
  · simp only [Json.Ordered, Json.AllOrdered, Json.EntriesOrdered]
    decide

end RecordedCall

end DocMapper
