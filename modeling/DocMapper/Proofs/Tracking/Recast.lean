import DocMapper.Proofs.Compile.Put
import DocMapper.Proofs.PlainJson
import DocMapper.Proofs.Tracking.Typed
/-!
# Casting what was cast

The values that conform to a type are those that casts give, and the cast leaves each of them alone.
A document therefore keeps under a declared path what the compiler will write for it: the cast made
when the value was assigned is made again when the statement is compiled, and changes nothing.
-/

namespace DocMapper

namespace FieldType

variable {ty item : FieldType} {v w : Value} {items : List Value} {entries : Fields Value}
variable {path : String}

theorem cast_null : ty.cast path .null = .ok .null := by
  unfold cast
  rfl

theorem cast_list (h : ∀ v ∈ items, item.cast path v = .ok v) :
    (list item).cast path (.list items) = .ok (.list items) := by
  have hitems : items.mapM (item.cast path) = .ok items := Success.mapM_eq_ok_self h
  exact congrArg (Except.map Value.list) hitems

/-- The items of a set are left alone if no two of them are equal. -/
theorem cast_set (h : ∀ v ∈ items, item.cast path v = .ok v)
    (hdistinct : items.Pairwise fun a b => a.eqv b = false) :
    (set item).cast path (.list items) = .ok (.list items) := by
  have hitems : items.mapM (item.cast path) = .ok items := Success.mapM_eq_ok_self h
  calc (set item).cast path (.list items)
      = (items.mapM (item.cast path)).map fun items => .list (distinct items) := rfl
    _ = .ok (.list (distinct items)) := by rw [hitems]; rfl
    _ = .ok (.list items) := by rw [distinct_eq_self hdistinct]

theorem cast_map (h : ∀ entry ∈ entries, item.cast path entry.2 = .ok entry.2) :
    (map item).cast path (.map entries) = .ok (.map entries) := by
  have hentries : entries.mapM (fun entry => (item.cast path entry.2).map (entry.1, ·)) =
      .ok entries := by
    refine Success.mapM_eq_ok_self fun entry hmem => ?_
    rw [h entry hmem]
    rfl
  exact congrArg (Except.map Value.map) hentries

/-- A value that conforms is left alone. -/
theorem cast_eq_self (h : ty.Conforms v) : ty.cast path v = .ok v := by
  induction ty generalizing v with
  | any =>
    unfold cast
    split <;> rfl
  | list item ih =>
    cases v with
    | null => exact cast_null
    | list items => exact cast_list fun w hmem => ih (h w hmem)
    | bool | int | float | string | dateTime | link | map => cases h
  | set item ih =>
    cases v with
    | null => exact cast_null
    | list items => exact cast_set (fun w hmem => ih (h.1 w hmem)) h.2
    | bool | int | float | string | dateTime | link | map => cases h
  | map item ih =>
    cases v with
    | null => exact cast_null
    | map entries => exact cast_map fun entry hmem => ih (h entry hmem)
    | bool | int | float | string | dateTime | link | list => cases h
  | boolean | integer | double | string | dateTime | link | embedded =>
    cases v <;> first | rfl | cases h

theorem conforms_iff_cast_eq_self : ty.Conforms v ↔ ty.cast path v = .ok v :=
  ⟨cast_eq_self, conforms_of_cast⟩

end FieldType

namespace Schema

variable {schema : Schema} {path : String} {v w : Value}

/-- What the schema made of a value stays as it is, also where a path is not declared. -/
theorem cast_of_cast (h : schema.cast path v = .ok w) : schema.cast path w = .ok w := by
  unfold cast at h ⊢
  split at h
  · exact FieldType.cast_eq_self (FieldType.conforms_of_cast h)
  · rfl

end Schema

namespace Document

variable {doc next : Document} {path : String} {v : Value}

/-- The compiler writes an assigned value as the document holds it. -/
theorem recast_set (h : doc.set path v = .ok next) : ∃ w, next.get? path = some w ∧
    ∀ r, Compile.Yields (Fragment.castAt (some doc.schema) path w) r w r := by
  obtain ⟨w, hcast, rfl⟩ := set_eq_ok h
  exact ⟨w, get?_assign_self doc path w,
    fun r => Put.yields_castAt.mpr ⟨Schema.cast_of_cast hcast, rfl⟩⟩

end Document

namespace FieldType

/-- Casting is a projection onto the values that conform, so what is assigned to a document is not
changed when it is cast again for a statement. -/
theorem cast_projects (ty : FieldType) (path : String) (v : Value) :
    (∀ w, ty.cast path v = .ok w → ty.Conforms w ∧ ty.cast path w = .ok w) ∧
      (ty.Conforms v → ty.cast path v = .ok v) ∧
      ∀ doc next : Document, doc.set path v = .ok next → ∃ w, next.get? path = some w ∧
        ∀ r, Compile.Yields (Fragment.castAt (some doc.schema) path w) r w r := by
  refine ⟨fun w hcast => ?_, cast_eq_self, fun doc next => Document.recast_set⟩
  have hconforms : ty.Conforms w := conforms_of_cast hcast
  exact ⟨hconforms, cast_eq_self hconforms⟩

/-- Links below the names of a map, some given by their texts and one of them twice. -/
theorem cast_projects_links :
    let ty := map (set link)
    let raw : Value := .map [("a", .list [.string "#1:-2", .null, .link ⟨1, -2⟩]),
      ("b", .string "3:4")]
    let w : Value := .map [("a", .list [.link ⟨1, -2⟩, .null]), ("b", .list [.link ⟨3, 4⟩])]
    let doc := Document.new ((Schema.empty "Person").declare "seen" (Field.ofType ty))
    ty.cast "seen" raw = .ok w ∧ ty.Conforms w ∧ ty.cast "seen" w = .ok w ∧
      doc.set "seen" raw = .ok (doc.assign "seen" (some w)) ∧
      ∃ stored, (doc.assign "seen" (some w)).get? "seen" = some stored ∧
        ∀ r, Compile.Yields (Fragment.castAt (some doc.schema) "seen" stored) r stored r := by
  intro ty raw w doc
  have hcast : ty.cast "seen" raw = .ok w := rfl
  obtain ⟨hprojects, -, hstored⟩ := cast_projects ty "seen" raw
  obtain ⟨hconforms, hagain⟩ := hprojects w hcast
  have hset : doc.set "seen" raw = .ok (doc.assign "seen" (some w)) := rfl
  exact ⟨hcast, hconforms, (cast_projects ty "seen" w).2.1 hconforms, hset, hstored doc _ hset⟩

end FieldType

end DocMapper
