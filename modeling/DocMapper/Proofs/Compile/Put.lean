import DocMapper.Proofs.Compile.Ordered
import DocMapper.Proofs.Path
/-!
# Putting entries into maps

An entry is put into a map by name, or by an assignment to a path that goes on with the key. What is
rendered are assignments of one of these forms. The two write the same into every record as long as
the key is a single segment: the path is split at the dots of the key as well, while the name of an
entry is never split.
-/

namespace DocMapper

namespace Value

/-- The entries of a map; nothing else has any. -/
def entriesOf (v? : Option Value) : Fields Value :=
  (v?.bind map?).getD []

theorem entriesOf_empty (rest : List String) : entriesOf ((map []).atSegments? rest) = [] := by
  rw [atSegments?_empty]
  split <;> rfl

variable {slot v w : Value} {segs : List String} {key : String}

theorem write_singleton (h : ∀ items, slot = .list items → itemIndex? items key = none) :
    write (some v) [key] slot = .map (Fields.put (entriesOf (some slot)) key v) := by
  rw [write_cons]
  cases slot with
  | map entries => rfl
  | list items =>
    rw [withChild, h items rfl]
    rfl
  | _ => rfl

/-- Writing one segment further is writing the map with the new entry. -/
theorem write_append (h : ∀ items, slot.atSegments? segs = some (.list items) →
      itemIndex? items key = none) :
    write (some v) (segs ++ [key]) slot =
      write (some (.map (Fields.put (entriesOf (slot.atSegments? segs)) key v))) segs slot := by
  induction segs generalizing slot with
  | nil =>
    have hslot : write (some v) [key] slot = .map (Fields.put (entriesOf (some slot)) key v) :=
      write_singleton fun items heq => h items (congrArg some heq)
    exact hslot
  | cons segment rest ih =>
    rw [List.cons_append, write_cons, write_cons]
    congr 1
    rw [atSegments?] at h ⊢
    cases hchild : slot.child? segment with
    | none =>
      have hempty : ∀ items, (map []).atSegments? rest = some (.list items) →
          itemIndex? items key = none := by
        intro items hitems
        rw [atSegments?_empty] at hitems
        split at hitems <;> simp at hitems
      rw [Option.getD_none, ih hempty, entriesOf_empty]
      rfl
    | some child =>
      rw [hchild] at h
      rw [Option.getD_some, ih h]
      rfl

theorem write_append_empty {more : List String}
    (h : write (some v) (segs ++ more) (.map []) = write (some w) segs (.map [])) :
    write (some v) more (.map []) = w := by
  induction segs with
  | nil => exact h
  | cons segment rest ih =>
    rw [List.cons_append, write_cons, write_cons] at h
    simp only [withChild, Fields.put, child?, Fields.get?_nil, Option.getD_none] at h
    exact ih (Prod.mk.inj (List.cons.inj (Value.map.inj h)).1).2

end Value

/-- An assignment to records: of a value to a path, or of an entry of the map at a path. -/
inductive Assignment where
  | value (path : String) (v : Value)
  | entry (path key : String) (v : Value)

namespace Assignment

/-- How it is written, as `path = v` or as `path = "key", v`. -/
def text : Assignment → String
  | .value path v => path ++ " = " ++ v.literal
  | .entry path key v => path ++ " = " ++ (Value.string key).literal ++ ", " ++ v.literal

/-- The record after it. The value is written at the path, with all its segments. An entry is
assigned by its key as it is, and where no map is, a new one is made. -/
def exec (record : Fields Value) : Assignment → Fields Value
  | .value path v => writeAt record path (some v)
  | .entry path key v => writeAt record path
      (some (.map (Fields.put (Value.entriesOf (valueAt? record path)) key v)))

/-- The record after several assignments in turn. -/
def execAll (assignments : List Assignment) (record : Fields Value) : Fields Value :=
  assignments.foldl exec record

/-- A clause of assignments; without any there is none. -/
def clause (keyword : String) (assignments : List Assignment) : String :=
  if assignments.isEmpty then ""
  else keyword ++ " " ++ ", ".intercalate (assignments.map text)

end Assignment

/-- An entry to be put into the map at a path. -/
structure Put where
  path : String
  key : String
  v : Value

namespace Put

/-- `SET path.key = v`. -/
def nested (put : Put) : Assignment :=
  .value (put.path ++ "." ++ put.key) put.v

/-- `PUT path = "key", v`. -/
def native (put : Put) : Assignment :=
  .entry put.path put.key put.v

def form (nestedSet : Bool) (put : Put) : Assignment :=
  if nestedSet then put.nested else put.native

/-- The clause in which entries are put, in one form or the other. -/
def clause (nestedSet : Bool) (puts : List Put) : String :=
  Assignment.clause (if nestedSet then "SET" else "PUT") (puts.map (form nestedSet))

/-- The key is no index of a list at the path. -/
def IsClear (put : Put) (record : Fields Value) : Prop :=
  ∀ items, valueAt? record put.path = some (.list items) → Value.itemIndex? items put.key = none

/-- Each key is no index of a list at its path when its turn comes. -/
def AllClear : List Put → Fields Value → Prop
  | [], _ => True
  | put :: rest, record => put.IsClear record ∧ AllClear rest (put.native.exec record)

/-! ### One entry -/

variable {put : Put} {record : Fields Value}

theorem nested_eq_native (hkey : hasDot put.key = false) (hclear : put.IsClear record) :
    put.nested.exec record = put.native.exec record := by
  have hsegments : segments (put.path ++ "." ++ put.key) = segments put.path ++ [put.key] := by
    rw [segments_append, segments_of_undotted hkey]
  rw [IsClear, valueAt?_eq] at hclear
  apply Value.map.inj
  rw [nested, native, Assignment.exec, Assignment.exec, map_writeAt, map_writeAt, hsegments,
    valueAt?_eq]
  exact Value.write_append hclear

/-- A record without values is enough to tell the two apart. -/
theorem undotted_of_nested_eq (h : put.nested.exec [] = put.native.exec []) :
    hasDot put.key = false := by
  have hwritten := congrArg Value.map h
  rw [nested, native, Assignment.exec, Assignment.exec, map_writeAt, map_writeAt, segments_append,
    valueAt?_eq, Value.entriesOf_empty] at hwritten
  have hkey := Value.write_append_empty hwritten
  obtain ⟨first, rest, hfirst⟩ := List.exists_cons_of_ne_nil (segments_ne_nil put.key)
  rw [hfirst, Value.write_cons] at hkey
  have heq : first = put.key := (Prod.mk.inj (List.cons.inj (Value.map.inj hkey)).1).1
  exact heq ▸ undotted_of_mem_segments (hfirst ▸ List.mem_cons_self)

theorem nested_eq_native_iff :
    (∀ record, put.IsClear record → put.nested.exec record = put.native.exec record) ↔
      hasDot put.key = false := by
  constructor
  · intro h
    refine undotted_of_nested_eq (h [] fun items hitems => ?_)
    rw [valueAt?_eq, Value.atSegments?_empty] at hitems
    split at hitems <;> simp at hitems
  · exact fun hkey record hclear => nested_eq_native hkey hclear

/-! ### Entries in turn -/

theorem execAll_nested_eq {puts : List Put} (hkeys : ∀ put ∈ puts, hasDot put.key = false)
    (hclear : AllClear puts record) :
    Assignment.execAll (puts.map nested) record = Assignment.execAll (puts.map native) record := by
  induction puts generalizing record with
  | nil => rfl
  | cons put rest ih =>
    obtain ⟨hkey, hrest⟩ := List.forall_mem_cons.mp hkeys
    obtain ⟨hfirst, hlater⟩ := hclear
    rw [List.map_cons, List.map_cons, Assignment.execAll, Assignment.execAll, List.foldl_cons,
      List.foldl_cons, nested_eq_native hkey hfirst]
    exact ih hrest hlater

/-! ### What is rendered -/

def castBy (schema? : Option Schema) (path : String) (v : Value) : Except CastError Value :=
  match schema? with
  | some schema => schema.cast path v
  | none => .ok v

/-- The entries that a value puts at a path. The value is cast as a whole. -/
def ofValue (schema? : Option Schema) (path : String) (v : Value) : Except CastError (List Put) :=
  (castBy schema? path v).map fun w =>
    (Value.entriesOf (some w)).map fun entry => ⟨path, entry.1, entry.2⟩

/-- The entries that changes put, in order. A sub-query puts none. -/
def ofChanges (schema? : Option Schema) : List Change → Except CastError (List Put)
  | [] => .ok []
  | ⟨.put, path, .value v⟩ :: rest => do
    let puts ← ofValue schema? path v
    let later ← ofChanges schema? rest
    pure (puts ++ later)
  | _ :: rest => ofChanges schema? rest

variable {schema? : Option Schema} {r r' : Registry}

theorem yields_castAt {path : String} {v w : Value} :
    Compile.Yields (Fragment.castAt schema? path v) r w r' ↔
      castBy schema? path v = .ok w ∧ r = r' := by
  cases schema? with
  | none => simp [Fragment.castAt, castBy]
  | some schema => simp [Fragment.castAt, castBy]

theorem putItem_eq (nestedSet : Bool) (path : String) (entry : String × Value) :
    Fragment.putItem nestedSet path entry =
      (form nestedSet ⟨path, entry.1, entry.2⟩).text := by
  cases nestedSet with
  | true => rfl
  | false =>
    change path ++ " = " ++ ((Value.string entry.1).literal ++ ", " ++ entry.2.literal) =
      path ++ " = " ++ (Value.string entry.1).literal ++ ", " ++ entry.2.literal
    simp only [String.append_assoc]

theorem yields_putItems {nestedSet : Bool} {path : String} {v : Value} {texts : List String} :
    Compile.Yields (Fragment.putItems schema? nestedSet path v) r texts r' ↔
      ∃ puts, ofValue schema? path v = .ok puts ∧
        texts = puts.map (fun put => (form nestedSet put).text) ∧ r = r' := by
  have hitems : ∀ w : Value, (Value.entriesOf (some w)).map (Fragment.putItem nestedSet path) =
      ((Value.entriesOf (some w)).map fun entry => ⟨path, entry.1, entry.2⟩).map
        fun put => (form nestedSet put).text := by
    intro w
    rw [List.map_map]
    exact List.map_congr_left fun entry _ => putItem_eq nestedSet path entry
  simp only [Fragment.putItems, Compile.yields_bind, yields_castAt, ofValue, Success.map_eq_ok]
  constructor
  · rintro ⟨w, mid, ⟨hcast, rfl⟩, hw⟩
    refine ⟨_, ⟨w, hcast, rfl⟩, ?_⟩
    rw [← hitems]
    cases w <;> exact (Compile.yields_pure.mp hw).imp_left Eq.symm
  · rintro ⟨puts, ⟨w, hcast, rfl⟩, htexts, rfl⟩
    refine ⟨w, r, ⟨hcast, rfl⟩, ?_⟩
    rw [← hitems] at htexts
    cases w <;> exact Compile.yields_pure.mpr ⟨htexts.symm, rfl⟩

theorem yields_changeTexts {config : Config} {changes : List Change} {texts : List String} :
    Compile.Yields (changeTexts config schema? .put changes) r texts r' ↔
      ∃ puts, ofChanges schema? changes = .ok puts ∧
        texts = puts.map (fun put => (form config.dialect.putAsNestedSet put).text) ∧ r = r' := by
  induction changes generalizing r texts r' with
  | nil => simp [changeTexts, ofChanges, eq_comm]
  | cons change rest ih =>
    obtain ⟨kind, path, term⟩ := change
    rw [changeTexts]
    by_cases hkind : kind = .put
    · subst hkind
      cases term with
      | value v =>
        simp only [if_true, Compile.yields_bind, Compile.yields_pure, termTexts,
          Fragment.valueItems, yields_putItems, ih, ofChanges, Success.bind_eq_ok,
          Success.pure_eq_ok]
        constructor
        · rintro ⟨_, _, ⟨puts, hputs, rfl, rfl⟩, _, _, ⟨later, hlater, rfl, rfl⟩, rfl, rfl⟩
          exact ⟨_, ⟨puts, hputs, later, hlater, rfl⟩, List.map_append.symm, rfl⟩
        · rintro ⟨_, ⟨puts, hputs, later, hlater, rfl⟩, rfl, rfl⟩
          exact ⟨_, _, ⟨puts, hputs, rfl, rfl⟩, _, _, ⟨later, hlater, rfl, rfl⟩,
            List.map_append.symm, rfl⟩
      | query statement =>
        simp [termTexts, ofChanges, ih]
    · rw [if_neg hkind, ih]
      cases kind <;> first | exact absurd rfl hkind | rfl

/-- The clause of entries to be put is written from them, and nothing is bound for it. -/
theorem yields_clauseText {config : Config} {s : Statement} {text : String} :
    Compile.Yields (clauseText config s .put) r text r' ↔
      ∃ puts, ofChanges s.frame.schema? s.changes = .ok puts ∧
        text = clause config.dialect.putAsNestedSet puts ∧ r = r' := by
  have hclause : ∀ puts, Fragment.listClause
      (Fragment.changeKeyword config.dialect.putAsNestedSet .put)
      (puts.map fun put => (form config.dialect.putAsNestedSet put).text) =
        clause config.dialect.putAsNestedSet puts := by
    intro puts
    have hkeyword : Fragment.changeKeyword config.dialect.putAsNestedSet .put =
        if config.dialect.putAsNestedSet then "SET" else "PUT" := by
      cases config.dialect.putAsNestedSet <;> rfl
    rw [clause, Assignment.clause, hkeyword, Fragment.listClause, Fragment.commaList, List.map_map,
      List.isEmpty_map, List.isEmpty_map]
    rfl
  change Compile.Yields (do
    let items ← changeTexts config s.frame.schema? .put s.changes
    pure (Fragment.listClause (Fragment.changeKeyword config.dialect.putAsNestedSet .put) items))
      r text r' ↔ _
  simp only [Compile.yields_bind, yields_changeTexts, Compile.yields_pure, ← hclause]
  constructor
  · rintro ⟨_, _, ⟨puts, hputs, rfl, rfl⟩, rfl, rfl⟩
    exact ⟨puts, hputs, rfl, rfl⟩
  · rintro ⟨puts, hputs, rfl, rfl⟩
    exact ⟨_, _, ⟨puts, hputs, rfl, rfl⟩, rfl, rfl⟩

/-! ### The two forms -/

/-- In either form the clause is written from the entries that are put, one assignment for each. The
assignments of the one form make of every record what those of the other make of it as long as no
key has a dot, and a single one does so exactly then, lists at a path that have an item under the
key left aside. -/
theorem forms_agree (s : Statement) :
    (∀ config r text r', Compile.Yields (clauseText config s .put) r text r' ↔
      ∃ puts, ofChanges s.frame.schema? s.changes = .ok puts ∧
        text = clause config.dialect.putAsNestedSet puts ∧ r = r') ∧
    (∀ puts record, (∀ put ∈ puts, hasDot put.key = false) → AllClear puts record →
      Assignment.execAll (puts.map (form true)) record =
        Assignment.execAll (puts.map (form false)) record) ∧
    (∀ put, (∀ record, put.IsClear record →
      (form true put).exec record = (form false put).exec record) ↔ hasDot put.key = false) :=
  ⟨fun _ _ _ _ => yields_clauseText, fun _ _ hkeys hclear => execAll_nested_eq hkeys hclear,
    fun _ => nested_eq_native_iff⟩

def colored : Statement :=
  (Statement.update "#5:1").put "attrs" [("color", .string "red"), ("size", .int 2)]

theorem forms_agree_color :
    Compile.Yields (clauseText .default colored .put) (.ofStem "qp")
      "SET attrs.color = \"red\", attrs.size = 2" (.ofStem "qp") ∧
    Compile.Yields (clauseText .strict colored .put) (.ofStem "qp")
      "PUT attrs = \"color\", \"red\", attrs = \"size\", 2" (.ofStem "qp") ∧
    Assignment.execAll
        ([⟨"attrs", "color", .string "red"⟩, ⟨"attrs", "size", .int 2⟩].map (form true))
        [("attrs", .map [("size", .int 1)])] =
      Assignment.execAll
        ([⟨"attrs", "color", .string "red"⟩, ⟨"attrs", "size", .int 2⟩].map (form false))
        [("attrs", .map [("size", .int 1)])] := by
  obtain ⟨htexts, hexecs, -⟩ := forms_agree colored
  exact ⟨(htexts _ _ _ _).mpr ⟨_, rfl, rfl, rfl⟩, (htexts _ _ _ _).mpr ⟨_, rfl, rfl, rfl⟩,
    hexecs _ _ (by decide) ⟨nofun, nofun, trivial⟩⟩

def misplaced : Statement :=
  (Statement.update "#5:1").put "attrs" [("a.b", .int 1)]

/-- The entry `a.b` of a map is written as an entry `b` of another map. -/
theorem dotted_key_misplaced :
    Compile.Yields (clauseText .default misplaced .put) (.ofStem "qp") "SET attrs.a.b = 1"
      (.ofStem "qp") ∧
    Compile.Yields (clauseText .strict misplaced .put) (.ofStem "qp") "PUT attrs = \"a.b\", 1"
      (.ofStem "qp") ∧
    (form true ⟨"attrs", "a.b", .int 1⟩).text = "attrs.a.b = 1" ∧
    (form false ⟨"attrs", "a.b", .int 1⟩).text = "attrs = \"a.b\", 1" ∧
    (form true ⟨"attrs", "a.b", .int 1⟩).exec [] =
      [("attrs", .map [("a", .map [("b", .int 1)])])] ∧
    (form false ⟨"attrs", "a.b", .int 1⟩).exec [] = [("attrs", .map [("a.b", .int 1)])] ∧
    (form true ⟨"attrs", "a.b", .int 1⟩).exec [] ≠
      (form false ⟨"attrs", "a.b", .int 1⟩).exec [] := by
  refine ⟨yields_clauseText.mpr ⟨_, rfl, rfl, rfl⟩, yields_clauseText.mpr ⟨_, rfl, rfl, rfl⟩,
    rfl, rfl, rfl, rfl, fun heq => ?_⟩
  have hkey := undotted_of_nested_eq heq
  revert hkey
  decide

end Put

end DocMapper
