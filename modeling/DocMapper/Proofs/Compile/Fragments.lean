import DocMapper.Proofs.Compile.Writing
import DocMapper.Proofs.Fields
/-!
# Placeholders in the clauses

Only conditions bind values. All other clauses are written from texts and literals, which bring no
placeholders if what they are made from is quiet.
-/

namespace DocMapper

open Compile Inline Success

namespace Fragment

variable {schema? : Option Schema} {path : String}

/-! ### Conditions -/

theorem writes_castForQuery (op : Operator) (v : Value) :
    Writes (castForQuery schema? path op v) fun _ => [] := by
  cases schema? with
  | none => exact writes_pure rfl
  | some schema => exact writes_liftCast _

theorem writes_bracketed (hpath : Quiet path) (op : Operator) (items : List Value) :
    Writes (bindAll items >>= fun tokens => pure (comparison path op.sql (bracketed tokens)))
      placeholders := by
  refine (writes_bindAll items).map fun _ tokens _ _ => ⟨_, rfl, ?_⟩
  rw [placeholders_comparison hpath (quiet_operator op), placeholders_bracketed]

theorem writes_single (hpath : Quiet path) (op : Operator) (v : Value) :
    Writes (Compile.bind v >>= fun token => pure (comparison path op.sql token))
      placeholders := by
  refine (writes_bindValue v).map fun _ token _ _ => ⟨_, rfl, ?_⟩
  rw [placeholders_comparison hpath (quiet_operator op)]

theorem writes_compareText (hpath : Quiet path) (op : Operator) (v : Value) :
    Writes (compareText schema? path op v) placeholders := by
  refine (writes_castForQuery op v).then fun _ cast _ _ => ?_
  split
  · refine (writes_bindAll _).map fun _ tokens _ _ => ?_
    split
    · next token =>
      refine ⟨_, rfl, ?_⟩
      rw [placeholders_comparison hpath (quiet_operator op), List.flatMap_singleton]
    · refine ⟨_, rfl, ?_⟩
      rw [placeholders_comparison hpath (quiet_operator op), placeholders_bracketed]
  · exact writes_single hpath op _

theorem writes_membershipText (hpath : Quiet path) (op : Operator) (v : Value) :
    Writes (membershipText schema? path op v) placeholders := by
  refine (writes_castForQuery op v).then fun _ cast _ _ => ?_
  split
  · exact writes_bracketed hpath op _
  · exact writes_single hpath op _

theorem parts_between : Parts " BETWEEN " :=
  parts_of_closed (by decide) (by decide)

theorem parts_and : Parts " AND " :=
  parts_of_closed (by decide) (by decide)

theorem writes_rangeText (hpath : Quiet path) (low high : Value) :
    Writes (rangeText schema? path low high) placeholders := by
  refine (writes_castForQuery .between _).then fun _ bounds _ _ => ?_
  refine (writes_bindValue _).map₂ (writes_bindValue _) fun lowToken highToken => ⟨_, rfl, ?_⟩
  rw [parts_and, parts_between, quiet_iff.mp hpath]
  rfl

/-! ### Values -/

theorem writes_castAt (v : Value) : Writes (castAt schema? path v) fun _ => [] := by
  cases schema? with
  | none => exact writes_pure rfl
  | some schema => exact writes_liftCast _

theorem quiet_of_castAt {v w : Value} (h : v.Quiet) {r r' : Registry}
    (hw : Yields (castAt schema? path v) r w r') : w.Quiet := by
  cases schema? with
  | none =>
    obtain ⟨rfl, -⟩ := yields_pure.mp hw
    exact h
  | some schema =>
    obtain ⟨hcast, -⟩ := yields_liftCast.mp hw
    unfold Schema.cast at hcast
    split at hcast
    · exact FieldType.quiet_of_cast h hcast
    · cases hcast
      exact h

theorem quiet_of_castItem {schema : Schema} {v w : Value} (h : v.Quiet)
    (hw : schema.castItem path v = .ok w) : w.Quiet := by
  unfold Schema.castItem at hw
  split at hw
  · exact FieldType.quiet_of_cast h hw
  · cases hw
    exact h

theorem writes_castRemoved (v : Value) : Writes (castRemoved schema? path v) fun _ => [] := by
  unfold castRemoved
  split
  · exact writes_pure rfl
  · split
    · split
      · exact (writes_liftCast _).then fun _ _ _ _ => writes_pure rfl
      · exact writes_liftCast _
    · split
      · exact (writes_liftCast _).then fun _ _ _ _ => writes_pure rfl
      · exact writes_liftCast _
    · exact writes_pure rfl

theorem quiet_of_castRemoved {v w : Value} (h : v.Quiet) {r r' : Registry}
    (hw : Yields (castRemoved schema? path v) r w r') : w.Quiet := by
  have hitems : ∀ {schema : Schema} {items : List Value},
      v = .list items → Yields (do
        let items ← liftCast (items.mapM (schema.castItem path))
        pure (Value.list items)) r w r' → w.Quiet := by
    rintro schema items rfl hlist
    obtain ⟨results, mid, hcast, hpure⟩ := yields_bind.mp hlist
    obtain ⟨hcast, -⟩ := yields_liftCast.mp hcast
    obtain ⟨rfl, -⟩ := yields_pure.mp hpure
    refine Value.quiet_list_iff.mpr fun result hmem => ?_
    obtain ⟨item, hitem, hone⟩ := exists_of_mapM_eq_ok hcast result hmem
    exact quiet_of_castItem (Value.quiet_list_iff.mp h item hitem) hone
  unfold castRemoved at hw
  split at hw
  · obtain ⟨rfl, -⟩ := yields_pure.mp hw
    exact h
  · split at hw
    · split at hw
      · exact hitems rfl hw
      · exact quiet_of_castItem h (yields_liftCast.mp hw).1
    · split at hw
      · exact hitems rfl hw
      · exact quiet_of_castItem h (yields_liftCast.mp hw).1
    · obtain ⟨rfl, -⟩ := yields_pure.mp hw
      exact h

theorem placeholders_literal_assignment (hpath : Quiet path) {v : Value} (hv : v.Quiet) :
    placeholders (assignment path v.literal) = [] := by
  rw [placeholders_assignment hpath, hv.literal]

theorem writes_removeItems (hpath : Quiet path) {v : Value} (hv : v.Quiet) :
    Writes (removeItems schema? path v) (·.flatMap placeholders) := by
  unfold removeItems
  split
  · refine writes_pure (List.flatMap_eq_nil_iff.mpr fun item hmem => ?_)
    obtain ⟨element, helement, rfl⟩ := List.mem_map.mp hmem
    exact placeholders_literal_assignment hpath (Value.quiet_list_iff.mp hv element helement)
  · refine (writes_castRemoved _).then fun _ cast _ hcast => writes_pure ?_
    rw [List.flatMap_singleton, placeholders_literal_assignment hpath
      (quiet_of_castRemoved hv hcast)]

theorem placeholders_putItem (nestedSet : Bool) (hpath : Quiet path) {entry : String × Value}
    (hkey : Quiet entry.1) (hv : entry.2.Quiet) : placeholders (putItem nestedSet path entry) = [] := by
  unfold putItem
  split
  · refine placeholders_literal_assignment ?_ hv
    have hdot : Parts "." := parts_of_closed (by decide) (by decide)
    rw [quiet_iff, hdot, quiet_iff.mp hpath, quiet_iff.mp hkey]
    rfl
  · have hliteral : (Value.string entry.1).Quiet := hkey
    rw [placeholders_assignment hpath, parts_comma, hliteral.literal, hv.literal]
    rfl

theorem writes_putItems (nestedSet : Bool) (hpath : Quiet path) {v : Value} (hv : v.Quiet) :
    Writes (putItems schema? nestedSet path v) (·.flatMap placeholders) := by
  refine (writes_castAt _).then fun _ cast _ hcast => ?_
  split
  · refine writes_pure (List.flatMap_eq_nil_iff.mpr fun item hmem => ?_)
    obtain ⟨entry, hentry, rfl⟩ := List.mem_map.mp hmem
    obtain ⟨hkey, hvalue⟩ := Value.quiet_map_iff.mp (quiet_of_castAt hv hcast) entry hentry
    exact placeholders_putItem nestedSet hpath hkey hvalue
  · exact writes_pure rfl

theorem writes_valueItems (nestedSet : Bool) (kind : ChangeKind) (hpath : Quiet path) {v : Value}
    (hv : v.Quiet) :
    Writes (valueItems schema? nestedSet kind path v) (·.flatMap placeholders) := by
  unfold valueItems
  split
  · exact writes_removeItems hpath hv
  · exact writes_putItems nestedSet hpath hv
  · refine (writes_castAt _).then fun _ cast _ hcast => writes_pure ?_
    rw [List.flatMap_singleton, placeholders_literal_assignment hpath (quiet_of_castAt hv hcast)]

end Fragment

/-! ### The frame -/

def Expression.text : Expression → String
  | .field text => text
  | .sql text _ => text

def Expression.params : Expression → Fields Value
  | .field _ => []
  | .sql _ params => params

def Projection.Quiet (p : Projection) : Prop :=
  Inline.Quiet p.expression.text ∧ ∀ label ∈ p.label?, Inline.Quiet label

def ReturnClause.Quiet (clause : ReturnClause) : Prop :=
  Inline.Quiet clause.mode ∧ ∀ expression ∈ clause.expression?, Inline.Quiet expression

/-- No text and no document of a frame has a colon before a letter. -/
structure Frame.Quiet (frame : Frame) : Prop where
  projections : ∀ p ∈ frame.projections, p.Quiet
  fields : ∀ text ∈ frame.fields, Inline.Quiet text
  targets : ∀ text ∈ frame.targets, Inline.Quiet text
  into : ∀ text ∈ frame.into?, Inline.Quiet text
  group : ∀ text ∈ frame.group, Inline.Quiet text
  order : ∀ item ∈ frame.order, Inline.Quiet item.property
  fetchPlan : ∀ entry ∈ frame.fetchPlan, Inline.Quiet entry.1
  content : ∀ document ∈ frame.content, (Value.map document).Quiet
  merge : ∀ document ∈ frame.merge, (Value.map document).Quiet
  returning : ∀ clause ∈ frame.returning?, clause.Quiet

namespace Fragment

theorem quiet_append {a b separator : String} (ha : Quiet a) (hb : Quiet b)
    (hparts : Parts separator) : Quiet (a ++ separator ++ b) := by
  rw [quiet_iff, hparts, quiet_iff.mp ha, quiet_iff.mp hb]
  rfl

theorem parts_as : Parts " AS " :=
  parts_of_closed (by decide) (by decide)

/-! #### Projections -/

theorem writes_projectionText {p : Projection} (hparams : p.expression.params = []) :
    Writes (projectionText p) fun _ => [] := by
  obtain ⟨expression, label?⟩ := p
  cases expression with
  | field text => exact writes_fill _
  | sql text params => exact (writes_mergeParams hparams).then fun _ _ _ _ => writes_fill _

theorem quiet_of_projectionText {p : Projection} (h : p.Quiet) {r r' : Registry} {text : String}
    (hw : Yields (projectionText p) r text r') : Quiet text := by
  obtain ⟨expression, label?⟩ := p
  cases label? with
  | none =>
    cases expression with
    | field text => exact quiet_of_fill h.1 hw
    | sql text params =>
      obtain ⟨_, mid, -, hfill⟩ := yields_bind.mp hw
      exact quiet_of_fill h.1 hfill
  | some label =>
    have hlabeled : Quiet (expression.text ++ " AS " ++ label) :=
      quiet_append h.1 (h.2 label rfl) parts_as
    cases expression with
    | field text => exact quiet_of_fill hlabeled hw
    | sql text params =>
      obtain ⟨_, mid, -, hfill⟩ := yields_bind.mp hw
      exact quiet_of_fill hlabeled hfill

theorem writes_projectionTexts {projections : List Projection}
    (hparams : ∀ p ∈ projections, p.expression.params = []) :
    Writes (projectionTexts projections) fun _ => [] := by
  induction projections with
  | nil => exact writes_pure rfl
  | cons p rest ih =>
    obtain ⟨hfirst, hrest⟩ := List.forall_mem_cons.mp hparams
    exact (writes_projectionText hfirst).then fun _ _ _ _ =>
      (ih hrest).then fun _ _ _ _ => writes_pure rfl

theorem quiet_of_projectionTexts {projections : List Projection} (h : ∀ p ∈ projections, p.Quiet)
    {r r' : Registry} {texts : List String} (hw : Yields (projectionTexts projections) r texts r') :
    ∀ text ∈ texts, Quiet text := by
  induction projections generalizing r texts with
  | nil =>
    obtain ⟨rfl, -⟩ := yields_pure.mp hw
    exact nofun
  | cons p rest ih =>
    obtain ⟨hfirst, hrest⟩ := List.forall_mem_cons.mp h
    obtain ⟨text, mid, htext, hbind⟩ := yields_bind.mp hw
    obtain ⟨later, last, hlater, hpure⟩ := yields_bind.mp hbind
    obtain ⟨rfl, rfl⟩ := yields_pure.mp hpure
    split
    · exact ih hrest hlater
    · exact List.forall_mem_cons.mpr ⟨quiet_of_projectionText hfirst htext, ih hrest hlater⟩

theorem quiet_of_selectClause {projections : List Projection} (h : ∀ p ∈ projections, p.Quiet)
    {r r' : Registry} {text : String} (hw : Yields (selectClause projections) r text r') :
    Quiet text := by
  unfold selectClause at hw
  split at hw
  · obtain ⟨rfl, -⟩ := yields_pure.mp hw
    decide
  · obtain ⟨items, mid, hitems, hpure⟩ := yields_bind.mp hw
    obtain ⟨rfl, -⟩ := yields_pure.mp hpure
    have hkeyword : Closed "SELECT " := by decide
    rw [quiet_iff, hkeyword.before, placeholders_commaList]
    exact List.flatMap_eq_nil_iff.mpr fun item hmem =>
      quiet_iff.mp (quiet_of_projectionTexts h hitems item hmem)

theorem writes_selectClause {projections : List Projection} (h : ∀ p ∈ projections, p.Quiet)
    (hparams : ∀ p ∈ projections, p.expression.params = []) :
    Writes (selectClause projections) placeholders := by
  refine Writes.silent ?_ fun r text r' hw => quiet_iff.mp (quiet_of_selectClause h hw)
  unfold selectClause
  split
  · exact writes_pure rfl
  · exact (writes_projectionTexts hparams).then fun _ _ _ _ => writes_pure rfl

theorem selectClause_ne_empty {projections : List Projection} (hne : projections ≠ [])
    {r r' : Registry} {text : String} (h : Yields (selectClause projections) r text r') :
    text ≠ "" := by
  unfold selectClause at h
  rw [if_neg (by simpa using hne)] at h
  obtain ⟨items, mid, -, hpure⟩ := yields_bind.mp h
  obtain ⟨rfl, -⟩ := yields_pure.mp hpure
  simp [String.append_eq_empty_iff]

/-! #### Documents -/

theorem writes_castEntries (entries : List (String × Value)) :
    Writes (castEntries schema? entries) fun _ => [] := by
  induction entries with
  | nil => exact writes_pure rfl
  | cons entry rest ih =>
    exact (writes_castAt entry.2).then fun _ _ _ _ => ih.then fun _ _ _ _ => writes_pure rfl

theorem quiet_of_castEntries {entries results : List (String × Value)}
    (h : ∀ entry ∈ entries, Quiet entry.1 ∧ entry.2.Quiet) {r r' : Registry}
    (hw : Yields (castEntries schema? entries) r results r') :
    ∀ entry ∈ results, Quiet entry.1 ∧ entry.2.Quiet := by
  induction entries generalizing r r' results with
  | nil =>
    obtain ⟨rfl, -⟩ := yields_pure.mp hw
    exact nofun
  | cons entry rest ih =>
    obtain ⟨hfirst, hrest⟩ := List.forall_mem_cons.mp h
    obtain ⟨v, mid, hv, hbind⟩ := yields_bind.mp hw
    obtain ⟨later, last, hlater, hpure⟩ := yields_bind.mp hbind
    obtain ⟨rfl, -⟩ := yields_pure.mp hpure
    exact List.forall_mem_cons.mpr ⟨⟨hfirst.1, quiet_of_castAt hfirst.2 hv⟩, ih hrest hlater⟩

theorem quiet_foldl_merge {documents : List (Fields Value)} {merged : Fields Value}
    (h : ∀ document ∈ documents, (Value.map document).Quiet) (hmerged : (Value.map merged).Quiet) :
    (Value.map (documents.foldl Fields.merge merged)).Quiet := by
  refine Value.quiet_map_iff.mpr fun entry hmem => ?_
  rcases Fields.mem_foldl_merge hmem with hmem | ⟨document, hdocument, hmem⟩
  · exact Value.quiet_map_iff.mp hmerged entry hmem
  · exact Value.quiet_map_iff.mp (h document hdocument) entry hmem

theorem writes_documentClause {keyword : String} (hkeyword : Quiet keyword)
    {documents : List (Fields Value)} (h : ∀ document ∈ documents, (Value.map document).Quiet) :
    Writes (documentClause schema? keyword documents) placeholders := by
  unfold documentClause
  split
  · exact writes_pure rfl
  · refine (writes_castEntries _).then fun _ entries _ hentries => writes_pure ?_
    have hempty : (Value.map []).Quiet := trivial
    have hmerged := Value.quiet_map_iff.mp (quiet_foldl_merge h hempty)
    have hquiet : (Value.map entries).Quiet :=
      Value.quiet_map_iff.mpr (quiet_of_castEntries hmerged hentries)
    rw [placeholders_keyword hkeyword, hquiet.literal]

/-! #### The other clauses -/

theorem placeholders_optional {α : Type} {text : α → String} {a? : Option α}
    (h : ∀ a ∈ a?, placeholders (text a) = []) : placeholders (optional text a?) = [] := by
  cases a? with
  | none => rfl
  | some a => exact h a rfl

theorem placeholders_toString_nat (n : Nat) : placeholders (toString n) = [] := by
  have hchars : (toString n).toList = Nat.toDigits 10 n := Nat.toList_repr
  rw [placeholders, hchars]
  exact namesIn_of_not_mem (isNumeric_toDigits n).not_mem

theorem isNumeric_toString_int (n : Int) : IsNumeric (toString n).toList := by
  cases n with
  | ofNat n =>
    have hchars : (toString (Int.ofNat n)).toList = Nat.toDigits 10 n := Nat.toList_repr
    rw [hchars]
    exact isNumeric_toDigits n
  | negSucc n =>
    have hchars : (toString (Int.negSucc n)).toList = '-' :: Nat.toDigits 10 (n + 1) := by
      have htext : toString (Int.negSucc n) = "-" ++ Nat.repr (n + 1) := rfl
      rw [htext, String.toList_append, Nat.toList_repr]
      rfl
    rw [hchars]
    exact List.forall_mem_cons.mpr ⟨Or.inr (Or.inl rfl), isNumeric_toDigits _⟩

theorem placeholders_toString_int (n : Int) : placeholders (toString n) = [] :=
  namesIn_of_not_mem (isNumeric_toString_int n).not_mem

/-- A path and a depth: the colon between them begins no placeholder. -/
theorem placeholders_fetch {path : String} (hpath : Quiet path) (depth : Int) :
    placeholders (path ++ ":" ++ toString depth) = [] := by
  have hchars : (path ++ ":" ++ toString depth).toList =
      path.toList ++ ':' :: (toString depth).toList := by
    simp [String.toList_append]
  rw [placeholders, hchars, (isNumeric_toString_int depth).namesIn_append_colon]
  exact quiet_iff.mp hpath

theorem placeholders_targetClause {keyword : String} (hkeyword : Quiet keyword) (allowList : Bool)
    {targets : List String} (h : targets.length ≤ 1 ∨ ∀ text ∈ targets, placeholders text = []) :
    placeholders (targetClause keyword allowList targets) = targets.flatMap placeholders := by
  cases targets with
  | nil => rfl
  | cons first rest =>
    unfold targetClause
    dsimp only
    split
    · rw [placeholders_keyword hkeyword, placeholders_bracketed]
    · rw [placeholders_keyword hkeyword, List.flatMap_cons]
      rcases h with hshort | hquiet
      · have hrest : rest = [] := List.eq_nil_iff_length_eq_zero.mpr (by simpa using hshort)
        rw [hrest, List.flatMap_nil, List.append_nil]
      · rw [List.flatMap_eq_nil_iff.mpr (List.forall_mem_cons.mp hquiet).2, List.append_nil]

theorem placeholders_plainClause {frame : Frame} (h : frame.Quiet) (clause : Clause) :
    placeholders (frame.plainClause clause) = [] := by
  have hlead : ∀ {first : String}, Closed first → ∀ {text : String}, placeholders text = [] →
      placeholders (first ++ text) = [] := fun hfirst _ htext => (hfirst.before _).trans htext
  cases clause with
  | traverse =>
    rw [Frame.plainClause, placeholders_listClause (by decide)]
    exact List.flatMap_eq_nil_iff.mpr fun text hmem => quiet_iff.mp (h.fields text hmem)
  | update =>
    rw [Frame.plainClause, placeholders_targetClause (by decide)]
    · exact List.flatMap_eq_nil_iff.mpr fun text hmem => quiet_iff.mp (h.targets text hmem)
    · exact Or.inr fun text hmem => quiet_iff.mp (h.targets text hmem)
  | into =>
    exact placeholders_optional fun text hmem =>
      hlead (by decide) (quiet_iff.mp (h.into text hmem))
  | group =>
    exact placeholders_optional fun text hmem =>
      hlead (by decide) (quiet_iff.mp (h.group text (List.mem_of_mem_head? hmem)))
  | order =>
    rw [Frame.plainClause, placeholders_listClause (by decide), List.flatMap_map]
    refine List.flatMap_eq_nil_iff.mpr fun item hmem => ?_
    have hdirection : Quiet item.direction.sql := by
      cases item.direction <;> decide
    rw [orderText, placeholders_keyword (h.order item hmem), quiet_iff.mp hdirection]
  | skip | timeout =>
    exact placeholders_optional fun n _ => hlead (by decide) (placeholders_toString_nat n.toNat)
  | limit =>
    exact placeholders_optional fun n _ => hlead (by decide) (placeholders_toString_int n.toInt)
  | fetchPlan =>
    unfold Frame.plainClause
    dsimp only
    split
    · rfl
    · refine hlead (by decide) ?_
      rw [parts_blank.intercalate, List.flatMap_map]
      exact List.flatMap_eq_nil_iff.mpr fun entry hmem =>
        placeholders_fetch (h.fetchPlan entry hmem) entry.2.toInt
  | lock =>
    refine placeholders_optional fun mode _ => hlead (by decide) ?_
    cases mode <;> decide
  | strategy =>
    refine placeholders_optional fun strategy _ => hlead (by decide) ?_
    cases strategy <;> decide
  | «return» =>
    refine placeholders_optional fun clause hmem => ?_
    obtain ⟨hmode, hexpression⟩ := h.returning clause hmem
    unfold returnText
    split
    · next expression heq =>
      rw [parts_blank, hlead (by decide) (quiet_iff.mp hmode),
        quiet_iff.mp (hexpression expression heq)]
      rfl
    · exact hlead (by decide) (quiet_iff.mp hmode)
  | parallel =>
    unfold Frame.plainClause
    dsimp only
    split <;> decide
  | upsert =>
    unfold Frame.plainClause
    dsimp only
    split <;> decide
  | insert | delete =>
    rw [Frame.plainClause]
    decide
  | _ => rfl

end Fragment

end DocMapper
