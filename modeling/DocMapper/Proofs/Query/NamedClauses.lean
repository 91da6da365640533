import DocMapper.Proofs.Query.BuilderCalls
import Mathlib.Tactic.FinCases
/-!
# Clauses by name

Which calls an operand stands for is one table over the clauses, whatever the kind of statement is.
Setting a clause by name makes these calls, for each kind that has the clause, and it takes the
operands of the table and no others. There is one gap: a TRAVERSE has bindings, and calls that bind,
but refuses them as an option. All names beside those of the clauses are refused if some other kind
has the clause, and kept for the execution otherwise.
-/

namespace DocMapper

/-! ### Names -/

/-- The name of a clause as an option. -/
def Clause.option : Clause → String
  | .select => "select"
  | .traverse => "traverse"
  | .insert => "insert"
  | .update => "update"
  | .delete => "delete"
  | .into => "into"
  | .from => "from"
  | .let => "let"
  | .where => "where"
  | .group => "group"
  | .order => "order"
  | .skip => "skip"
  | .limit => "limit"
  | .fetchPlan => "fetchPlan"
  | .timeout => "timeout"
  | .lock => "lock"
  | .parallel => "parallel"
  | .set => "set"
  | .increment => "increment"
  | .add => "add"
  | .remove => "remove"
  | .put => "put"
  | .content => "content"
  | .merge => "merge"
  | .upsert => "upsert"
  | .return => "return"
  | .strategy => "strategy"

namespace StatementKind

/-- The clauses that calls may set. The words of INSERT and DELETE and the targets of an UPDATE come
with the start of a statement only. -/
def offered (kind : StatementKind) : List Clause :=
  kind.clauses.filter fun clause => clause ∉ [.insert, .update, .delete]

/-- The names of a clause. The conditions of a TRAVERSE go by the name of their keyword as well. -/
def namesOf (kind : StatementKind) (clause : Clause) : List String :=
  if kind = .traverse ∧ clause = .where then ["while", "where"] else [clause.option]

/-- The clause that has calls but is missing as an option. -/
def Misses (kind : StatementKind) (clause : Clause) : Prop :=
  kind = .traverse ∧ clause = .let

instance (kind : StatementKind) (clause : Clause) : Decidable (kind.Misses clause) :=
  inferInstanceAs (Decidable (_ ∧ _))

/-- The names that a kind takes as those of its clauses. -/
def optionNames (kind : StatementKind) : List String :=
  (kind.offered.filter fun clause => ¬ kind.Misses clause).flatMap kind.namesOf

end StatementKind

/-! ### Operands -/

/-- A list of words: an array, or one text with commas between the words. -/
inductive ListsWords : Json → List String → Prop where
  | items (words : List String) : ListsWords (.arr (words.map .str)) words
  | commas (text : String) :
      ListsWords (.str text) (((Text.split ',' text).map Text.trim).filter (!·.isEmpty))

namespace Operand

variable {name : String} {json : Json}

theorem string_eq_ok_iff (json : Json) (text : String) :
    string name json = .ok text ↔ json = .str text := by
  cases json <;> simp [string, fail]

theorem bool_eq_ok_iff (json : Json) (b : Bool) : bool name json = .ok b ↔ json = .bool b := by
  cases json <;> simp [bool, fail]

theorem map_eq_ok_iff (json : Json) (changes : Fields Value) : map name json = .ok changes ↔
    ∃ entries, json = .obj entries ∧ Value.entriesOfJson entries = changes := by
  cases json with
  | obj entries => simp [map, Value.ofJson]
  | int n =>
    unfold map Value.ofJson
    cases Number.int64? n <;> simp [fail]
  | _ => simp [map, Value.ofJson, fail]

theorem integer_eq_ok_iff (json : Json) (n : Int64) :
    integer name json = .ok n ↔ json = .int n.toInt := by
  cases json with
  | int m =>
    rw [Json.int.injEq, @eq_comm _ m, ← Number.int64?_eq_some_iff]
    rw [integer]
    cases Number.int64? m <;> simp [fail]
  | _ => simp [integer, fail]

theorem natural_eq_ok_iff (json : Json) (n : UInt64) :
    natural name json = .ok n ↔ json = .int n.toNat := by
  cases json with
  | int m =>
    rw [Json.int.injEq, @eq_comm _ m, ← Number.uint64?_eq_some_iff]
    rw [natural]
    cases Number.uint64? m <;> simp [fail]
  | _ => simp [natural, fail]

theorem stringItem_eq_ok_iff (json : Json) (text : String) :
    stringItem name json = .ok text ↔ json = .str text := by
  cases json <;> simp [stringItem, fail]

theorem strings_eq_ok_iff {words : List String} :
    strings name json = .ok words ↔ ListsWords json words := by
  cases json with
  | str text =>
    rw [strings, Except.ok.injEq]
    exact ⟨fun h => h ▸ .commas text, fun h => by cases h; rfl⟩
  | arr items =>
    have hitems : items.mapM (stringItem name) = .ok words ↔
        ∃ sources : List String, items = sources.map .str ∧ words = sources.map id :=
      Success.mapM_eq_ok_iff fun json text => by simp [stringItem_eq_ok_iff]
    rw [strings, hitems]
    constructor
    · rintro ⟨sources, rfl, rfl⟩
      exact (List.map_id sources).symm ▸ .items sources
    · rintro ⟨⟩
      exact ⟨words, rfl, (List.map_id words).symm⟩
  | _ => exact ⟨nofun, nofun⟩

end Operand

namespace ClauseCall

/-- The calls that an operand of a clause stands for. What is not listed here is no operand of the
clause. -/
inductive StandsFor (kind : StatementKind) : Clause → Json → List ClauseCall → Prop where
  | select {json : Json} {words : List String} (h : ListsWords json words) :
      StandsFor kind .select json [.addProjections (words.map .ofText)]
  /-- Without any words the fields stay as they are. -/
  | traverse {json : Json} {words : List String} (h : ListsWords json words) :
      StandsFor kind .traverse json (if words.isEmpty then [] else [.setFields words])
  | into (target : String) : StandsFor kind .into (.str target) [.setInto target]
  | from (target : String) : StandsFor kind .from (.str target) [.setSource (.target target)]
  | let (entries : List (String × String)) :
      StandsFor kind .let (.obj (entries.map fun entry => (entry.1, .str entry.2)))
        (entries.map fun entry => .bindName entry.1 (.expression entry.2))
  /-- Any condition all of whose comparisons can be made. -/
  | where {json : Json} (h : (Condition.ofJson json).failure? = none) :
      StandsFor kind .where json [.pushCondition .and (.ofJson json)]
  | group {json : Json} {words : List String} (h : ListsWords json words) :
      StandsFor kind .group json [.groupBy words]
  /-- The direction of each property. What is no text is as good as any unknown direction. -/
  | orderEntries (entries : Fields Json) :
      StandsFor kind .order (.obj entries)
        (entries.map fun entry => .orderBy entry.1 (entry.2.str?.getD "ASC"))
  /-- A property, and its direction behind a blank. -/
  | orderItems {json : Json} {words : List String} (h : ListsWords json words) :
      StandsFor kind .order json (words.flatMap orderItem)
  | skip (n : UInt64) : StandsFor kind .skip (.int n.toNat) [.setSkip n]
  | limit (n : Int64) : StandsFor kind .limit (.int n.toInt) [.setLimit n]
  | fetchPlan (entries : List (String × Int64)) :
      StandsFor kind .fetchPlan (.obj (entries.map fun entry => (entry.1, .int entry.2.toInt)))
        (entries.map fun entry => .fetch entry.1 entry.2)
  | timeout (n : UInt64) : StandsFor kind .timeout (.int n.toNat) [.setTimeout n]
  | lock (mode : String) : StandsFor kind .lock (.str mode) [.setLock (.ofText mode)]
  | parallel (b : Bool) : StandsFor kind .parallel (.bool b) [.setParallel b]
  | changes {change : ChangeKind} (h : change ≠ .put) (entries : Fields Json) :
      StandsFor kind change.clause (.obj entries) [.addChanges change (Value.entriesOfJson entries)]
  | put (entries : List (String × Fields Json)) :
      StandsFor kind .put (.obj (entries.map fun entry => (entry.1, .obj entry.2)))
        (entries.map fun entry => .put entry.1 (Value.entriesOfJson entry.2))
  | content (document : Fields Json) :
      StandsFor kind .content (.obj document) [.content (.map (Value.entriesOfJson document))]
  | merge (document : Fields Json) :
      StandsFor kind .merge (.obj document) [.merge (.map (Value.entriesOfJson document))]
  | upsert (b : Bool) : StandsFor kind .upsert (.bool b) [.setUpsert b]
  | returnExpression (h : kind = .insert) (expression : String) :
      StandsFor kind .return (.str expression) [.returnExpression expression]
  /-- A mode of the kind, and what is to be returned behind a blank. -/
  | returnMode (h : kind ≠ .insert) {text mode : String} {expression? : Option String}
      (hcut : ReturnClause.cut text = (mode, expression?))
      (hmode : Text.upperAscii (Text.trim mode) ∈ Statement.returnModes kind) :
      StandsFor kind .return (.str text) [.returnMode mode expression?]
  | strategy (word : String) : StandsFor kind .strategy (.str word) [.setStrategy (.ofText word)]

/-! ### One reading for all kinds -/

/-- What is read from the operand of a clause. -/
def reading (kind : StatementKind) (name : String) (json : Json) :
    Clause → Except Error (List ClauseCall)
  | .select => single (Operand.strings name json) fun words => .addProjections (words.map .ofText)
  | .traverse => (Operand.strings name json).map fun words =>
      if words.isEmpty then [] else [.setFields words]
  | .into => single (Operand.string name json) .setInto
  | .from => ofSource name json
  | .let => forEntries name json (Operand.string name) fun key text =>
      .bindName key (.expression text)
  | .where => ofCondition json
  | .group => single (Operand.strings name json) .groupBy
  | .order => forOrder name json
  | .skip => single (Operand.natural name json) .setSkip
  | .limit => ofLimit name json
  | .fetchPlan => forEntries name json (Operand.integer name) .fetch
  | .timeout => ofTimeout name json
  | .lock => ofLock name json
  | .parallel => single (Operand.bool name json) .setParallel
  | .set => single (Operand.map name json) (.change .set)
  | .increment => single (Operand.map name json) (.change .increment)
  | .add => single (Operand.map name json) (.change .add)
  | .remove => single (Operand.map name json) (.change .remove)
  | .put => single (Operand.map name json) (.change .put)
  | .content => single (Operand.map name json) fun document => .content (.map document)
  | .merge => single (Operand.map name json) fun document => .merge (.map document)
  | .upsert => single (Operand.bool name json) .setUpsert
  | .return =>
    if kind = .insert then single (Operand.string name json) .returnExpression
    else ofReturn name json
  | .strategy => single (Operand.string name json) fun word => .setStrategy (.ofText word)
  | .insert | .update | .delete => .ok []

/-- Each kind reads the operands of its clauses in the one way. -/
theorem ofOption?_eq_reading {kind : StatementKind} {clause : Clause} {name : String}
    (hoffered : clause ∈ kind.offered) (hname : name ∈ kind.namesOf clause)
    (htaken : ¬ kind.Misses clause) (json : Json) (s : Statement) :
    (ofOption? kind name json).map (Except.map (applyAll s)) =
      some ((reading kind name json clause).map (applyAll s)) := by
  cases kind with
  | select | update | delete =>
    obtain rfl := List.mem_singleton.mp hname
    fin_cases hoffered <;> rfl
  | insert =>
    obtain rfl := List.mem_singleton.mp hname
    fin_cases hoffered
    · rfl
    · change some (Except.map _ (single (Operand.map "set" json) _)) =
        some (Except.map _ (single (Operand.map "set" json) _))
      cases Operand.map "set" json <;> rfl
    · rfl
    · rfl
  | traverse =>
    fin_cases hoffered
    · obtain rfl := List.mem_singleton.mp hname
      rfl
    · obtain rfl := List.mem_singleton.mp hname
      rfl
    · exact absurd ⟨rfl, rfl⟩ htaken
    · fin_cases hname <;> rfl
    · obtain rfl := List.mem_singleton.mp hname
      rfl
    · obtain rfl := List.mem_singleton.mp hname
      rfl

/-- All other names are those of no clause. -/
theorem ofOption?_eq_none {kind : StatementKind} {name : String} (h : name ∉ kind.optionNames)
    (json : Json) : ofOption? kind name json = none := by
  cases kind with
  | select =>
    unfold ofOption? ofSelectOption?
    dsimp only
    split
    case h_13 => rfl
    all_goals exact absurd (by decide) h
  | insert =>
    unfold ofOption? ofInsertOption?
    dsimp only
    split
    case h_5 => rfl
    all_goals exact absurd (by decide) h
  | update =>
    unfold ofOption? ofUpdateOption?
    dsimp only
    split
    · next change hfound =>
      have hchange := List.find?_some hfound
      obtain rfl : change.name = name := of_decide_eq_true hchange
      cases change <;> exact absurd (by decide) h
    · split
      case h_9 => rfl
      all_goals exact absurd (by decide) h
  | delete =>
    unfold ofOption? ofDeleteOption?
    dsimp only
    split
    case h_7 => rfl
    all_goals exact absurd (by decide) h
  | traverse =>
    unfold ofOption? ofTraverseOption?
    dsimp only
    split
    case h_7 => rfl
    all_goals exact absurd (by decide) h

/-! ### What is read are the operands of the table -/

section Reading

variable {α : Type} {name : String} {json : Json} {operand : Json → Except Error α}
  {ofOperand : α → Json}

/-- A map is read entry by entry. -/
theorem forEntries_eq_ok_iff {call : String → α → ClauseCall} {calls : List ClauseCall}
    (h : ∀ json a, operand json = .ok a ↔ json = ofOperand a) :
    forEntries name json operand call = .ok calls ↔ ∃ entries : List (String × α),
      json = .obj (entries.map fun entry => (entry.1, ofOperand entry.2)) ∧
        calls = entries.map fun entry => call entry.1 entry.2 := by
  have hstep : ∀ (entry : String × Json) (c : ClauseCall),
      (operand entry.2).map (call entry.1) = .ok c ↔ ∃ read : String × α,
        entry = (read.1, ofOperand read.2) ∧ c = call read.1 read.2 := by
    rintro ⟨key, json⟩ c
    simp [Success.map_eq_ok, h, @eq_comm _ c]
  cases json with
  | obj fields =>
    change (fields.mapM fun entry => (operand entry.2).map (call entry.1)) = .ok calls ↔ _
    rw [Success.mapM_eq_ok_iff hstep]
    simp only [Json.obj.injEq]
  | _ => simp [forEntries, Operand.object, Operand.fail]

theorem forOrder_eq_ok_iff {calls : List ClauseCall} : forOrder name json = .ok calls ↔
    (∃ entries, json = .obj entries ∧
      calls = entries.map fun entry => .orderBy entry.1 (entry.2.str?.getD "ASC")) ∨
    ∃ words, ListsWords json words ∧ calls = words.flatMap orderItem := by
  have hwords : ∀ json, (Operand.strings name json).map (·.flatMap orderItem) = .ok calls ↔
      ∃ words, ListsWords json words ∧ calls = words.flatMap orderItem := by
    intro json
    simp only [Success.map_eq_ok, Operand.strings_eq_ok_iff, @eq_comm _ calls]
  cases json with
  | obj entries =>
    rw [forOrder, Except.ok.injEq]
    refine ⟨fun h => Or.inl ⟨entries, rfl, h.symm⟩, ?_⟩
    rintro (⟨_, ⟨⟩, rfl⟩ | ⟨words, ⟨⟩, -⟩)
    rfl
  | _ => simp only [forOrder, hwords, reduceCtorEq, false_and, exists_false, false_or]

theorem putFailure?_ofJson_eq_none_iff {key : String} :
    putFailure? (key, .ofJson json) = none ↔ ∃ entries, json = .obj entries := by
  cases json with
  | obj entries => exact iff_of_true rfl ⟨entries, rfl⟩
  | int n =>
    refine iff_of_false ?_ nofun
    unfold putFailure? Value.ofJson
    cases Number.int64? n <;> exact nofun
  | _ => exact iff_of_false nofun nofun

/-- What is put on paths is a map on each of them. -/
theorem findSome?_putFailure?_eq_none_iff {entries : Fields Json} :
    (Value.entriesOfJson entries).findSome? putFailure? = none ↔
      ∃ maps : List (String × Fields Json),
        entries = maps.map fun entry => (entry.1, .obj entry.2) := by
  induction entries with
  | nil => exact iff_of_true rfl ⟨[], rfl⟩
  | cons entry rest ih =>
    obtain ⟨key, json⟩ := entry
    rw [Value.entriesOfJson, List.findSome?_eq_none_iff, List.forall_mem_cons,
      ← List.findSome?_eq_none_iff, ih, putFailure?_ofJson_eq_none_iff]
    constructor
    · rintro ⟨⟨fields, rfl⟩, maps, rfl⟩
      exact ⟨(key, fields) :: maps, rfl⟩
    · rintro ⟨maps, hmaps⟩
      obtain ⟨entry, later, rfl, hentry, rfl⟩ := List.map_eq_cons_iff.mp hmaps.symm
      exact ⟨⟨entry.2, (congrArg Prod.snd hentry).symm⟩, later, rfl⟩

theorem apply_change_put (s : Statement) (maps : List (String × Fields Json)) :
    s.change .put (Value.entriesOfJson (maps.map fun entry => (entry.1, .obj entry.2))) =
      applyAll s (maps.map fun entry => .put entry.1 (Value.entriesOfJson entry.2)) := by
  have hmaps : Value.entriesOfJson (maps.map fun entry => (entry.1, .obj entry.2)) =
      maps.map fun entry => (entry.1, .map (Value.entriesOfJson entry.2)) := by
    induction maps with
    | nil => rfl
    | cons entry rest ih => rw [List.map_cons, Value.entriesOfJson, ih, Value.ofJson, List.map_cons]
  rw [hmaps, Statement.change, if_pos rfl, applyAll, List.foldl_map, List.foldl_map]
  rfl

theorem failureOf_ofMode_eq_none_iff {allowed : List String} {mode : String}
    {expression? : Option String} :
    Grouping.failureOf (ReturnClause.ofMode allowed mode expression?) = none ↔
      Text.upperAscii (Text.trim mode) ∈ allowed := by
  unfold ReturnClause.ofMode
  dsimp only
  split
  · next hmem => exact iff_of_true rfl (List.contains_iff_mem.mp hmem)
  · next hmem => exact iff_of_false nofun fun h => hmem (List.contains_iff_mem.mpr h)

end Reading

variable {kind : StatementKind} {clause : Clause} {json : Json}

theorem findSome?_failure?_map {α : Type} {call : α → ClauseCall} (items : List α)
    (h : ∀ a, (call a).failure? kind = none) :
    (items.map call).findSome? (failure? kind) = none := by
  rw [List.findSome?_eq_none_iff, List.forall_mem_map]
  exact fun a _ => h a

theorem findSome?_failure?_orderItem (words : List String) :
    (words.flatMap orderItem).findSome? (failure? kind) = none := by
  refine List.findSome?_eq_none_iff.mpr fun call hmem => ?_
  obtain ⟨word, -, hcall⟩ := List.mem_flatMap.mp hmem
  unfold orderItem at hcall
  split at hcall
  · cases hcall
  · exact List.mem_singleton.mp hcall ▸ rfl
  · exact List.mem_singleton.mp hcall ▸ rfl

theorem single_of_ok {α : Type} {operand : Except Error α} {a : α} (h : operand = .ok a)
    (call : α → ClauseCall) : single operand call = .ok [call a] := by
  rw [h]
  rfl

theorem exists_of_single {α : Type} {operand : Except Error α} {ofOperand : α → Json}
    {call : α → ClauseCall} {read : List ClauseCall} (h : ∀ a, operand = .ok a ↔ json = ofOperand a)
    (hread : single operand call = .ok read) : ∃ a, json = ofOperand a := by
  obtain ⟨a, ha, -⟩ := Success.map_eq_ok.mp hread
  exact ⟨a, (h a).mp ha⟩

theorem exists_of_single_map {name : String} {call : Fields Value → ClauseCall}
    {read : List ClauseCall} (h : single (Operand.map name json) call = .ok read) :
    ∃ entries, json = .obj entries := by
  obtain ⟨changes, hchanges, -⟩ := Success.map_eq_ok.mp h
  obtain ⟨entries, rfl, -⟩ := (Operand.map_eq_ok_iff _ _).mp hchanges
  exact ⟨entries, rfl⟩

/-- An operand of the table is read as its calls, and they complain of nothing. -/
theorem StandsFor.reading {calls : List ClauseCall} (h : StandsFor kind clause json calls)
    (name : String) : ∃ read, reading kind name json clause = .ok read ∧
      (∀ s, applyAll s read = applyAll s calls) ∧ read.findSome? (failure? kind) = none := by
  cases h with
  | select hwords =>
    exact ⟨_, single_of_ok (Operand.strings_eq_ok_iff.mpr hwords) _, fun _ => rfl, rfl⟩
  | traverse hwords =>
    refine ⟨_, Success.map_eq_ok.mpr ⟨_, Operand.strings_eq_ok_iff.mpr hwords, rfl⟩,
      fun _ => rfl, ?_⟩
    split <;> rfl
  | into target => exact ⟨_, rfl, fun _ => rfl, rfl⟩
  | «from» target => exact ⟨_, rfl, fun _ => rfl, rfl⟩
  | «let» entries =>
    refine ⟨_, ?_, fun _ => rfl, findSome?_failure?_map entries fun _ => rfl⟩
    rw [reading, forEntries_eq_ok_iff Operand.string_eq_ok_iff]
    exact ⟨entries, rfl, rfl⟩
  | «where» hcondition =>
    exact ⟨_, rfl, fun _ => rfl,
      List.findSome?_eq_none_iff.mpr (List.forall_mem_singleton.mpr hcondition)⟩
  | group hwords =>
    exact ⟨_, single_of_ok (Operand.strings_eq_ok_iff.mpr hwords) _, fun _ => rfl, rfl⟩
  | orderEntries entries =>
    exact ⟨_, rfl, fun _ => rfl, findSome?_failure?_map entries fun _ => rfl⟩
  | orderItems hwords =>
    exact ⟨_, forOrder_eq_ok_iff.mpr (Or.inr ⟨_, hwords, rfl⟩), fun _ => rfl,
      findSome?_failure?_orderItem _⟩
  | skip n =>
    exact ⟨_, single_of_ok ((Operand.natural_eq_ok_iff _ n).mpr rfl) _, fun _ => rfl, rfl⟩
  | limit n =>
    exact ⟨_, single_of_ok ((Operand.integer_eq_ok_iff _ n).mpr rfl) _, fun _ => rfl, rfl⟩
  | fetchPlan entries =>
    refine ⟨_, ?_, fun _ => rfl, findSome?_failure?_map entries fun _ => rfl⟩
    rw [reading, forEntries_eq_ok_iff Operand.integer_eq_ok_iff]
    exact ⟨entries, rfl, rfl⟩
  | timeout n =>
    refine ⟨[.setTimeout n], ?_, fun _ => rfl, rfl⟩
    rw [reading, ofTimeout, (Operand.natural_eq_ok_iff _ n).mpr rfl]
    rfl
  | lock mode => exact ⟨_, rfl, fun _ => rfl, rfl⟩
  | parallel b => exact ⟨_, rfl, fun _ => rfl, rfl⟩
  | @changes change hchange entries =>
    cases change with
    | put => exact absurd rfl hchange
    | set | increment | add | remove =>
      exact ⟨_, single_of_ok ((Operand.map_eq_ok_iff _ _).mpr ⟨entries, rfl, rfl⟩) _,
        fun _ => rfl, rfl⟩
  | put entries =>
    refine ⟨_, single_of_ok ((Operand.map_eq_ok_iff _ _).mpr ⟨_, rfl, rfl⟩) _,
      fun s => apply_change_put s entries, ?_⟩
    exact List.findSome?_eq_none_iff.mpr
      (List.forall_mem_singleton.mpr (findSome?_putFailure?_eq_none_iff.mpr ⟨entries, rfl⟩))
  | content document => exact ⟨_, rfl, fun _ => rfl, rfl⟩
  | merge document => exact ⟨_, rfl, fun _ => rfl, rfl⟩
  | upsert b => exact ⟨_, rfl, fun _ => rfl, rfl⟩
  | returnExpression hkind expression => exact ⟨_, if_pos hkind, fun _ => rfl, rfl⟩
  | @returnMode hkind text mode expression? hcut hmode =>
    refine ⟨[.returnMode mode expression?], ?_, fun _ => rfl, ?_⟩
    · rw [reading, if_neg hkind]
      exact congrArg (fun cut => Except.ok [ClauseCall.returnMode cut.1 cut.2]) hcut
    · exact List.findSome?_eq_none_iff.mpr
        (List.forall_mem_singleton.mpr (failureOf_ofMode_eq_none_iff.mpr hmode))
  | strategy word => exact ⟨_, rfl, fun _ => rfl, rfl⟩

/-- What is read without a complaint is an operand of the table. -/
theorem exists_standsFor {name : String} {read : List ClauseCall}
    (hoffered : clause ∈ kind.offered) (hread : reading kind name json clause = .ok read)
    (hfine : read.findSome? (failure? kind) = none) :
    ∃ calls, StandsFor kind clause json calls := by
  cases clause with
  | select =>
    obtain ⟨words, hwords, -⟩ := Success.map_eq_ok.mp hread
    exact ⟨_, .select (Operand.strings_eq_ok_iff.mp hwords)⟩
  | traverse =>
    obtain ⟨words, hwords, -⟩ := Success.map_eq_ok.mp hread
    exact ⟨_, .traverse (Operand.strings_eq_ok_iff.mp hwords)⟩
  | into =>
    obtain ⟨target, rfl⟩ := exists_of_single (Operand.string_eq_ok_iff json) hread
    exact ⟨_, .into target⟩
  | «from» =>
    obtain ⟨target, rfl⟩ := exists_of_single (Operand.string_eq_ok_iff json) hread
    exact ⟨_, .from target⟩
  | «let» =>
    rw [reading, forEntries_eq_ok_iff Operand.string_eq_ok_iff] at hread
    obtain ⟨entries, rfl, -⟩ := hread
    exact ⟨_, .let entries⟩
  | «where» =>
    cases hread
    exact ⟨_, .where (List.findSome?_eq_none_iff.mp hfine _ List.mem_cons_self)⟩
  | group =>
    obtain ⟨words, hwords, -⟩ := Success.map_eq_ok.mp hread
    exact ⟨_, .group (Operand.strings_eq_ok_iff.mp hwords)⟩
  | order =>
    obtain ⟨entries, rfl, -⟩ | ⟨words, hwords, -⟩ := forOrder_eq_ok_iff.mp hread
    · exact ⟨_, .orderEntries entries⟩
    · exact ⟨_, .orderItems hwords⟩
  | skip =>
    obtain ⟨n, rfl⟩ := exists_of_single (Operand.natural_eq_ok_iff json) hread
    exact ⟨_, .skip n⟩
  | limit =>
    obtain ⟨n, rfl⟩ := exists_of_single (Operand.integer_eq_ok_iff json) hread
    exact ⟨_, .limit n⟩
  | fetchPlan =>
    rw [reading, forEntries_eq_ok_iff Operand.integer_eq_ok_iff] at hread
    obtain ⟨entries, rfl, -⟩ := hread
    exact ⟨_, .fetchPlan entries⟩
  | timeout =>
    obtain ⟨n, rfl⟩ := exists_of_single (Operand.natural_eq_ok_iff json) hread
    exact ⟨_, .timeout n⟩
  | lock =>
    obtain ⟨mode, rfl⟩ := exists_of_single (Operand.string_eq_ok_iff json) hread
    exact ⟨_, .lock mode⟩
  | parallel =>
    obtain ⟨b, rfl⟩ := exists_of_single (Operand.bool_eq_ok_iff json) hread
    exact ⟨_, .parallel b⟩
  | set =>
    obtain ⟨entries, rfl⟩ := exists_of_single_map hread
    exact ⟨_, .changes (show ChangeKind.set ≠ .put by decide) entries⟩
  | increment =>
    obtain ⟨entries, rfl⟩ := exists_of_single_map hread
    exact ⟨_, .changes (show ChangeKind.increment ≠ .put by decide) entries⟩
  | add =>
    obtain ⟨entries, rfl⟩ := exists_of_single_map hread
    exact ⟨_, .changes (show ChangeKind.add ≠ .put by decide) entries⟩
  | remove =>
    obtain ⟨entries, rfl⟩ := exists_of_single_map hread
    exact ⟨_, .changes (show ChangeKind.remove ≠ .put by decide) entries⟩
  | put =>
    obtain ⟨changes, hchanges, rfl⟩ := Success.map_eq_ok.mp hread
    obtain ⟨entries, rfl, rfl⟩ := (Operand.map_eq_ok_iff _ _).mp hchanges
    obtain ⟨maps, rfl⟩ := findSome?_putFailure?_eq_none_iff.mp
      (List.findSome?_eq_none_iff.mp hfine _ List.mem_cons_self)
    exact ⟨_, .put maps⟩
  | content =>
    obtain ⟨document, rfl⟩ := exists_of_single_map hread
    exact ⟨_, .content document⟩
  | merge =>
    obtain ⟨document, rfl⟩ := exists_of_single_map hread
    exact ⟨_, .merge document⟩
  | upsert =>
    obtain ⟨b, rfl⟩ := exists_of_single (Operand.bool_eq_ok_iff json) hread
    exact ⟨_, .upsert b⟩
  | «return» =>
    rw [reading] at hread
    split at hread
    · next hkind =>
      obtain ⟨expression, rfl⟩ := exists_of_single (Operand.string_eq_ok_iff json) hread
      exact ⟨_, .returnExpression hkind expression⟩
    · next hkind =>
      obtain ⟨text, htext, rfl⟩ := Success.map_eq_ok.mp hread
      obtain rfl := (Operand.string_eq_ok_iff _ _).mp htext
      have hmode := List.findSome?_eq_none_iff.mp hfine _ List.mem_cons_self
      exact ⟨_, .returnMode hkind rfl (failureOf_ofMode_eq_none_iff.mp hmode)⟩
  | strategy =>
    obtain ⟨word, rfl⟩ := exists_of_single (Operand.string_eq_ok_iff json) hread
    exact ⟨_, .strategy word⟩
  | insert | update | delete => exact absurd (List.mem_filter.mp hoffered).2 (by decide)

end ClauseCall

namespace Statement

open ClauseCall

variable {s : Statement} {name : String} {json : Json}

theorem setOption_of_taken {clause : Clause} (hoffered : clause ∈ s.kind.offered)
    (hname : name ∈ s.kind.namesOf clause) (htaken : ¬ s.kind.Misses clause) :
    s.setOption name json =
      s.attempt fun s => (reading s.kind name json clause).map (applyAll s) := by
  have hclause : s.clauseOption? name json =
      some ((reading s.kind name json clause).map (applyAll s)) :=
    (clauseOption?_eq s name json).trans (ofOption?_eq_reading hoffered hname htaken json s)
  refine attempt_congr ?_
  rw [hclause]

theorem setOption_of_other (herror : s.error? = none) (hother : name ∉ s.kind.optionNames) :
    s.setOption name json =
      if name ∈ clauseNames then
        { s with frame := { s.frame with error? := some (.unsupportedClause s.kind name) } }
      else s.setExtra name json := by
  have hclause : s.clauseOption? name json = none := by
    rw [clauseOption?_eq, ofOption?_eq_none hother]
    rfl
  split
  · next hmem =>
    have hstep : s.setOption name json = s.recordError (.unsupportedClause s.kind name) := by
      refine attempt_of_failure herror ?_
      rw [hclause]
      exact if_pos (List.contains_iff_mem.mpr hmem)
    rw [hstep, recordError, herror]
  · next hmem =>
    refine attempt_of_ok herror ?_
    rw [hclause]
    exact if_neg fun h => hmem (List.contains_iff_mem.mp h)

/-- What an option does is what the calls of its operand do, in whatever state the statement is. -/
theorem setOption_eq_applyAll {clause : Clause} {calls : List ClauseCall}
    (herror : s.error? = none) (hoffered : clause ∈ s.kind.offered)
    (hname : name ∈ s.kind.namesOf clause) (htaken : ¬ s.kind.Misses clause)
    (hcalls : StandsFor s.kind clause json calls) :
    s.setOption name json = applyAll s calls ∧ (s.setOption name json).error? = none := by
  obtain ⟨read, hread, hsame, hfine⟩ := hcalls.reading name
  have hset : s.setOption name json = applyAll s read := by
    rw [setOption_of_taken hoffered hname htaken]
    refine attempt_of_ok herror ?_
    rw [hread]
    rfl
  rw [hset, BuilderCall.error?_applyAll, herror, hfine]
  exact ⟨hsame s, rfl⟩

theorem exists_standsFor_of_setOption {clause : Clause} (hoffered : clause ∈ s.kind.offered)
    (hname : name ∈ s.kind.namesOf clause) (htaken : ¬ s.kind.Misses clause)
    (herror : s.error? = none) (hfine : (s.setOption name json).error? = none) :
    ∃ calls, StandsFor s.kind clause json calls := by
  rw [setOption_of_taken hoffered hname htaken] at hfine
  cases hread : reading s.kind name json clause with
  | error e =>
    rw [attempt_of_failure herror (by rw [hread]; rfl), error?_recordError_of_none herror] at hfine
    cases hfine
  | ok read =>
    rw [attempt_of_ok herror (by rw [hread]; rfl), BuilderCall.error?_applyAll, herror] at hfine
    exact exists_standsFor hoffered hread hfine

theorem refused_of_misses {kind : StatementKind} {clause : Clause}
    (hmisses : kind.Misses clause) (hname : name ∈ kind.namesOf clause) :
    name ∈ clauseNames ∧ name ∉ kind.optionNames := by
  obtain ⟨rfl, rfl⟩ := hmisses
  obtain rfl := List.mem_singleton.mp hname
  decide

/-- **Options agree with calls.** As long as nothing has gone wrong, an option under the name of a
clause makes the calls that its operand stands for and nothing goes wrong with it, exactly if it is
not the bindings of a TRAVERSE. There are no operands that it takes beside those of the table. Under
any other name it notes that the clause is not supported, if some kind has one of the name, and is
kept with the options otherwise; all else of the statement stays as it is. -/
theorem option_agrees_iff (herror : s.error? = none) (name : String) (json : Json) :
    (∀ clause ∈ s.kind.offered, name ∈ s.kind.namesOf clause →
      (∀ calls, StandsFor s.kind clause json calls →
        (s.setOption name json = applyAll s calls ∧ (s.setOption name json).error? = none ↔
          ¬ s.kind.Misses clause)) ∧
      (¬ s.kind.Misses clause → (s.setOption name json).error? = none →
        ∃ calls, StandsFor s.kind clause json calls)) ∧
    (name ∉ s.kind.optionNames → s.setOption name json =
      if name ∈ clauseNames then
        { s with frame := { s.frame with error? := some (.unsupportedClause s.kind name) } }
      else s.setExtra name json) := by
  refine ⟨fun clause hoffered hname => ⟨fun calls hcalls => ⟨fun hagrees hmisses => ?_, ?_⟩, ?_⟩,
    setOption_of_other herror⟩
  · obtain ⟨hclause, hother⟩ := refused_of_misses hmisses hname
    have hfine := hagrees.2
    rw [setOption_of_other herror hother, if_pos hclause] at hfine
    cases hfine
  · exact fun htaken => setOption_eq_applyAll herror hoffered hname htaken hcalls
  · exact fun htaken hfine => exists_standsFor_of_setOption hoffered hname htaken herror hfine

/-- A property with its direction behind it. -/
theorem order_option_agrees : (fresh .select).error? = none ∧
    (fresh .select).setOption "order" (.arr [.str "name desc"]) =
      applyAll (fresh .select) [.orderBy "name" "desc"] := by
  have hcalls : StandsFor .select .order (.arr [.str "name desc"]) [.orderBy "name" "desc"] :=
    .orderItems (.items ["name desc"])
  have hagrees := ((option_agrees_iff (s := fresh .select) rfl "order" _).1 .order (by decide)
    (by decide)).1 _ hcalls
  exact ⟨rfl, (hagrees.mpr (by decide)).1⟩

/-- Any TRAVERSE takes bindings, but not as an option. -/
theorem let_option_refused :
    let s := ((fresh .traverse).setFields ["out()"]).setSource (.target "#9:0")
    s.error? = none ∧ .let ∈ s.kind.offered ∧ "let" ∈ s.kind.namesOf .let ∧
      StandsFor s.kind .let (.obj [("a", .str "name")]) [.bindName "a" (.expression "name")] ∧
      (applyAll s [.bindName "a" (.expression "name")]).error? = none ∧
      (s.setOption "let" (.obj [("a", .str "name")])).error? =
        some (.unsupportedClause .traverse "let") :=
  ⟨rfl, by decide, by decide, .let [("a", "name")], rfl, rfl⟩

end Statement

end DocMapper
