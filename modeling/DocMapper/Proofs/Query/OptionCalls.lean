import DocMapper.Proofs.Query.Calls
import DocMapper.Proofs.Query.ClauseCalls
/-!
# Options are calls

To set a clause by its name is to make the calls that the operand stands for: one call for most
clauses, one for each entry of a map or item of a list for the others. They are calls of the same
kind of statement, and they bring no other statement.
-/

namespace DocMapper

namespace ClauseCall

def applyAll (s : Statement) (calls : List ClauseCall) : Statement :=
  calls.foldl apply s

/-- An operand that is read for a single call. -/
def single {α : Type} (operand : Except Error α) (call : α → ClauseCall) :
    Except Error (List ClauseCall) :=
  operand.map fun a => [call a]

/-- A map that is read for one call for each entry. -/
def forEntries {α : Type} (name : String) (json : Json) (operand : Json → Except Error α)
    (call : String → α → ClauseCall) : Except Error (List ClauseCall) := do
  let entries ← Operand.object name json
  entries.mapM fun entry => (operand entry.2).map (call entry.1)

def orderItem (item : String) : List ClauseCall :=
  match Text.words item with
  | [] => []
  | [property] => [.orderBy property "ASC"]
  | property :: direction :: _ => [.orderBy property direction]

def forOrder (name : String) : Json → Except Error (List ClauseCall)
  | .obj entries => .ok (entries.map fun entry => .orderBy entry.1 (entry.2.str?.getD "ASC"))
  | other => (Operand.strings name other).map (·.flatMap orderItem)

def ofSource (name : String) (json : Json) : Except Error (List ClauseCall) :=
  single (Operand.string name json) fun target => .setSource (.target target)

def ofCondition (json : Json) : Except Error (List ClauseCall) :=
  .ok [.pushCondition .and (.ofJson json)]

def ofLock (name : String) (json : Json) : Except Error (List ClauseCall) :=
  single (Operand.string name json) fun mode => .setLock (.ofText mode)

def ofLimit (name : String) (json : Json) : Except Error (List ClauseCall) :=
  single (Operand.integer name json) .setLimit

def ofTimeout (name : String) (json : Json) : Except Error (List ClauseCall) :=
  single (Operand.natural name json) .setTimeout

def ofReturn (name : String) (json : Json) : Except Error (List ClauseCall) :=
  single (Operand.string name json) fun text =>
    .returnMode (ReturnClause.cut text).1 (ReturnClause.cut text).2

def ofSelectOption? (name : String) (json : Json) : Option (Except Error (List ClauseCall)) :=
  match name with
  | "select" => some (single (Operand.strings name json) fun fields =>
      .addProjections (fields.map .ofText))
  | "from" => some (ofSource name json)
  | "let" => some (forEntries name json (Operand.string name) fun key text =>
      .bindName key (.expression text))
  | "where" => some (ofCondition json)
  | "group" => some (single (Operand.strings name json) .groupBy)
  | "order" => some (forOrder name json)
  | "skip" => some (single (Operand.natural name json) .setSkip)
  | "limit" => some (ofLimit name json)
  | "fetchPlan" => some (forEntries name json (Operand.integer name) .fetch)
  | "timeout" => some (ofTimeout name json)
  | "lock" => some (ofLock name json)
  | "parallel" => some (single (Operand.bool name json) .setParallel)
  | _ => none

def ofInsertOption? (name : String) (json : Json) : Option (Except Error (List ClauseCall)) :=
  match name with
  | "into" => some (single (Operand.string name json) .setInto)
  | "set" => some (single (Operand.map name json) (.addChanges .set))
  | "from" => some (ofSource name json)
  | "return" => some (single (Operand.string name json) .returnExpression)
  | _ => none

def ofUpdateOption? (name : String) (json : Json) : Option (Except Error (List ClauseCall)) :=
  match ChangeKind.all.find? fun kind => kind.name = name with
  | some kind => some (single (Operand.map name json) (.change kind))
  | none =>
    match name with
    | "content" => some (single (Operand.map name json) fun document => .content (.map document))
    | "merge" => some (single (Operand.map name json) fun document => .merge (.map document))
    | "upsert" => some (single (Operand.bool name json) .setUpsert)
    | "return" => some (ofReturn name json)
    | "where" => some (ofCondition json)
    | "lock" => some (ofLock name json)
    | "limit" => some (ofLimit name json)
    | "timeout" => some (ofTimeout name json)
    | _ => none

def ofDeleteOption? (name : String) (json : Json) : Option (Except Error (List ClauseCall)) :=
  match name with
  | "from" => some (ofSource name json)
  | "return" => some (ofReturn name json)
  | "where" => some (ofCondition json)
  | "lock" => some (ofLock name json)
  | "limit" => some (ofLimit name json)
  | "timeout" => some (ofTimeout name json)
  | _ => none

def ofTraverseOption? (name : String) (json : Json) : Option (Except Error (List ClauseCall)) :=
  match name with
  | "traverse" => some ((Operand.strings name json).map fun fields =>
      if fields.isEmpty then [] else [.setFields fields])
  | "from" => some (ofSource name json)
  | "while" | "where" => some (ofCondition json)
  | "limit" => some (ofLimit name json)
  | "strategy" => some (single (Operand.string name json) fun word => .setStrategy (.ofText word))
  | _ => none

/-- The calls that an option of a kind of statement stands for, if it names a clause of it. -/
def ofOption? (kind : StatementKind) (name : String) (json : Json) :
    Option (Except Error (List ClauseCall)) :=
  match kind with
  | .select => ofSelectOption? name json
  | .insert => ofInsertOption? name json
  | .update => ofUpdateOption? name json
  | .delete => ofDeleteOption? name json
  | .traverse => ofTraverseOption? name json

/-! ### What an option does is what its calls do -/

section Does

variable {α : Type} {s : Statement} {calls? : Option (Except Error (List ClauseCall))}
  {result? : Option (Except Error Statement)}

theorem eq_map_applyAll {calls : Except Error (List ClauseCall)} (hcalls : calls? = some calls)
    (hresult : result? = some (calls.map (applyAll s))) :
    result? = calls?.map (Except.map (applyAll s)) := by
  rw [hcalls, hresult, Option.map_some]

theorem eq_map_single {operand : Except Error α} {call : α → ClauseCall}
    (hcalls : calls? = some (single operand call))
    (hresult : result? = some (operand >>= fun a => pure ((call a).apply s))) :
    result? = calls?.map (Except.map (applyAll s)) := by
  refine eq_map_applyAll hcalls (hresult.trans (congrArg some ?_))
  cases operand <;> rfl

theorem foldlM_eq_map {β : Type} {operand : β → Except Error α} {call : β → α → ClauseCall}
    (items : List β) (s : Statement) :
    (items.foldlM (fun s item => operand item >>= fun a => pure ((call item a).apply s)) s) =
      (items.mapM fun item => (operand item).map (call item)).map (applyAll s) := by
  induction items generalizing s with
  | nil => rfl
  | cons item rest ih =>
    rw [List.foldlM_cons, List.mapM_cons]
    cases operand item with
    | error e => rfl
    | ok a =>
      refine (ih _).trans ?_
      generalize (rest.mapM fun item => (operand item).map (call item)) = later
      cases later <;> rfl

theorem eq_map_forEntries {name : String} {json : Json} {operand : Json → Except Error α}
    {call : String → α → ClauseCall} (hcalls : calls? = some (forEntries name json operand call))
    (hresult : result? = some (Operand.object name json >>= fun entries => entries.foldlM
      (fun s entry => operand entry.2 >>= fun a => pure ((call entry.1 a).apply s)) s)) :
    result? = calls?.map (Except.map (applyAll s)) := by
  refine eq_map_applyAll hcalls (hresult.trans (congrArg some ?_))
  unfold forEntries
  cases Operand.object name json with
  | error e => rfl
  | ok entries => exact foldlM_eq_map entries s

theorem foldl_orderByItem (items : List String) (s : Statement) :
    items.foldl Statement.orderByItem s = applyAll s (items.flatMap orderItem) := by
  induction items generalizing s with
  | nil => rfl
  | cons item rest ih =>
    have hitem : s.orderByItem item = applyAll s (orderItem item) := by
      unfold Statement.orderByItem orderItem
      cases Text.words item with
      | nil => rfl
      | cons property others => cases others <;> rfl
    rw [List.foldl_cons, ih, hitem, List.flatMap_cons, applyAll, applyAll, applyAll,
      List.foldl_append]

theorem orderOption_eq (s : Statement) (name : String) (json : Json) :
    s.orderOption name json = (forOrder name json).map (applyAll s) := by
  have hother : ∀ json, (Operand.strings name json >>= fun items =>
      pure (items.foldl Statement.orderByItem s)) =
        ((Operand.strings name json).map (·.flatMap orderItem)).map (applyAll s) := by
    intro json
    cases Operand.strings name json with
    | error e => rfl
    | ok items => exact congrArg Except.ok (foldl_orderByItem items s)
  cases json with
  | obj entries =>
    rw [forOrder, Except.map, applyAll, List.foldl_map]
    rfl
  | _ => exact hother _

theorem selectOption?_eq (s : Statement) (name : String) (json : Json) :
    s.selectOption? name json = (ofSelectOption? name json).map (Except.map (applyAll s)) := by
  unfold Statement.selectOption? ofSelectOption?
  split
  · exact eq_map_single rfl rfl
  · exact eq_map_single rfl rfl
  · exact eq_map_forEntries rfl rfl
  · rfl
  · exact eq_map_single rfl rfl
  · exact eq_map_applyAll rfl (congrArg some (orderOption_eq s _ json))
  · exact eq_map_single rfl rfl
  · exact eq_map_single rfl rfl
  · exact eq_map_forEntries rfl rfl
  · exact eq_map_single rfl rfl
  · exact eq_map_single rfl rfl
  · exact eq_map_single rfl rfl
  · simp

theorem insertOption?_eq (s : Statement) (name : String) (json : Json) :
    s.insertOption? name json = (ofInsertOption? name json).map (Except.map (applyAll s)) := by
  unfold Statement.insertOption? ofInsertOption?
  split
  · exact eq_map_single rfl rfl
  · exact eq_map_single rfl rfl
  · exact eq_map_single rfl rfl
  · exact eq_map_single rfl rfl
  · simp

theorem updateOption?_eq (s : Statement) (name : String) (json : Json) :
    s.updateOption? name json = (ofUpdateOption? name json).map (Except.map (applyAll s)) := by
  unfold Statement.updateOption? ofUpdateOption?
  cases ChangeKind.all.find? fun kind => kind.name = name with
  | some kind => exact eq_map_single rfl rfl
  | none =>
    dsimp only
    split
    · exact eq_map_single rfl rfl
    · exact eq_map_single rfl rfl
    · exact eq_map_single rfl rfl
    · exact eq_map_single rfl rfl
    · rfl
    · exact eq_map_single rfl rfl
    · exact eq_map_single rfl rfl
    · exact eq_map_single rfl rfl
    · simp

theorem deleteOption?_eq (s : Statement) (name : String) (json : Json) :
    s.deleteOption? name json = (ofDeleteOption? name json).map (Except.map (applyAll s)) := by
  unfold Statement.deleteOption? ofDeleteOption?
  split
  · exact eq_map_single rfl rfl
  · exact eq_map_single rfl rfl
  · rfl
  · exact eq_map_single rfl rfl
  · exact eq_map_single rfl rfl
  · exact eq_map_single rfl rfl
  · simp

theorem traverseOption?_eq (s : Statement) (name : String) (json : Json) :
    s.traverseOption? name json = (ofTraverseOption? name json).map (Except.map (applyAll s)) := by
  unfold Statement.traverseOption? ofTraverseOption?
  split
  · refine eq_map_applyAll rfl (congrArg some ?_)
    cases Operand.strings "traverse" json with
    | error e => rfl
    | ok fields => cases fields <;> rfl
  · exact eq_map_single rfl rfl
  · rfl
  · rfl
  · exact eq_map_single rfl rfl
  · exact eq_map_single rfl rfl
  · simp

theorem clauseOption?_eq (s : Statement) (name : String) (json : Json) :
    s.clauseOption? name json = (ofOption? s.kind name json).map (Except.map (applyAll s)) := by
  unfold Statement.clauseOption? ofOption?
  cases s.kind with
  | select => exact selectOption?_eq s name json
  | insert => exact insertOption?_eq s name json
  | update => exact updateOption?_eq s name json
  | delete => exact deleteOption?_eq s name json
  | traverse => exact traverseOption?_eq s name json

end Does

/-! ### The calls of an option -/

/-- A call of a kind of statement, from data that holds no other statement. -/
structure Plain (kind : StatementKind) (call : ClauseCall) : Prop where
  clause : ∀ clause, call.clause? = some clause → clause ∈ kind.clauses
  alone : ∀ sub, ¬ call.Brings sub

/-- What is read from an operand are plain calls. -/
def AllPlain (kind : StatementKind) (result : Except Error (List ClauseCall)) : Prop :=
  ∀ calls, result = .ok calls → ∀ call ∈ calls, call.Plain kind

section Plain

variable {α : Type} {kind : StatementKind}

theorem plain_of_mem {call : ClauseCall} {clause : Clause} (hclause : call.clause? = some clause)
    (hmem : clause ∈ kind.clauses) (halone : ∀ sub, ¬ call.Brings sub) : call.Plain kind where
  clause other hother := by
    rw [hclause] at hother
    cases hother
    exact hmem
  alone := halone

theorem allPlain_map {operand : Except Error α} {calls : α → List ClauseCall}
    (h : ∀ a, ∀ call ∈ calls a, call.Plain kind) : AllPlain kind (operand.map calls) := by
  intro results hresults
  obtain ⟨a, -, rfl⟩ := Success.map_eq_ok.mp hresults
  exact h a

theorem allPlain_single {operand : Except Error α} {call : α → ClauseCall} {clause : Clause}
    (hclause : ∀ a, (call a).clause? = some clause) (hmem : clause ∈ kind.clauses)
    (halone : ∀ a sub, ¬ (call a).Brings sub) : AllPlain kind (single operand call) :=
  allPlain_map fun a => List.forall_mem_singleton.mpr (plain_of_mem (hclause a) hmem (halone a))

theorem allPlain_forEntries {name : String} {json : Json} {operand : Json → Except Error α}
    {call : String → α → ClauseCall} (h : ∀ key a, (call key a).Plain kind) :
    AllPlain kind (forEntries name json operand call) := by
  intro calls hcalls c hmem
  obtain ⟨entries, -, hmap⟩ := Success.bind_eq_ok.mp hcalls
  obtain ⟨entry, -, hentry⟩ := Success.exists_of_mapM_eq_ok hmap c hmem
  obtain ⟨a, -, rfl⟩ := Success.map_eq_ok.mp hentry
  exact h entry.1 a

theorem allPlain_ofCondition (hwhere : .where ∈ kind.clauses) (json : Json) :
    AllPlain kind (ofCondition json) := by
  rintro calls ⟨⟩
  exact List.forall_mem_singleton.mpr
    (plain_of_mem rfl hwhere fun _ => Condition.not_asks_ofValue _)

theorem plain_orderBy (horder : .order ∈ kind.clauses) (property direction : String) :
    (orderBy property direction).Plain kind :=
  plain_of_mem rfl horder fun _ => id

theorem allPlain_forOrder (horder : .order ∈ kind.clauses) (name : String) (json : Json) :
    AllPlain kind (forOrder name json) := by
  unfold forOrder
  split
  · rintro calls ⟨⟩ call hmem
    obtain ⟨entry, -, rfl⟩ := List.mem_map.mp hmem
    exact plain_orderBy horder _ _
  · refine allPlain_map fun items call hmem => ?_
    obtain ⟨item, -, hcall⟩ := List.mem_flatMap.mp hmem
    unfold orderItem at hcall
    split at hcall
    · cases hcall
    · exact List.mem_singleton.mp hcall ▸ plain_orderBy horder _ _
    · exact List.mem_singleton.mp hcall ▸ plain_orderBy horder _ _

theorem allPlain_ofSource (hfrom : .from ∈ kind.clauses) (name : String) (json : Json) :
    AllPlain kind (ofSource name json) :=
  allPlain_single (fun _ => rfl) hfrom fun _ _ => nofun

theorem allPlain_ofSelectOption? (name : String) (json : Json) :
    ∀ result ∈ ofSelectOption? name json, AllPlain .select result := by
  unfold ofSelectOption?
  split
  all_goals rintro result ⟨⟩
  · exact allPlain_single (fun _ => rfl) (by decide) fun _ _ => id
  · exact allPlain_ofSource (by decide) _ json
  · exact allPlain_forEntries fun _ _ => plain_of_mem rfl (by decide) fun _ => nofun
  · exact allPlain_ofCondition (by decide) json
  · exact allPlain_single (fun _ => rfl) (by decide) fun _ _ => id
  · exact allPlain_forOrder (by decide) _ json
  · exact allPlain_single (fun _ => rfl) (by decide) fun _ _ => id
  · exact allPlain_single (fun _ => rfl) (by decide) fun _ _ => id
  · exact allPlain_forEntries fun _ _ => plain_of_mem rfl (by decide) fun _ => id
  · exact allPlain_single (fun _ => rfl) (by decide) fun _ _ => id
  · exact allPlain_single (fun _ => rfl) (by decide) fun _ _ => id
  · exact allPlain_single (fun _ => rfl) (by decide) fun _ _ => id

theorem allPlain_ofInsertOption? (name : String) (json : Json) :
    ∀ result ∈ ofInsertOption? name json, AllPlain .insert result := by
  unfold ofInsertOption?
  split
  all_goals rintro result ⟨⟩
  · exact allPlain_single (fun _ => rfl) (by decide) fun _ _ => id
  · exact allPlain_single (fun _ => rfl) (by decide) fun _ _ => id
  · exact allPlain_ofSource (by decide) _ json
  · exact allPlain_single (fun _ => rfl) (by decide) fun _ _ => id

theorem allPlain_ofUpdateOption? (name : String) (json : Json) :
    ∀ result ∈ ofUpdateOption? name json, AllPlain .update result := by
  unfold ofUpdateOption?
  split
  · rintro result ⟨⟩
    next kind _ =>
    have hmem : kind.clause ∈ StatementKind.update.clauses := by
      cases kind <;> decide
    exact allPlain_single (fun _ => rfl) hmem fun _ _ => id
  · split
    all_goals rintro result ⟨⟩
    · exact allPlain_single (fun _ => rfl) (by decide) fun _ _ => id
    · exact allPlain_single (fun _ => rfl) (by decide) fun _ _ => id
    · exact allPlain_single (fun _ => rfl) (by decide) fun _ _ => id
    · exact allPlain_single (fun _ => rfl) (by decide) fun _ _ => id
    · exact allPlain_ofCondition (by decide) json
    · exact allPlain_single (fun _ => rfl) (by decide) fun _ _ => id
    · exact allPlain_single (fun _ => rfl) (by decide) fun _ _ => id
    · exact allPlain_single (fun _ => rfl) (by decide) fun _ _ => id

theorem allPlain_ofDeleteOption? (name : String) (json : Json) :
    ∀ result ∈ ofDeleteOption? name json, AllPlain .delete result := by
  unfold ofDeleteOption?
  split
  all_goals rintro result ⟨⟩
  · exact allPlain_ofSource (by decide) _ json
  · exact allPlain_single (fun _ => rfl) (by decide) fun _ _ => id
  · exact allPlain_ofCondition (by decide) json
  · exact allPlain_single (fun _ => rfl) (by decide) fun _ _ => id
  · exact allPlain_single (fun _ => rfl) (by decide) fun _ _ => id
  · exact allPlain_single (fun _ => rfl) (by decide) fun _ _ => id

theorem allPlain_ofTraverseOption? (name : String) (json : Json) :
    ∀ result ∈ ofTraverseOption? name json, AllPlain .traverse result := by
  unfold ofTraverseOption?
  split
  all_goals rintro result ⟨⟩
  · refine allPlain_map fun fields => ?_
    split
    · exact nofun
    · exact List.forall_mem_singleton.mpr (plain_of_mem rfl (by decide) fun _ => id)
  · exact allPlain_ofSource (by decide) _ json
  · exact allPlain_ofCondition (by decide) json
  · exact allPlain_ofCondition (by decide) json
  · exact allPlain_single (fun _ => rfl) (by decide) fun _ _ => id
  · exact allPlain_single (fun _ => rfl) (by decide) fun _ _ => id

theorem allPlain_ofOption? (kind : StatementKind) (name : String) (json : Json) :
    ∀ result ∈ ofOption? kind name json, AllPlain kind result := by
  cases kind with
  | select => exact allPlain_ofSelectOption? name json
  | insert => exact allPlain_ofInsertOption? name json
  | update => exact allPlain_ofUpdateOption? name json
  | delete => exact allPlain_ofDeleteOption? name json
  | traverse => exact allPlain_ofTraverseOption? name json

end Plain

end ClauseCall

end DocMapper
