import DocMapper.Proofs.Fields
import DocMapper.Proofs.Query.Made
/-!
# The parameters that calls supply

A call may supply parameters, and a group of calls supplies those of its calls. A group is copied
into the statement when it is closed, and keeps its parameters besides; one that leaves no condition
is forgotten with all its parameters.
-/

namespace DocMapper

open Success

/-- The value last given for a name by one of several maps. -/
def lastOf? (maps : List (Fields Value)) (name : String) : Option Value :=
  maps.foldl (fun found params => (Fields.get? (Fields.ofList params) name).or found) none

@[simp]
theorem lastOf?_nil (name : String) : lastOf? [] name = none := rfl

theorem lastOf?_append (maps more : List (Fields Value)) (name : String) :
    lastOf? (maps ++ more) name = (lastOf? more name).or (lastOf? maps name) := by
  induction more using List.reverseRecOn with
  | nil => simp
  | append_singleton more params ih =>
    rw [← List.append_assoc]
    simp only [lastOf?, List.foldl_append, List.foldl_cons, List.foldl_nil] at ih ⊢
    rw [ih, Option.or_assoc]

theorem lastOf?_cons (params : Fields Value) (maps : List (Fields Value)) (name : String) :
    lastOf? (params :: maps) name =
      (lastOf? maps name).or (Fields.get? (Fields.ofList params) name) := by
  rw [← List.singleton_append, lastOf?_append]
  simp [lastOf?]

/-- Several maps merged one after the other give what the last of them gives. -/
theorem get?_merge_lastOf? (fields params : Fields Value) (name : String) :
    Fields.get? (Fields.merge fields params) name =
      (lastOf? [params] name).or (Fields.get? fields name) := by
  rw [Fields.get?_merge, lastOf?_cons, lastOf?_nil, Option.none_or]

/-! ### Calls -/

/-- A call that supplies parameters, adds a condition, or does both. -/
inductive Call where
  | params (pairs : List (String × Value))
  | compare (logic : Logic) (path token : String) (v : Value)
  | raw (logic : Logic) (sql : String) (params : Fields Value)
  | group (logic : Logic) (calls : List Call)

namespace Statement

mutual

def take (s : Statement) : Call → Statement
  | .params pairs => s.setParams pairs
  | .compare logic path token v => s.pushCondition logic (.ofComparison path token v)
  | .raw logic sql params => s.pushCondition logic (.raw sql params)
  | .group logic calls => s.pushGroup logic fun sub => takeAll sub calls

/-- The statement after calls. -/
def takeAll (s : Statement) : List Call → Statement
  | [] => s
  | call :: rest => takeAll (take s call) rest

end

end Statement

/-- What calls do with the maps they supply. -/
structure Effect where
  /-- All that are given, in order. -/
  given : List (Fields Value)
  /-- Those that the statement gets. -/
  taken : List (Fields Value)
  /-- Those that its conditions bring along once more, in the order of the text. -/
  again : List (Fields Value)
  /-- Whether a condition comes of the calls. -/
  leaves : Bool

namespace Effect

def none : Effect :=
  ⟨[], [], [], false⟩

def followedBy (first second : Effect) : Effect :=
  ⟨first.given ++ second.given, first.taken ++ second.taken, first.again ++ second.again,
    first.leaves || second.leaves⟩

/-- A group brings along what it took, then what the groups in it do. -/
def grouped (e : Effect) : Effect :=
  if e.leaves then ⟨e.given, e.taken, e.taken ++ e.again, true⟩ else ⟨e.given, [], [], false⟩

end Effect

mutual

def Call.effect : Call → Effect
  | .params pairs => ⟨[pairs], [pairs], [], false⟩
  | .compare _ _ _ _ => ⟨[], [], [], true⟩
  | .raw _ _ brought => ⟨[brought], [brought], [], true⟩
  | .group _ calls => (Call.effects calls).grouped

def Call.effects : List Call → Effect
  | [] => .none
  | call :: rest => call.effect.followedBy (Call.effects rest)

end

/-! ### The maps in conditions -/

mutual

/-- The parameter maps in a test, in the order of the text. -/
def Test.maps : Test → List (Fields Value)
  | .group params members => params :: WhereClause.maps members
  | _ => []

def WhereClause.maps : List WhereClause → List (Fields Value)
  | [] => []
  | ⟨_, test⟩ :: rest => test.maps ++ WhereClause.maps rest

end

/-- The maps supply the same value for every name. -/
def SameLast (maps more : List (Fields Value)) : Prop :=
  ∀ name, lastOf? maps name = lastOf? more name

theorem WhereClause.maps_append (clauses more : List WhereClause) :
    WhereClause.maps (clauses ++ more) = WhereClause.maps clauses ++ WhereClause.maps more := by
  induction clauses with
  | nil => rfl
  | cons clause rest ih =>
    obtain ⟨logic, test⟩ := clause
    rw [List.cons_append, WhereClause.maps, WhereClause.maps, ih, List.append_assoc]

theorem Test.maps_of_single {test : Test} (h : ∀ params members, test ≠ .group params members) :
    test.maps = [] := by
  cases test with
  | group params members => exact absurd rfl (h params members)
  | _ => rfl

namespace Statement

/-! ### What calls do to a statement -/

/-- A statement after calls that went well. -/
structure Took (s t : Statement) (e : Effect) : Prop where
  frame : t.frame = { s.frame with params := t.params }
  sources : t.sources = s.sources
  lets : t.lets = s.lets
  changes : t.changes = s.changes
  params : ∀ name, Fields.get? t.params name =
    (lastOf? e.taken name).or (Fields.get? s.params name)
  sorted : Fields.Sorted s.params → Fields.Sorted t.params
  conditions : ∃ more, t.conditions = s.conditions ++ more ∧ (more = [] ↔ e.leaves = false) ∧
    (∀ clause ∈ more, ∀ sub, ¬ clause.test.Asks sub) ∧ SameLast (WhereClause.maps more) e.again

variable {s t u : Statement} {e e' : Effect}

theorem took_nothing (htaken : e.taken = []) (hagain : e.again = []) (hleaves : e.leaves = false) :
    Took s s e where
  frame := rfl
  sources := rfl
  lets := rfl
  changes := rfl
  params _ := by rw [htaken, lastOf?_nil, Option.none_or]
  sorted := id
  conditions :=
    ⟨[], (List.append_nil _).symm, by simp [hleaves], nofun, fun _ => by rw [hagain]; rfl⟩

theorem Took.trans (h : Took s t e) (h' : Took t u e') : Took s u (e.followedBy e') where
  frame := by
    rw [h'.frame, h.frame]
  sources := h'.sources.trans h.sources
  lets := h'.lets.trans h.lets
  changes := h'.changes.trans h.changes
  params name := by
    rw [h'.params, h.params, Effect.followedBy, lastOf?_append, Option.or_assoc]
  sorted hsorted := h'.sorted (h.sorted hsorted)
  conditions := by
    obtain ⟨more, hmore, hleaves, hasks, hmaps⟩ := h.conditions
    obtain ⟨more', hmore', hleaves', hasks', hmaps'⟩ := h'.conditions
    refine ⟨more ++ more', ?_, ?_, ?_, ?_⟩
    · rw [hmore', hmore, List.append_assoc]
    · simp [Effect.followedBy, hleaves, hleaves']
    · intro clause hmem
      exact (List.mem_append.mp hmem).elim (hasks clause) (hasks' clause)
    · intro name
      rw [WhereClause.maps_append, Effect.followedBy, lastOf?_append, lastOf?_append, hmaps, hmaps']

/-- An attempt that leaves no error behind took its step. -/
theorem attempt_eq_ok {step : Statement → Except Error Statement}
    (h : (s.attempt step).error? = none) : s.error? = none ∧ step s = .ok (s.attempt step) :=
  (attempt_cases s step).resolve_right fun ⟨herror, _⟩ => herror h

/-- One more condition, with parameters that came with it. -/
theorem took_push {logic : Logic} {test : Test} (brought : Fields Value)
    (hasks : ∀ sub, ¬ test.Asks sub) (htaken : SameLast [brought] e.taken)
    (hagain : SameLast test.maps e.again) (hleaves : e.leaves = true) :
    Took s (s.setFilter ⟨s.conditions ++ [⟨logic, test⟩], Fields.merge s.params brought⟩) e where
  frame := rfl
  sources := rfl
  lets := rfl
  changes := rfl
  params name := (get?_merge_lastOf? s.params brought name).trans (by rw [htaken])
  sorted hsorted := hsorted.merge brought
  conditions := by
    refine ⟨[⟨logic, test⟩], rfl, by simp [hleaves], ?_, ?_⟩
    · intro clause hmem
      rw [List.mem_singleton.mp hmem]
      exact hasks
    · intro name
      rw [WhereClause.maps, WhereClause.maps, List.append_nil]
      exact hagain name

theorem took_compare {logic : Logic} {path token : String} {v : Value}
    (h : (s.pushCondition logic (.ofComparison path token v)).error? = none) :
    Took s (s.pushCondition logic (.ofComparison path token v)) ⟨[], [], [], true⟩ := by
  obtain ⟨-, hstep⟩ := attempt_eq_ok h
  obtain ⟨filter, hadd, hset⟩ := map_eq_ok.mp hstep
  simp only [Condition.ofComparison, Filter.add, bind_eq_ok, pure_eq_ok] at hadd
  obtain ⟨op, -, test, htest, rfl⟩ := hadd
  rw [pushCondition, ← hset]
  refine took_push [] (fun sub hasks => ?_) (fun _ => rfl) (fun name => ?_) rfl
  · cases asks_of_testOf htest hasks
  · rw [Test.maps_of_single (Filter.single_of_testOf htest)]

theorem took_raw {logic : Logic} {sql : String} {brought : Fields Value}
    (h : (s.pushCondition logic (.raw sql brought)).error? = none) :
    Took s (s.pushCondition logic (.raw sql brought)) ⟨[brought], [brought], [], true⟩ := by
  obtain ⟨-, hstep⟩ := attempt_eq_ok h
  obtain ⟨filter, hadd, hset⟩ := map_eq_ok.mp hstep
  rw [Filter.add] at hadd
  obtain rfl := Except.ok.inj hadd
  rw [pushCondition, ← hset]
  exact took_push brought (fun _ hasks => by cases hasks) (fun _ => rfl) (fun _ => rfl) rfl

theorem conditions_fresh (kind : StatementKind) : (fresh kind).conditions = [] := by
  cases kind <;> rfl

theorem params_fresh (kind : StatementKind) : (fresh kind).params = [] := by
  cases kind <;> rfl

/-- A group takes what its calls took, unless they leave no condition. -/
theorem took_group {logic : Logic} {build : Statement → Statement}
    (h : (s.pushGroup logic build).error? = none)
    (hbuild : (build (fresh s.kind)).error? = none →
      Took (fresh s.kind) (build (fresh s.kind)) e) :
    Took s (s.pushGroup logic build) e.grouped := by
  obtain ⟨-, hstep⟩ := attempt_eq_ok h
  dsimp only at hstep
  rw [pushGroup]
  split at hstep
  · cases hstep
  · next herror =>
    have hsub := hbuild herror
    obtain ⟨more, hmore, hleaves, hasks, hmaps⟩ := hsub.conditions
    have hparams : ∀ name, Fields.get? (build (fresh s.kind)).params name =
        lastOf? e.taken name := by
      intro name
      rw [hsub.params, params_fresh, Fields.get?_nil, Option.or_none]
    have hsorted : Fields.Sorted (build (fresh s.kind)).params :=
      hsub.sorted (params_fresh s.kind ▸ Fields.sorted_nil)
    rw [conditions_fresh, List.nil_append] at hmore
    rw [← Except.ok.inj hstep, Filter.pushGroup, Effect.grouped]
    have hclauses : (build (fresh s.kind)).filter.clauses = more := hmore
    rw [hclauses]
    cases hcase : e.leaves with
    | false =>
      have hsame : Took s s ⟨e.given, [], [], false⟩ := took_nothing rfl rfl rfl
      rw [hleaves.mpr hcase, if_neg Bool.false_ne_true, if_pos List.isEmpty_nil,
        setFilter_filter]
      exact hsame
    | true =>
      have hne : more ≠ [] := fun hnil => by simp [hleaves.mp hnil] at hcase
      rw [if_neg (by simpa using hne), if_pos rfl]
      have hown : SameLast [(build (fresh s.kind)).params] e.taken := by
        intro name
        rw [lastOf?_cons, lastOf?_nil, Option.none_or, hsorted.get?_ofList, hparams]
      refine took_push _ (fun sub hgroup => ?_) hown (fun name => ?_) rfl
      · cases hgroup with
        | member hmem hmember => exact hasks _ hmem sub hmember
      · have hfirst := hown name
        rw [lastOf?_cons, lastOf?_nil, Option.none_or] at hfirst
        rw [Test.maps, lastOf?_cons, lastOf?_append, hmaps]
        exact congrArg _ hfirst

mutual

/-- Calls that leave no error behind have the effect that is read off them. -/
theorem took_take {s : Statement} (call : Call) (h : (s.take call).error? = none) :
    s.error? = none ∧ Took s (s.take call) call.effect := by
  cases call with
  | params pairs =>
    rw [take] at h ⊢
    exact ⟨h, {
      frame := rfl
      sources := rfl
      lets := rfl
      changes := rfl
      params := get?_merge_lastOf? s.params pairs
      sorted := fun hsorted => hsorted.merge pairs
      conditions := ⟨[], (List.append_nil _).symm, by simp [Call.effect], nofun, fun _ => rfl⟩ }⟩
  | compare logic path token v =>
    rw [take] at h ⊢
    exact ⟨(attempt_eq_ok h).1, took_compare h⟩
  | raw logic sql brought =>
    rw [take] at h ⊢
    exact ⟨(attempt_eq_ok h).1, took_raw h⟩
  | group logic calls =>
    rw [take] at h ⊢
    refine ⟨(attempt_eq_ok h).1, took_group h fun hbuild => ?_⟩
    exact (took_takeAll calls hbuild).2

theorem took_takeAll {s : Statement} (calls : List Call)
    (h : (s.takeAll calls).error? = none) :
    s.error? = none ∧ Took s (s.takeAll calls) (Call.effects calls) := by
  cases calls with
  | nil => exact ⟨h, took_nothing rfl rfl rfl⟩
  | cons call rest =>
    rw [takeAll] at h ⊢
    obtain ⟨hmid, hrest⟩ := took_takeAll rest h
    obtain ⟨hnone, hfirst⟩ := took_take call hmid
    exact ⟨hnone, hfirst.trans hrest⟩

end

end Statement

end DocMapper
