import DocMapper.Proofs.Query.Built
import DocMapper.Proofs.Query.Formula
/-!
# What conditions mean

A statement keeps its conditions as a flat list in which every test has its own connective. The
conditions read from one value all get the connective of the call or of their group, so the list
says what the formula of the value says.
-/

namespace DocMapper

open Formula Success

mutual

/-- A test that was made from a comparison, or a group that joins what its members say. -/
inductive Test.Means : Test → Formula Comparison → Prop where
  | single {path token : String} {op : Operator} {v : Value} {test : Test}
    (hop : Operator.ofToken token = .ok op) (htest : Filter.testOf path op (.value v) = .ok test) :
    Test.Means test (.atom ⟨path, token, v⟩)
  | group {params : Fields Value} {members : List WhereClause} {logic : Logic}
    {fs : List (Formula Comparison)} (h : Test.MeansAll logic members fs) (hne : fs ≠ []) :
    Test.Means (.group params members) (.join logic fs)

/-- Conditions that all have one connective say what these formulas say, one by one. -/
inductive Test.MeansAll : Logic → List WhereClause → List (Formula Comparison) → Prop where
  | nil (logic : Logic) : Test.MeansAll logic [] []
  | cons {logic : Logic} {test : Test} {rest : List WhereClause} {f : Formula Comparison}
    {fs : List (Formula Comparison)} (h : test.Means f) (hrest : Test.MeansAll logic rest fs) :
    Test.MeansAll logic (⟨logic, test⟩ :: rest) (f :: fs)

end

theorem Test.MeansAll.append {logic : Logic} {clauses more : List WhereClause}
    {fs gs : List (Formula Comparison)} (hfirst : Test.MeansAll logic clauses fs)
    (hsecond : Test.MeansAll logic more gs) : Test.MeansAll logic (clauses ++ more) (fs ++ gs) := by
  induction clauses generalizing fs with
  | nil =>
    cases hfirst
    exact hsecond
  | cons clause rest ih =>
    cases hfirst with
    | cons h hrest => exact .cons h (ih hrest)

namespace Filter

/-- One filter has, after the conditions of another, some that say what a formula says. -/
def Adds (logic : Logic) (filter filter' : Filter) (f? : Option (Formula Comparison)) : Prop :=
  ∃ clauses fs, filter'.clauses = filter.clauses ++ clauses ∧ Test.MeansAll logic clauses fs ∧
    Joined logic fs f?

variable {logic inner : Logic} {filter mid filter' sub : Filter}
  {f? : Option (Formula Comparison)}

theorem adds_refl (logic : Logic) (filter : Filter) : Adds logic filter filter none :=
  ⟨[], [], (List.append_nil _).symm, .nil logic, rfl⟩

theorem Adds.same {g? : Option (Formula Comparison)} (h : Adds logic filter filter' f?)
    (hsame : SameOption f? g?) : Adds logic filter filter' g? := by
  obtain ⟨clauses, fs, hclauses, hmeans, hjoined⟩ := h
  exact ⟨clauses, fs, hclauses, hmeans, hjoined.same hsame⟩

theorem Adds.single (h : Adds logic filter filter' f?) (outer : Logic) :
    Adds logic filter filter' (gather outer [f?]) :=
  h.same (sameOption_gather_singleton outer f?)

theorem Adds.append {parts more : List (Option (Formula Comparison))}
    (hfirst : Adds logic filter mid (gather logic parts))
    (hsecond : Adds logic mid filter' (gather logic more)) :
    Adds logic filter filter' (gather logic (parts ++ more)) := by
  obtain ⟨clauses, fs, hclauses, hmeans, hjoined⟩ := hfirst
  obtain ⟨clauses', fs', hclauses', hmeans', hjoined'⟩ := hsecond
  refine ⟨clauses ++ clauses', fs ++ fs', ?_, hmeans.append hmeans', hjoined.append hjoined'⟩
  rw [hclauses', hclauses, List.append_assoc]

theorem adds_push {path token : String} {op : Operator} {v : Value} {test : Test} (logic : Logic)
    (filter : Filter) (hop : Operator.ofToken token = .ok op)
    (htest : testOf path op (.value v) = .ok test) :
    Adds logic filter (filter.push logic test) (some (.atom ⟨path, token, v⟩)) := by
  refine ⟨[⟨logic, test⟩], [.atom ⟨path, token, v⟩], rfl, .cons (.single hop htest) (.nil logic),
    List.cons_ne_nil _ _, join_singleton_same logic _⟩

/-- A filter that is taken over as a group says in one condition what it says in several. -/
theorem Adds.pushGroup (h : Adds inner .empty sub f?) (logic : Logic) (filter : Filter) :
    Adds logic filter (filter.pushGroup logic sub) f? := by
  obtain ⟨clauses, fs, hclauses, hmeans, hjoined⟩ := h
  have hsub : sub.clauses = clauses := hclauses
  subst hsub
  rw [Filter.pushGroup]
  split
  · next hempty =>
    rw [List.isEmpty_iff.mp hempty] at hmeans
    cases hmeans
    cases f? with
    | none => exact adds_refl logic filter
    | some f => exact absurd rfl hjoined.1
  · next hne =>
    have hfs : fs ≠ [] := by
      rintro rfl
      cases h : sub.clauses with
      | nil => exact hne (by rw [h]; rfl)
      | cons clause rest =>
        rw [h] at hmeans
        cases hmeans
    exact ⟨_, _, rfl, .cons (.group hmeans hfs) (.nil logic), hjoined.group hfs logic⟩

/-- What is done for one member of a group. -/
def addMember (logic : Logic) (filter : Filter) : Condition → Except Error Filter
  | .all items =>
    if 1 < items.length then (addMembers .and .empty items).map (filter.pushGroup logic)
    else addAll logic filter items
  | other => add logic filter other

theorem addMembers_cons (logic : Logic) (filter : Filter) (member : Condition)
    (rest : List Condition) :
    addMembers logic filter (member :: rest) =
      addMember logic filter member >>= fun filter => addMembers logic filter rest := by
  cases member with
  | all items =>
    rw [addMembers, addMember]
    split
    · cases addMembers .and .empty items <;> rfl
    · rfl
  | compare path token operand => simp only [addMembers, addMember]
  | group inner members => simp only [addMembers, addMember]
  | raw sql params => simp only [addMembers, addMember]
  | invalid e => simp only [addMembers, addMember]

end Filter

mutual

/-- A condition as it is read from a value, and what the formula of the value says. Several
conditions at once are never just one. -/
inductive Condition.Stands : Condition → Option (Formula Comparison) → Prop where
  | compare {path token : String} {v : Value} {f? : Option (Formula Comparison)}
    (hsame : SameOption (some (.atom ⟨path, token, v⟩)) f?) :
    Condition.Stands (.compare path token (.value v)) f?
  | all {items : List Condition} {parts : List (Option (Formula Comparison))}
    {f? : Option (Formula Comparison)} (hlength : items.length ≠ 1)
    (h : Condition.StandAll items parts) (hsame : SameOption (gather .and parts) f?) :
    Condition.Stands (.all items) f?
  | group {logic : Logic} {members : List Condition} {parts : List (Option (Formula Comparison))}
    {f? : Option (Formula Comparison)} (h : Condition.StandAll members parts)
    (hsame : SameOption (gather logic parts) f?) : Condition.Stands (.group logic members) f?
  | invalid (e : Error) (f? : Option (Formula Comparison)) : Condition.Stands (.invalid e) f?

inductive Condition.StandAll : List Condition → List (Option (Formula Comparison)) → Prop where
  | nil : Condition.StandAll [] []
  | cons {item : Condition} {rest : List Condition} {f? : Option (Formula Comparison)}
    {parts : List (Option (Formula Comparison))} (h : item.Stands f?)
    (hrest : Condition.StandAll rest parts) : Condition.StandAll (item :: rest) (f? :: parts)

end

/-! ### Reading a value -/

namespace Condition

theorem Stands.same {condition : Condition} {f? g? : Option (Formula Comparison)}
    (h : condition.Stands f?) (hsame : SameOption f? g?) : condition.Stands g? := by
  cases h with
  | compare hfirst => exact .compare (hfirst.trans hsame)
  | all hlength hall hfirst => exact .all hlength hall (hfirst.trans hsame)
  | group hall hfirst => exact .group hall (hfirst.trans hsame)
  | invalid e f? => exact .invalid e g?

theorem stands_singleOrAll {items : List Condition} {parts : List (Option (Formula Comparison))}
    (h : StandAll items parts) : (singleOrAll items).Stands (gather .and parts) := by
  match h with
  | .nil => exact .all (by simp) .nil (sameOption_refl _)
  | .cons hitem .nil => exact hitem.same (sameOption_gather_singleton .and _)
  | .cons hfirst (.cons hsecond hrest) =>
    exact .all (by simp) (.cons hfirst (.cons hsecond hrest)) (sameOption_refl _)

theorem stands_ofComparison (path token : String) (v : Value) :
    (ofComparison path token v).Stands (some (.atom ⟨path, token, v⟩)) :=
  .compare (sameOption_refl _)

mutual

theorem stands_forPath (path : String) (v : Value) :
    (forPath path v).Stands (v.formulaAt? path) := by
  cases v with
  | map entries =>
    rw [forPath, Value.formulaAt?]
    split
    · exact stands_singleOrAll (standAll_forOperators path entries)
    · exact stands_ofComparison path "$eq" _
  | list items => exact stands_ofComparison path "$eq" _
  | null | bool | int | float | string | dateTime | link =>
    exact stands_ofComparison path "$eq" _

theorem standAll_forOperators (path : String) (entries : List (String × Value)) :
    StandAll (forOperators path entries) (Value.operatorFormulas path entries) := by
  match entries with
  | [] => exact .nil
  | (key, operand) :: rest =>
    unfold forOperators Value.operatorFormulas
    refine .cons ?_ (standAll_forOperators path rest)
    cases Logic.ofKey? key with
    | none => exact stands_ofComparison path key operand
    | some logic =>
      refine .group ?_ (sameOption_refl _)
      cases operand with
      | list values => exact standAll_forEach path values
      | map entries => exact .cons (stands_forPath path (.map entries)) .nil
      | null | bool | int | float | string | dateTime | link =>
        exact .cons (stands_ofComparison path "$eq" _) .nil

theorem standAll_forEach (path : String) (values : List Value) :
    StandAll (forEach path values) (Value.formulasAt path values) := by
  match values with
  | [] => exact .nil
  | v :: rest => exact .cons (stands_forPath path v) (standAll_forEach path rest)

end

mutual

theorem stands_ofValue (v : Value) : (ofValue v).Stands v.formula? := by
  cases v with
  | map entries => exact stands_singleOrAll (standAll_ofEntries entries)
  | list items => exact .group (standAll_ofItems items) (sameOption_refl _)
  | null | bool | int | float | string | dateTime | link =>
    exact .invalid _ _

theorem standAll_ofEntries (entries : List (String × Value)) :
    StandAll (ofEntries entries) (Value.entryFormulas entries) := by
  match entries with
  | [] => exact .nil
  | (key, v) :: rest =>
    unfold ofEntries Value.entryFormulas
    refine .cons ?_ (standAll_ofEntries rest)
    cases Logic.ofKey? key with
    | none => exact stands_forPath key v
    | some logic =>
      refine .group ?_ (sameOption_refl _)
      cases v with
      | list values => exact standAll_ofItems values
      | map entries => exact .cons (stands_ofValue (.map entries)) .nil
      | null | bool | int | float | string | dateTime | link =>
        exact .cons (.invalid _ _) .nil

theorem standAll_ofItems (items : List Value) :
    StandAll (ofItems items) (Value.formulas items) := by
  match items with
  | [] => exact .nil
  | v :: rest => exact .cons (stands_ofValue v) (standAll_ofItems rest)

end

end Condition

/-! ### Pushing what was read -/

namespace Filter

variable {logic : Logic} {filter filter' : Filter}

theorem adds_of_compare {path token : String} {v : Value}
    (h : add logic filter (.compare path token (.value v)) = .ok filter') :
    Adds logic filter filter' (some (.atom ⟨path, token, v⟩)) := by
  simp only [add, bind_eq_ok, pure_eq_ok] at h
  obtain ⟨op, hop, test, htest, rfl⟩ := h
  exact adds_push logic filter hop htest

mutual

/-- A member of a group adds at most one condition, whatever the connective of the group. -/
theorem adds_of_addMember {member : Condition} {f? : Option (Formula Comparison)}
    (hstands : member.Stands f?) {logic : Logic} {filter filter' : Filter}
    (h : addMember logic filter member = .ok filter') : Adds logic filter filter' f? := by
  cases hstands with
  | compare hsame => exact (adds_of_compare h).same hsame
  | @all items parts _ hlength hall hsame =>
    rw [addMember] at h
    split at h
    · obtain ⟨sub, hsub, rfl⟩ := map_eq_ok.mp h
      exact ((adds_of_addMembers hall hsub).pushGroup logic filter).same hsame
    · next hshort =>
      have hnil : items = [] := List.eq_nil_iff_length_eq_zero.mpr (by omega)
      subst hnil
      cases hall
      rw [addAll] at h
      cases h
      exact (adds_refl logic filter).same hsame
  | @group inner members parts _ hall hsame =>
    simp only [addMember, add, bind_eq_ok, pure_eq_ok] at h
    obtain ⟨sub, hsub, rfl⟩ := h
    exact ((adds_of_addMembers hall hsub).pushGroup logic filter).same hsame
  | invalid e f? =>
    simp only [addMember, add] at h
    cases h

theorem adds_of_addMembers {members : List Condition}
    {parts : List (Option (Formula Comparison))} (hall : Condition.StandAll members parts)
    {logic : Logic} {filter filter' : Filter} (h : addMembers logic filter members = .ok filter') :
    Adds logic filter filter' (gather logic parts) := by
  cases hall with
  | nil =>
    rw [addMembers] at h
    cases h
    exact adds_refl logic filter
  | @cons member rest f? parts hmember hrest =>
    rw [addMembers_cons, bind_eq_ok] at h
    obtain ⟨mid, hfirst, hlater⟩ := h
    exact ((adds_of_addMember hmember hfirst).single logic).append (adds_of_addMembers hrest hlater)

end

mutual

/-- A condition that is pushed with `AND` adds what it says. -/
theorem adds_of_add {condition : Condition} {f? : Option (Formula Comparison)}
    (hstands : condition.Stands f?) {filter filter' : Filter}
    (h : add .and filter condition = .ok filter') : Adds .and filter filter' f? := by
  cases hstands with
  | compare hsame => exact (adds_of_compare h).same hsame
  | all _ hall hsame =>
    rw [add] at h
    exact (adds_of_addAll hall h).same hsame
  | @group inner members parts _ hall hsame =>
    simp only [add, bind_eq_ok, pure_eq_ok] at h
    obtain ⟨sub, hsub, rfl⟩ := h
    exact ((adds_of_addMembers hall hsub).pushGroup .and filter).same hsame
  | invalid e f? =>
    rw [add] at h
    cases h

theorem adds_of_addAll {items : List Condition} {parts : List (Option (Formula Comparison))}
    (hall : Condition.StandAll items parts) {filter filter' : Filter}
    (h : addAll .and filter items = .ok filter') :
    Adds .and filter filter' (gather .and parts) := by
  cases hall with
  | nil =>
    rw [addAll] at h
    cases h
    exact adds_refl .and filter
  | @cons item rest f? parts hitem hrest =>
    rw [addAll, bind_eq_ok] at h
    obtain ⟨mid, hfirst, hlater⟩ := h
    exact ((adds_of_add hitem hfirst).single .and).append (adds_of_addAll hrest hlater)

end

end Filter

namespace Statement

/-- What several conditions ask for together. -/
def formula? (asked : List Json) : Option (Formula Comparison) :=
  gather .and (asked.map fun json => (Value.ofJson json).formula?)

end Statement

end DocMapper
