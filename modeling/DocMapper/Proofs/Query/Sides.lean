import DocMapper.Proofs.Query.Meaning
/-!
# What a condition map holds side by side

The conditions of a map are not put in parentheses when the map is pushed, nor are the operators of
one path. They all get the connective of the call, whichever it is, so an `OR` call joins by `OR`
what the map joins by `AND`. Only what stands under `$and` or `$or` stays together.
-/

namespace DocMapper

open Formula Success

namespace Formula

variable {α : Type}

theorem gather_eq (logic : Logic) (parts : List (Option (Formula α))) :
    gather logic parts =
      if parts.filterMap id = [] then none else some (.join logic (parts.filterMap id)) := by
  rw [gather]
  cases parts.filterMap id with
  | nil => rfl
  | cons part rest => rfl

theorem sameOption_gather_iff {logic : Logic} {parts parts' : List (Option (Formula α))} :
    SameOption (gather logic parts) (gather logic parts') ↔
      (parts.filterMap id = [] ↔ parts'.filterMap id = []) ∧
        Same (.join logic (parts.filterMap id)) (.join logic (parts'.filterMap id)) := by
  rw [gather_eq, gather_eq]
  generalize parts.filterMap id = present
  generalize parts'.filterMap id = present'
  cases present <;> cases present' <;> simp [SameOption, same_refl]

theorem SameOption.append {logic : Logic} {first second first' second' : List (Option (Formula α))}
    (hfirst : SameOption (gather logic first) (gather logic first'))
    (hsecond : SameOption (gather logic second) (gather logic second')) :
    SameOption (gather logic (first ++ second)) (gather logic (first' ++ second')) := by
  obtain ⟨hnil, hsame⟩ := sameOption_gather_iff.mp hfirst
  obtain ⟨hnil', hsame'⟩ := sameOption_gather_iff.mp hsecond
  rw [sameOption_gather_iff, List.filterMap_append, List.filterMap_append]
  refine ⟨?_, hsame.append hsame'⟩
  rw [List.append_eq_nil_iff, List.append_eq_nil_iff, hnil, hnil']

end Formula

namespace Value

end Value

namespace Condition

mutual

/-- A condition puts these formulas side by side. -/
inductive Spreads : Condition → List (Option (Formula Comparison)) → Prop where
  | one {condition : Condition} {f? : Option (Formula Comparison)} (h : condition.Stands f?)
    (hone : ∀ items, condition ≠ .all items) : Spreads condition [f?]
  | all {items : List Condition} {parts : List (Option (Formula Comparison))}
    (h : SpreadAll items parts) : Spreads (.all items) parts

inductive SpreadAll : List Condition → List (Option (Formula Comparison)) → Prop where
  | nil : SpreadAll [] []
  | cons {item : Condition} {rest : List Condition}
    {parts more : List (Option (Formula Comparison))} (h : item.Spreads parts)
    (hrest : SpreadAll rest more) : SpreadAll (item :: rest) (parts ++ more)

end

theorem SpreadAll.single {item : Condition} {parts : List (Option (Formula Comparison))}
    (h : SpreadAll [item] parts) : item.Spreads parts := by
  cases h with
  | @cons _ _ parts _ hitem hnil =>
    cases hnil
    rwa [List.append_nil]

theorem StandAll.single {item : Condition} {rest : List Condition}
    {f? : Option (Formula Comparison)} {parts : List (Option (Formula Comparison))}
    (h : StandAll (item :: rest) (f? :: parts)) : item.Stands f? := by
  cases h with
  | cons hitem _ => exact hitem

theorem SpreadAll.append {items more : List Condition}
    {parts parts' : List (Option (Formula Comparison))} (h : SpreadAll items parts)
    (h' : SpreadAll more parts') : SpreadAll (items ++ more) (parts ++ parts') := by
  induction items generalizing parts with
  | nil =>
    cases h
    exact h'
  | cons item rest ih =>
    cases h with
    | cons hitem hrest =>
      rw [List.append_assoc]
      exact .cons hitem (ih hrest)

end Condition

namespace Filter

theorem addMember_of_one {logic : Logic} {filter : Filter} {condition : Condition}
    (hone : ∀ items, condition ≠ .all items) :
    addMember logic filter condition = add logic filter condition := by
  cases condition with
  | all items => exact absurd rfl (hone items)
  | compare path token operand => rfl
  | group inner members => rfl
  | raw sql params => rfl
  | invalid e => rfl

mutual

/-- A condition that is pushed adds what it puts side by side, whatever the connective. -/
theorem adds_of_spreads {condition : Condition} {parts : List (Option (Formula Comparison))}
    (hspreads : condition.Spreads parts) {logic : Logic} {filter filter' : Filter}
    (h : add logic filter condition = .ok filter') :
    Adds logic filter filter' (gather logic parts) := by
  cases hspreads with
  | one hstands hone =>
    rw [← addMember_of_one hone] at h
    exact (adds_of_addMember hstands h).single logic
  | all hall =>
    rw [add] at h
    exact adds_of_spreadAll hall h

theorem adds_of_spreadAll {items : List Condition}
    {parts : List (Option (Formula Comparison))} (hall : Condition.SpreadAll items parts)
    {logic : Logic} {filter filter' : Filter} (h : addAll logic filter items = .ok filter') :
    Adds logic filter filter' (gather logic parts) := by
  cases hall with
  | nil =>
    rw [addAll] at h
    cases h
    exact adds_refl logic filter
  | cons hitem hrest =>
    rw [addAll, bind_eq_ok] at h
    obtain ⟨mid, hfirst, hlater⟩ := h
    exact (adds_of_spreads hitem hfirst).append (adds_of_spreadAll hrest hlater)

end

/-! ### No parameters -/

theorem params_pushGroup (logic : Logic) (filter : Filter) {sub : Filter} (h : sub.params = []) :
    (filter.pushGroup logic sub).params = filter.params := by
  unfold pushGroup
  split
  · rfl
  · rw [h]
    rfl

mutual

/-- What is read from a value brings no parameters. -/
theorem params_of_addMember {member : Condition} {f? : Option (Formula Comparison)}
    (hstands : member.Stands f?) {logic : Logic} {filter filter' : Filter}
    (h : addMember logic filter member = .ok filter') : filter'.params = filter.params := by
  cases hstands with
  | compare _ =>
    simp only [addMember, add, bind_eq_ok, pure_eq_ok] at h
    obtain ⟨op, -, test, -, rfl⟩ := h
    rfl
  | @all items parts _ hlength hall _ =>
    rw [addMember] at h
    split at h
    · obtain ⟨sub, hsub, rfl⟩ := map_eq_ok.mp h
      exact params_pushGroup logic filter (params_of_addMembers hall hsub)
    · have hnil : items = [] := List.eq_nil_iff_length_eq_zero.mpr (by omega)
      subst hnil
      rw [addAll] at h
      cases h
      rfl
  | group hall _ =>
    simp only [addMember, add, bind_eq_ok, pure_eq_ok] at h
    obtain ⟨sub, hsub, rfl⟩ := h
    exact params_pushGroup logic filter (params_of_addMembers hall hsub)
  | invalid e f? =>
    simp only [addMember, add] at h
    cases h

theorem params_of_addMembers {members : List Condition}
    {parts : List (Option (Formula Comparison))} (hall : Condition.StandAll members parts)
    {logic : Logic} {filter filter' : Filter} (h : addMembers logic filter members = .ok filter') :
    filter'.params = filter.params := by
  cases hall with
  | nil =>
    rw [addMembers] at h
    cases h
    rfl
  | cons hmember hrest =>
    rw [addMembers_cons, bind_eq_ok] at h
    obtain ⟨mid, hfirst, hlater⟩ := h
    rw [params_of_addMembers hrest hlater, params_of_addMember hmember hfirst]

end

mutual

theorem params_of_spreads {condition : Condition} {parts : List (Option (Formula Comparison))}
    (hspreads : condition.Spreads parts) {logic : Logic} {filter filter' : Filter}
    (h : add logic filter condition = .ok filter') : filter'.params = filter.params := by
  cases hspreads with
  | one hstands hone =>
    rw [← addMember_of_one hone] at h
    exact params_of_addMember hstands h
  | all hall =>
    rw [add] at h
    exact params_of_spreadAll hall h

theorem params_of_spreadAll {items : List Condition}
    {parts : List (Option (Formula Comparison))} (hall : Condition.SpreadAll items parts)
    {logic : Logic} {filter filter' : Filter} (h : addAll logic filter items = .ok filter') :
    filter'.params = filter.params := by
  cases hall with
  | nil =>
    rw [addAll] at h
    cases h
    rfl
  | cons hitem hrest =>
    rw [addAll, bind_eq_ok] at h
    obtain ⟨mid, hfirst, hlater⟩ := h
    rw [params_of_spreadAll hrest hlater, params_of_spreads hitem hfirst]

end

end Filter

namespace Statement

end Statement

end DocMapper
