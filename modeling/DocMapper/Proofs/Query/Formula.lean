import DocMapper.Query.Condition
/-!
# Formulas

Boolean formulas over comparisons, and how a value is read as one. In a map the entries are joined
by `AND`, and so are the items of a list; `$and` and `$or` join what they list. What holds no
comparison has no formula and is passed over where formulas are joined.
-/

namespace DocMapper

/-- Atoms, and formulas joined by a connective. -/
inductive Formula (α : Type) where
  | atom (a : α)
  | join (logic : Logic) (parts : List (Formula α))

namespace Formula

variable {α β : Type}

mutual

def Holds (truth : α → Prop) : Formula α → Prop
  | .atom a => truth a
  | .join .and parts => AllHold truth parts
  | .join .or parts => OneHolds truth parts

def AllHold (truth : α → Prop) : List (Formula α) → Prop
  | [] => True
  | part :: rest => Holds truth part ∧ AllHold truth rest

def OneHolds (truth : α → Prop) : List (Formula α) → Prop
  | [] => False
  | part :: rest => Holds truth part ∨ OneHolds truth rest

end

@[simp]
theorem holds_atom (truth : α → Prop) (a : α) : (Formula.atom a).Holds truth ↔ truth a := by
  rw [Holds]

@[simp]
theorem holds_and (truth : α → Prop) (parts : List (Formula α)) :
    (Formula.join .and parts).Holds truth ↔ ∀ part ∈ parts, part.Holds truth := by
  rw [Holds]
  induction parts with
  | nil => simp [AllHold]
  | cons part rest ih => simp [AllHold, ih]

@[simp]
theorem holds_or (truth : α → Prop) (parts : List (Formula α)) :
    (Formula.join .or parts).Holds truth ↔ ∃ part ∈ parts, part.Holds truth := by
  rw [Holds]
  induction parts with
  | nil => simp [OneHolds]
  | cons part rest ih => simp [OneHolds, ih]

theorem holds_join_singleton (truth : α → Prop) (logic : Logic) (f : Formula α) :
    (Formula.join logic [f]).Holds truth ↔ f.Holds truth := by
  cases logic <;> simp

theorem holds_join_append {truth : α → Prop} {logic : Logic} {fs gs fs' gs' : List (Formula α)}
    (hfirst : (Formula.join logic fs).Holds truth ↔ (Formula.join logic fs').Holds truth)
    (hsecond : (Formula.join logic gs).Holds truth ↔ (Formula.join logic gs').Holds truth) :
    (Formula.join logic (fs ++ gs)).Holds truth ↔ (Formula.join logic (fs' ++ gs')).Holds truth := by
  cases logic with
  | and =>
    rw [holds_and] at hfirst hsecond
    rw [holds_and, holds_and, List.forall_mem_append, List.forall_mem_append, hfirst, hsecond,
      holds_and, holds_and]
  | or =>
    rw [holds_or] at hfirst hsecond
    simp only [holds_or] at hfirst hsecond ⊢
    simp only [List.mem_append, or_and_right, exists_or, hfirst, hsecond]

mutual

/-- The same formula over other atoms. -/
inductive Matches (related : α → β → Prop) : Formula α → Formula β → Prop where
  | atom {a : α} {b : β} (h : related a b) : Matches related (.atom a) (.atom b)
  | join {logic : Logic} {fs : List (Formula α)} {gs : List (Formula β)}
    (h : MatchAll related fs gs) : Matches related (.join logic fs) (.join logic gs)

inductive MatchAll (related : α → β → Prop) : List (Formula α) → List (Formula β) → Prop where
  | nil : MatchAll related [] []
  | cons {f : Formula α} {g : Formula β} {fs : List (Formula α)} {gs : List (Formula β)}
    (h : Matches related f g) (hrest : MatchAll related fs gs) :
    MatchAll related (f :: fs) (g :: gs)

end

theorem MatchAll.exists_append {related : α → β → Prop} {fs fs' : List (Formula α)}
    {gs : List (Formula β)} (h : MatchAll related (fs ++ fs') gs) :
    ∃ hs hs', MatchAll related fs hs ∧ MatchAll related fs' hs' ∧ gs = hs ++ hs' := by
  induction fs generalizing gs with
  | nil => exact ⟨[], gs, .nil, h, rfl⟩
  | cons f rest ih =>
    cases h with
    | cons hfirst hrest =>
      obtain ⟨hs, hs', hmatch, hmatch', rfl⟩ := ih hrest
      exact ⟨_ :: hs, hs', .cons hfirst hmatch, hmatch', rfl⟩

theorem MatchAll.append {related : α → β → Prop} {fs fs' : List (Formula α)}
    {gs gs' : List (Formula β)} (h : MatchAll related fs gs) (h' : MatchAll related fs' gs') :
    MatchAll related (fs ++ fs') (gs ++ gs') := by
  induction fs generalizing gs with
  | nil =>
    cases h
    exact h'
  | cons f rest ih =>
    cases h with
    | cons hfirst hrest => exact .cons hfirst (ih hrest)

/-! ### Formulas that say the same -/

/-- Whatever stands for the atoms, occurrence by occurrence, both formulas say the same. -/
def Same (f f' : Formula α) : Prop :=
  ∀ ⦃β : Type⦄ (related : α → β → Prop) (g : Formula β), f.Matches related g →
    ∃ g' : Formula β, f'.Matches related g' ∧ ∀ truth, g'.Holds truth ↔ g.Holds truth

theorem same_refl (f : Formula α) : Same f f :=
  fun _ _ g h => ⟨g, h, fun _ => Iff.rfl⟩

theorem Same.trans {f f' f'' : Formula α} (h : Same f f') (h' : Same f' f'') : Same f f'' := by
  intro β related g hmatch
  obtain ⟨g', hmatch', hholds⟩ := h related g hmatch
  obtain ⟨g'', hmatch'', hholds'⟩ := h' related g' hmatch'
  exact ⟨g'', hmatch'', fun truth => (hholds' truth).trans (hholds truth)⟩

theorem same_join_singleton (logic : Logic) (f : Formula α) : Same f (.join logic [f]) := by
  intro β related g hmatch
  exact ⟨.join logic [g], .join (.cons hmatch .nil), fun truth => holds_join_singleton truth logic g⟩

theorem join_singleton_same (logic : Logic) (f : Formula α) : Same (.join logic [f]) f := by
  intro β related g hmatch
  cases hmatch with
  | join hall =>
    cases hall with
    | @cons _ g _ _ hf hnil =>
      cases hnil
      exact ⟨g, hf, fun truth => (holds_join_singleton truth logic g).symm⟩

theorem Same.append {logic : Logic} {fs gs fs' gs' : List (Formula α)}
    (hfirst : Same (.join logic fs) (.join logic fs'))
    (hsecond : Same (.join logic gs) (.join logic gs')) :
    Same (.join logic (fs ++ gs)) (.join logic (fs' ++ gs')) := by
  intro β related h hmatch
  cases hmatch with
  | join hall =>
    obtain ⟨hs, hs', hmatch, hmatch', rfl⟩ := hall.exists_append
    obtain ⟨_, hnew, hholds⟩ := hfirst related _ (.join hmatch)
    obtain ⟨_, hnew', hholds'⟩ := hsecond related _ (.join hmatch')
    cases hnew with
    | join hnew =>
      cases hnew' with
      | join hnew' =>
        exact ⟨_, .join (hnew.append hnew'),
          fun truth => holds_join_append (hholds truth) (hholds' truth)⟩

/-- Joins the formulas that there are, if there are any. -/
def gather (logic : Logic) (parts : List (Option (Formula α))) : Option (Formula α) :=
  match parts.filterMap id with
  | [] => none
  | present => some (.join logic present)

def SameOption : Option (Formula α) → Option (Formula α) → Prop
  | none, none => True
  | some f, some g => Same f g
  | _, _ => False

theorem sameOption_refl (f? : Option (Formula α)) : SameOption f? f? := by
  cases f? with
  | none => trivial
  | some f => exact same_refl f

theorem SameOption.trans {f? g? h? : Option (Formula α)} (hfirst : SameOption f? g?)
    (hsecond : SameOption g? h?) : SameOption f? h? := by
  match f?, g?, h?, hfirst, hsecond with
  | none, none, none, _, _ => trivial
  | some f, some g, some h, hfirst, hsecond => exact Same.trans hfirst hsecond

theorem sameOption_gather_singleton (logic : Logic) (f? : Option (Formula α)) :
    SameOption f? (gather logic [f?]) := by
  cases f? with
  | none => trivial
  | some f => exact same_join_singleton logic f

/-- The formulas of a list, joined, say the same as a formula, or there are none. -/
def Joined (logic : Logic) (fs : List (Formula α)) : Option (Formula α) → Prop
  | none => fs = []
  | some f => fs ≠ [] ∧ Same (.join logic fs) f

theorem joined_gather_iff {logic : Logic} {fs : List (Formula α)}
    {parts : List (Option (Formula α))} :
    Joined logic fs (gather logic parts) ↔
      (fs = [] ↔ parts.filterMap id = []) ∧
        Same (.join logic fs) (.join logic (parts.filterMap id)) := by
  rw [gather]
  cases h : parts.filterMap id with
  | nil =>
    constructor
    · intro hnil
      cases hnil
      exact ⟨Iff.rfl, same_refl _⟩
    · intro hsame
      exact hsame.1.mpr rfl
  | cons f rest => simp [Joined]

theorem Joined.same {logic : Logic} {fs : List (Formula α)} {f? g? : Option (Formula α)}
    (h : Joined logic fs f?) (hsame : SameOption f? g?) : Joined logic fs g? := by
  match f?, g?, hsame with
  | none, none, _ => exact h
  | some f, some g, hsame => exact ⟨h.1, Same.trans h.2 hsame⟩

theorem Joined.append {logic : Logic} {fs gs : List (Formula α)}
    {parts more : List (Option (Formula α))} (hfirst : Joined logic fs (gather logic parts))
    (hsecond : Joined logic gs (gather logic more)) :
    Joined logic (fs ++ gs) (gather logic (parts ++ more)) := by
  obtain ⟨hnil, hsame⟩ := joined_gather_iff.mp hfirst
  obtain ⟨hnil', hsame'⟩ := joined_gather_iff.mp hsecond
  rw [joined_gather_iff, List.filterMap_append]
  refine ⟨?_, hsame.append hsame'⟩
  rw [List.append_eq_nil_iff, List.append_eq_nil_iff, hnil, hnil']

theorem Joined.group {inner : Logic} {fs : List (Formula α)} {f? : Option (Formula α)}
    (h : Joined inner fs f?) (hne : fs ≠ []) (logic : Logic) :
    Joined logic [.join inner fs] f? := by
  cases f? with
  | none => exact absurd h hne
  | some f => exact ⟨List.cons_ne_nil _ _, (join_singleton_same logic _).trans h.2⟩

end Formula

/-- A comparison of a path with an operand, under an operator as it was given. -/
structure Comparison where
  path : String
  token : String
  operand : Value

namespace Value

open Formula (gather)

mutual

/-- A map of operators under a path compares it by each of them, and any other value is compared by
equality. -/
def formulaAt? (path : String) : Value → Option (Formula Comparison)
  | .map entries =>
    if Condition.isOperatorMap entries then gather .and (operatorFormulas path entries)
    else some (.atom ⟨path, "$eq", .map entries⟩)
  | other => some (.atom ⟨path, "$eq", other⟩)

def operatorFormulas (path : String) : List (String × Value) → List (Option (Formula Comparison))
  | [] => []
  | (key, operand) :: rest =>
    let first :=
      match Logic.ofKey? key with
      | some logic =>
        gather logic (match operand with
          | .list values => formulasAt path values
          | other => [formulaAt? path other])
      | none => some (.atom ⟨path, key, operand⟩)
    first :: operatorFormulas path rest

def formulasAt (path : String) : List Value → List (Option (Formula Comparison))
  | [] => []
  | v :: rest => formulaAt? path v :: formulasAt path rest

end

mutual

/-- The formula of a condition map, or of a list of conditions. -/
def formula? : Value → Option (Formula Comparison)
  | .map entries => gather .and (entryFormulas entries)
  | .list items => gather .and (formulas items)
  | _ => none

def entryFormulas : List (String × Value) → List (Option (Formula Comparison))
  | [] => []
  | (key, v) :: rest =>
    let first :=
      match Logic.ofKey? key with
      | some logic =>
        gather logic (match v with
          | .list values => formulas values
          | other => [formula? other])
      | none => formulaAt? key v
    first :: entryFormulas rest

def formulas : List Value → List (Option (Formula Comparison))
  | [] => []
  | v :: rest => formula? v :: formulas rest

end

end Value

end DocMapper
