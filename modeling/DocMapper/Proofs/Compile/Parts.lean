import DocMapper.Proofs.Compile.Run
import DocMapper.Proofs.Query.Built
/-!
# What conditions leave in the text

Every condition leaves one part, and the members of a group their own parts inside it. What is left
out on purpose is void: a test in a sub-statement that has no text, or a group of such tests only.
If all conditions are void the clause is left out as a whole, so the statement has no condition
although it was given some.
-/

namespace DocMapper

open Compile

/-- What is written for a condition: the text of a single test, or parts in parentheses. -/
inductive Part where
  | single (text : String)
  | group (parts : List (Logic × Part))

mutual

def Part.text : Part → String
  | .single text => text
  | .group parts => Fragment.parenthesized (Fragment.joinedTests (Part.texts parts))

def Part.texts : List (Logic × Part) → List (Logic × String)
  | [] => []
  | (logic, part) :: rest => (logic, part.text) :: Part.texts rest

end

namespace Fragment

theorem parenthesized_eq_empty_iff {text : String} : parenthesized text = "" ↔ text = "" := by
  rw [parenthesized]
  split
  · next h => simpa using h
  · next h =>
    have hne : text ≠ "" := by simpa using h
    simp [String.append_eq_empty_iff, hne]

theorem joinedTests_eq_empty_iff {parts : List (Logic × String)}
    (hne : ∀ part ∈ parts, part.2 ≠ "") : joinedTests parts = "" ↔ parts = [] := by
  match parts with
  | [] => simp [joinedTests]
  | (logic, first) :: rest =>
    have hfirst : first ≠ "" := hne (logic, first) List.mem_cons_self
    cases rest with
    | nil => simp [joinedTests, hfirst]
    | cons second rest =>
      simp [joinedTests, String.intercalate_cons_cons, String.append_eq_empty_iff, hfirst]

theorem comparison_ne_empty (path operator operand : String) :
    comparison path operator operand ≠ "" := by
  simp [comparison, String.append_eq_empty_iff]

variable {schema? : Option Schema} {path text : String} {r r' : Registry}

theorem compareText_ne_empty {op : Operator} {v : Value}
    (h : Yields (compareText schema? path op v) r text r') : text ≠ "" := by
  obtain ⟨cast, mid, -, hcast⟩ := yields_bind.mp h
  split at hcast
  · obtain ⟨tokens, last, -, htokens⟩ := yields_bind.mp hcast
    split at htokens
    · obtain ⟨rfl, -⟩ := yields_pure.mp htokens
      exact comparison_ne_empty _ _ _
    · obtain ⟨rfl, -⟩ := yields_pure.mp htokens
      exact comparison_ne_empty _ _ _
  · obtain ⟨token, last, -, htoken⟩ := yields_bind.mp hcast
    obtain ⟨rfl, -⟩ := yields_pure.mp htoken
    exact comparison_ne_empty _ _ _

theorem membershipText_ne_empty {op : Operator} {v : Value}
    (h : Yields (membershipText schema? path op v) r text r') : text ≠ "" := by
  obtain ⟨cast, mid, -, hcast⟩ := yields_bind.mp h
  split at hcast
  · obtain ⟨tokens, last, -, htokens⟩ := yields_bind.mp hcast
    obtain ⟨rfl, -⟩ := yields_pure.mp htokens
    exact comparison_ne_empty _ _ _
  · obtain ⟨token, last, -, htoken⟩ := yields_bind.mp hcast
    obtain ⟨rfl, -⟩ := yields_pure.mp htoken
    exact comparison_ne_empty _ _ _

theorem rangeText_ne_empty {low high : Value}
    (h : Yields (rangeText schema? path low high) r text r') : text ≠ "" := by
  obtain ⟨bounds, mid, -, hbounds⟩ := yields_bind.mp h
  obtain ⟨lowToken, mid', -, hlow⟩ := yields_bind.mp hbounds
  obtain ⟨highToken, mid'', -, hhigh⟩ := yields_bind.mp hlow
  obtain ⟨rfl, -⟩ := yields_pure.mp hhigh
  simp [String.append_eq_empty_iff]

end Fragment

mutual

/-- No single test without text and no group without parts, at any depth. -/
def Part.Solid : Part → Prop
  | .single text => text ≠ ""
  | .group parts => parts ≠ [] ∧ Part.AllSolid parts

def Part.AllSolid : List (Logic × Part) → Prop
  | [] => True
  | (_, part) :: rest => part.Solid ∧ Part.AllSolid rest

end

mutual

theorem Part.Solid.text_ne_empty {part : Part} (h : part.Solid) : part.text ≠ "" := by
  cases part with
  | single text =>
    rw [Part.Solid] at h
    exact h
  | group parts =>
    rw [Part.Solid] at h
    rw [Part.text, ne_eq, Fragment.parenthesized_eq_empty_iff,
      Fragment.joinedTests_eq_empty_iff h.2.texts_ne_empty]
    cases parts with
    | nil => exact absurd rfl h.1
    | cons part rest => exact nofun

theorem Part.AllSolid.texts_ne_empty {parts : List (Logic × Part)} (h : Part.AllSolid parts) :
    ∀ text ∈ Part.texts parts, text.2 ≠ "" := by
  match parts with
  | [] =>
    intro text hmem
    cases hmem
  | (logic, part) :: rest =>
    intro text hmem
    rcases List.mem_cons.mp hmem with rfl | hmem
    · exact h.1.text_ne_empty
    · exact h.2.texts_ne_empty text hmem

end

theorem Part.AllSolid.joinedTests_eq_empty_iff {parts : List (Logic × Part)}
    (h : Part.AllSolid parts) :
    Fragment.joinedTests (Part.texts parts) = "" ↔ parts = [] := by
  rw [Fragment.joinedTests_eq_empty_iff h.texts_ne_empty]
  cases parts <;> simp [Part.texts]

/-- A test for which nothing is written: one in a sub-statement without text, or a group of nothing
but such tests. -/
inductive Test.Void (config : Config) : Test → Prop where
  | query {path : String} {op : Operator} {s : Statement} {r r' : Registry}
    (h : Yields (statementText config s) r "" r') : Void config (.membership path op (.query s))
  | group {params : Fields Value} {members : List WhereClause} (hne : members ≠ [])
    (h : ∀ clause ∈ members, Void config clause.test) : Void config (.group params members)

mutual

/-- Conditions leave these parts, one for each but for the void ones. -/
inductive Leaves (config : Config) (schema? : Option Schema) :
    List WhereClause → Registry → List (Logic × Part) → Registry → Prop where
  | nil (r : Registry) : Leaves config schema? [] r [] r
  | part {logic : Logic} {test : Test} {rest : List WhereClause} {part : Part}
    {parts : List (Logic × Part)} {r mid r' : Registry}
    (htest : LeavesPart config schema? test r part mid)
    (hrest : Leaves config schema? rest mid parts r') :
    Leaves config schema? (⟨logic, test⟩ :: rest) r ((logic, part) :: parts) r'
  | void {logic : Logic} {test : Test} {rest : List WhereClause} {parts : List (Logic × Part)}
    {r mid r' : Registry} (hvoid : test.Void config)
    (htest : Yields (testText config schema? test) r "" mid)
    (hrest : Leaves config schema? rest mid parts r') :
    Leaves config schema? (⟨logic, test⟩ :: rest) r parts r'

inductive LeavesPart (config : Config) (schema? : Option Schema) :
    Test → Registry → Part → Registry → Prop where
  | single {test : Test} {text : String} {r r' : Registry}
    (hsingle : ∀ params members, test ≠ .group params members)
    (h : Yields (testText config schema? test) r text r') (hne : text ≠ "") :
    LeavesPart config schema? test r (.single text) r'
  | group {params : Fields Value} {members : List WhereClause} {parts : List (Logic × Part)}
    {r r' : Registry} (h : Leaves config schema? members (r.merge params) parts r')
    (hne : parts ≠ []) : LeavesPart config schema? (.group params members) r (.group parts) r'

end

section Parts

variable {config : Config} {schema? : Option Schema}

theorem Leaves.void_of_nil {clauses : List WhereClause} {r r' : Registry}
    (h : Leaves config schema? clauses r [] r') : ∀ clause ∈ clauses, clause.test.Void config := by
  induction clauses generalizing r with
  | nil =>
    intro clause hmem
    cases hmem
  | cons first rest ih =>
    cases h with
    | void hvoid _ hrest =>
      intro clause hmem
      rcases List.mem_cons.mp hmem with rfl | hmem
      · exact hvoid
      · exact ih hrest clause hmem

mutual

theorem LeavesPart.solid {test : Test} {part : Part} {r r' : Registry}
    (h : LeavesPart config schema? test r part r') : part.Solid := by
  cases h with
  | single _ _ hne =>
    rw [Part.Solid]
    exact hne
  | group hparts hne =>
    rw [Part.Solid]
    exact ⟨hne, hparts.solid⟩

theorem Leaves.solid {clauses : List WhereClause} {parts : List (Logic × Part)}
    {r r' : Registry} (h : Leaves config schema? clauses r parts r') : Part.AllSolid parts := by
  cases h with
  | nil => trivial
  | part htest hrest => exact ⟨htest.solid, hrest.solid⟩
  | void _ _ hrest => exact hrest.solid

end

/-- What writing a test with members and raw text leaves: nothing if it is void, else a part. -/
def LeavesText (config : Config) (schema? : Option Schema) (test : Test) (r : Registry)
    (text : String) (r' : Registry) : Prop :=
  (text = "" ∧ test.Void config) ∨
    ∃ part, LeavesPart config schema? test r part r' ∧ part.text = text

theorem leavesText_of_single {test : Test} {text : String} {r r' : Registry}
    (hsingle : ∀ params members, test ≠ .group params members)
    (h : Yields (testText config schema? test) r text r') (hne : text ≠ "") :
    LeavesText config schema? test r text r' :=
  Or.inr ⟨.single text, .single hsingle h hne, rfl⟩

/-- Only a sub-statement without text leaves a test without text. -/
theorem leavesText_membership {path : String} {op : Operator} {operand : Term} {text : String}
    {r r' : Registry} (h : Yields (testText config schema? (.membership path op operand)) r text r') :
    LeavesText config schema? (.membership path op operand) r text r' := by
  cases operand with
  | value v =>
    exact leavesText_of_single nofun h (Fragment.membershipText_ne_empty h)
  | query s =>
    obtain ⟨sub, mid, hsub, htext⟩ := yields_bind.mp h
    split at htext
    · next hempty =>
      obtain ⟨rfl, rfl⟩ := yields_pure.mp htext
      rw [String.isEmpty_iff.mp hempty] at hsub
      exact Or.inl ⟨rfl, .query hsub⟩
    · obtain ⟨rfl, -⟩ := yields_pure.mp htext
      exact leavesText_of_single nofun h (Fragment.comparison_ne_empty _ _ _)

mutual

theorem leaves_of_yields (clauses : List WhereClause) {texts : List (Logic × String)}
    {r r' : Registry} (hmembers : ∀ clause ∈ clauses, clause.test.Throughout Test.HasMembers)
    (hraw : ∀ clause ∈ clauses, clause.test.Throughout (· ≠ .raw ""))
    (h : Yields (clauseTexts config schema? clauses) r texts r') :
    ∃ parts, Leaves config schema? clauses r parts r' ∧ Part.texts parts = texts := by
  match clauses with
  | [] =>
    obtain ⟨rfl, rfl⟩ := yields_pure.mp h
    exact ⟨[], .nil r, rfl⟩
  | ⟨logic, test⟩ :: rest =>
    obtain ⟨hfirst, hmembers⟩ := List.forall_mem_cons.mp hmembers
    obtain ⟨hfirstRaw, hraw⟩ := List.forall_mem_cons.mp hraw
    obtain ⟨text, mid, htest, hbind⟩ := yields_bind.mp h
    obtain ⟨later, last, hrest, hpure⟩ := yields_bind.mp hbind
    obtain ⟨htexts, rfl⟩ := yields_pure.mp hpure
    obtain ⟨parts, hparts, rfl⟩ := leaves_of_yields rest hmembers hraw hrest
    rcases leavesText_of_yields test hfirst hfirstRaw htest with ⟨rfl, hvoid⟩ | ⟨part, hpart, rfl⟩
    · exact ⟨parts, .void hvoid htest hparts, htexts⟩
    · refine ⟨(logic, part) :: parts, .part hpart hparts, ?_⟩
      rw [if_neg (by simpa using hpart.solid.text_ne_empty)] at htexts
      exact htexts

theorem leavesText_of_yields (test : Test) {text : String} {r r' : Registry}
    (hmembers : test.Throughout Test.HasMembers) (hraw : test.Throughout (· ≠ .raw ""))
    (h : Yields (testText config schema? test) r text r') :
    LeavesText config schema? test r text r' := by
  cases test with
  | compare path op v => exact leavesText_of_single nofun h (Fragment.compareText_ne_empty h)
  | null path op =>
    obtain ⟨rfl, -⟩ := yields_pure.mp h
    exact leavesText_of_single nofun h (Fragment.comparison_ne_empty _ _ _)
  | membership path op operand => exact leavesText_membership h
  | range path low high => exact leavesText_of_single nofun h (Fragment.rangeText_ne_empty h)
  | group params members =>
    obtain ⟨_, mid, hmerge, hbind⟩ := yields_bind.mp h
    obtain rfl := yields_mergeParams.mp hmerge
    obtain ⟨texts, last, htexts, hpure⟩ := yields_bind.mp hbind
    obtain ⟨rfl, rfl⟩ := yields_pure.mp hpure
    obtain ⟨parts, hparts, rfl⟩ := leaves_of_yields members hmembers.members hraw.members htexts
    by_cases hnil : parts = []
    · subst hnil
      have hne : members ≠ [] := by
        rintro rfl
        exact hmembers.self params rfl
      exact Or.inl ⟨rfl, .group hne hparts.void_of_nil⟩
    · exact Or.inr ⟨.group parts, .group hparts hnil, rfl⟩
  | raw sql =>
    obtain ⟨rfl, -⟩ := yields_pure.mp h
    refine leavesText_of_single nofun h ?_
    rintro rfl
    exact hraw.self rfl

end

end Parts

end DocMapper
