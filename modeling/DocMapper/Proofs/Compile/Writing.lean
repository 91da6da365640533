import DocMapper.Proofs.Compile.Literals
import DocMapper.Proofs.Compile.Run
import Mathlib.Data.List.TakeWhile
/-!
# Placeholders in the order of their binding

A piece of text is written together with the placeholders in it: the names that are bound while it
is written are the names that can be read in it, from left to right. A piece that comes out empty
has therefore bound nothing, and can be left out.
-/

namespace DocMapper

open Compile Inline Success

namespace Registry

/-- Between two registries these names are bound, one after the other, and nothing is merged that
holds a parameter. -/
inductive Binds (r : Registry) : List String → Registry → Prop where
  | refl : Binds r [] r
  | merge {names : List String} {mid : Registry} (h : Binds r names mid) :
    Binds r names (mid.merge [])
  | bind {names : List String} {mid : Registry} (h : Binds r names mid) (v : Value) :
    Binds r (names ++ [nameOf mid.stem mid.nextIndex]) (mid.bind v).2

variable {r mid r' : Registry} {names more : List String}

theorem Binds.trans (h : r.Binds names mid) (h' : mid.Binds more r') :
    r.Binds (names ++ more) r' := by
  induction h' with
  | refl => rwa [List.append_nil]
  | merge _ ih => exact ih.merge
  | bind _ v ih =>
    rw [← List.append_assoc]
    exact ih.bind v

theorem Binds.stem_eq (h : r.Binds names r') : r'.stem = r.stem := by
  induction h with
  | refl => rfl
  | merge _ ih => exact ih
  | bind _ v ih => exact ih

end Registry

namespace Inline

theorem isNameChar_of_isDigit {c : Char} (h : c.isDigit = true) : Text.isNameChar c = true := by
  have hdigit : Text.isAsciiDigit c = true := h
  rw [Text.isNameChar, hdigit, Bool.or_true, Bool.true_or]

theorem all_isNameChar_of_isName {cs : List Char} (h : Config.isName cs = true) :
    ∀ c ∈ cs, Text.isNameChar c = true := by
  cases cs with
  | nil => exact nofun
  | cons first rest =>
    obtain ⟨hletter, hrest⟩ := Bool.and_eq_true_iff.mp h
    refine List.forall_mem_cons.mpr ⟨?_, List.all_eq_true.mp hrest⟩
    rw [Text.isNameChar, hletter, Bool.true_or, Bool.true_or]

theorem isName_append {cs more : List Char} (h : Config.isName cs = true)
    (hmore : ∀ c ∈ more, Text.isNameChar c = true) : Config.isName (cs ++ more) = true := by
  cases cs with
  | nil => cases h
  | cons first rest =>
    obtain ⟨hletter, hrest⟩ := Bool.and_eq_true_iff.mp h
    rw [List.cons_append, Config.isName, hletter, List.all_append, hrest, Bool.true_and,
      Bool.true_and, List.all_eq_true]
    exact hmore

theorem nameAt_of_isName {cs : List Char} (h : Config.isName cs = true) : nameAt cs = cs := by
  cases cs with
  | nil => rfl
  | cons first rest =>
    obtain ⟨hletter, hrest⟩ := Bool.and_eq_true_iff.mp h
    rw [nameAt, if_pos hletter, List.takeWhile_eq_self_iff.mpr (List.all_eq_true.mp hrest)]

theorem placeholders_of_isName {name : String} (h : Config.isName name.toList = true) :
    placeholders (":" ++ name) = [name] := by
  have hne : name.toList ≠ [] := by
    intro hnil
    rw [hnil] at h
    cases h
  have hcolon : ':' ∉ name.toList := fun hmem =>
    absurd (all_isNameChar_of_isName h _ hmem) (by decide)
  have hchars : (":" ++ name).toList = ':' :: name.toList := by
    rw [String.toList_append]
    rfl
  rw [placeholders, hchars, namesIn, nameAt_of_isName h, if_pos ⟨rfl, hne⟩,
    namesIn_of_not_mem hcolon, String.ofList_toList]

theorem isName_nameOf {stem : String} (hstem : Config.isName stem.toList = true) (index : Nat) :
    Config.isName (Registry.nameOf stem index).toList = true := by
  rw [Registry.nameOf, String.toList_append, Nat.toList_repr]
  exact isName_append hstem fun c hc => isNameChar_of_isDigit (isDigit_of_mem_toDigits hc)

/-- A generated name is read as a whole. -/
theorem placeholders_nameOf {stem : String} (hstem : Config.isName stem.toList = true)
    (index : Nat) :
    placeholders (":" ++ Registry.nameOf stem index) = [Registry.nameOf stem index] :=
  placeholders_of_isName (isName_nameOf hstem index)

end Inline

/-! ### Computations that bind what they show -/

namespace Compile

variable {α β γ : Type}

/-- What is shown of a result is what was bound for it. -/
def Writes (m : Compile α) (shown : α → List String) : Prop :=
  ∀ ⦃r : Registry⦄ ⦃a : α⦄ ⦃r' : Registry⦄, Config.isName r.stem.toList = true →
    Yields m r a r' → r.Binds (shown a) r'

variable {m : Compile α} {f : α → Compile β} {seen : α → List String} {shown : β → List String}

theorem writes_pure {b : β} (h : shown b = []) : Writes (pure b) shown := by
  intro r b' r' _ hyields
  obtain ⟨rfl, rfl⟩ := yields_pure.mp hyields
  rw [h]
  exact .refl

theorem writes_fail (e : Error) : Writes (fail e) shown :=
  fun _ _ _ _ h => absurd h not_yields_fail

/-- Nothing is bound, and nothing can be read in the result. -/
theorem Writes.silent (hm : Writes m fun _ => [])
    (h : ∀ ⦃r : Registry⦄ ⦃a : α⦄ ⦃r' : Registry⦄, Yields m r a r' → seen a = []) :
    Writes m seen := by
  intro r a r' hstem hyields
  rw [h hyields]
  exact hm hstem hyields

/-- Nothing is shown of the first step. -/
theorem Writes.then (hm : Writes m fun _ => [])
    (hf : ∀ ⦃r : Registry⦄ ⦃a : α⦄ ⦃r' : Registry⦄, Yields m r a r' → Writes (f a) shown) :
    Writes (m >>= f) shown := by
  intro r b r' hstem h
  obtain ⟨a, mid, hfirst, hsecond⟩ := yields_bind.mp h
  have hbinds := hm hstem hfirst
  exact hbinds.trans (hf hfirst (hbinds.stem_eq ▸ hstem) hsecond)

/-- The last step puts into a text what was written. -/
theorem Writes.map (hm : Writes m seen)
    (hf : ∀ ⦃r : Registry⦄ ⦃a : α⦄ ⦃r' : Registry⦄, Yields m r a r' →
      ∃ b, f a = pure b ∧ shown b = seen a) : Writes (m >>= f) shown := by
  intro r b r' hstem h
  obtain ⟨a, mid, hfirst, hsecond⟩ := yields_bind.mp h
  obtain ⟨c, hc, hshown⟩ := hf hfirst
  rw [hc] at hsecond
  obtain ⟨rfl, rfl⟩ := yields_pure.mp hsecond
  rw [hshown]
  exact hm hstem hfirst

/-- Two pieces are written one after the other and put together. -/
theorem Writes.map₂ {m' : Compile γ} {seen' : γ → List String} {f : α → γ → Compile β}
    (hm : Writes m seen) (hm' : Writes m' seen')
    (hf : ∀ a c, ∃ b, f a c = pure b ∧ shown b = seen a ++ seen' c) :
    Writes (m >>= fun a => m' >>= f a) shown := by
  intro r b r' hstem h
  obtain ⟨a, mid, hfirst, hrest⟩ := yields_bind.mp h
  obtain ⟨c, last, hsecond, hpure⟩ := yields_bind.mp hrest
  obtain ⟨d, hd, hshown⟩ := hf a c
  rw [hd] at hpure
  obtain ⟨rfl, rfl⟩ := yields_pure.mp hpure
  rw [hshown]
  have hbinds := hm hstem hfirst
  exact hbinds.trans (hm' (hbinds.stem_eq ▸ hstem) hsecond)

theorem writes_mapM {f : α → Compile β} {items : List α} (h : ∀ a ∈ items, Writes (f a) shown) :
    Writes (items.mapM f) (·.flatMap shown) := by
  induction items with
  | nil => exact writes_pure rfl
  | cons a rest ih =>
    obtain ⟨hfirst, hrest⟩ := List.forall_mem_cons.mp h
    rw [List.mapM_cons]
    exact hfirst.map₂ (ih hrest) fun b bs => ⟨_, rfl, rfl⟩

theorem writes_bindValue (v : Value) : Writes (Compile.bind v) placeholders := by
  intro r token r' hstem h
  have hbind := yields_bindValue.mp h
  have htoken : ":" ++ Registry.nameOf r.stem r.nextIndex = token := congrArg Prod.fst hbind
  have hregistry : (r.bind v).2 = r' := congrArg Prod.snd hbind
  rw [← htoken, ← hregistry, placeholders_nameOf hstem]
  exact Registry.Binds.refl.bind v

theorem writes_bindAll (values : List Value) :
    Writes (bindAll values) (·.flatMap placeholders) := by
  induction values with
  | nil => exact writes_pure rfl
  | cons v rest ih => exact (writes_bindValue v).map₂ ih fun token tokens => ⟨_, rfl, rfl⟩

theorem writes_mergeParams {params : Fields Value} (h : params = []) :
    Writes (mergeParams params) fun _ => [] := by
  intro r _ r' _ hyields
  rw [← yields_mergeParams.mp hyields, h]
  exact .merge .refl

theorem writes_fill (text : String) : Writes (fill text) fun _ => [] := by
  intro r _ r' _ hyields
  obtain ⟨-, rfl⟩ := yields_fill.mp hyields
  exact .refl

theorem quiet_of_fill {text filled : String} (h : Quiet text) {r r' : Registry}
    (hyields : Yields (fill text) r filled r') : Quiet filled := by
  obtain ⟨rfl, -⟩ := yields_fill.mp hyields
  rwa [fill_of_quiet h]

theorem writes_liftCast (result : Except CastError α) :
    Writes (liftCast result) fun _ => [] := by
  intro r _ r' _ hyields
  obtain ⟨-, rfl⟩ := yields_liftCast.mp hyields
  exact .refl

end Compile

/-! ### Pieces of text -/

namespace Fragment

theorem placeholders_comparison {path operator : String} (hpath : Quiet path)
    (hoperator : Quiet operator) (operand : String) :
    placeholders (comparison path operator operand) = placeholders operand := by
  have hleft : placeholders (path ++ " " ++ operator) = [] := by
    rw [parts_blank, quiet_iff.mp hpath, quiet_iff.mp hoperator]
    rfl
  calc
    placeholders (comparison path operator operand) =
        placeholders (path ++ " " ++ operator) ++ placeholders operand := parts_blank _ _
    _ = placeholders operand := by rw [hleft, List.nil_append]

theorem placeholders_assignment {path : String} (hpath : Quiet path) (operand : String) :
    placeholders (assignment path operand) = placeholders operand := by
  rw [assignment, parts_equals, quiet_iff.mp hpath]
  rfl

theorem placeholders_commaList (items : List String) :
    placeholders (commaList items) = items.flatMap placeholders :=
  parts_comma.intercalate items

theorem placeholders_bracketed (items : List String) :
    placeholders (bracketed items) = items.flatMap placeholders := by
  have hclosing : Parts "]" := parts_of_closed (by decide) (by decide)
  have hopening : Closed "[" := by decide
  rw [bracketed, hclosing.after, hopening.before, placeholders_commaList]

theorem placeholders_parenthesized (text : String) :
    placeholders (parenthesized text) = placeholders text := by
  unfold parenthesized
  split
  · next hempty => rw [String.isEmpty_iff.mp hempty]
  · have hclosing : Parts ")" := parts_of_closed (by decide) (by decide)
    have hopening : Closed "(" := by decide
    rw [hclosing.after, hopening.before]

theorem placeholders_keyword {keyword : String} (hkeyword : Quiet keyword) (text : String) :
    placeholders (keyword ++ " " ++ text) = placeholders text := by
  rw [parts_blank, quiet_iff.mp hkeyword]
  rfl

theorem placeholders_listClause {keyword : String} (hkeyword : Quiet keyword)
    (items : List String) :
    placeholders (listClause keyword items) = items.flatMap placeholders := by
  unfold listClause
  split
  · next hempty =>
    rw [List.isEmpty_iff.mp hempty]
    rfl
  · rw [placeholders_keyword hkeyword, placeholders_commaList]

theorem quiet_logic (logic : Logic) : Quiet logic.sql := by
  cases logic <;> decide

theorem quiet_operator (op : Operator) : Quiet op.sql := by
  cases op <;> decide

theorem placeholders_joinedTests (parts : List (Logic × String)) :
    placeholders (joinedTests parts) = parts.flatMap fun part => placeholders part.2 := by
  cases parts with
  | nil => rfl
  | cons first rest =>
    have hrest : ∀ part : Logic × String,
        placeholders (part.1.sql ++ " " ++ part.2) = placeholders part.2 := fun part =>
      placeholders_keyword (quiet_logic part.1) part.2
    rw [joinedTests, parts_blank.intercalate, List.flatMap_cons, List.flatMap_map,
      List.flatMap_cons]
    simp only [hrest]

end Fragment

end DocMapper
