import DocMapper.Proofs.Compile.Follows
import DocMapper.Proofs.Fields
import DocMapper.Query.Root
import Mathlib
/-!
# Placeholders and the values they stand for

A value is bound to a name that is free at that moment, and no later binding takes that name. A
later merge may: what a caller brings along for a sub-statement, a group or a finished fragment is
merged when its turn comes, after names were generated. So a placeholder keeps its value exactly if
the maps merged after it leave its name alone or bring the same value.
-/

namespace DocMapper

namespace Registry

/-! ### Generated names are free -/

theorem nameOf_injective (stem : String) : Function.Injective (nameOf stem) := by
  intro a b h
  exact Nat.repr_injective ((String.append_right_inj stem).mp h)

/-- If the search ends on a taken name, it has met nothing but taken names. -/
theorem has_nameOf_of_has_firstFree {stem : String} {params : Fields Value} {fuel index : Nat}
    (h : Fields.has params (nameOf stem (firstFree stem params fuel index)) = true) :
    ∀ k ≤ fuel, Fields.has params (nameOf stem (index + k)) = true := by
  induction fuel generalizing index with
  | zero =>
    intro k hk
    obtain rfl : k = 0 := by omega
    exact h
  | succ fuel ih =>
    rw [firstFree] at h
    split at h
    · next htaken =>
      intro k hk
      cases k with
      | zero => exact htaken
      | succ k =>
        have hrest := ih h k (by omega)
        rwa [show index + 1 + k = index + (k + 1) by omega] at hrest
    · next hfree => exact absurd h hfree

/-- There are fewer parameters than names tried, so one of the names is free. -/
theorem has_nextIndex (r : Registry) : Fields.has r.params (nameOf r.stem r.nextIndex) = false := by
  by_contra hne
  have htaken : Fields.has r.params (nameOf r.stem r.nextIndex) = true := by simpa using hne
  have hall := has_nameOf_of_has_firstFree htaken
  set start := r.next?.getD r.params.length
  set tried := (List.range (r.params.length + 1)).map fun k => nameOf r.stem (start + k)
    with htried
  have hnodup : tried.Nodup := by
    refine List.nodup_range.map fun a b hab => ?_
    have := nameOf_injective r.stem hab
    omega
  have hsubset : tried ⊆ Fields.names r.params := by
    intro name hmem
    rw [htried] at hmem
    obtain ⟨k, hk, rfl⟩ := List.mem_map.mp hmem
    obtain ⟨v, hv⟩ := Fields.has_eq_true_iff.mp (hall k (by simpa [Nat.lt_succ_iff] using hk))
    exact List.mem_map.mpr ⟨_, Fields.mem_names_of_get? hv, rfl⟩
  have hlength := (List.subperm_of_subset hnodup hsubset).length_le
  simp [htried, Fields.names] at hlength

theorem get?_nextIndex (r : Registry) :
    Fields.get? r.params (nameOf r.stem r.nextIndex) = none := by
  simpa [Fields.has] using r.has_nextIndex

/-! ### What becomes of a bound value -/

/-- The value last supplied for a name by the maps merged in a history. -/
def supplied? (history : List Event) (name : String) : Option Value :=
  history.foldl
    (fun found event =>
      match event with
      | .merged params => (Fields.get? (Fields.ofList params) name).or found
      | .bound _ _ => found)
    none

@[simp]
theorem supplied?_nil (name : String) : supplied? [] name = none := rfl

@[simp]
theorem supplied?_append_merged (history : List Event) (params : Fields Value) (name : String) :
    supplied? (history ++ [.merged params]) name =
      (Fields.get? (Fields.ofList params) name).or (supplied? history name) := by
  simp [supplied?, List.foldl_append]

@[simp]
theorem supplied?_append_bound (history : List Event) (other : String) (v : Value)
    (name : String) : supplied? (history ++ [.bound other v]) name = supplied? history name := by
  simp [supplied?, List.foldl_append]

/-- Every bound name holds the value last supplied for it since, or else the bound one. -/
def Recorded (r : Registry) : Prop :=
  ∀ before name v after, r.history = before ++ .bound name v :: after →
    Fields.get? r.params name = some ((supplied? after name).getD v)

theorem recorded_ofStem (stem : String) : Recorded (ofStem stem) := by
  intro before name v after h
  simp [ofStem] at h

theorem Recorded.merge {r : Registry} (h : r.Recorded) (params : Fields Value) :
    (r.merge params).Recorded := by
  intro before name v after hsplit
  rcases List.eq_nil_or_concat after with rfl | ⟨earlier, event, rfl⟩
  · have := List.append_inj_right' hsplit rfl
    cases this
  · rw [List.concat_eq_append, ← List.cons_append, ← List.append_assoc] at hsplit
    obtain ⟨hhistory, hevent⟩ := List.append_inj' hsplit rfl
    cases hevent
    have hold := h before name v earlier hhistory
    simp only [Registry.merge, Fields.get?_merge, hold, List.concat_eq_append,
      supplied?_append_merged]
    cases Fields.get? (Fields.ofList params) name <;> simp

theorem Recorded.bind {r : Registry} (h : r.Recorded) (w : Value) : (r.bind w).2.Recorded := by
  intro before name v after hsplit
  rcases List.eq_nil_or_concat after with rfl | ⟨earlier, event, rfl⟩
  · have hlast := List.append_inj_right' hsplit rfl
    cases hlast
    simp [Registry.bind]
  · rw [List.concat_eq_append, ← List.cons_append, ← List.append_assoc] at hsplit
    obtain ⟨hhistory, hevent⟩ := List.append_inj' hsplit rfl
    cases hevent
    have hold := h before name v earlier hhistory
    -- the new name was free, and this one was not
    have hne : name ≠ nameOf r.stem r.nextIndex := by
      rintro rfl
      rw [r.get?_nextIndex] at hold
      cases hold
    rw [List.concat_eq_append, supplied?_append_bound, ← hold]
    exact Fields.get?_put_of_ne r.params w hne

theorem Steps.recorded {r r' : Registry} (h : r.Steps r') (hr : r.Recorded) : r'.Recorded := by
  induction h with
  | refl => exact hr
  | merge _ params ih => exact ih.merge params
  | bind _ v ih => exact ih.bind v

end Registry

namespace Statement

/-- All that happens to the parameters while a statement is compiled. -/
def paramHistory (config : Config) (params : Fields Value) (s : Statement) : List Registry.Event :=
  match (statementText config s).run ((Registry.ofStem config.stem).merge params) with
  | .ok (_, registry) => registry.history
  | .error _ => []

/-- A placeholder stands for the value bound to it exactly if the maps merged later supply no other
value for its name. -/
theorem placeholder_kept_iff {config : Config} {params : Fields Value} {s : Statement} {sql : Sql}
    (h : s.compileWith config params = .ok sql) {before after : List Registry.Event}
    {name : String} {v : Value}
    (hbound : s.paramHistory config params = before ++ .bound name v :: after) :
    Fields.get? sql.params name = some v ↔
      ∀ w, Registry.supplied? after name = some w → w = v := by
  obtain ⟨registry, hrun, hparams⟩ := compileWith_eq_ok h
  have hhistory : s.paramHistory config params = registry.history := by
    rw [paramHistory, hrun]
  have hsteps := follows_statementText config s hrun
  have hrecorded := hsteps.recorded ((Registry.recorded_ofStem config.stem).merge params)
  have hvalue := hrecorded before name v after (hhistory ▸ hbound)
  rw [hparams, hvalue]
  cases Registry.supplied? after name with
  | none => simp
  | some w => simp

/-- The parameter of a sub-statement has the name of the placeholder of an earlier condition. -/
def overwriting : Statement :=
  ((select.setSource (.target "User")).andWhere (.ofComparison "age" "$eq" (.int 30))).whereSubquery
    "@rid" "$in" fun q =>
      q.start (((selectOf []).setSource (.target "Follows")).setParam "qp0" (.string "stolen"))

def overwritten : Sql :=
  ⟨"SELECT * FROM User WHERE age = :qp0 AND @rid IN (SELECT * FROM Follows)",
    [("qp0", .string "stolen")], .empty⟩

theorem compileWith_overwriting :
    overwriting.compileWith Config.default [] = .ok overwritten := by
  rfl

theorem paramHistory_overwriting :
    overwriting.paramHistory Config.default [] =
      [.merged [], .merged []] ++
        .bound "qp0" (.int 30) :: [.merged [("qp0", .string "stolen")]] := by
  rfl

/-- The placeholder was bound to another value than the one that it stands for in the end. -/
theorem placeholder_overwritten :
    overwriting.compileWith Config.default [] = .ok overwritten ∧
      (∃ before after,
        overwriting.paramHistory Config.default [] = before ++ .bound "qp0" (.int 30) :: after) ∧
      Fields.get? overwritten.params "qp0" = some (.string "stolen") :=
  ⟨compileWith_overwriting,
    ⟨[.merged [], .merged []], [.merged [("qp0", .string "stolen")]], paramHistory_overwriting⟩, rfl⟩

theorem placeholder_kept_iff_overwriting :
    Fields.get? overwritten.params "qp0" = some (.int 30) ↔
      ∀ w, Registry.supplied? [.merged [("qp0", .string "stolen")]] "qp0" = some w → w = .int 30 :=
  placeholder_kept_iff compileWith_overwriting paramHistory_overwriting

end Statement

end DocMapper
